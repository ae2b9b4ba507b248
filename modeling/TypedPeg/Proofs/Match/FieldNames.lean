import TypedPeg.Proofs.Assembly.Growth
import TypedPeg.Proofs.Match.Yields

/-! Fields by their names. An element of a sequence is named by its tag or else by its position, and a tag may be the name
of a position. A field is found under its name unless an earlier one has the same. -/
namespace TypedPeg

namespace Value

variable {names : List String} {fields : List Value} {wanted : String} {i : Nat} {u : Value}

theorem fieldAt_first (named : names[i]? = some wanted) (filled : fields[i]? = some u) (first : ∀ j < i, names[j]? ≠ some wanted) :
    fieldAt names fields wanted = .ok u := by
  induction names generalizing fields i with
  | nil => cases named
  | cons name names ih =>
    cases fields with
    | nil => cases filled
    | cons v fields =>
      rw [fieldAt]
      cases i with
      | zero =>
        cases named
        cases filled
        exact if_pos rfl
      | succ i =>
        have other : name ≠ wanted := fun same => first 0 (Nat.succ_pos i) (congrArg some same)
        rw [if_neg other]
        exact ih named filled fun j before => first (j + 1) (Nat.succ_lt_succ before)

end Value

namespace Expr

def tag? : Expr → Option String
  | .tag _ name => some name
  | _ => none

def tags (e : Expr) : List (Option String) := (e.elements .seq).map tag?

def positional (i : Nat) : String := "field" ++ toString i

theorem positional_inj {i j : Nat} (same : positional i = positional j) : i = j := by
  have digits : Nat.toDigits 10 i = Nat.toDigits 10 j := by
    have chars := congrArg String.toList same
    simpa [positional] using chars
  rw [← Nat.ofDigitChars_ten_toDigits (n := i),digits,Nat.ofDigitChars_ten_toDigits]

theorem fieldName_eq (i : Nat) (x : Expr) : x.fieldName i = x.tag?.getD (positional i) := by cases x <;> rfl

theorem getElem?_fieldNames (e : Expr) (i : Nat) : e.fieldNames[i]? = e.tags[i]?.map fun tag => tag.getD (positional i) := by
  rw [fieldNames,tags,List.getElem?_mapIdx,List.getElem?_map,Option.map_map]
  exact congrArg (Option.map · _) (funext fun x => fieldName_eq i x)

def TagsApart (e : Expr) : Prop := (e.tags.filterMap id).Nodup

instance (e : Expr) : Decidable e.TagsApart := inferInstanceAs (Decidable (e.tags.filterMap id).Nodup)

variable {e : Expr} {i j : Nat} {tag : String}

theorem TagsApart.ne_of_lt (apart : e.TagsApart) (before : j < i) (here : e.tags[i]? = some (some tag)) : e.tags[j]? ≠ some (some tag) := by
  intro there
  rw [TagsApart,List.Nodup,List.pairwise_filterMap,List.pairwise_iff_getElem] at apart
  obtain ⟨bound,here⟩ := List.getElem?_eq_some_iff.1 here
  obtain ⟨bound',there⟩ := List.getElem?_eq_some_iff.1 there
  exact apart j i bound' bound before tag there tag here rfl

/-- A tagged element is the first of its name unless an earlier one without a tag is named so by its position. -/
theorem TagsApart.tag_first (apart : e.TagsApart) (here : e.tags[i]? = some (some tag))
    (free : ∀ j < i, e.tags[j]? = some none → tag ≠ positional j) : ∀ j < i, e.fieldNames[j]? ≠ some tag := by
  intro j before named
  rw [getElem?_fieldNames] at named
  obtain ⟨tag',there,same⟩ := Option.map_eq_some_iff.1 named
  cases tag' with
  | none => exact free j before there same.symm
  | some tag' =>
    cases (same : tag' = tag)
    exact apart.ne_of_lt before here there

/-- An element without a tag is the first of its name unless that is the tag of an earlier one. -/
theorem position_first (free : ∀ j < i, e.tags[j]? ≠ some (some (positional i))) : ∀ j < i, e.fieldNames[j]? ≠ some (positional i) := by
  intro j before named
  rw [getElem?_fieldNames] at named
  obtain ⟨tag,there,same⟩ := Option.map_eq_some_iff.1 named
  cases tag with
  | none => exact Nat.ne_of_lt before (positional_inj same)
  | some tag =>
    cases (same : tag = positional i)
    exact free j before there

def sequenceNode (e : Expr) (name : String) (skip : Bool) : Node :=
  ⟨name,e.render,.product (e.elementNames .seq name) e.fieldNames skip⟩

end Expr

namespace NodeTable

variable {table t : NodeTable} {source : Source} {skip atomic first : Bool} {name : String} {names : List String} {c d : Cursor}
  {v : Value}

theorem get?_addExpr_seq (fresh : t.get? name = none) (lhs rhs : Expr) :
    (t.addExpr (.seq lhs rhs) name skip).value.get? name = some ((Expr.seq lhs rhs).sequenceNode name skip) := by
  have member : (Expr.seq lhs rhs).sequenceNode name skip ∈ (Expr.seq lhs rhs).lower skip (.own name) := by
    rw [Expr.lower_seq]
    exact List.mem_append_right _ (List.mem_singleton_self _)
  have found := get?_insertAll (t := t) (Expr.lower_tidy skip (.seq lhs rhs) name).nodup member
  have stored : t.stored ((Expr.seq lhs rhs).sequenceNode name skip) = (Expr.seq lhs rhs).sequenceNode name skip := by
    rw [Table.stored,Node.definition_name]
    exact congrArg (Option.getD · _) fresh
  rwa [stored] at found

theorem Elements.length_eq {o : Outcome (Cursor × List Value)} (elements : table.Elements source skip atomic first names c o)
    {vs : List Value} (matched : o = .matched (d,vs)) : vs.length = names.length := by
  induction elements generalizing vs with
  | nil =>
    cases matched
    rfl
  | lost gap one => cases matched
  | @cons first name names c d' e v o gap one rest ih =>
    cases o with
    | matched x =>
      cases matched
      rw [List.length_cons,List.length_cons,ih rfl]
    | failed f => cases matched
    | halted h => cases matched

theorem Yields.sequence {e : Expr} (yields : table.Yields source atomic name c (.matched (d,v)))
    (found : table.get? name = some (e.sequenceNode name skip)) :
    ∃ vs, v = .product name (c.spanTo d) vs e.fieldNames ∧
      table.Elements source skip atomic true (e.elementNames .seq name) c (.matched (d,vs)) := by
  obtain ⟨o,elements,same⟩ := yields.product found rfl
  cases o with
  | matched x =>
    cases same
    exact ⟨x.2,rfl,elements⟩
  | failed f => cases same
  | halted h => cases same

/-- A sequence is compiled to a node that yields a product of what its elements yield one after the other. If no two of
them have the same tag, what one yields is found under its tag, unless an earlier element without a tag is named so by its
position; or else under its position, unless that is the tag of an earlier element. -/
theorem fields_by_name (lhs rhs : Expr) (name : String) (skip : Bool) :
    let e := Expr.seq lhs rhs
    (∀ t : NodeTable, t.get? name = none → (t.addExpr e name skip).value.get? name = some (e.sequenceNode name skip)) ∧
    ∀ (table : NodeTable) (source : Source) (atomic : Bool) (c d : Cursor) (v : Value),
      table.get? name = some (e.sequenceNode name skip) → e.TagsApart → table.Yields source atomic name c (.matched (d,v)) →
      ∃ vs, v = .product name (c.spanTo d) vs e.fieldNames ∧
        table.Elements source skip atomic true (e.elementNames .seq name) c (.matched (d,vs)) ∧
        vs.length = (e.elements .seq).length ∧ ∀ i u, vs[i]? = some u →
          (∀ tag, e.tags[i]? = some (some tag) → (∀ j < i, e.tags[j]? = some none → tag ≠ Expr.positional j) → v.field tag = .ok u) ∧
          (e.tags[i]? = some none → (∀ j < i, e.tags[j]? ≠ some (some (Expr.positional i))) → v.field (Expr.positional i) = .ok u) := by
  intro e
  refine ⟨fun t fresh => get?_addExpr_seq fresh lhs rhs,fun table source atomic c d v found apart yields => ?_⟩
  obtain ⟨vs,rfl,elements⟩ := yields.sequence found
  refine ⟨vs,rfl,elements,?_,fun i u filled => ⟨fun tag here free => ?_,fun here free => ?_⟩⟩
  · rw [elements.length_eq rfl,Expr.elementNames,List.length_mapIdx]
  · have named : e.fieldNames[i]? = some tag := by
      rw [Expr.getElem?_fieldNames,here]
      rfl
    exact Value.fieldAt_first named filled (apart.tag_first here free)
  · have named : e.fieldNames[i]? = some (Expr.positional i) := by
      rw [Expr.getElem?_fieldNames,here]
      rfl
    exact Value.fieldAt_first named filled (Expr.position_first free)

theorem tags_found :
    let e := Expr.seq (.tag (.literal "a") "x") (.seq (.literal "b") (.tag (.literal "c") "field2"))
    let table := (addExpr .empty e "r" false).value
    let v := Value.product "r" ⟨0,3⟩ [.leaf "r_0" ⟨0,1⟩ (some "a"),.leaf "r_1" ⟨1,2⟩ (some "b"),.leaf "r_2" ⟨2,3⟩ (some "c")]
      ["x","field1","field2"]
    (Table.empty : NodeTable).get? "r" = none ∧ table.get? "r" = some (e.sequenceNode "r" false) ∧ e.TagsApart ∧
      table.Yields (.ofString "abc") false "r" .start (.matched (⟨3,[]⟩,v)) ∧
      v.field "x" = .ok (.leaf "r_0" ⟨0,1⟩ (some "a")) ∧ v.field "field1" = .ok (.leaf "r_1" ⟨1,2⟩ (some "b")) ∧
      v.field "field2" = .ok (.leaf "r_2" ⟨2,3⟩ (some "c")) := by
  intro e table v
  obtain ⟨compiled,named⟩ := fields_by_name (.tag (.literal "a") "x") (.seq (.literal "b") (.tag (.literal "c") "field2")) "r" false
  have fresh : (Table.empty : NodeTable).get? "r" = none := rfl
  have found : table.get? "r" = some (e.sequenceNode "r" false) := compiled .empty fresh
  have apart : e.TagsApart := by decide
  have yields : table.Yields (.ofString "abc") false "r" .start (.matched (⟨3,[]⟩,v)) := by
    refine ⟨Outcome.ended_matched,9,[],.new false,?_⟩
    rw [← callsIf_true]
    decide +kernel
  obtain ⟨vs,same,-,-,fields⟩ := named table _ _ _ _ _ found apart yields
  obtain ⟨-,-,filled,-⟩ := Value.product.inj same
  subst filled
  refine ⟨fresh,found,apart,yields,?_,?_,?_⟩
  · exact (fields 0 _ rfl).1 "x" rfl fun j before => (Nat.not_lt_zero j before).elim
  · exact (fields 1 _ rfl).2 rfl (by decide)
  · exact (fields 2 _ rfl).1 "field2" rfl (by decide)

/-- A tag that is the name of a later position takes its place. -/
theorem tag_shadows_position :
    let e := Expr.seq (.tag (.literal "a") "field1") (.literal "b")
    let table := (addExpr .empty e "r" false).value
    let v := Value.product "r" ⟨0,2⟩ [.leaf "r_0" ⟨0,1⟩ (some "a"),.leaf "r_1" ⟨1,2⟩ (some "b")] ["field1","field1"]
    table.get? "r" = some (e.sequenceNode "r" false) ∧ e.TagsApart ∧ e.tags[1]? = some none ∧
      table.Yields (.ofString "ab") false "r" .start (.matched (⟨2,[]⟩,v)) ∧
      v.field (Expr.positional 1) ≠ .ok (.leaf "r_1" ⟨1,2⟩ (some "b")) := by
  intro e table v
  have fresh : (Table.empty : NodeTable).get? "r" = none := rfl
  refine ⟨get?_addExpr_seq fresh _ _,by decide,rfl,⟨Outcome.ended_matched,9,[],.new false,?_⟩,?_⟩
  · rw [← callsIf_true]
    decide +kernel
  · have first : v.field (Expr.positional 1) = .ok (.leaf "r_0" ⟨0,1⟩ (some "a")) := rfl
    rw [first]
    exact fun same => nomatch Except.ok.inj same

end NodeTable

end TypedPeg
