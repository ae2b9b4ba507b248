import TypedPeg.Proofs.Grammar.Fields

/-! What is written of an expression or a rule is read as just that. A part is restored if it is read as itself where it
stands in a field; a whole is, if its parts are. -/
namespace TypedPeg

theorem Form.fields_nodup (form : Form) : (Draft.typeField :: form.fields).Nodup := by cases form <;> decide

namespace Draft

/-- A part that is read as itself where it stands in a field. -/
def Restored (part : Draft) : Prop := ofPart part.toDatum = .ok part

/-- Parts that are restored are found in what is written of them, behind other fields. -/
theorem get_named {fs : List String} {parts : List Draft} (before : Fields) (distinct : fs.Nodup) (filled : fs.length = parts.length)
    (restored : ∀ part ∈ parts, part.Restored) (fresh : ∀ field ∈ fs, before.lookup field = none) :
    List.Forall₂ (fun field part => Fields.get (before ++ named fs parts) field = .ok part) fs parts := by
  induction fs generalizing parts before with
  | nil =>
    rw [List.length_eq_zero_iff.1 filled.symm]
    exact .nil
  | cons field fs ih =>
    cases parts with
    | nil => cases filled
    | cons part parts =>
      obtain ⟨other,distinct⟩ := List.nodup_cons.1 distinct
      obtain ⟨here,fresh⟩ := List.forall_mem_cons.1 fresh
      obtain ⟨first,restored⟩ := List.forall_mem_cons.1 restored
      refine .cons ?_ ?_
      · rw [Fields.get,List.lookup_append,here,Option.none_or,named,List.lookup_cons_self]
        exact first
      · have rest := ih (before ++ [(field,part.toDatum)]) distinct (Nat.succ.inj filled) restored fun name member => by
          have different : name ≠ field := fun same => other (same ▸ member)
          rw [List.lookup_append,fresh name member,List.lookup_cons,beq_false_of_ne different]
          rfl
        rwa [List.append_assoc] at rest

theorem read_written {form : Form} {parts : List Draft} (filled : form.fields.length = parts.length)
    (restored : ∀ part ∈ parts, part.Restored) (bounded : checkBounds form parts = .ok ()) :
    read (Draft.expr form parts).toDatum = .ok (.expr form parts) := by
  obtain ⟨undeclared,distinct⟩ := List.nodup_cons.1 form.fields_nodup
  have known : Fields.type? ((typeField,.text form.name) :: named form.fields parts) = some (.expr form) := by
    have other : form.name ≠ ruleType := by cases form <;> decide
    rw [Fields.type?,List.lookup_cons_self]
    simp [other,Form.ofName?_name]
  have each : List.Forall₂ (fun field part => Fields.get ((typeField,.text form.name) :: named form.fields parts) field = .ok part)
      ((RecordType.contents (.expr form)).map Prod.fst) parts := by
    rw [RecordType.contents_fields]
    refine get_named [(typeField,.text form.name)] distinct filled restored fun field member => ?_
    have different : field ≠ typeField := fun same => undeclared (same ▸ member)
    rw [List.lookup_cons,beq_false_of_ne different]
    rfl
  exact (Fields.read_expr_iff known).2 ⟨parts,List.forall₂_map_left_iff.1 each,bounded,rfl⟩

theorem checkBounds_range {lo hi : String} :
    checkBounds .range [.plain (.text lo),.plain (.text hi)] = .ok () ↔ lo.length = 1 ∧ hi.length = 1 := by
  have opened : checkBounds .range [.plain (.text lo),.plain (.text hi)] =
      if lo.length = 1 then if hi.length = 1 then .ok () else .error .wideBounds else .error .wideBounds := by
    show (if lo.length = 1 then _ else _) = _
    split
    · show (if hi.length = 1 then _ else _) = _
      rfl
    · rfl
  rw [opened]
  split
  · split <;> simp [*]
  · simp [*]

theorem restored_plain {d : Datum} (simple : d.fields? = none) : (Draft.plain d).Restored := by
  cases d with
  | object fields => cases simple
  | null | bool | int | float | text | list => rfl

end Draft

theorem Expr.toDraft_restored (e : Expr) : e.toDraft.Restored := by
  have written {form : Form} {parts : List Draft} (filled : form.fields.length = parts.length)
      (restored : ∀ part ∈ parts, part.Restored) (bounded : Draft.checkBounds form parts = .ok ()) : (Draft.expr form parts).Restored :=
    Draft.read_written filled restored bounded
  have one {part : Draft} (restored : part.Restored) : ∀ other ∈ [part], other.Restored := List.forall_mem_singleton.2 restored
  have two {part part' : Draft} (restored : part.Restored) (restored' : part'.Restored) : ∀ other ∈ [part,part'], other.Restored :=
    List.forall_mem_cons.2 ⟨restored,one restored'⟩
  have plain {d : Datum} (simple : d.fields? = none) : (Draft.plain d).Restored := Draft.restored_plain simple
  induction e with
  | literal text | caseless text | ref name | drop count | skipUntil strings => exact written rfl (one (plain rfl)) rfl
  | range lo hi =>
    exact written rfl (two (plain rfl) (plain rfl)) (Draft.checkBounds_range.2 ⟨String.length_singleton,String.length_singleton⟩)
  | peek start stop => cases stop <;> exact written rfl (two (plain rfl) (plain rfl)) rfl
  | seq lhs rhs left right | choice lhs rhs left right => exact written rfl (two left right) rfl
  | tag inner name ih => exact written rfl (two ih (plain rfl)) rfl
  | opt inner ih | rep inner ih | followedBy inner ih | notFollowedBy inner ih | restore inner ih | push inner ih =>
    exact written rfl (one ih) rfl

theorem Expr.read_written (e : Expr) : Draft.read e.toDraft.toDatum = .ok e.toDraft := by
  have restored := e.toDraft_restored
  cases e with
  | peek start stop => cases stop <;> exact restored
  | _ => exact restored

theorem Rule.read_written (rule : Rule) : Draft.read rule.toDraft.toDatum = .ok rule.toDraft := by
  have known : Fields.type? [(Draft.typeField,.text Draft.ruleType),("name",.text rule.name),("kind",.text rule.kind.word),
    ("expr",rule.expr.toDraft.toDatum)] = some .rule := rfl
  refine (Fields.read_rule_iff known).2 ⟨_,_,_,_,⟨rfl,rule.expr.read_written⟩,rfl,rfl,?_⟩
  rw [Rule.toDraft]
  exact congrArg (Draft.rule rule.name · rule.expr.toDraft) (Kind.ofWord_word rule.kind).symm

end TypedPeg
