import TypedPeg.Proofs.Match.Alike
import TypedPeg.Proofs.Match.Conformance
import TypedPeg.Proofs.Match.Guard
import TypedPeg.Proofs.Match.Tiling

/-! Two tables that differ in one node, which in the first shows what its body makes and in the second only the
span of it. Both set the atomic flag, so the same is matched, and the values differ just where that node has made one. -/
namespace TypedPeg

def Manner.spanning : Manner where
  placed _ := True
  onward _ _ := True
  call _ c d v := v.span = c.spanTo d
  refl _ := trivial
  trans _ _ := trivial
  arrives _ _ := trivial

theorem Node.Made.span {source : Source} {gap : Cursor → Cursor → Prop} {node : Node} {c d : Cursor} {v : Value}
    (made : node.Made source Manner.spanning.Matches gap c d v) : v.span = c.spanTo d := by
  cases made with
  | @terminal t d body moved =>
    unfold Terminal.leaf
    cases kind : t.leafKind with
    | unit =>
      obtain rfl := Terminal.pos_of_unit kind moved
      rfl
    | span | char => rfl
  | lookahead body => rfl
  | atomic body one => rfl
  | «alias» body one => exact one.2.2
  | scope body one => exact one.2.2
  | restore body one => exact one.2.2
  | push body one => exact one.2.2
  | product body row => rfl
  | sum body chosen one => rfl
  | absent body => rfl
  | present body one => rfl
  | list body row => rfl

namespace NodeTable

section Seals
variable {σ : Type} [Observer σ]

theorem calls_spanning (table : NodeTable) (source : Source) (frames : Nat) (active : List Entry) (atomic : Bool) :
    (table.calls source frames active : Calls σ).Mannerly Manner.spanning.unseen (fun _ _ => True) atomic :=
  calls_mannerly (fun _ _ made => ⟨trivial,made.span⟩) frames active atomic

theorem span_of_within (table : NodeTable) (source : Source) (frames : Nat) (active : List Entry) (flag : Bool) (name : String)
    {c d : Cursor} {v : Value} {s t : σ} (matched : (table.calls source frames active).within flag name c s = (.matched (d,v),t)) :
    v.span = c.spanTo d :=
  ((table.calls_spanning source frames active flag).of_within trivial (congrArg Prod.fst matched)).2.2

/-- The second value of a name is the first, with a leaf that shows the text in place of whatever the rule has made.
What has made a value is found by following the nodes of the table. -/
inductive Seals (table : NodeTable) (source : Source) (rule : String) : String → Value → Value → Prop
  | here {v} : Seals table source rule rule v (.leaf rule v.span (some (v.span.text source)))
  | leaf {name node kind whole span content} (other : name ≠ rule) (found : table.get? name = some node)
      (shape : node.body.shape = .leaf kind) : Seals table source rule name (.leaf whole span content) (.leaf whole span content)
  | through {name node target v v'} (other : name ≠ rule) (found : table.get? name = some node) (shape : node.body.shape = .alias)
      (child : node.body.children = [target]) (one : Seals table source rule target v v') : Seals table source rule name v v'
  | product {name node fields names skip whole span vs vs'} (other : name ≠ rule) (found : table.get? name = some node)
      (body : node.body = .product fields names skip) (filled : vs.length = fields.length) (filled' : vs'.length = fields.length)
      (each : ∀ (i : Nat) field v v', fields[i]? = some field → vs[i]? = some v → vs'[i]? = some v' → Seals table source rule field v v') :
      Seals table source rule name (.product whole span vs names) (.product whole span vs' names)
  | variant {name node variants target whole span v v'} {i : Nat} (other : name ≠ rule) (found : table.get? name = some node)
      (body : node.body = .sum variants) (chosen : variants[i]? = some target) (one : Seals table source rule target v v') :
      Seals table source rule name (.variant whole span i v) (.variant whole span i v')
  | absent {name node inner whole span} (other : name ≠ rule) (found : table.get? name = some node) (body : node.body = .optional inner) :
      Seals table source rule name (.absent whole span) (.absent whole span)
  | present {name node inner whole span v v'} (other : name ≠ rule) (found : table.get? name = some node)
      (body : node.body = .optional inner) (one : Seals table source rule inner v v') :
      Seals table source rule name (.present whole span v) (.present whole span v')
  | many {name node inner skip whole span vs vs'} (other : name ≠ rule) (found : table.get? name = some node)
      (body : node.body = .list inner skip) (filled : vs'.length = vs.length)
      (each : ∀ (i : Nat) v v', vs[i]? = some v → vs'[i]? = some v' → Seals table source rule inner v v') :
      Seals table source rule name (.many whole span vs) (.many whole span vs')

variable {table table' : NodeTable} {source : Source} {rule name : String} {v v' v'' : Value}

/-- The node of a name lets a value through or makes one, but not both. -/
theorem shape_unique {node node' : Node} (found : table.get? name = some node) (found' : table.get? name = some node')
    (makes : node.body.shape ≠ .alias) (lets : node'.body.shape = .alias) : False := by
  cases found.symm.trans found'
  exact makes lets

/-- There is no choice in what the second value is. -/
theorem Seals.unique (first : table.Seals source rule name v v') (second : table.Seals source rule name v v'') : v' = v'' := by
  induction first generalizing v'' with
  | here =>
    cases second with
    | here => rfl
    | _ => contradiction
  | leaf other found shape =>
    cases second with
    | here => exact (other rfl).elim
    | leaf => rfl
    | through _ found' shape' => exact (shape_unique found found' (by rw [shape]; nofun) shape').elim
  | through other found shape child one ih =>
    cases second with
    | here => exact (other rfl).elim
    | through _ found' shape' child' one' =>
      cases found.symm.trans found'
      cases child.symm.trans child'
      exact ih one'
    | leaf _ found' shape' => exact (shape_unique found' found (by rw [shape']; nofun) shape).elim
    | product _ found' body | variant _ found' body | absent _ found' body | present _ found' body | many _ found' body =>
      exact (shape_unique found' found (by rw [body]; nofun) shape).elim
  | product other found body filled filled' each ih =>
    cases second with
    | here => exact (other rfl).elim
    | through _ found' shape' => exact (shape_unique found found' (by rw [body]; nofun) shape').elim
    | product _ found' body' filled'' filled''' each' =>
      cases found.symm.trans found'
      cases body.symm.trans body'
      refine congrArg (Value.product _ _ · _) (List.ext_getElem (filled'.trans filled'''.symm) fun i bound bound' => ?_)
      have named := List.getElem?_eq_getElem (filled' ▸ bound)
      have valued := List.getElem?_eq_getElem (filled.trans filled'.symm ▸ bound)
      exact ih i _ _ _ named valued (List.getElem?_eq_getElem bound) (each' i _ _ _ named valued (List.getElem?_eq_getElem bound'))
  | variant other found body chosen one ih =>
    cases second with
    | here => exact (other rfl).elim
    | through _ found' shape' => exact (shape_unique found found' (by rw [body]; nofun) shape').elim
    | variant _ found' body' chosen' one' =>
      cases found.symm.trans found'
      cases body.symm.trans body'
      cases chosen.symm.trans chosen'
      rw [ih one']
  | absent other found body =>
    cases second with
    | here => exact (other rfl).elim
    | through _ found' shape' => exact (shape_unique found found' (by rw [body]; nofun) shape').elim
    | absent => rfl
  | present other found body one ih =>
    cases second with
    | here => exact (other rfl).elim
    | through _ found' shape' => exact (shape_unique found found' (by rw [body]; nofun) shape').elim
    | present _ found' body' one' =>
      cases found.symm.trans found'
      cases body.symm.trans body'
      rw [ih one']
  | many other found body filled each ih =>
    cases second with
    | here => exact (other rfl).elim
    | through _ found' shape' => exact (shape_unique found found' (by rw [body]; nofun) shape').elim
    | many _ found' body' filled' each' =>
      cases found.symm.trans found'
      cases body.symm.trans body'
      refine congrArg (Value.many _ _) (List.ext_getElem (filled.trans filled'.symm) fun i bound bound' => ?_)
      have valued := List.getElem?_eq_getElem (filled ▸ bound)
      exact ih i _ _ valued (List.getElem?_eq_getElem bound) (each' i _ _ valued (List.getElem?_eq_getElem bound'))

/-- The second table has a leaf of the span in place of a node that only sets the atomic flag. -/
structure SealedAt (table table' : NodeTable) (rule : String) : Prop where
  root : ∃ label part, table.get? rule = some ⟨rule,label,.scope part true⟩ ∧ table'.get? rule = some ⟨rule,label,.atomic part⟩
  others : ∀ name, name ≠ rule → table'.get? name = table.get? name

inductive SealsEnd (table : NodeTable) (source : Source) (rule name : String) : Outcome (Cursor × Value) → Outcome (Cursor × Value) → Prop
  | matched {d v v'} (sealed : table.Seals source rule name v v') : SealsEnd table source rule name (.matched (d,v)) (.matched (d,v'))
  | failed {f} : SealsEnd table source rule name (.failed f) (.failed f)
  | halted {h} : SealsEnd table source rule name (.halted h) (.halted h)

end Seals

end NodeTable

def Pairing.sealing (σ : Type) (table : NodeTable) (source : Source) (rule : String) : Pairing σ σ where
  toLikeness := NodeTable.same (fun _ => False) fun _ => False
  near := Eq
  values := table.Seals source rule
  known _ := True

theorem Node.Paired.seals {σ : Type} {table : NodeTable} {source : Source} {rule name : String} {node : Node} {c d : Cursor} {v v' : Value}
    (paired : node.Paired (.sealing σ table source rule) source source c d c d v v') (other : name ≠ rule)
    (found : table.get? name = some node) : table.Seals source rule name v v' := by
  cases paired with
  | @terminal t body =>
    have shape : node.body.shape = .leaf t.leafKind := by rw [body]; rfl
    unfold Terminal.leaf
    split <;> exact .leaf other found shape
  | lookahead body =>
    have shape : node.body.shape = .leaf .unit := by rw [body]; rfl
    exact .leaf other found shape
  | atomic body =>
    have shape : node.body.shape = .leaf .span := by rw [body]; rfl
    exact .leaf other found shape
  | through shape child one => exact .through other found shape child one
  | product body rows =>
    exact .product other found body rows.length_eq.1 rows.length_eq.2 fun i field v v' => rows.of_getElem?
  | sum body chosen one => exact .variant other found body chosen one
  | absent body => exact .absent other found body
  | present body one => exact .present other found body one
  | list body items =>
    refine .many other found body items.length_eq.symm fun i v v' valued valued' => ?_
    obtain ⟨bound,rfl⟩ := List.getElem?_eq_some_iff.1 valued
    obtain ⟨bound',rfl⟩ := List.getElem?_eq_some_iff.1 valued'
    exact items.get bound bound'

namespace NodeTable.SealedAt

variable {σ : Type} [Observer σ] {table table' : NodeTable} {rule : String}

theorem defined (sealed : table.SealedAt table' rule) (name : String) : (table.get? name).isSome = (table'.get? name).isSome := by
  by_cases root : name = rule
  · obtain ⟨label,part,found,found'⟩ := sealed.root
    rw [root,found,found']
    rfl
  · rw [sealed.others name root]

theorem sealing_fits (table : NodeTable) (source : Source) (rule : String) : (Pairing.sealing σ table source rule).Fits source source :=
  Likeness.Fits.pairing (Likeness.fits_eq same_watched rfl) source

/-- The two nodes of the rule match the same, and the leaf of the second has the span of whatever the first lets through. -/
theorem step_root {source : Source} {frames : Nat} {active active' : List Entry} {atomic : Bool}
    (paired : (table.calls source frames active).Paired (.sealing σ table source rule) (table'.calls source frames active') atomic atomic)
    (label part : String) (c : Cursor) :
    Run.Alike (Pairing.sealing σ table source rule).toLikeness ((Pairing.sealing σ table source rule).Answers rule)
      ((⟨rule,label,.scope part true⟩ : Node).step source (table.calls source frames active) atomic c)
      ((⟨rule,label,.atomic part⟩ : Node).step source (table'.calls source frames active') atomic c) := by
  have within : Run.Alike _ _ ((table.calls source frames active).within true part c)
      ((table'.calls source frames active').within true part c) :=
    paired.within true trivial rfl
  intro s t states
  have inside := within s t states
  simp only [Node.step,Run.bind_apply]
  generalize ended : (table.calls source frames active).within true part c s = e at inside
  generalize (table'.calls source frames active').within true part c t = e' at inside
  cases inside with
  | @matched x y s t results states =>
    obtain ⟨d,v⟩ := x
    obtain ⟨d',v'⟩ := y
    obtain ⟨same,-⟩ := results
    cases same
    refine .matched ⟨rfl,?_⟩ states
    rw [Value.spanLeaf,← table.span_of_within source frames active true part ended]
    exact .here
  | failed failures states => exact .failed failures states
  | halted halts states => exact .halted halts states
  | first excused => exact .first excused
  | second excused => exact .second excused

theorem pairs (sealed : table.SealedAt table' rule) (source : Source) :
    table.Pairs (.sealing σ table source rule) Eq table' source source where
  fits := sealing_fits table source rule
  visit := by
    rintro active active' c c' s t rfl rfl rfl
    rfl
  enter := by
    rintro active active' c c' name rfl rfl
    rfl
  again := by
    rintro active active' c c' name rfl rfl
    rfl
  refused := by
    rintro c c' name rfl
    rfl
  spent := rfl
  separators := List.filter_congr fun name _ => (sealed.defined name).symm
  separator _ _ := trivial
  defined {name} _ := sealed.defined name
  step := by
    rintro name node node' - found found' frames active active' atomic c c' paired rfl
    by_cases root : name = rule
    · subst root
      obtain ⟨label,part,kept,kept'⟩ := sealed.root
      cases kept.symm.trans found
      cases kept'.symm.trans found'
      exact step_root paired label part c
    · obtain rfl : node = node' := Option.some.inj (found.symm.trans ((sealed.others name root).symm.trans found'))
      refine (Node.step_paired (sealing_fits table source rule) paired (fun _ _ => trivial) (fun _ => rfl)
        (fun t _ => Terminal.alike_eq rfl source _ t c c rfl) rfl).mono ?_
      rintro ⟨d,v⟩ ⟨d',v'⟩ ⟨rfl,made⟩
      exact ⟨rfl,made.seals root found⟩

/-- A call ends in the second table as in the first, for whoever watches, up to what the rule makes. -/
theorem calls (sealed : table.SealedAt table' rule) (source : Source) (frames : Nat) (active : List Entry) (atomic : Bool) (name : String)
    (c : Cursor) (s : σ) :
    ((table'.calls source frames active).call atomic name c s).2 = ((table.calls source frames active).call atomic name c s).2 ∧
      table.SealsEnd source rule name ((table.calls source frames active).call atomic name c s).1
        ((table'.calls source frames active).call atomic name c s).1 := by
  have paired : (table.calls source frames active : Calls σ).Paired (.sealing σ table source rule)
      (table'.calls source frames active) atomic atomic :=
    (sealed.pairs source).calls frames rfl atomic
  have alike : Run.Alike _ _ ((table.calls source frames active).call atomic name c)
      ((table'.calls source frames active).call atomic name c) :=
    paired.call trivial rfl
  have ended := alike s s rfl
  generalize (table.calls source frames active).call atomic name c s = e at ended
  generalize (table'.calls source frames active).call atomic name c s = e' at ended
  cases ended with
  | @matched x y s t results states =>
    obtain ⟨d,v⟩ := x
    obtain ⟨d',v'⟩ := y
    obtain ⟨same,sealed⟩ := results
    cases same
    exact ⟨states.symm,.matched sealed⟩
  | failed failures states =>
    cases failures
    exact ⟨states.symm,.failed⟩
  | halted halts states =>
    cases halts
    exact ⟨states.symm,.halted⟩
  | first excused => exact excused.elim
  | second excused => exact excused.elim

end NodeTable.SealedAt

end TypedPeg
