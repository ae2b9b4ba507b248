import TypedPeg.Proofs.Assembly.Regular
import TypedPeg.Proofs.Match.Congruence
import TypedPeg.Proofs.Match.Guard

/-! When it makes no difference to a call whether the atomic flag is set. Only a node that skips separators
looks at the flag, and a rule that sets it shelters what is below. So a separator referred to by name
matches as it does when it is skipped, unless with the flag as it was it comes to a rule in which
separators may stand. -/
namespace TypedPeg

namespace NodeTable

variable {σ : Type} [Observer σ] {table : NodeTable} {source : Source}

/-- From these names no node that skips separators is called, unless the flag is set on the way. -/
def Sheltered (table : NodeTable) (names : String → Prop) : Prop :=
  ∀ name node, names name → table.get? name = some node → node.body.flag? = none →
    node.body.skips = false ∧ ∀ child ∈ node.body.children, names child

theorem call_sheltered {names : String → Prop} (sheltered : table.Sheltered names) (guarded : Bool) (frames : Nat) (active : List Entry)
    {name : String} (member : names name) (atomic atomic' : Bool) :
    (table.callsIf source guarded frames active : Calls σ).call atomic name =
      (table.callsIf source guarded frames active).call atomic' name := by
  induction frames using Nat.strongRecOn generalizing active name with
  | ind frames ih =>
    cases frames with
    | zero => rfl
    | succ frames =>
      funext c
      simp only [callsIf_succ]
      cases found : table.get? name with
      | none => rfl
      | some node =>
        cases frames with
        | zero => rfl
        | succ left =>
          have agrees : node.Agrees (table.callsIf source guarded left (⟨c.pos,name⟩ :: active) : Calls σ)
              (table.callsIf source guarded left (⟨c.pos,name⟩ :: active)) atomic atomic' := by
            refine ⟨fun unset child called => ?_,fun _ _ _ => rfl,fun unset skips => ?_⟩
            · exact ih left (by omega) _ ((sheltered name node member found unset).2 child called)
            · exact Bool.noConfusion ((sheltered name node member found unset).1.symm.trans skips)
          dsimp only
          rw [Node.step_congr agrees]

end NodeTable

/-- The rules that a rule comes to with the atomic flag as it was: itself, and what rules among them that do
not set it refer to. -/
inductive Inherits (rules : List Rule) (name : String) : Rule → Prop
  | itself {rule} (listed : rule ∈ rules) (named : rule.name = name) : Inherits rules name rule
  | ref {rule next} (reached : Inherits rules name rule) (unset : rule.kind.flag? = none) (listed : next ∈ rules)
      (referred : next.name ∈ rule.expr.idents) : Inherits rules name next

def Rule.spaced (rule : Rule) : Bool := rule.skips && rule.expr.spaced

namespace Inherits

variable {rules : List Rule} {name : String} {rule : Rule}

theorem listed (inherits : Inherits rules name rule) : rule ∈ rules := by
  cases inherits with
  | itself listed named => exact listed
  | ref reached unset listed referred => exact listed

/-- Names closed under the references of rules that do not set the flag are not left. -/
theorem among (names : List String) (start : name ∈ names)
    (closed : ∀ rule ∈ rules, rule.name ∈ names → rule.kind.flag? = none → ∀ ref ∈ rule.expr.idents, ref ∈ names)
    (inherits : Inherits rules name rule) : rule.name ∈ names := by
  induction inherits with
  | itself listed named => exact named ▸ start
  | ref reached unset listed referred ih => exact closed _ reached.listed ih unset _ referred

end Inherits

def Unspaced (rules : List Rule) (name : String) : Prop := ∀ rule, Inherits rules name rule → rule.kind.flag? = none → rule.spaced = false

def Inherited (rules : List Rule) (name sub : String) : Prop :=
  sub ∈ builtinNames ∨ ∃ rule, Inherits rules name rule ∧ (sub = rule.name ∨ rule.kind.flag? = none ∧ sub ∈ rule.lower.map Node.name)

namespace NodeTable.Compiled

variable {table : NodeTable} {rules : List Rule} {name : String}

theorem sheltered (compiled : table.Compiled rules) (unspaced : Unspaced rules name) : table.Sheltered (Inherited rules name) := by
  intro sub node inherited found unset
  rcases inherited with builtin | ⟨rule,inherits,among⟩
  · have childless : ∀ node ∈ builtins, node.body.skips = false ∧ node.body.children = [] := by decide
    obtain ⟨node',member,rfl⟩ := List.mem_map.1 builtin
    obtain rfl := Option.some.inj ((compiled.builtin node' member).symm.trans found)
    obtain ⟨plain,none⟩ := childless node' member
    exact ⟨plain,fun child called => absurd (none ▸ called) List.not_mem_nil⟩
  · rcases rule.lower_cases with ⟨inheriting,lowered⟩ | ⟨body,same,sets,-,lowered⟩
    · have named : sub ∈ rule.lower.map Node.name := among.elim (fun root => root ▸ List.mem_map.2 rule.root_mem) (·.2)
      obtain ⟨node',inside,rfl⟩ := List.mem_map.1 named
      obtain rfl := Option.some.inj ((compiled.lowered rule inherits.listed node' inside).symm.trans found)
      have plain := (Expr.lower_plain rule.skips rule.expr rule.name node' (lowered ▸ inside)).2
      refine ⟨Bool.eq_false_iff.2 fun skips => ?_,fun child called => ?_⟩
      · have spaced : rule.spaced = true := Bool.and_eq_true_iff.2 (plain skips)
        rw [unspaced rule inherits inheriting] at spaced
        cases spaced
      · rcases rule.lower_children node' inside child called with own | referred
        · exact .inr ⟨rule,inherits,.inr ⟨inheriting,own⟩⟩
        · rcases List.mem_append.1 (compiled.defined rule inherits.listed child referred) with ruled | builtin
          · obtain ⟨next,listed,rfl⟩ := List.mem_map.1 ruled
            exact .inr ⟨next,inherits.ref inheriting listed referred,.inl rfl⟩
          · exact .inl builtin
    · -- the node under the rule's own name sets the flag
      have root : sub = rule.name := among.resolve_right fun inner => sets (same.trans inner.1)
      have inside : (⟨rule.name,rule.expr.render,body⟩ : Node) ∈ rule.lower := by
        rw [lowered]
        exact List.mem_append_right _ (List.mem_singleton_self _)
      rw [root,compiled.lowered rule inherits.listed _ inside] at found
      obtain rfl := Option.some.inj found
      exact (sets unset).elim

end NodeTable.Compiled

namespace NodeTable

variable {σ : Type} [Observer σ] {table : NodeTable} {source : Source} {rules : List Rule} {name : String}

/-- A rule of an accepted grammar, a separator for one, matches at any place as it does atomically, as long as no
rule that inherits the flag has room for separators. Called atomically it has a frame less. -/
theorem call_atomic (accepted : (ofRules rules true).value = .ok table) (ruled : name ∈ rules.map Rule.name)
    (unspaced : Unspaced rules name) (frames : Nat) (active : List Entry) (c : Cursor) {s : σ}
    (finished : ((table.calls source frames active).within true name c s).1 ≠ .halted .tooDeep) :
    (table.calls source frames active).call false name c s = (table.calls source frames active).within true name c s := by
  have compiled := compiled_of_ofRules accepted
  obtain ⟨rule,listed,rfl⟩ := List.mem_map.1 ruled
  have inherited : Inherited rules rule.name rule.name := .inr ⟨rule,.itself listed rfl,.inl rfl⟩
  rw [← callsIf_true,callsIf_within] at finished ⊢
  rw [call_sheltered (compiled.sheltered unspaced) true frames active inherited false true]
  exact callsIf_mono (Nat.sub_le frames 1) active true rule.name c finished

def marked : List Rule :=
  [⟨"WHITESPACE",.silent,.literal " "⟩,⟨"COMMENT",.silent,.choice (.ref "mark") (.ref "line")⟩,⟨"mark",.normal,.literal "#"⟩,
    ⟨"line",.atomic,.seq (.literal "/") (.rep (.range 'a' 'z'))⟩,⟨"words",.normal,.rep (.ref "line")⟩]

def markedTable : NodeTable := (ofRules marked true).value.toOption.getD .empty

theorem marked_atomic : (ofRules marked true).value = .ok markedTable ∧ Unspaced marked "COMMENT" ∧
    ((markedTable.calls (.ofString "/ab") 20 []).within true "COMMENT" .start (Tracker.new true)).1 ≠ .halted .tooDeep ∧
    (markedTable.calls (.ofString "/ab") 20 []).call false "COMMENT" .start (Tracker.new true) =
      (markedTable.calls (.ofString "/ab") 20 []).within true "COMMENT" .start (Tracker.new true) := by
  have accepted : (ofRules marked true).value = .ok markedTable := ofRules_of_isOk (by decide +kernel)
  have unspaced : Unspaced marked "COMMENT" := by
    intro rule inherits unset
    have among := inherits.among ["COMMENT","mark","line"] (by decide) (by decide)
    have plain : ∀ rule ∈ marked, rule.name ∈ ["COMMENT","mark","line"] → rule.kind.flag? = none → rule.spaced = false := by decide
    exact plain rule inherits.listed among unset
  have finished : ((markedTable.calls (.ofString "/ab") 20 []).within true "COMMENT" .start (Tracker.new true)).1 ≠ .halted .tooDeep := by
    decide +kernel
  exact ⟨accepted,unspaced,finished,call_atomic accepted (by decide) unspaced 20 [] .start finished⟩

def loose : List Rule :=
  [⟨"WHITESPACE",.silent,.literal " "⟩,⟨"COMMENT",.silent,.ref "note"⟩,⟨"note",.normal,.seq (.literal "#") (.literal "x")⟩]

def looseTable : NodeTable := (ofRules loose true).value.toOption.getD .empty

/-- Referred to by name, a comment has a separator inside that it may not have when it is skipped. -/
theorem loose_comment : (ofRules loose true).value = .ok looseTable ∧ (∀ rule ∈ loose, rule.kind ≠ .nonAtomic) ∧
    ((looseTable.calls (.ofString "# x") 20 []).call false "COMMENT" .start ()).1 = .matched (⟨3,[]⟩,
      .product "note" ⟨0,3⟩ [.leaf "note_0" ⟨0,1⟩ (some "#"),.leaf "note_1" ⟨2,3⟩ (some "x")] ["field0","field1"]) ∧
    ((looseTable.calls (.ofString "# x") 20 []).within true "COMMENT" .start ()).1 =
      .failed ⟨.literal,"literal mismatch",1,["\"x\""]⟩ :=
  ⟨ofRules_of_isOk (by decide +kernel),by decide,by decide +kernel,by decide +kernel⟩

end NodeTable

end TypedPeg
