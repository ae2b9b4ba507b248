import TypedPeg.Proofs.Assembly.Regular
import TypedPeg.Proofs.Match.Known

/-! The table of an accepted grammar is what the builtins and the rules, each lowered by itself, come to
together. Nothing in it refers to a name that it does not have, so no such name is met in matching,
and neither validation nor the order of the rules has a part in what is found under a name. -/
namespace TypedPeg.NodeTable

variable {t t' table : NodeTable} {rules : List Rule} {name : String} {node : Node}

theorem contains_of_get? (found : table.get? name = some node) : table.contains name = true := by
  rw [Table.contains,found]
  rfl

/-- Where nothing is to be refused it makes no difference whether it would be. -/
theorem addRules_lenient {parts : List (Contribution Node)} (added : (t.addRules true parts).value = .ok t') :
    (t.addRules false parts).value = .ok t' := by
  induction parts generalizing t with
  | nil => exact added
  | cons first rest ih =>
    rw [Table.addRules] at added ⊢
    split at added
    · cases added
    · dsimp only at added
      split at added
      · cases added
      · exact ih added

theorem get?_table (rule : Rule) : rule.table.value.get? name = some node ↔ node ∈ rule.lower ∧ node.name = name := by
  constructor
  · intro found
    have member := List.mem_of_find?_eq_some found
    rw [rule.nodes_table] at member
    exact ⟨member,name_of_get? found⟩
  · rintro ⟨member,rfl⟩
    rw [← rule.nodes_table] at member
    exact get?_of_mem member

theorem get?_iff (accepted : (ofRules rules true).value = .ok table) : table.get? name = some node ↔
    (node ∈ builtins ∧ node.name = name) ∨ ∃ rule ∈ rules, rule.table.value.get? name = some node := by
  have compiled := compiled_of_ofRules accepted
  constructor
  · intro found
    obtain rfl := name_of_get? found
    rcases mem_ofRules accepted (List.mem_of_find?_eq_some found) with builtin | ⟨rule,listed,inside⟩
    · exact .inl ⟨builtin,rfl⟩
    · exact .inr ⟨rule,listed,(get?_table rule).2 ⟨inside,rfl⟩⟩
  · rintro (⟨builtin,rfl⟩ | ⟨rule,listed,found⟩)
    · exact compiled.builtin node builtin
    · obtain ⟨inside,rfl⟩ := (get?_table rule).1 found
      exact compiled.lowered rule listed node inside

namespace Compiled

theorem contains_rule (compiled : table.Compiled rules) {rule : Rule} (listed : rule ∈ rules) : table.contains rule.name = true := by
  obtain ⟨node,inside,same⟩ := rule.root_mem
  rw [← same]
  exact contains_of_get? (compiled.lowered rule listed node inside)

theorem contains_defined (compiled : table.Compiled rules) (defined : name ∈ rules.map Rule.name ++ builtinNames) :
    table.contains name = true := by
  rcases List.mem_append.1 defined with ruled | builtin
  · obtain ⟨rule,listed,rfl⟩ := List.mem_map.1 ruled
    exact compiled.contains_rule listed
  · obtain ⟨node,member,rfl⟩ := List.mem_map.1 builtin
    exact contains_of_get? (compiled.builtin node member)

end Compiled

theorem closed_of_ofRules (accepted : (ofRules rules true).value = .ok table) : table.undefined = [] := by
  have compiled := compiled_of_ofRules accepted
  refine undefined_eq_nil.2 fun node member child called => ?_
  rcases mem_ofRules accepted member with builtin | ⟨rule,listed,inside⟩
  · have childless : ∀ node ∈ builtins, node.body.children = [] := by decide
    rw [childless node builtin] at called
    cases called
  · rcases rule.lower_children node inside child called with own | referred
    · obtain ⟨part,inside,rfl⟩ := List.mem_map.1 own
      exact contains_of_get? (compiled.lowered rule listed part inside)
    · exact compiled.contains_defined (compiled.defined rule listed child referred)

theorem get?_perm {rules' : List Rule} (perm : rules.Perm rules') (accepted : (ofRules rules true).value = .ok table)
    (accepted' : (ofRules rules' true).value = .ok t') (name : String) : t'.get? name = table.get? name := by
  refine Option.ext fun node => ?_
  rw [get?_iff accepted,get?_iff accepted']
  refine or_congr_right (exists_congr fun rule => ?_)
  rw [perm.mem_iff]

/-- Nothing of the rules is lost in the table, nothing else but the builtins is in it, and nothing is missing. -/
structure Complete (table : NodeTable) (rules : List Rule) : Prop where
  union : ∀ name node, table.get? name = some node ↔
    (node ∈ builtins ∧ node.name = name) ∨ ∃ rule ∈ rules, rule.table.value.get? name = some node
  named : ∀ rule ∈ rules, table.contains rule.name = true
  closed : table.undefined = []
  /-- No match of one of its nodes fails for want of a definition. -/
  known : ∀ {σ : Type} [Observer σ] (source : Source) (frames : Nat) (active : List Entry) (atomic : Bool) (name : String) (c : Cursor)
    (s : σ) (f : Failure), table.contains name = true → ((table.calls source frames active).call atomic name c s).1 = .failed f →
      f.kind ≠ .undefinedRule
  /-- None of the failures told on the way is for want of a definition. -/
  unheard : ∀ (source : Source) (frames : Nat) (active : List Entry) (atomic : Bool) (name : String) (c : Cursor),
    table.contains name = true → ∀ f ∈ ((table.calls source frames active).call atomic name c (⟨[]⟩ : Overheard)).2.failures,
      f.kind ≠ .undefinedRule
  /-- Without validation it is the same table, in the same order. -/
  unvalidated : (ofRules rules false).value = .ok table
  reordered : ∀ (rules' : List Rule) (table' : NodeTable), rules.Perm rules' → (ofRules rules' true).value = .ok table' →
    ∀ name, table'.get? name = table.get? name

/-- The table of every accepted grammar is complete. -/
theorem ofRules_complete (accepted : (ofRules rules true).value = .ok table) : table.Complete rules where
  union _ _ := get?_iff accepted
  named _ listed := (compiled_of_ofRules accepted).contains_rule listed
  closed := closed_of_ofRules accepted
  known _ frames active atomic _ c _ f known failed :=
    (calls_spared (closed_of_ofRules accepted) spared_trivial known frames active atomic c trivial).2 f failed
  unheard _ frames active atomic _ c known :=
    (calls_spared (closed_of_ofRules accepted) Overheard.spared known frames active atomic c
      fun _ member => (List.not_mem_nil member).elim).1
  unvalidated := ofRules_iff.2 ⟨nofun,addRules_lenient (ofRules_iff.1 accepted).2⟩
  reordered _ _ perm accepted' := get?_perm perm accepted accepted'

def greeting : List Rule :=
  [⟨"greeting",.normal,.seq (.literal "hello") (.seq (.rep (.ref "name")) (.ref "EOI"))⟩,⟨"name",.atomic,.rep (.range 'a' 'z')⟩,
    ⟨"WHITESPACE",.silent,.literal " "⟩]

def greetingTable : NodeTable := (ofRules greeting true).value.toOption.getD .empty

def greetingTable' : NodeTable := (ofRules greeting.reverse true).value.toOption.getD .empty

theorem greeting_complete : (ofRules greeting true).value = .ok greetingTable ∧ greetingTable.Complete greeting ∧
    greetingTable' ≠ greetingTable ∧ ∀ name, greetingTable'.get? name = greetingTable.get? name := by
  have accepted : (ofRules greeting true).value = .ok greetingTable := ofRules_of_isOk (by decide +kernel)
  have accepted' : (ofRules greeting.reverse true).value = .ok greetingTable' := ofRules_of_isOk (by decide +kernel)
  have complete := ofRules_complete accepted
  refine ⟨accepted,complete,?_,complete.reordered greeting.reverse greetingTable' (List.reverse_perm _).symm accepted'⟩
  intro same
  have sizes : greetingTable'.names = greetingTable.names := congrArg Table.names same
  revert sizes
  decide +kernel

end TypedPeg.NodeTable
