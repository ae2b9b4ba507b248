import TypedPeg.Proofs.Assembly.Collisions
import TypedPeg.Proofs.Assembly.Complete
import TypedPeg.Proofs.Match.Sealing

/-! A compound atomic rule made atomic. Its nodes are the same but for the one of its own name, which no node of an
expression can be mistaken for, before or after; so the grammar is accepted as it was, and only what the rule shows
is different. -/
namespace TypedPeg

namespace Rule

/-- The rule as one that shows no more than the text it matches. -/
def sealed (rule : Rule) : Rule := { rule with kind := .atomic }

variable {rule other : Rule} {nodes : List Node}

/-- A node of a rule that is not the rule's own sets no flag. -/
theorem flag?_of_part {node : Node} (member : node ∈ rule.lower) (part : node.name ≠ rule.name) : node.body.flag? = none := by
  rcases rule.lower_cases with ⟨-,lowered⟩ | ⟨body,-,-,-,lowered⟩
  · rw [lowered] at member
    exact (Expr.lower_plain _ _ _ node member).1
  · rw [lowered] at member
    rcases List.mem_append.1 member with inside | root
    · obtain ⟨p,listed,inside⟩ := List.mem_flatMap.1 inside
      cases List.mem_singleton.1 listed
      exact (Expr.lower_plain _ _ _ node inside).1
    · exact (part (List.mem_singleton.1 root ▸ rfl)).elim

/-- Behind a node that sets a flag only what has no node of its name may come. -/
theorem follows_root {name label : String} {body : Body} (flagged : body.flag? ≠ none) :
    other.Follows (nodes ++ [⟨name,label,body⟩]) ↔ other.Follows nodes ∧ name ∉ other.lower.map Node.name := by
  rw [follows_union (fun node => List.mem_append)]
  refine and_congr_right fun _ => ?_
  rw [Follows,List.forall_mem_singleton,List.forall_mem_singleton]
  constructor
  · rintro ⟨apart,agree⟩ taken
    obtain ⟨own,inside,same⟩ := List.mem_map.1 taken
    obtain rfl := agree own inside same.symm
    exact flagged (flag?_of_part inside apart)
  · intro free
    have apart : ∀ own ∈ other.lower, name ≠ own.name := fun own inside same => free (List.mem_map.2 ⟨own,inside,same.symm⟩)
    obtain ⟨own,inside,named⟩ := other.root_mem
    exact ⟨named ▸ apart own inside,fun own inside same => (apart own inside same).elim⟩

/-- What a rule has besides the node of its own name is compared with the nodes there are only if that one's name is free. -/
theorem follows_parts {part : List Node} {root : Node} (lowered : rule.lower = part ++ [root]) (named : root.name = rule.name) :
    rule.Follows nodes ↔ (∀ node ∈ nodes, node.name ≠ rule.name) ∧ ∀ node ∈ nodes, ∀ own ∈ part, node.name = own.name → node = own := by
  refine and_congr_right fun free => forall₂_congr fun node member => ?_
  rw [lowered,List.forall_mem_append,List.forall_mem_singleton]
  exact and_iff_left fun same => (free node member (same.trans named)).elim

variable (compound : rule.kind = .compoundAtomic)
include compound

theorem lower_sealed : ∃ part nodes, rule.lower = nodes ++ [⟨rule.name,rule.expr.render,.scope part true⟩] ∧
    rule.sealed.lower = nodes ++ [⟨rule.name,rule.expr.render,.atomic part⟩] := by
  have skips : rule.sealed.skips = rule.skips := by simp [Rule.skips,sealed,compound]
  refine ⟨NodeName.ruleBody rule.name,rule.expr.lower rule.skips (.own (NodeName.ruleBody rule.name)),?_,?_⟩
  · simp only [lower_eq,compound]
  · rw [lower_eq,← skips]
    rfl

theorem follows_sealed_lower : other.Follows rule.sealed.lower ↔ other.Follows rule.lower := by
  obtain ⟨part,nodes,lowered,lowered'⟩ := lower_sealed compound
  have flagged : (Body.scope part true).flag? ≠ none := nofun
  have flagged' : (Body.atomic part).flag? ≠ none := nofun
  rw [lowered,lowered',follows_root flagged,follows_root flagged']

theorem sealed_follows : rule.sealed.Follows nodes ↔ rule.Follows nodes := by
  obtain ⟨part,own,lowered,lowered'⟩ := lower_sealed compound
  rw [follows_parts lowered rfl,follows_parts lowered' rfl]
  rfl

end Rule

namespace NodeTable

variable {before after : List Rule} {rule : Rule} {table table' : NodeTable} (compound : rule.kind = .compoundAtomic)
include compound

theorem valid_sealed : Valid (before ++ rule.sealed :: after) ↔ Valid (before ++ rule :: after) := by
  have names : (before ++ rule.sealed :: after).map Rule.name = (before ++ rule :: after).map Rule.name := by simp [Rule.sealed]
  have each {p : Rule → Prop} (same : p rule.sealed ↔ p rule) :
      (∀ r ∈ before ++ rule.sealed :: after, p r) ↔ ∀ r ∈ before ++ rule :: after, p r := by
    rw [List.forall_mem_append,List.forall_mem_append,List.forall_mem_cons,List.forall_mem_cons,same]
  have known : rule.sealed.kind.isKnown = true ↔ rule.kind.isKnown = true := by
    rw [compound]
    exact Iff.rfl
  constructor
  · intro valid
    exact ⟨(each known).1 valid.known,(each Iff.rfl).1 valid.unreserved,names ▸ valid.distinct,(each Iff.rfl).1 (names ▸ valid.resolved)⟩
  · intro valid
    exact ⟨(each known).2 valid.known,(each Iff.rfl).2 valid.unreserved,names ▸ valid.distinct,(each Iff.rfl).2 (names ▸ valid.resolved)⟩

theorem isOk_sealed : (ofRules (before ++ rule.sealed :: after) true).value.isOk = (ofRules (before ++ rule :: after) true).value.isOk := by
  have refused {rules : List Rule} (invalid : ¬Valid rules) : (ofRules rules true).value.isOk = false := by
    cases built : (ofRules rules true).value with
    | error fault => rfl
    | ok table => exact (invalid ((ofRules_iff.1 built).1 rfl)).elim
  by_cases valid : Valid (before ++ rule :: after)
  · rw [Bool.eq_iff_iff,ofRules_isOk_iff valid,ofRules_isOk_iff ((valid_sealed compound).2 valid)]
    simp only [List.pairwise_append,List.pairwise_cons,List.forall_mem_cons,Rule.follows_sealed_lower compound,Rule.sealed_follows compound]
  · rw [refused valid,refused fun valid' => valid ((valid_sealed compound).1 valid')]

theorem sealedAt_of_ofRules (accepted : (ofRules (before ++ rule :: after) true).value = .ok table)
    (accepted' : (ofRules (before ++ rule.sealed :: after) true).value = .ok table') : table.SealedAt table' rule.name := by
  obtain ⟨part,nodes,lowered,lowered'⟩ := Rule.lower_sealed compound
  refine ⟨⟨rule.expr.render,part,?_,?_⟩,fun name apart => Option.ext fun node => ?_⟩
  · exact (compiled_of_ofRules accepted).lowered rule (by simp) ⟨rule.name,rule.expr.render,.scope part true⟩ (by simp [lowered])
  · exact (compiled_of_ofRules accepted').lowered rule.sealed (by simp) ⟨rule.name,rule.expr.render,.atomic part⟩ (by simp [lowered'])
  · have same : rule.sealed.table.value.get? name = some node ↔ rule.table.value.get? name = some node := by
      rw [get?_table,get?_table,lowered,lowered',List.mem_append,List.mem_append,List.mem_singleton,List.mem_singleton]
      refine and_congr_left fun named => or_congr_right (iff_of_false ?_ ?_)
      all_goals
        rintro rfl
        exact apart named.symm
    rw [get?_iff accepted,get?_iff accepted']
    simp only [List.mem_append,List.mem_cons,or_and_right,exists_or,exists_eq_left,same]

/-- A compound atomic rule made atomic changes neither whether the grammar is accepted nor how any match ends, for whoever
watches; only the values are different, where the rule has made them. -/
theorem ofRules_sealed : (ofRules (before ++ rule :: after) true).value.isOk = (ofRules (before ++ rule.sealed :: after) true).value.isOk ∧
    ∀ table table', (ofRules (before ++ rule :: after) true).value = .ok table →
      (ofRules (before ++ rule.sealed :: after) true).value = .ok table' →
      ∀ {σ : Type} [Observer σ] (source : Source) (frames : Nat) (active : List Entry) (atomic : Bool) (name : String) (c : Cursor) (s : σ),
        ((table'.calls source frames active).call atomic name c s).2 = ((table.calls source frames active).call atomic name c s).2 ∧
          table.SealsEnd source rule.name name ((table.calls source frames active).call atomic name c s).1
            ((table'.calls source frames active).call atomic name c s).1 :=
  ⟨(isOk_sealed compound).symm,fun _ _ accepted accepted' => (sealedAt_of_ofRules compound accepted accepted').calls⟩

omit compound

def line : List Rule := [⟨"line",.normal,.rep (.ref "word")⟩,⟨"WHITESPACE",.silent,.literal " "⟩]

def word : Rule := ⟨"word",.compoundAtomic,.seq (.range 'a' 'z') (.rep (.range 'a' 'z'))⟩

def lineTable : NodeTable := (ofRules (line ++ [word]) true).value.toOption.getD .empty

def sealedLineTable : NodeTable := (ofRules (line ++ [word.sealed]) true).value.toOption.getD .empty

theorem line_sealed : word.kind = .compoundAtomic ∧ (ofRules (line ++ [word]) true).value = .ok lineTable ∧
    (ofRules (line ++ [word.sealed]) true).value = .ok sealedLineTable ∧
    ((sealedLineTable.calls (.ofString "a bc") 40 []).call false "line" .start (Tracker.new true)).1 =
      .matched (⟨4,[]⟩,.many "line" ⟨0,4⟩ [.leaf "word" ⟨0,1⟩ (some "a"),.leaf "word" ⟨2,4⟩ (some "bc")]) ∧
    ((sealedLineTable.calls (.ofString "a bc") 40 []).call false "line" .start (Tracker.new true)).2 =
      ((lineTable.calls (.ofString "a bc") 40 []).call false "line" .start (Tracker.new true)).2 ∧
    lineTable.SealsEnd (.ofString "a bc") "word" "line"
      ((lineTable.calls (.ofString "a bc") 40 []).call false "line" .start (Tracker.new true)).1
      ((sealedLineTable.calls (.ofString "a bc") 40 []).call false "line" .start (Tracker.new true)).1 := by
  have accepted : (ofRules (line ++ [word]) true).value = .ok lineTable := ofRules_of_isOk (by decide +kernel)
  have accepted' : (ofRules (line ++ [word.sealed]) true).value = .ok sealedLineTable := ofRules_of_isOk (by decide +kernel)
  exact ⟨rfl,accepted,accepted',by decide +kernel,(ofRules_sealed rfl).2 lineTable sealedLineTable accepted accepted'
    (.ofString "a bc") 40 []
    false "line" .start (Tracker.new true)⟩

end NodeTable

end TypedPeg
