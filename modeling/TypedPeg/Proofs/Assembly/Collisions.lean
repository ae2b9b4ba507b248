import TypedPeg.Proofs.Assembly.Regular
import TypedPeg.Proofs.Node.Parts

/-! When the nodes of two rules are under one name. A rule is refused if a rule before it has a node
of its name, or a node that says something else under the name of one of its own; so it depends on
the order of the rules which collisions are found. All orders are accepted only if there are none. -/
namespace TypedPeg

/-- A rule may come after these nodes: none has its name, and none differs from a node of the rule of that name. -/
def Rule.Follows (rule : Rule) (nodes : List Node) : Prop :=
  (∀ node ∈ nodes, node.name ≠ rule.name) ∧ ∀ node ∈ nodes, ∀ own ∈ rule.lower, node.name = own.name → node = own

def Rule.Apart (r s : Rule) : Prop := ∀ name ∈ r.table.value.names, name ∉ s.table.value.names

/-- What follows some nodes and follows others follows all of them. -/
theorem Rule.follows_union {rule : Rule} {nodes nodes' all : List Node} (union : ∀ node, node ∈ all ↔ node ∈ nodes ∨ node ∈ nodes') :
    rule.Follows all ↔ rule.Follows nodes ∧ rule.Follows nodes' := by
  simp only [Follows,union,or_imp,forall_and]
  exact and_and_and_comm

instance (r s : Rule) : Decidable (r.Apart s) := inferInstanceAs (Decidable (∀ name ∈ r.table.value.names, name ∉ s.table.value.names))

namespace NodeTable

variable {t : NodeTable}

theorem clashes_iff {n : Node} : t.clashes n = true ↔ ∃ node ∈ t.nodes, node.name = n.name ∧ node ≠ n := by
  unfold Table.clashes
  rw [Node.definition_name]
  cases found : t.get? n.name with
  | none =>
    refine iff_of_false nofun ?_
    rintro ⟨node,member,same,-⟩
    exact Table.get?_eq_none_iff.1 found (List.mem_map.2 ⟨node,member,same⟩)
  | some kept =>
    dsimp only
    rw [Node.definition_same,Bool.not_eq_true',decide_eq_false_iff_not]
    constructor
    · intro other
      exact ⟨kept,List.mem_of_find?_eq_some found,by simpa using List.find?_some found,other⟩
    · rintro ⟨node,member,same,other⟩ kept_same
      have found' := get?_of_mem member
      rw [same,found,kept_same] at found'
      exact other (Option.some.inj found').symm

/-- Nodes under distinct names are merged without conflict if each is alone under its name or there already. -/
theorem mergeNodes_iff {ns : List Node} (distinct : (ns.map Node.name).Nodup) :
    (t.mergeNodes ns).2 = [] ↔ ∀ node ∈ t.nodes, ∀ n ∈ ns, node.name = n.name → node = n := by
  induction ns generalizing t with
  | nil => exact iff_of_true rfl fun _ _ _ member => (List.not_mem_nil member).elim
  | cons n rest ih =>
    rw [List.map_cons,List.nodup_cons] at distinct
    rw [Table.mergeNodes]
    by_cases clash : t.clashes n = true
    · rw [if_pos clash]
      obtain ⟨node,member,same,other⟩ := clashes_iff.1 clash
      exact iff_of_false (List.cons_ne_nil _ _) fun agree => other (agree node member n List.mem_cons_self same)
    · rw [if_neg clash,ih distinct.2]
      constructor
      · intro agree node member m listed same
        rcases List.mem_cons.1 listed with rfl | listed
        · exact Decidable.byContradiction fun other => clash (clashes_iff.2 ⟨node,member,same,other⟩)
        · exact agree node (insert_extends t n node member) m listed same
      · intro agree node member m listed same
        rcases mem_of_mem_insert member with member | rfl
        · exact agree node member m (List.mem_cons_of_mem n listed) same
        · exact (distinct.1 (List.mem_map.2 ⟨m,listed,same.symm⟩)).elim

theorem addRules_isOk_iff {rules : List Rule} : (t.addRules true (rules.map Rule.contribution)).value.isOk = true ↔
    (∀ rule ∈ rules, rule.Follows t.nodes) ∧ rules.Pairwise fun r s => s.Follows r.lower := by
  induction rules generalizing t with
  | nil => exact iff_of_true rfl ⟨fun _ member => (List.not_mem_nil member).elim,.nil⟩
  | cons first rest ih =>
    have distinct : (first.table.value.nodes.map Node.name).Nodup := first.table.value.distinct
    rw [List.map_cons,Rule.contribution,Table.addRules,List.forall_mem_cons,List.pairwise_cons]
    split
    · rename_i taken
      rw [Bool.true_and,Table.contains_iff] at taken
      obtain ⟨node,member,same⟩ := List.mem_map.1 taken
      exact iff_of_false Bool.false_ne_true fun both => both.1.1.1 node member same
    · rename_i free
      rw [Bool.true_and,Table.contains_iff] at free
      dsimp only
      split
      · rename_i conflicts
        refine iff_of_false Bool.false_ne_true fun both => ?_
        have merged := (mergeNodes_iff distinct).2 (first.nodes_table ▸ both.1.1.2)
        simp [Table.merge,merged] at conflicts
      · rename_i merged
        have merged : (t.mergeNodes first.table.value.nodes).2 = [] := by simpa [Table.merge] using merged
        obtain ⟨extension,found,origin⟩ := mergeNodes_spec merged
        have follows : first.Follows t.nodes :=
          ⟨fun node member same => free (List.mem_map.2 ⟨node,member,same⟩),first.nodes_table ▸ (mergeNodes_iff distinct).1 merged⟩
        have union (node : Node) : node ∈ (t.mergeNodes first.table.value.nodes).1.nodes ↔ node ∈ t.nodes ∨ node ∈ first.lower := by
          rw [← first.nodes_table]
          exact ⟨origin node,fun either => either.elim (extension node) (found node)⟩
        refine (ih (t := (t.mergeNodes first.table.value.nodes).1)).trans ?_
        simp only [Rule.follows_union union,forall_and]
        constructor
        · rintro ⟨⟨before,now⟩,pairwise⟩
          exact ⟨⟨follows,before⟩,now,pairwise⟩
        · rintro ⟨⟨-,before⟩,now,pairwise⟩
          exact ⟨⟨before,now⟩,pairwise⟩

theorem names_table (rule : Rule) : rule.table.value.names = rule.lower.map Node.name := by
  rw [Table.names,rule.nodes_table]
  rfl

end NodeTable

namespace Rule

variable {r s : Rule}

theorem follows_builtins (unreserved : r.name ∉ builtinNames) : r.Follows builtins := by
  have plain : ∀ node ∈ builtins, '_' ∉ node.name.toList := by decide
  refine ⟨fun node member same => unreserved (same ▸ List.mem_map_of_mem member),fun node member own inside same => ?_⟩
  have named := (r.lower_tidy.within own inside).eq_of_plain (same ▸ plain node member)
  exact (unreserved (named ▸ same ▸ List.mem_map_of_mem member)).elim

theorem Apart.symm (apart : r.Apart s) : s.Apart r := fun name member member' => apart name member' member

theorem Apart.follows (apart : r.Apart s) : s.Follows r.lower := by
  rw [Apart,NodeTable.names_table,NodeTable.names_table] at apart
  constructor
  · intro node member same
    exact apart node.name (List.mem_map_of_mem member) (same ▸ List.mem_map.2 s.root_mem)
  · intro node member own inside same
    exact (apart node.name (List.mem_map_of_mem member) (same ▸ List.mem_map_of_mem inside)).elim

/-- If two rules have a name in common, the name of one of them is that of a node of the other. -/
theorem apart_of_follows (forth : s.Follows r.lower) (back : r.Follows s.lower) : r.Apart s := by
  rw [Apart,NodeTable.names_table,NodeTable.names_table]
  rintro name member member'
  obtain ⟨node,inside,rfl⟩ := List.mem_map.1 member
  obtain ⟨node',inside',same⟩ := List.mem_map.1 member'
  have within := r.lower_tidy.within node inside
  have within' := s.lower_tidy.within node' inside'
  rw [same] at within'
  rcases within.total within' with above | above
  · obtain ⟨node,member,same⟩ := List.mem_map.1 (r.lower_between node inside s.name above within')
    exact forth.1 node member same
  · rw [← same] at within
    obtain ⟨node,member,same⟩ := List.mem_map.1 (s.lower_between node' inside' r.name above within)
    exact back.1 node member same

end Rule

namespace NodeTable

variable {rules : List Rule}

theorem ofRules_isOk_iff (valid : Valid rules) : (ofRules rules true).value.isOk = true ↔ rules.Pairwise fun r s => s.Follows r.lower := by
  have isOk (x : Except AssemblyFault NodeTable) : x.isOk = true ↔ ∃ table, x = .ok table := by
    cases x <;> simp [Except.isOk,Except.toBool]
  have added (table : NodeTable) : (ofRules rules true).value = .ok table ↔
      (start.addRules true (rules.map Rule.contribution)).value = .ok table := ofRules_iff.trans (and_iff_right fun _ => valid)
  rw [isOk,exists_congr added,← isOk,addRules_isOk_iff,nodes_start]
  exact and_iff_right fun rule member => Rule.follows_builtins (valid.unreserved rule member)

/-- All orders of the rules are accepted if no two of them have nodes under one name, and only then. -/
theorem ofRules_perm_isOk_iff (valid : Valid rules) :
    (∀ rules', rules.Perm rules' → (ofRules rules' true).value.isOk = true) ↔ rules.Pairwise Rule.Apart := by
  constructor
  · intro accepted
    have forth := (ofRules_isOk_iff valid).1 (accepted rules (.refl rules))
    have backwards := (List.reverse_perm rules).symm
    have back := List.pairwise_reverse.1 ((ofRules_isOk_iff (valid.perm backwards)).1 (accepted _ backwards))
    exact (forth.and back).imp fun both => Rule.apart_of_follows both.1 both.2
  · intro apart rules' perm
    have apart' := (perm.pairwise_iff Rule.Apart.symm).1 apart
    exact (ofRules_isOk_iff (valid.perm perm)).2 (apart'.imp Rule.Apart.follows)

/-- The lowered rules have no node in common, be there nodes under one name or not. -/
def Different (rules : List Rule) : Prop := rules.Pairwise fun r s => ∀ node ∈ r.lower, node ∉ s.lower

theorem Different.perm {rules' : List Rule} (different : Different rules) (perm : rules.Perm rules') : Different rules' :=
  (perm.pairwise_iff fun apart node member member' => apart node member' member).1 different

theorem Different.isOk_iff (different : Different rules) (valid : Valid rules) :
    (ofRules rules true).value.isOk = true ↔ rules.Pairwise Rule.Apart := by
  rw [ofRules_isOk_iff valid]
  refine ⟨fun follows => ?_,fun apart => apart.imp Rule.Apart.follows⟩
  refine (follows.and different).imp fun {r s} both name member member' => ?_
  rw [names_table] at member member'
  obtain ⟨node,inside,rfl⟩ := List.mem_map.1 member
  obtain ⟨node',inside',same⟩ := List.mem_map.1 member'
  obtain rfl := both.1.2 node inside node' inside' same.symm
  exact both.2 node inside inside'

/-- A grammar that is valid otherwise is accepted if every rule can follow those before it. All orders of the
rules are accepted just if no two have nodes under one name; and if no two have a node in common, that
decides on each order by itself. -/
theorem ofRules_collisions (valid : Valid rules) :
    ((ofRules rules true).value.isOk = true ↔ rules.Pairwise fun r s => s.Follows r.lower) ∧
    ((∀ rules', rules.Perm rules' → (ofRules rules' true).value.isOk = true) ↔ rules.Pairwise Rule.Apart) ∧
    (Different rules → ((ofRules rules true).value.isOk = true ↔ rules.Pairwise Rule.Apart) ∧
      ∀ rules', rules.Perm rules' → (ofRules rules' true).value.isOk = (ofRules rules true).value.isOk) := by
  refine ⟨ofRules_isOk_iff valid,ofRules_perm_isOk_iff valid,fun different => ⟨different.isOk_iff valid,fun rules' perm => ?_⟩⟩
  rw [Bool.eq_iff_iff,different.isOk_iff valid,(different.perm perm).isOk_iff (valid.perm perm)]
  exact (perm.pairwise_iff Rule.Apart.symm).symm

def joined : List Rule := [⟨"a",.normal,.seq (.literal "x") (.literal "y")⟩,⟨"b",.atomic,.rep (.ref "a")⟩]

theorem joined_accepted : Valid joined ∧ Different joined ∧ joined.Pairwise Rule.Apart ∧
    (ofRules joined true).value.isOk = true ∧ (ofRules joined.reverse true).value.isOk = true := by
  have valid : Valid joined := validate_iff.1 rfl
  have different : Different joined := by
    unfold Different
    decide +kernel
  have apart : joined.Pairwise Rule.Apart := by decide +kernel
  obtain ⟨accepted,reordered⟩ := (ofRules_collisions valid).2.2 different
  exact ⟨valid,different,apart,accepted.2 apart,(reordered joined.reverse (List.reverse_perm _).symm).trans (accepted.2 apart)⟩

def stray : List Rule := [⟨"a_0",.normal,.literal "x"⟩,⟨"a",.normal,.seq (.literal "x") (.literal "y")⟩]

/-- The first element of the sequence is under the name of a rule and reads the same. Found in one order, it
is not found in the other. -/
theorem stray_accepted : Valid stray ∧ (ofRules stray true).value.isOk = true ∧ ¬stray.Pairwise Rule.Apart ∧
    (ofRules stray.reverse true).value = .error (.ruleNameTaken "a_0") := by
  exact ⟨validate_iff.1 rfl,by decide +kernel,by decide +kernel,rfl⟩

end NodeTable

end TypedPeg
