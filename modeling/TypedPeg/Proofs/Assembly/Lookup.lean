import TypedPeg.Proofs.Assembly.Validation
import TypedPeg.Proofs.Node.Names

/-! What can be looked up in the table of an accepted grammar: the builtins, and every node of
every rule, each under its own name. A definition once in a table is never changed. -/
namespace TypedPeg

namespace NodeTable

variable {t t' : NodeTable} {n : Node} {name : String}

theorem get?_of_mem (member : n ∈ t.nodes) : t.get? n.name = some n := by
  have distinct := t.distinct
  unfold Table.get?
  generalize t.nodes = nodes at member distinct
  induction nodes with
  | nil => cases member
  | cons first rest ih =>
    rw [List.map_cons,List.nodup_cons] at distinct
    rcases List.mem_cons.1 member with rfl | member
    · simp
    · have other : first.name ≠ n.name := fun same => distinct.1 (List.mem_map.2 ⟨n,member,same.symm⟩)
      rw [List.find?_cons_of_neg (by simpa using other)]
      exact ih member distinct.2

def Extends (t t' : NodeTable) : Prop := ∀ node ∈ t.nodes, node ∈ t'.nodes

theorem Extends.get? (extension : t.Extends t') (found : t.get? name = some n) : t'.get? name = some n := by
  have same : n.name = name := by simpa using List.find?_some found
  rw [← same]
  exact get?_of_mem (extension n (List.mem_of_find?_eq_some found))

theorem insert_extends (t : NodeTable) (n : Node) : t.Extends (t.insert n) := by
  intro node member
  rw [Table.nodes_insert]
  split
  · exact member
  · exact List.mem_append_left _ member

theorem mem_insert (fresh : n.name ∉ t.names) : n ∈ (t.insert n).nodes := by
  rw [Table.nodes_insert,Node.definition_name,if_neg fresh]
  simp

theorem mem_of_mem_insert {node : Node} (member : node ∈ (t.insert n).nodes) : node ∈ t.nodes ∨ node = n := by
  rw [Table.nodes_insert] at member
  split at member
  · exact .inl member
  · simpa using member

theorem nodes_insertAll {ns : List Node} (distinct : (t.names ++ ns.map Node.name).Nodup) :
    (t.insertAll ns).value.nodes = t.nodes ++ ns := by
  induction ns generalizing t with
  | nil => simp [Table.insertAll]
  | cons n rest ih =>
    have fresh : n.name ∉ t.names := by
      intro taken
      exact (List.nodup_append.1 distinct).2.2 n.name taken n.name List.mem_cons_self rfl
    have nodes : (t.insert n).nodes = t.nodes ++ [n] := by
      rw [Table.nodes_insert,Node.definition_name,if_neg fresh]
    have names : (t.insert n).names = t.names ++ [n.name] := by
      rw [Table.names,nodes,List.map_append]
      rfl
    rw [Table.insertAll,ih (by rwa [names,List.append_assoc]),nodes,List.append_assoc]
    rfl

/-- Where nothing is reported every node is found as it was given. -/
theorem insertAll_spec {ns : List Node} (clean : (t.insertAll ns).log = []) :
    t.Extends (t.insertAll ns).value ∧ ∀ node ∈ ns, (t.insertAll ns).value.get? node.name = some node := by
  induction ns generalizing t with
  | nil => exact ⟨fun _ => id,nofun⟩
  | cons n rest ih =>
    rw [Table.insertAll] at clean ⊢
    obtain ⟨unreported,clean⟩ := List.append_eq_nil_iff.1 clean
    obtain ⟨extension,found⟩ := ih clean
    have stored : (t.insert n).get? n.name = some n := by
      cases kept : t.get? n.name with
      | none => exact get?_of_mem (mem_insert (Table.get?_eq_none_iff.1 kept))
      | some node =>
        rw [Table.insertEvents,Node.definition_name,kept] at unreported
        have same : node = n := by simpa using unreported
        subst same
        exact (insert_extends t node).get? kept
    refine ⟨fun node member => extension node (insert_extends t n node member),List.forall_mem_cons.2 ⟨?_,found⟩⟩
    exact extension.get? stored

/-- A merge without conflicts finds every node as it was given. -/
theorem mergeNodes_spec {ns : List Node} (merged : (t.mergeNodes ns).2 = []) :
    t.Extends (t.mergeNodes ns).1 ∧ (∀ node ∈ ns, node ∈ (t.mergeNodes ns).1.nodes) ∧
      ∀ node ∈ (t.mergeNodes ns).1.nodes, node ∈ t.nodes ∨ node ∈ ns := by
  induction ns generalizing t with
  | nil => exact ⟨fun _ => id,fun _ member => (List.not_mem_nil member).elim,fun _ => .inl⟩
  | cons n rest ih =>
    rw [Table.mergeNodes] at merged ⊢
    by_cases clash : t.clashes n = true
    · rw [if_pos clash] at merged
      cases merged
    · rw [if_neg clash] at merged ⊢
      obtain ⟨extension,found,origin⟩ := ih merged
      have stored : n ∈ (t.insert n).nodes := by
        by_cases fresh : n.name ∈ t.names
        · -- the name is taken, by the same definition since there is no clash
          cases kept : t.get? n.name with
          | none => exact (Table.get?_eq_none_iff.1 kept fresh).elim
          | some node =>
            simp only [Table.clashes,Node.definition_name,kept,Node.definition_same] at clash
            obtain rfl : node = n := by simpa using clash
            exact insert_extends t node node (List.mem_of_find?_eq_some kept)
        · exact mem_insert fresh
      refine ⟨fun node member => extension node (insert_extends t n node member),?_,?_⟩
      · intro node member
        rcases List.mem_cons.1 member with rfl | member
        · exact extension node stored
        · exact found node member
      · intro node member
        rcases origin node member with member | member
        · rcases mem_of_mem_insert member with member | rfl
          · exact .inl member
          · exact .inr List.mem_cons_self
        · exact .inr (List.mem_cons_of_mem n member)

theorem addRules_spec {contributions : List (Contribution Node)} (added : (t.addRules true contributions).value = .ok t') :
    t.Extends t' ∧ (∀ part ∈ contributions, ∀ node ∈ part.own.value.nodes, node ∈ t'.nodes) ∧
      ∀ node ∈ t'.nodes, node ∈ t.nodes ∨ ∃ part ∈ contributions, node ∈ part.own.value.nodes := by
  induction contributions generalizing t with
  | nil =>
    cases added
    exact ⟨fun _ => id,fun _ member => (List.not_mem_nil member).elim,fun _ => .inl⟩
  | cons first rest ih =>
    rw [Table.addRules] at added
    split at added
    · cases added
    · dsimp only at added
      split at added
      · cases added
      · rename_i merged
        have merged : (t.mergeNodes first.own.value.nodes).2 = [] := by simpa [Table.merge] using merged
        obtain ⟨extension,found,origin⟩ := mergeNodes_spec merged
        obtain ⟨extension',found',origin'⟩ := ih added
        refine ⟨fun node member => extension' node (extension node member),?_,?_⟩
        · intro part member node inside
          rcases List.mem_cons.1 member with rfl | member
          · exact extension' node (found node inside)
          · exact found' part member node inside
        · intro node member
          rcases origin' node member with member | ⟨part,member,inside⟩
          · rcases origin node member with member | inside
            · exact .inl member
            · exact .inr ⟨first,List.mem_cons_self,inside⟩
          · exact .inr ⟨part,List.mem_cons_of_mem first member,inside⟩

end NodeTable

theorem Rule.root_mem (rule : Rule) : ∃ node ∈ rule.lower, node.name = rule.name := by
  unfold lower
  split
  · exact ⟨_,List.mem_append_right _ (List.mem_singleton_self _),rfl⟩
  · exact ⟨_,List.mem_append_right _ (List.mem_singleton_self _),rfl⟩
  · exact ⟨_,List.mem_append_right _ (List.mem_singleton_self _),rfl⟩
  · exact Expr.root_mem rule.skips rule.expr _
  · exact Expr.root_mem rule.skips rule.expr _
  · exact Expr.root_mem rule.skips rule.expr _

theorem Rule.nodes_table (rule : Rule) : rule.table.value.nodes = rule.lower := by
  rw [table,NodeTable.nodes_insertAll]
  · exact List.nil_append _
  · exact rule.lower_tidy.nodup

structure NodeTable.Compiled (table : NodeTable) (rules : List Rule) : Prop where
  distinct : (rules.map Rule.name).Nodup
  unreserved : ∀ rule ∈ rules, rule.name ∉ builtinNames
  defined : ∀ rule ∈ rules, ∀ name ∈ rule.expr.idents, name ∈ rules.map Rule.name ++ builtinNames
  builtin : ∀ node ∈ builtins, table.get? node.name = some node
  lowered : ∀ rule ∈ rules, ∀ node ∈ rule.lower, table.get? node.name = some node
  separators : table.separators = Table.separatorNames.filter (· ∈ rules.map Rule.name)

namespace NodeTable

def start : NodeTable := (Table.empty.addBuiltins : Logged NodeTable).value

theorem nodes_start : start.nodes = builtins := by
  rw [start,Table.addBuiltins,nodes_insertAll]
  · rfl
  · decide

theorem ofRules_iff {rules : List Rule} {strict : Bool} {table : NodeTable} : (ofRules rules strict).value = .ok table ↔
    (strict = true → Valid rules) ∧ (start.addRules strict (rules.map Rule.contribution)).value = .ok table := by
  have added : (Table.ofContributions strict (rules.map Rule.contribution) : Logged (Except AssemblyFault NodeTable)).value =
      (start.addRules strict (rules.map Rule.contribution)).value := by
    unfold Table.ofContributions
    dsimp only
    split <;> (rename_i built; exact built.symm)
  cases strict with
  | false => exact (congrArg (· = _) added).to_iff.trans (and_iff_right nofun).symm
  | true =>
    rw [ofRules,if_pos rfl,← validate_iff]
    cases validity : validate rules with
    | error fault => exact iff_of_false nofun fun both => nomatch both.1 rfl
    | ok valid => exact (congrArg (· = _) added).to_iff.trans (and_iff_right fun _ => rfl).symm

theorem compiled_of_ofRules {rules : List Rule} {table : NodeTable} (accepted : (ofRules rules true).value = .ok table) :
    table.Compiled rules := by
  obtain ⟨valid,added⟩ := ofRules_iff.1 accepted
  have valid := valid rfl
  obtain ⟨extension,found,origin⟩ := addRules_spec added
  rw [Extends,nodes_start] at extension
  have lowered : ∀ rule ∈ rules, ∀ node ∈ rule.lower, node ∈ table.nodes := by
    intro rule member node inside
    refine found rule.contribution (List.mem_map_of_mem member) node ?_
    rw [← rule.nodes_table] at inside
    exact inside
  refine ⟨valid.distinct,valid.unreserved,valid.resolved,fun node member => get?_of_mem (extension node member),?_,?_⟩
  · intro rule member node inside
    exact get?_of_mem (lowered rule member node inside)
  · refine List.filter_congr fun name separator => ?_
    rw [Bool.eq_iff_iff,Table.contains_iff,decide_eq_true_eq]
    constructor
    · intro present
      obtain ⟨node,member,rfl⟩ := List.mem_map.1 present
      rcases origin node member with builtin | ⟨part,listed,inside⟩
      · rw [nodes_start] at builtin
        have : ∀ node ∈ builtins, node.name ∉ Table.separatorNames := by decide
        exact (this node builtin separator).elim
      · obtain ⟨rule,member,rfl⟩ := List.mem_map.1 listed
        have inside : node ∈ rule.lower := by
          rw [← rule.nodes_table]
          exact inside
        have plain : ∀ name ∈ Table.separatorNames, '_' ∉ name.toList := by decide
        have same := (rule.lower_tidy.within node inside).eq_of_plain (plain _ separator)
        exact List.mem_map.2 ⟨rule,member,same.symm⟩
    · intro present
      obtain ⟨rule,member,rfl⟩ := List.mem_map.1 present
      obtain ⟨node,inside,same⟩ := rule.root_mem
      exact List.mem_map.2 ⟨node,lowered rule member node inside,same⟩

end NodeTable

end TypedPeg
