import TypedPeg.Proofs.Assembly.Collisions
import TypedPeg.Proofs.Assembly.Extension

/-! How tables change. Whatever is done to a table, what comes of it is what comes of inserting a list of nodes
one after the other; names are added at the end and keep their first definition, and doing the same once
more does nothing. -/
namespace TypedPeg.NodeTable

variable {t : NodeTable} {n m : Node} {ns : List Node} {name : String}

theorem insert_of_taken (taken : n.name ∈ t.names) : t.insert n = t := dif_neg (not_not_intro taken)

theorem get?_insert_self (t : NodeTable) (n : Node) : (t.insert n).get? n.name = some (t.stored n) := by
  rw [Table.stored,Node.definition_name]
  cases found : t.get? n.name with
  | none => exact get?_of_mem (mem_insert (Table.get?_eq_none_iff.1 found))
  | some kept => exact Extends.get? (insert_extends t n) found

theorem get?_insert_of_ne (other : name ≠ n.name) : (t.insert n).get? name = t.get? name := by
  rw [Table.get?,Table.nodes_insert]
  split
  · rfl
  · rw [List.find?_append]
    simp [other.symm,Table.get?]

theorem stored_insert_of_ne (other : m.name ≠ n.name) : (t.insert n).stored m = t.stored m := by
  rw [Table.stored,Table.stored,Node.definition_name,get?_insert_of_ne other]

theorem stored_of_get? (found : t.get? n.name = some m) : t.stored n = m := by
  rw [Table.stored,Node.definition_name,found]
  rfl

/-- The name of a node is taken by another definition if that is what is found under it. -/
theorem clashes_eq (t : NodeTable) (n : Node) : t.clashes n = decide (t.stored n ≠ n) := by
  unfold Table.clashes Table.stored
  cases t.get? (Definition.name n) with
  | none => simp
  | some kept => simp

theorem insertAll_keeps (t : NodeTable) (ns : List Node) : t.nodes <+: (t.insertAll ns).value.nodes := by
  induction ns generalizing t with
  | nil => exact List.prefix_refl _
  | cons n rest ih => exact (insert_keeps t n).trans (ih (t.insert n))

theorem insertAll_of_taken (taken : ∀ n ∈ ns, n.name ∈ t.names) : (t.insertAll ns).value = t := by
  induction ns with
  | nil => rfl
  | cons n rest ih =>
    obtain ⟨first,others⟩ := List.forall_mem_cons.1 taken
    show ((t.insert n).insertAll rest).value = t
    rw [insert_of_taken first]
    exact ih others

/-- Under the name of a node there is afterwards what was there, or else the node. -/
theorem get?_insertAll (distinct : (ns.map Node.name).Nodup) (member : n ∈ ns) :
    (t.insertAll ns).value.get? n.name = some (t.stored n) := by
  induction ns generalizing t with
  | nil => cases member
  | cons m rest ih =>
    obtain ⟨fresh,distinct⟩ := List.nodup_cons.1 distinct
    show ((t.insert m).insertAll rest).value.get? n.name = some (t.stored n)
    rcases List.mem_cons.1 member with rfl | member
    · have extension : Extends (t.insert n) ((t.insert n).insertAll rest).value := fun _ inside => (insertAll_keeps _ rest).subset inside
      exact extension.get? (get?_insert_self t n)
    · have other : n.name ≠ m.name := fun same => fresh (same ▸ List.mem_map_of_mem member)
      rw [ih distinct member,stored_insert_of_ne other]

theorem taken_insertAll (t : NodeTable) (ns : List Node) : ∀ n ∈ ns, n.name ∈ (t.insertAll ns).value.names := by
  induction ns generalizing t with
  | nil => nofun
  | cons m rest ih =>
    refine List.forall_mem_cons.2 ⟨?_,ih (t.insert m)⟩
    have here := get?_insert_self t m
    have kept := (insertAll_keeps (t.insert m) rest).subset (List.mem_of_find?_eq_some here)
    have named : (t.stored m).name = m.name := by simpa using List.find?_some here
    exact named ▸ List.mem_map_of_mem kept

/-- A merge leaves out what an insertion would ignore. -/
theorem mergeNodes_eq_insertAll (t : NodeTable) (ns : List Node) : (t.mergeNodes ns).1 = (t.insertAll ns).value := by
  induction ns generalizing t with
  | nil => rfl
  | cons n rest ih =>
    show (t.mergeNodes (n :: rest)).1 = ((t.insert n).insertAll rest).value
    rw [Table.mergeNodes]
    split
    · rename_i clash
      obtain ⟨node,member,same,-⟩ := clashes_iff.1 clash
      have taken : n.name ∈ t.names := same ▸ List.mem_map_of_mem member
      rw [insert_of_taken taken]
      exact ih t
    · exact ih (t.insert n)

theorem mergeNodes_conflicts (distinct : (ns.map Node.name).Nodup) :
    (t.mergeNodes ns).2 = (ns.filter fun n => t.stored n ≠ n).map Node.name := by
  induction ns generalizing t with
  | nil => rfl
  | cons n rest ih =>
    obtain ⟨fresh,distinct⟩ := List.nodup_cons.1 distinct
    rw [Table.mergeNodes,clashes_eq]
    split
    · rename_i clash
      rw [List.filter_cons,if_pos clash,List.map_cons,← ih distinct]
      rfl
    · rename_i agrees
      rw [List.filter_cons,if_neg agrees,ih distinct]
      -- the node inserted has another name than those behind it
      refine congrArg _ (List.filter_congr fun m member => ?_)
      rw [stored_insert_of_ne fun same => fresh (same ▸ List.mem_map_of_mem member)]

inductive Change where
  | insert (n : Node)
  | merge (other : NodeTable)
  | compile (e : Expr) (name : String) (skip : Bool)
  | builtins

inductive Answer where
  | stored (n : Node)
  | conflicts (names : List String)
  | named (name : String)
  | done

namespace Change

def on (t : NodeTable) : Change → NodeTable × Answer
  | .insert n => (t.insert n,.stored (t.stored n))
  | .merge other => ((t.merge other).1,.conflicts (t.merge other).2)
  | .compile e name skip => ((t.addExpr e name skip).value,.named (t.addExpr e name skip).name)
  | .builtins => (t.addBuiltins.value,.done)

def run (t : NodeTable) (changes : List Change) : NodeTable := changes.foldl (fun t change => (change.on t).1) t

def nodes : Change → List Node
  | .insert n => [n]
  | .merge other => other.nodes
  | .compile e name skip => e.lower skip (.own name)
  | .builtins => TypedPeg.builtins

variable {change : Change}

theorem on_eq_insertAll (change : Change) (t : NodeTable) : (change.on t).1 = (t.insertAll change.nodes).value := by
  cases change with
  | merge other => exact mergeNodes_eq_insertAll t other.nodes
  | insert n | compile e name skip | builtins => rfl

theorem on_keeps (change : Change) (t : NodeTable) : t.nodes <+: (change.on t).1.nodes := by
  rw [on_eq_insertAll]
  exact insertAll_keeps t change.nodes

theorem run_keeps (t : NodeTable) (changes : List Change) : t.nodes <+: (run t changes).nodes := by
  induction changes generalizing t with
  | nil => exact List.prefix_refl _
  | cons change rest ih => exact (change.on_keeps t).trans (ih (change.on t).1)

/-- The second time the names are there and what is found under them is what was found or made the first time. -/
theorem on_again (change : Change) (t : NodeTable) : change.on (change.on t).1 = change.on t := by
  have table : (change.on (change.on t).1).1 = (change.on t).1 := by
    rw [on_eq_insertAll,on_eq_insertAll]
    exact insertAll_of_taken (taken_insertAll t change.nodes)
  refine Prod.ext table ?_
  cases change with
  | insert n => exact congrArg Answer.stored (stored_of_get? (get?_insert_self t n))
  | merge other =>
    have distinct : (other.nodes.map Node.name).Nodup := other.distinct
    show Answer.conflicts ((t.mergeNodes other.nodes).1.mergeNodes other.nodes).2 = .conflicts (t.mergeNodes other.nodes).2
    rw [mergeNodes_eq_insertAll,mergeNodes_conflicts distinct,mergeNodes_conflicts distinct]
    refine congrArg (fun names => Answer.conflicts (names.map Node.name)) (List.filter_congr fun n member => ?_)
    rw [stored_of_get? (get?_insertAll distinct member)]
  | compile e name skip | builtins => rfl

end Change

structure Keyed (t : NodeTable) : Prop where
  once : t.names.Nodup
  named : ∀ name node, t.get? name = some node → node.name = name
  defined : ∀ name ∈ t.names, ∃ node, t.get? name = some node

/-- New names come behind those there were, and these keep their definitions. -/
structure Grows (t t' : NodeTable) : Prop where
  names : t.names <+: t'.names
  kept : ∀ name node, t.get? name = some node → t'.get? name = some node

/-- What a merge comes to: the names told, in order, are those under which there is and was another definition. -/
structure Merged (t other : NodeTable) (result : NodeTable × List String) : Prop where
  told : result.2 = (other.nodes.filter fun n => result.1.get? n.name ≠ some n).map Node.name
  before : result.2 = (other.nodes.filter fun n => t.get? n.name ≠ none ∧ t.get? n.name ≠ some n).map Node.name
  others : ∀ n ∈ other.nodes, n.name ∉ result.2 → result.1.get? n.name = some n

theorem keyed (t : NodeTable) : t.Keyed where
  once := t.distinct
  named _ _ := name_of_get?
  defined _ member := Option.isSome_iff_exists.1 (Table.contains_iff.2 member)

theorem grows_of_keeps {t' : NodeTable} (keeps : t.nodes <+: t'.nodes) : t.Grows t' where
  names := keeps.map Node.name
  kept _ _ found := Extends.get? (fun _ member => keeps.subset member) found

/-- Whether it is made now or was there before, there is a node under the name that is told. -/
theorem addExpr_names (t : NodeTable) (e : Expr) (name : String) (skip : Bool) :
    (t.addExpr e name skip).name = name ∧ name ∈ (t.addExpr e name skip).value.names := by
  obtain ⟨root,member,named⟩ := e.root_mem skip name
  exact ⟨e.compile_own skip name,named ▸ taken_insertAll t (e.lower skip (.own name)) root member⟩

theorem merge_merged (t other : NodeTable) : Merged t other (t.merge other) := by
  have distinct : (other.nodes.map Node.name).Nodup := other.distinct
  have found {n : Node} (member : n ∈ other.nodes) : (t.merge other).1.get? n.name = some (t.stored n) := by
    rw [Table.merge,mergeNodes_eq_insertAll]
    exact get?_insertAll distinct member
  have conflicts : (t.merge other).2 = (other.nodes.filter fun n => t.stored n ≠ n).map Node.name := mergeNodes_conflicts distinct
  refine ⟨?_,?_,fun n member untold => ?_⟩
  · rw [conflicts]
    refine congrArg _ (List.filter_congr fun n member => ?_)
    rw [found member]
    simp
  · rw [conflicts]
    refine congrArg _ (List.filter_congr fun n member => ?_)
    rw [Table.stored,Node.definition_name]
    cases t.get? n.name <;> simp
  · rw [found member]
    by_contra other
    refine untold (conflicts ▸ List.mem_map.2 ⟨n,List.mem_filter.2 ⟨member,?_⟩,rfl⟩)
    simpa using other

/-- After any changes a table has each name once, has grown at the end and nowhere else, and goes on so; a change made
twice is made once. An insertion answers with the node that is kept under the name, a merge tells the names whose
definitions differ and stores the others, and an expression is told by the name it was given. -/
theorem changes_grow (t : NodeTable) (changes : List Change) :
    let now := Change.run t changes
    now.Keyed ∧ t.Grows now ∧ (∀ change : Change, now.Grows (change.on now).1 ∧ change.on (change.on now).1 = change.on now) ∧
      (∀ n : Node, ∃ kept, (Change.insert n).on now = (now.insert n,.stored kept) ∧ (now.insert n).get? n.name = some kept) ∧
      (∀ other : NodeTable, Merged now other (now.merge other)) ∧
      ∀ (e : Expr) (name : String) (skip : Bool), ∃ after, (Change.compile e name skip).on now = (after,.named name) ∧
        name ∈ after.names := by
  intro now
  refine ⟨keyed now,grows_of_keeps (Change.run_keeps t changes),?_,?_,merge_merged now,?_⟩
  · exact fun change => ⟨grows_of_keeps (change.on_keeps now),change.on_again now⟩
  · exact fun n => ⟨now.stored n,rfl,get?_insert_self now n⟩
  · intro e name skip
    obtain ⟨told,there⟩ := addExpr_names now e name skip
    exact ⟨_,congrArg (fun name => (_,Answer.named name)) told,there⟩

end TypedPeg.NodeTable
