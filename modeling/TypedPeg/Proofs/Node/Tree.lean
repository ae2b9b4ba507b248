import Mathlib.Data.List.Forall2
import Mathlib.Data.List.Nodup
import Mathlib.Data.List.Pairwise
import TypedPeg.Proofs.Assembly.Regular
import TypedPeg.Proofs.Node.Parts

/-! The nodes of an expression are a tree, whole behind parts, with a node for every sub-expression that is
neither a tag nor a link inside a chain. No name is made twice, so none is lost on the way into a table
and nothing is reported, neither of one rule nor of a grammar. -/
namespace TypedPeg

namespace Body

/-- The nodes of which a body is the whole. What an alias stands for is no part of it. -/
def parts : Body → List String
  | .alias _ => []
  | body => body.children

def targets : Body → List String
  | .alias target => [target]
  | _ => []

theorem children_eq (body : Body) : body.children = body.parts ++ body.targets := by
  cases body <;> simp [children,parts,targets]

end Body

/-- Trees side by side: every name is a root's or, once, that of a part of a node further on. -/
structure Forest (roots : List String) (nodes : List Node) : Prop where
  listed : (nodes.flatMap (·.body.parts) ++ roots).Perm (nodes.map Node.name)
  behind : ∀ whole ∈ nodes, ∀ part ∈ whole.body.parts, ∃ node, node.name = part ∧ [node,whole].Sublist nodes

namespace Forest

variable {roots roots' : List String} {nodes nodes' : List Node} {name label : String} {body : Body}

theorem append (first : Forest roots nodes) (others : Forest roots' nodes') : Forest (roots ++ roots') (nodes ++ nodes') where
  listed := by
    rw [List.flatMap_append,List.map_append,List.append_assoc]
    have aside := (List.perm_append_comm_assoc (nodes'.flatMap (·.body.parts)) roots roots').append_left (nodes.flatMap (·.body.parts))
    rw [← List.append_assoc (nodes.flatMap (·.body.parts)) roots] at aside
    exact aside.trans (first.listed.append others.listed)
  behind whole member part called := by
    rcases List.mem_append.1 member with member | member
    · obtain ⟨node,named,ordered⟩ := first.behind whole member part called
      exact ⟨node,named,ordered.trans (List.sublist_append_left _ _)⟩
    · obtain ⟨node,named,ordered⟩ := others.behind whole member part called
      exact ⟨node,named,ordered.trans (List.sublist_append_right _ _)⟩

theorem whole (parts : Forest roots nodes) (called : body.parts = roots) : Forest [name] (nodes ++ [⟨name,label,body⟩]) where
  listed := by
    have parts := parts.listed.append_right [name]
    simpa [called] using parts
  behind last member part inside := by
    rcases List.mem_append.1 member with member | member
    · obtain ⟨node,named,ordered⟩ := parts.behind last member part inside
      exact ⟨node,named,ordered.trans (List.sublist_append_left _ _)⟩
    · obtain rfl := List.mem_singleton.1 member
      have root : part ∈ nodes.map Node.name := parts.listed.subset (List.mem_append_right _ (called ▸ inside))
      obtain ⟨node,member,named⟩ := List.mem_map.1 root
      exact ⟨node,named,(List.singleton_sublist.2 member).append (List.Sublist.refl _)⟩

theorem empty : Forest [] [] := ⟨.nil,nofun⟩

theorem leaf (childless : body.parts = []) : Forest [name] [⟨name,label,body⟩] := whole empty childless

end Forest

/-- Nodes in order of insertion that hang together: the root comes last, every other node is listed once, by one node,
which comes behind it, and every part listed is among them. -/
structure Tree (name : String) (nodes : List Node) : Prop where
  distinct : (nodes.map Node.name).Nodup
  root : ∃ parts root, nodes = parts ++ [root] ∧ root.name = name
  top : ∀ whole ∈ nodes, name ∉ whole.body.parts
  parent : ∀ node ∈ nodes, node.name ≠ name → ∃ whole, [node,whole].Sublist nodes ∧ whole.body.parts.count node.name = 1 ∧
    ∀ other ∈ nodes, node.name ∈ other.body.parts → other = whole
  closed : ∀ whole ∈ nodes, ∀ part ∈ whole.body.parts, part ∈ nodes.map Node.name

theorem Forest.tree {name : String} {nodes : List Node} (forest : Forest [name] nodes) (distinct : (nodes.map Node.name).Nodup)
    (root : ∃ parts root, nodes = parts ++ [root] ∧ root.name = name) : Tree name nodes := by
  obtain ⟨once,-,apart⟩ := List.nodup_append.1 (forest.listed.nodup_iff.2 distinct)
  obtain ⟨each,between⟩ := List.nodup_flatMap.1 once
  have inside {whole : Node} {part : String} (member : whole ∈ nodes) (called : part ∈ whole.body.parts) :
      part ∈ nodes.flatMap (·.body.parts) := List.mem_flatMap.2 ⟨whole,member,called⟩
  refine ⟨distinct,root,?_,?_,?_⟩
  · intro whole member called
    exact apart name (inside member called) name (List.mem_singleton_self _) rfl
  · intro node member other
    have named : node.name ∈ nodes.flatMap (·.body.parts) ++ [name] := forest.listed.mem_iff.2 (List.mem_map_of_mem member)
    have called := (List.mem_append.1 named).resolve_right fun top => other (List.mem_singleton.1 top)
    obtain ⟨whole,listed,called⟩ := List.mem_flatMap.1 called
    obtain ⟨part,same,ordered⟩ := forest.behind whole listed node.name called
    -- names being distinct, the part found in front of the whole is the node
    obtain rfl : part = node := List.inj_on_of_nodup_map distinct (ordered.subset List.mem_cons_self) member same
    refine ⟨whole,ordered,List.count_eq_one_of_mem (each whole listed) called,fun other listed' called' => ?_⟩
    by_contra different
    have symm : Std.Symm (Function.onFun List.Disjoint fun node : Node => node.body.parts) :=
      ⟨fun _ _ disjoint => List.disjoint_symm disjoint⟩
    exact between.forall listed' listed different called' called
  · intro whole member part called
    exact forest.listed.subset (List.mem_append_left _ (inside member called))

namespace Slot

def each : (slot : Slot) → slot.Names → List String
  | .own _,name => [name]
  | .rest _ _ _,names => names

def roots (slot : Slot) (e : Expr) : List String := slot.each (slot.listed e)

end Slot

/-- The node of a sub-expression bears its text. -/
def Node.Shows (node : Node) (e : Expr) : Prop := node.label = e.render

namespace Expr

theorem roots_single {slot : Slot} {e : Expr} (other : ∀ link, e.link? = some link → slot.within ≠ some link) :
    slot.roots e = [slot.name] := by
  rw [Slot.roots,listed_single other]
  cases slot <;> rfl

theorem roots_cons (link : Connective) (parent : String) (i : Nat) (lhs rhs : Expr) :
    (Slot.rest link parent i).roots (join link lhs rhs) =
      [NodeName.element parent i] ++ (Slot.rest link parent (i + 1)).roots rhs := listed_cons link parent i lhs rhs

/-- What is made of an expression in a slot: the nodes of its parts, then, unless it is a tag or goes on with a chain,
one of its own. -/
theorem slot_induction (skip : Bool) {motive : Expr → Slot → List Node → Prop}
    (tag : ∀ inner name slot nodes, motive inner (.own slot.name) nodes → motive (inner.tag name) slot nodes)
    (link : ∀ link lhs rhs parent i first others, motive lhs (.own (NodeName.element parent i)) first →
      motive rhs (.rest link parent (i + 1)) others → motive (join link lhs rhs) (.rest link parent i) (first ++ others))
    (chain : ∀ link lhs rhs slot first others body, slot.within ≠ some link → body.parts = (join link lhs rhs).elementNames link slot.name →
      body.targets = [] → motive lhs (.own (NodeName.element slot.name 0)) first → motive rhs (.rest link slot.name 1) others →
        motive (join link lhs rhs) slot (first ++ others ++ [⟨slot.name,(join link lhs rhs).render,body⟩]))
    (inner : ∀ e inner slot part nodes body, e.children = [inner] → e.link? = none → (∀ inner name, e ≠ .tag inner name) →
      body.parts = [part] → body.targets = [] → motive inner (.own part) nodes → motive e slot (nodes ++ [⟨slot.name,e.render,body⟩]))
    (leaf : ∀ e slot body, e.children = [] → e.link? = none → body.parts = [] → body.targets = e.idents →
      motive e slot [⟨slot.name,e.render,body⟩])
    (e : Expr) (slot : Slot) : motive e slot (e.lower skip slot) := by
  unfold lower
  fun_induction e.compile skip slot with
  | case1 inner name slot inside ih => exact tag inner name slot _ ih
  | case2 lhs rhs parent i first others ih ih' => exact link .seq lhs rhs parent i _ _ ih ih'
  | case3 lhs rhs parent i first others ih ih' => exact link .choice lhs rhs parent i _ _ ih ih'
  | case4 lhs rhs slot other e first others ih ih' =>
    exact chain .seq lhs rhs slot _ _ _ (Slot.within_ne other) (names_eq_elementNames skip .seq slot.name lhs rhs) rfl ih ih'
  | case5 lhs rhs slot other e first others ih ih' =>
    exact chain .choice lhs rhs slot _ _ _ (Slot.within_ne other) (names_eq_elementNames skip .choice slot.name lhs rhs) rfl ih ih'
  | case6 | case7 | case8 | case9 | case10 | case11 =>
    rename_i ih
    refine inner _ _ _ _ _ _ rfl rfl ?_ (congrArg ([·]) (compile_own skip _ _)) rfl ih
    intro inner name same
    cases same
  | _ => exact leaf _ _ _ rfl rfl rfl rfl

theorem lower_forest (skip : Bool) (e : Expr) (slot : Slot) : Forest (slot.roots e) (e.lower skip slot) := by
  have single {e : Expr} {slot : Slot} (unlinked : e.link? = none) : slot.roots e = [slot.name] := by
    refine roots_single fun link linked => ?_
    rw [unlinked] at linked
    cases linked
  refine slot_induction skip (motive := fun e slot nodes => Forest (slot.roots e) nodes) ?tag ?link ?chain ?inner ?leaf e slot
  case tag =>
    intro inner name slot nodes forest
    rw [single rfl]
    exact forest
  case link =>
    intro link lhs rhs parent i first others forest forest'
    rw [roots_cons]
    exact forest.append forest'
  case chain =>
    intro link lhs rhs slot first others body other parts _ forest forest'
    have alone : slot.roots (join link lhs rhs) = [slot.name] := by
      refine roots_single fun link' linked => ?_
      cases link <;> cases linked <;> exact other
    rw [alone]
    exact (forest.append forest').whole (parts.trans
      ((elementNames_eq_listed link slot.name _).trans (roots_cons link slot.name 0 lhs rhs)))
  case inner =>
    intro e inner slot part nodes body _ unlinked _ parts _ forest
    rw [single unlinked]
    exact forest.whole parts
  case leaf =>
    intro e slot body _ unlinked parts _
    rw [single unlinked]
    exact .leaf parts

theorem lower_shows (skip : Bool) (e : Expr) (slot : Slot) : List.Forall₂ Node.Shows (e.lower skip slot) (e.wholes slot.within) := by
  have last {nodes : List Node} {es : List Expr} {node : Node} {e : Expr} (parts : List.Forall₂ Node.Shows nodes es)
      (shows : node.Shows e) :
      List.Forall₂ Node.Shows (nodes ++ [node]) (es ++ [e]) := List.rel_append parts (.cons shows .nil)
  refine slot_induction skip (motive := fun e slot nodes => List.Forall₂ Node.Shows nodes (e.wholes slot.within)) ?tag ?link
    ?chain ?inner ?leaf e slot
  case tag =>
    intro inner name slot nodes parts
    rw [wholes_tag]
    exact parts
  case link =>
    intro link lhs rhs parent i first others parts parts'
    rw [Slot.within,wholes_link]
    exact List.rel_append parts parts'
  case chain =>
    intro link lhs rhs slot first others body other _ _ parts parts'
    rw [wholes_chain lhs rhs other]
    exact last (List.rel_append parts parts') rfl
  case inner =>
    intro e inner slot part nodes body only _ untagged _ _ parts
    rw [wholes_inner only untagged]
    exact last parts rfl
  case leaf =>
    intro e slot body none _ _ _
    rw [wholes_leaf none]
    exact .cons rfl .nil

theorem partNodes_single (skip : Bool) (name suffix : String) (e : Expr) :
    partNodes skip name [(suffix,e)] = e.lower skip (.own (name ++ suffix)) := List.flatMap_singleton ..

theorem lower_root (skip : Bool) (e : Expr) (name : String) :
    ∃ parts root, e.lower skip (.own name) = parts ++ [root] ∧ root.name = name := by
  obtain ⟨parts,label,body,lowered,-⟩ := lower_parts skip e name
  exact ⟨_,_,lowered,rfl⟩

theorem lower_tree (skip : Bool) (e : Expr) (name : String) : Tree name (e.lower skip (.own name)) :=
  (lower_forest skip e (.own name)).tree (lower_tidy skip e name).nodup (lower_root skip e name)

end Expr

namespace Rule

/-- What the nodes of a rule are made of. A node that sets the flag is made of the whole body once more. -/
def wholes (rule : Rule) : List Expr := rule.expr.wholes none ++ if rule.kind.flag?.isSome then [rule.expr] else []

theorem parts_of_flag? {body : Body} (flagged : body.flag? ≠ none) : body.parts = body.children := by
  cases body with
  | atomic | scope => rfl
  | _ => exact (flagged rfl).elim

theorem lower_tree (rule : Rule) : Tree rule.name rule.lower := by
  rcases rule.lower_cases with ⟨-,lowered⟩ | ⟨body,-,flagged,children,lowered⟩
  · rw [lowered]
    exact Expr.lower_tree rule.skips rule.expr rule.name
  · have forest : Forest [rule.name] (rule.expr.lower rule.skips (.own (NodeName.ruleBody rule.name)) ++
        [⟨rule.name,rule.expr.render,body⟩]) :=
      (Expr.lower_forest rule.skips rule.expr _).whole ((parts_of_flag? flagged).trans children)
    have distinct := rule.lower_tidy.nodup
    rw [lowered,Expr.partNodes_single] at distinct ⊢
    exact forest.tree distinct ⟨_,_,rfl,rfl⟩

theorem lower_shows (rule : Rule) : List.Forall₂ Node.Shows rule.lower rule.wholes := by
  have parts (name : String) : List.Forall₂ Node.Shows (rule.expr.lower rule.skips (.own name)) (rule.expr.wholes none) :=
    Expr.lower_shows rule.skips rule.expr (.own name)
  rw [wholes]
  rcases rule.lower_cases with ⟨plain,lowered⟩ | ⟨body,same,flagged,-,lowered⟩
  · rw [lowered,plain]
    simpa using parts rule.name
  · have flagged : rule.kind.flag?.isSome = true := Option.isSome_iff_ne_none.2 (same ▸ flagged)
    rw [lowered,if_pos flagged,Expr.partNodes_single]
    exact List.rel_append (parts _) (.cons rfl .nil)

end Rule

namespace NodeTable

variable {t : NodeTable}

theorem insertEvents_eq_nil {n : Node} : t.insertEvents n = [] ↔ t.clashes n = false := by
  unfold Table.insertEvents Table.clashes
  cases t.get? (Definition.name n) with
  | none => exact iff_of_true rfl rfl
  | some kept =>
    dsimp only
    cases Definition.same kept n <;> simp

theorem clashes_of_fresh {n : Node} (fresh : n.name ∉ t.names) : t.clashes n = false := by
  rw [Table.clashes,Node.definition_name,Table.get?_eq_none_iff.2 fresh]

theorem names_insertAll {ns : List Node} (distinct : (t.names ++ ns.map Node.name).Nodup) :
    (t.insertAll ns).value.names = t.names ++ ns.map Node.name := by
  rw [Table.names,nodes_insertAll distinct,List.map_append]
  rfl

/-- Where no name is taken nothing is reported. -/
theorem log_insertAll {ns : List Node} (distinct : (t.names ++ ns.map Node.name).Nodup) : (t.insertAll ns).log = [] := by
  induction ns generalizing t with
  | nil => rfl
  | cons n rest ih =>
    have fresh : n.name ∉ t.names := fun taken => (List.nodup_append.1 distinct).2.2 n.name taken n.name List.mem_cons_self rfl
    have names : (t.insert n).names = t.names ++ [n.name] := by
      rw [Table.names,Table.nodes_insert,Node.definition_name,if_neg fresh,List.map_append]
      rfl
    rw [Table.insertAll,insertEvents_eq_nil.2 (clashes_of_fresh fresh),ih (by rwa [names,List.append_assoc])]
    rfl

theorem addRules_quiet {strict : Bool} {parts : List (Contribution Node)} (clean : ∀ part ∈ parts, part.own.log = [])
    (name kept ignored : String) : Event.redefinition name kept ignored ∉ (t.addRules strict parts).log := by
  induction parts generalizing t with
  | nil => exact List.not_mem_nil
  | cons part rest ih =>
    obtain ⟨own,others⟩ := List.forall_mem_cons.1 clean
    rw [Table.addRules]
    split
    · exact List.not_mem_nil
    · dsimp only
      split
      · rw [own]
        exact List.not_mem_nil
      · rw [own]
        have later := ih others (t := (t.merge part.own.value).1)
        split <;> simpa using later

end NodeTable

/-- What comes of a list of nodes put into an empty table one after the other. -/
structure Planted (name : String) (es : List Expr) (nodes : List Node) (added : Logged NodeTable) : Prop where
  fresh : ∀ before node after, nodes = before ++ node :: after → node.name ∉ (Table.empty.insertAll before : Logged NodeTable).value.names
  stored : added.value.nodes = nodes
  silent : added.log = []
  tree : Tree name nodes
  /-- There is one node to each of the expressions. -/
  each : List.Forall₂ Node.Shows nodes es

theorem Tree.planted {name : String} {es : List Expr} {nodes : List Node} (tree : Tree name nodes)
    (each : List.Forall₂ Node.Shows nodes es) :
    Planted name es nodes (Table.empty.insertAll nodes) where
  fresh before node after split := by
    have distinct := tree.distinct
    rw [split,List.map_append,List.map_cons] at distinct
    obtain ⟨front,-,apart⟩ := List.nodup_append.1 distinct
    have names : (Table.empty.insertAll before : Logged NodeTable).value.names = before.map Node.name := NodeTable.names_insertAll front
    rw [names]
    exact fun taken => apart node.name taken node.name List.mem_cons_self rfl
  stored := NodeTable.nodes_insertAll tree.distinct
  silent := NodeTable.log_insertAll tree.distinct
  tree := tree
  each := each

/-- The nodes of every expression, and of every rule of every kind, go into an empty table without loss and hang together
as a tree, one to each sub-expression that is neither a tag nor a link inside a chain. An expression is referred to by
the name it was given, so by that of its root. What a merge inserts is not reported either; so of a grammar no
redefinition is. -/
theorem NodeTable.lowered_planted :
    (∀ (e : Expr) (name : String) (skip : Bool),
      Planted name (e.wholes none) (e.lower skip (.own name)) (addExpr .empty e name skip).toLogged ∧
        ∀ t : NodeTable, (t.addExpr e name skip).name = name) ∧
    (∀ rule : Rule, Planted rule.name rule.wholes rule.lower rule.table) ∧
    (∀ (t : NodeTable) (n : Node), t.clashes n = false → t.insertEvents n = []) ∧
    ∀ (rules : List Rule) (strict : Bool) (name kept ignored : String),
      Event.redefinition name kept ignored ∉ (ofRules rules strict).log := by
  have planted (rule : Rule) : Planted rule.name rule.wholes rule.lower rule.table := rule.lower_tree.planted rule.lower_shows
  have planted' (e : Expr) (name : String) (skip : Bool) :
      Planted name (e.wholes none) (e.lower skip (.own name)) (addExpr .empty e name skip).toLogged :=
    (e.lower_tree skip name).planted (e.lower_shows skip (.own name))
  refine ⟨fun e name skip => ⟨planted' e name skip,fun _ => e.compile_own skip name⟩,planted,
    fun t n => insertEvents_eq_nil.2,fun rules strict name kept ignored => ?_⟩
  have clean : ∀ part ∈ rules.map Rule.contribution, part.own.log = [] := List.forall_mem_map.2 fun rule _ => (planted rule).silent
  have builtins : (Table.empty.addBuiltins : Logged NodeTable).log = [] := log_insertAll (by decide)
  have quiet : Event.redefinition name kept ignored ∉ (Table.empty.addBuiltins.value.addRules strict (rules.map Rule.contribution)).log :=
    addRules_quiet clean name kept ignored
  unfold ofRules
  split
  · exact List.not_mem_nil
  · unfold Table.ofContributions
    dsimp only
    rw [builtins]
    split <;> simpa using quiet

end TypedPeg
