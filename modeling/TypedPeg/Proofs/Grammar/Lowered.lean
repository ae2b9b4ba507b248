import Mathlib.Data.List.Forall2
import TypedPeg.Proofs.Assembly.Lookup
import TypedPeg.Proofs.Grammar.Semantics
import TypedPeg.Proofs.Node.Parts

/-! The nodes of an expression read back. What is found under the name of an expression is the node
that was made from it, and what is found under the names in that node are its parts. -/
namespace TypedPeg

/-- The nodes of an expression are found under a name, and all that they refer to is defined. -/
structure Lowered (table : NodeTable) (rules : List Rule) (skip : Bool) (name : String) (e : Expr) : Prop where
  found : ∀ node ∈ e.lower skip (.own name), table.get? node.name = some node
  defined : ∀ ref ∈ e.idents, ref ∈ rules.map Rule.name ++ builtinNames

variable {table : NodeTable} {rules : List Rule} {skip : Bool} {name : String}

namespace Lowered

theorem chain {es : List Expr} {i : Nat} (found : ∀ node ∈ Expr.chainNodes skip name es i, table.get? node.name = some node)
    (defined : ∀ e ∈ es, ∀ ref ∈ e.idents, ref ∈ rules.map Rule.name ++ builtinNames) :
    List.Forall₂ (Lowered table rules skip) (es.mapIdx fun j _ => NodeName.element name (i + j)) es := by
  induction es generalizing i with
  | nil => exact .nil
  | cons e rest ih =>
    rw [List.mapIdx_cons]
    refine .cons ⟨fun node member => found node (List.mem_append_left _ member),defined e List.mem_cons_self⟩ ?_
    have others := ih (i := i + 1) (fun node member => found node (List.mem_append_right _ member))
      fun e member => defined e (List.mem_cons_of_mem _ member)
    have shift (j : Nat) : i + 1 + j = i + (j + 1) := by omega
    simpa only [shift] using others

theorem terminal {e : Expr} {t : Terminal} (lowered : Lowered table rules skip name e) (leaf : e.terminal? = some t) :
    table.get? name = some ⟨name,e.render,.terminal t⟩ := by
  cases e <;> cases leaf <;> exact lowered.found _ (List.mem_singleton_self _)

theorem ref {target : String} (lowered : Lowered table rules skip name (.ref target)) :
    table.get? name = some ⟨name,(Expr.ref target).render,.alias target⟩ ∧ target ∈ rules.map Rule.name ++ builtinNames :=
  ⟨lowered.found _ (List.mem_singleton_self _),lowered.defined target (List.mem_singleton_self _)⟩

theorem tag {e : Expr} {field : String} (lowered : Lowered table rules skip name (.tag e field)) : Lowered table rules skip name e :=
  ⟨lowered.found,lowered.defined⟩

private theorem inner {e : Expr} {part label : String} (body : String → Body)
    (found : ∀ node ∈ e.lower skip (.own part) ++ [⟨name,label,body (e.compile skip (.own part)).names⟩], table.get? node.name = some node)
    (defined : ∀ ref ∈ e.idents, ref ∈ rules.map Rule.name ++ builtinNames) :
    table.get? name = some ⟨name,label,body part⟩ ∧ Lowered table rules skip part e := by
  rw [Expr.compile_own] at found
  exact ⟨found _ (List.mem_append_right _ (List.mem_singleton_self _)),
    fun node member => found node (List.mem_append_left _ member),defined⟩

variable {e lhs rhs : Expr}

theorem opt (lowered : Lowered table rules skip name (.opt e)) :
    table.get? name = some ⟨name,(Expr.opt e).render,.optional (NodeName.optionBody name)⟩ ∧
      Lowered table rules skip (NodeName.optionBody name) e := inner .optional lowered.found lowered.defined

theorem rep (lowered : Lowered table rules skip name (.rep e)) :
    table.get? name = some ⟨name,(Expr.rep e).render,.list (NodeName.repetitionBody name) skip⟩ ∧
      Lowered table rules skip (NodeName.repetitionBody name) e := inner (.list · skip) lowered.found lowered.defined

theorem followedBy (lowered : Lowered table rules skip name (.followedBy e)) :
    table.get? name = some ⟨name,(Expr.followedBy e).render,.lookahead (NodeName.only name) false⟩ ∧
      Lowered table rules skip (NodeName.only name) e := inner (.lookahead · false) lowered.found lowered.defined

theorem notFollowedBy (lowered : Lowered table rules skip name (.notFollowedBy e)) :
    table.get? name = some ⟨name,(Expr.notFollowedBy e).render,.lookahead (NodeName.only name) true⟩ ∧
      Lowered table rules skip (NodeName.only name) e := inner (.lookahead · true) lowered.found lowered.defined

theorem restore (lowered : Lowered table rules skip name (.restore e)) :
    table.get? name = some ⟨name,(Expr.restore e).render,.restore (NodeName.only name)⟩ ∧
      Lowered table rules skip (NodeName.only name) e := inner .restore lowered.found lowered.defined

theorem push (lowered : Lowered table rules skip name (.push e)) :
    table.get? name = some ⟨name,(Expr.push e).render,.push (NodeName.only name)⟩ ∧
      Lowered table rules skip (NodeName.only name) e := inner .push lowered.found lowered.defined

theorem choice (lowered : Lowered table rules skip name (.choice lhs rhs)) :
    table.get? name = some ⟨name,(Expr.choice lhs rhs).render,.sum ((Expr.choice lhs rhs).elementNames .choice name)⟩ ∧
      List.Forall₂ (Lowered table rules skip) ((Expr.choice lhs rhs).elementNames .choice name)
        ((Expr.choice lhs rhs).elements .choice) := by
  obtain ⟨found,defined⟩ := lowered
  rw [Expr.lower_choice] at found
  refine ⟨found _ (List.mem_append_right _ (List.mem_singleton_self _)),?_⟩
  have parts := chain (fun node member => found node (List.mem_append_left _ member))
    fun e member ref inside => defined ref (Expr.idents_of_mem_elements member inside)
  simp only [Nat.zero_add] at parts
  exact parts

theorem seq (lowered : Lowered table rules skip name (.seq lhs rhs)) :
    table.get? name = some ⟨name,(Expr.seq lhs rhs).render,.product (NodeName.element name 0 ::
        (rhs.elements .seq).mapIdx fun j _ => NodeName.element name (j + 1)) (Expr.seq lhs rhs).fieldNames skip⟩ ∧
      Lowered table rules skip (NodeName.element name 0) lhs ∧
      List.Forall₂ (Lowered table rules skip) ((rhs.elements .seq).mapIdx fun j _ => NodeName.element name (j + 1))
        (rhs.elements .seq) := by
  obtain ⟨found,defined⟩ := lowered
  rw [Expr.lower_seq] at found
  have names : (Expr.seq lhs rhs).elementNames .seq name =
      NodeName.element name 0 :: (rhs.elements .seq).mapIdx fun j _ => NodeName.element name (j + 1) := by
    rw [Expr.elementNames,Expr.elements,List.mapIdx_cons]
  have whole := found _ (List.mem_append_right _ (List.mem_singleton_self _))
  have parts := chain (fun node member => found node (List.mem_append_left _ member))
    fun e member ref inside => defined ref (Expr.idents_of_mem_elements member inside)
  simp only [Nat.zero_add] at parts
  rw [Expr.elements,List.mapIdx_cons] at parts
  rw [names] at whole
  obtain _ | ⟨first,others⟩ := parts
  exact ⟨whole,first,others⟩

end Lowered

/-- The node has another node at work, for which it sets the flag. -/
def Node.Wraps (node : Node) (flag : Bool) (part : String) : Prop := node.body = .scope part flag ∨ node.body = .atomic part ∧ flag = true

/-- A rule is its expression, unless it sets or clears the flag. -/
theorem Rule.lowered (compiled : table.Compiled rules) {rule : Rule} (member : rule ∈ rules) :
    (∀ atomic, rule.kind.flag atomic = atomic) ∧ Lowered table rules rule.skips rule.name rule.expr ∨
      ∃ node flag, table.get? rule.name = some node ∧ node.Wraps flag (NodeName.ruleBody rule.name) ∧
        (∀ atomic, rule.kind.flag atomic = flag) ∧ Lowered table rules rule.skips (NodeName.ruleBody rule.name) rule.expr := by
  have found := compiled.lowered rule member
  have defined := compiled.defined rule member
  rw [Rule.lower_eq] at found
  have wrapped {body : Body} (found : ∀ node ∈ rule.expr.lower rule.skips (.own (NodeName.ruleBody rule.name)) ++
      [⟨rule.name,rule.expr.render,body⟩], table.get? node.name = some node) :
      table.get? rule.name = some ⟨rule.name,rule.expr.render,body⟩ ∧
        Lowered table rules rule.skips (NodeName.ruleBody rule.name) rule.expr :=
    ⟨found _ (List.mem_append_right _ (List.mem_singleton_self _)),fun node member => found node (List.mem_append_left _ member),defined⟩
  cases kind : rule.kind with
  | normal | silent | unknown _ _ =>
    rw [kind] at found
    exact .inl ⟨fun _ => rfl,found,defined⟩
  | atomic =>
    rw [kind] at found
    exact .inr ⟨_,true,(wrapped found).1,.inr ⟨rfl,rfl⟩,fun _ => rfl,(wrapped found).2⟩
  | compoundAtomic =>
    rw [kind] at found
    exact .inr ⟨_,true,(wrapped found).1,.inl rfl,fun _ => rfl,(wrapped found).2⟩
  | nonAtomic =>
    rw [kind] at found
    exact .inr ⟨_,false,(wrapped found).1,.inl rfl,fun _ => rfl,(wrapped found).2⟩

theorem builtinTerminal?_eq_none (foreign : name ∉ builtinNames) : builtinTerminal? name = none := by
  simp only [builtinNames,builtins,List.map_cons,List.map_nil,List.mem_cons,List.not_mem_nil,or_false,not_or] at foreign
  obtain ⟨any,soi,eoi,newline⟩ := foreign
  rw [builtinTerminal?,if_neg any,if_neg soi,if_neg eoi,if_neg newline]

theorem NodeTable.Compiled.terminal (compiled : table.Compiled rules) (builtin : name ∈ builtinNames) :
    ∃ node t, table.get? name = some node ∧ node.body = .terminal t ∧ builtinTerminal? name = some t := by
  obtain ⟨node,member,rfl⟩ := List.mem_map.1 builtin
  have terminals : ∀ node ∈ builtins, ∃ t, node.body = .terminal t ∧ builtinTerminal? node.name = some t := by
    simp [builtins,builtinTerminal?]
  obtain ⟨t,body,terminal⟩ := terminals node member
  exact ⟨node,t,compiled.builtin node member,body,terminal⟩

theorem NodeTable.Compiled.definite (compiled : table.Compiled rules) : Means.Definite rules :=
  ⟨compiled.distinct,fun rule member => builtinTerminal?_eq_none (compiled.unreserved rule member)⟩

end TypedPeg
