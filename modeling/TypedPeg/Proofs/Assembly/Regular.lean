import TypedPeg.Proofs.Assembly.Lookup

/-! What nodes the table of a grammar can hold, be the grammar valid or not: builtins, and what its
rules are lowered to. So all can be run, its products have a name for every field, and its sums an
alternative. -/
namespace TypedPeg

/-- The body can be run; a product has a name for every field, and a sum has an alternative. -/
def Body.Regular : Body → Prop
  | .declared => False
  | .product fields names _ => names.length = fields.length
  | .sum variants => variants ≠ []
  | _ => True

theorem Body.Regular.ne_sum_nil {body : Body} (regular : body.Regular) : body ≠ .sum [] := by
  rintro rfl
  exact regular rfl

theorem Expr.lower_regular (skip : Bool) (e : Expr) (slot : Slot) : ∀ node ∈ e.lower skip slot, node.body.Regular := by
  have behind {nodes : List Node} {node : Node} (others : ∀ n ∈ nodes, n.body.Regular) (regular : node.body.Regular) :
      ∀ n ∈ nodes ++ [node], n.body.Regular := List.forall_mem_append.2 ⟨others,List.forall_mem_singleton.2 regular⟩
  have both {nodes nodes' : List Node} (first : ∀ n ∈ nodes, n.body.Regular) (others : ∀ n ∈ nodes', n.body.Regular) :
      ∀ n ∈ nodes ++ nodes', n.body.Regular := List.forall_mem_append.2 ⟨first,others⟩
  unfold lower
  fun_induction e.compile skip slot with
  | case1 inner name slot inside ih => exact ih
  | case2 lhs rhs parent i first others ih ih' => exact both ih ih'
  | case3 lhs rhs parent i first others ih ih' => exact both ih ih'
  | case4 lhs rhs slot _ e first others ih ih' =>
    have names : first.names :: others.names = e.elementNames .seq slot.name := names_eq_elementNames skip .seq slot.name lhs rhs
    have named : e.fieldNames.length = (first.names :: others.names).length := by
      rw [names]
      simp [fieldNames,elementNames]
    exact behind (both ih ih') named
  | case5 lhs rhs slot _ e first others ih ih' => exact behind (both ih ih') (List.cons_ne_nil first.names others.names)
  | case6 | case7 | case8 | case9 | case10 | case11 =>
    rename_i ih
    exact behind ih trivial
  | _ => exact behind (fun _ none => absurd none List.not_mem_nil) trivial

theorem Rule.lower_regular (rule : Rule) : ∀ node ∈ rule.lower, node.body.Regular := by
  have wrapped {part : String} {last : Node} (regular : last.body.Regular) :
      ∀ node ∈ rule.expr.lower rule.skips (.own part) ++ [last], node.body.Regular :=
    List.forall_mem_append.2 ⟨rule.expr.lower_regular rule.skips _,List.forall_mem_singleton.2 regular⟩
  unfold lower
  split
  · exact wrapped trivial
  · exact wrapped trivial
  · exact wrapped trivial
  · exact rule.expr.lower_regular rule.skips _
  · exact rule.expr.lower_regular rule.skips _
  · exact rule.expr.lower_regular rule.skips _

namespace NodeTable

variable {t t' : NodeTable} {node : Node}

theorem mem_mergeNodes {ns : List Node} (member : node ∈ (t.mergeNodes ns).1.nodes) : node ∈ t.nodes ∨ node ∈ ns := by
  induction ns generalizing t with
  | nil => exact .inl member
  | cons n rest ih =>
    rw [Table.mergeNodes] at member
    split at member
    · exact (ih member).imp_right (List.mem_cons_of_mem n)
    · rcases ih member with old | new
      · exact (mem_of_mem_insert old).imp_right fun same => List.mem_cons.2 (.inl same)
      · exact .inr (List.mem_cons_of_mem n new)

theorem mem_addRules {strict : Bool} {parts : List (Contribution Node)} (added : (t.addRules strict parts).value = .ok t')
    (member : node ∈ t'.nodes) : node ∈ t.nodes ∨ ∃ part ∈ parts, node ∈ part.own.value.nodes := by
  induction parts generalizing t with
  | nil =>
    cases added
    exact .inl member
  | cons first rest ih =>
    rw [Table.addRules] at added
    split at added
    · cases added
    · dsimp only at added
      split at added
      · cases added
      · rcases ih added with old | ⟨part,among,inside⟩
        · exact (mem_mergeNodes old).imp_right fun inside => ⟨first,List.mem_cons_self,inside⟩
        · exact .inr ⟨part,List.mem_cons_of_mem first among,inside⟩

theorem mem_ofRules {rules : List Rule} {strict : Bool} (built : (NodeTable.ofRules rules strict).value = .ok t) (member : node ∈ t.nodes) :
    node ∈ builtins ∨ ∃ rule ∈ rules, node ∈ rule.lower := by
  rcases mem_addRules (ofRules_iff.1 built).2 member with builtin | ⟨part,among,inside⟩
  · exact .inl (nodes_start ▸ builtin)
  · obtain ⟨rule,listed,rfl⟩ := List.mem_map.1 among
    refine .inr ⟨rule,listed,?_⟩
    rwa [← rule.nodes_table]

theorem ofRules_of_isOk {rules : List Rule} {strict : Bool} (ok : (NodeTable.ofRules rules strict).value.isOk = true) :
    (NodeTable.ofRules rules strict).value = .ok ((NodeTable.ofRules rules strict).value.toOption.getD .empty) := by
  cases built : (NodeTable.ofRules rules strict).value with
  | ok table => rfl
  | error fault =>
    rw [built] at ok
    cases ok

theorem regular_of_ofRules {rules : List Rule} {strict : Bool} (built : (NodeTable.ofRules rules strict).value = .ok t)
    (member : node ∈ t.nodes) : node.body.Regular := by
  rcases mem_ofRules built member with builtin | ⟨rule,listed,inside⟩
  · simp only [builtins,List.mem_cons,List.not_mem_nil,or_false] at builtin
    rcases builtin with rfl | rfl | rfl | rfl <;> exact trivial
  · exact rule.lower_regular node inside

end NodeTable

end TypedPeg
