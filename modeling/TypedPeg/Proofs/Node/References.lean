import TypedPeg.Proofs.Assembly.Collisions
import TypedPeg.Proofs.Node.Tree

/-! What a rule refers to, read off its expression and off its nodes. The nodes refer to their parts, which
are defined, and their aliases to the names in the expression, in the order in which these stand there;
so what the table of a rule leaves undefined is what the expression refers to besides the rule's own nodes. -/
namespace TypedPeg

namespace FirstSeen

variable {α : Type} [DecidableEq α]

theorem addAll_filter (p : α → Bool) (seen new : List α) : addAll (seen.filter p) (new.filter p) = (addAll seen new).filter p := by
  induction new generalizing seen with
  | nil => rfl
  | cons a new ih =>
    show addAll (seen.filter p) ((a :: new).filter p) = (addAll (add seen a) new).filter p
    rw [← ih]
    by_cases kept : p a = true
    · have step : add (seen.filter p) a = (add seen a).filter p := by
        by_cases known : a ∈ seen <;> simp [add,known,kept]
      rw [List.filter_cons_of_pos kept,← step]
      rfl
    · have step : (add seen a).filter p = seen.filter p := by
        by_cases known : a ∈ seen <;> simp [add,known,kept]
      rw [List.filter_cons_of_neg kept,step]

theorem ofList_filter (p : α → Bool) (l : List α) : ofList (l.filter p) = (ofList l).filter p := addAll_filter p [] l

end FirstSeen

theorem Expr.lower_targets (skip : Bool) (e : Expr) (slot : Slot) : (e.lower skip slot).flatMap (·.body.targets) = e.idents := by
  have whole {nodes : List Node} {node : Node} {names : List String} (parts : nodes.flatMap (·.body.targets) = names)
      (plain : node.body.targets = []) : (nodes ++ [node]).flatMap (·.body.targets) = names := by
    rw [List.flatMap_append,parts,List.flatMap_singleton,plain,List.append_nil]
  have pair {link : Connective} {lhs rhs : Expr} {left right : List Node} (first : left.flatMap (·.body.targets) = lhs.idents)
      (others : right.flatMap (·.body.targets) = rhs.idents) : (left ++ right).flatMap (·.body.targets) = (join link lhs rhs).idents := by
    rw [List.flatMap_append,first,others]
    cases link <;> rfl
  refine slot_induction skip (motive := fun e _ nodes => nodes.flatMap (·.body.targets) = e.idents) ?tag ?link ?chain ?inner ?leaf e slot
  case tag => exact fun inner name slot nodes same => same
  case link => exact fun link lhs rhs parent i left right => pair
  case chain => exact fun link lhs rhs slot left right body _ _ plain first others => whole (pair first others) plain
  case inner =>
    intro e inner slot part nodes body only _ _ _ plain parts
    have other : ∀ name, e ≠ .ref name := by
      rintro name rfl
      cases only
    have idents : e.idents = inner.idents := by rw [idents_eq_children other,only,List.flatMap_singleton]
    exact whole (parts.trans idents.symm) plain
  case leaf =>
    intro e slot body _ _ _ targets
    rw [List.flatMap_singleton,targets]

namespace Rule

theorem targets_of_flag? {body : Body} (flagged : body.flag? ≠ none) : body.targets = [] := by
  cases body with
  | «alias» => exact (flagged rfl).elim
  | _ => rfl

theorem lower_targets (rule : Rule) : rule.lower.flatMap (·.body.targets) = rule.expr.idents := by
  rcases rule.lower_cases with ⟨-,lowered⟩ | ⟨body,-,flagged,-,lowered⟩
  · rw [lowered]
    exact Expr.lower_targets rule.skips rule.expr (.own rule.name)
  · rw [lowered,Expr.partNodes_single,List.flatMap_append,List.flatMap_singleton,targets_of_flag? flagged,List.append_nil]
    exact Expr.lower_targets rule.skips rule.expr (.own (rule.name ++ "_a"))

/-- What the nodes of a rule refer to besides each other stands in the expression, in the same order. -/
theorem undefined_targets (rule : Rule) : (rule.lower.flatMap (·.body.children)).filter (fun name => name ∉ rule.lower.map Node.name) =
    rule.expr.idents.filter fun name => name ∉ rule.lower.map Node.name := by
  rw [← rule.lower_targets,List.filter_flatMap,List.filter_flatMap]
  refine List.flatMap_congr fun node member => ?_
  have own : node.body.parts.filter (fun name => name ∉ rule.lower.map Node.name) = [] := by
    rw [List.filter_eq_nil_iff]
    intro part called
    simpa using rule.lower_tree.closed node member part called
  rw [node.body.children_eq,List.filter_append,own]
  rfl

/-- What the table of a rule does not define is what its expression refers to and the rule does not define, in the
order of the expression. That is the order of all sub-expressions from left to right, and that of a walk with a stack. -/
theorem references_agree (rule : Rule) : rule.table.value.undefined = rule.expr.refs.filter (fun name => name ∉ rule.table.value.names) ∧
    ∀ e : Expr, e.refs = ((e.occurrences none).filterMap fun o => o.expr.ident?).eraseDups ∧ e.refs = Expr.walk [] [e] := by
  refine ⟨?_,fun e => ⟨e.refs_eq_eraseDups,e.walk_eq_refs.symm⟩⟩
  have missing (name : String) : (!rule.table.value.contains name) = decide (name ∉ rule.table.value.names) := by
    rw [Bool.eq_iff_iff,Bool.not_eq_true',Bool.eq_false_iff,ne_eq,Table.contains_iff,decide_eq_true_eq]
  rw [NodeTable.undefined,List.filter_congr fun name _ => missing name,NodeTable.names_table,rule.nodes_table,undefined_targets,
    FirstSeen.ofList_filter]
  rfl

end Rule

end TypedPeg
