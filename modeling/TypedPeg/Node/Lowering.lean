import TypedPeg.Grammar.Printer
import TypedPeg.Node.Table

/-! Expressions and rules as nodes. The name of a part is made from the name of the
whole: an index for an element of a chain, a letter for the body of an option or a
repetition. A chain becomes one node. References become aliases, so a rule's nodes
never hold those of another. -/
namespace TypedPeg

namespace NodeName

def element (parent : String) (i : Nat) : String := parent ++ "_" ++ toString i
def optionBody (parent : String) : String := parent ++ "_o"
def repetitionBody (parent : String) : String := parent ++ "_r"
def only (parent : String) : String := parent ++ "_0"
def ruleBody (rule : String) : String := rule ++ "_a"

end NodeName

/-- Where an expression stands: under a name of its own, or as the elements of a parent's chain
from an index on. -/
inductive Slot where
  | own (name : String)
  | rest (link : Connective) (parent : String) (index : Nat)

namespace Slot

def name : Slot → String
  | .own name => name
  | .rest _ parent index => NodeName.element parent index

abbrev Names : Slot → Type
  | .own _ => String
  | .rest _ _ _ => List String

def only : (slot : Slot) → String → slot.Names
  | .own _,name => name
  | .rest _ _ _,name => [name]

end Slot

structure Compiled (slot : Slot) where
  /-- Parts before the whole. -/
  nodes : List Node
  names : slot.Names

def Compiled.define {slot : Slot} (parts : List Node) (node : Node) : Compiled slot := ⟨parts ++ [node],slot.only node.name⟩

namespace Expr

def fieldName (i : Nat) : Expr → String
  | .tag _ name => name
  | _ => "field" ++ toString i

def fieldNames (e : Expr) : List String := (e.elements .seq).mapIdx fieldName

/-- Makes the nodes of an expression. With `skip`, separators may stand between the elements of its
sequences and repetitions. -/
def compile (skip : Bool) : Expr → (slot : Slot) → Compiled slot
  | .tag inner _, slot =>
    let inside := inner.compile skip (.own slot.name)
    ⟨inside.nodes,slot.only inside.names⟩
  | .seq lhs rhs, .rest .seq parent i =>
    let first := lhs.compile skip (.own (NodeName.element parent i))
    let others := rhs.compile skip (.rest .seq parent (i + 1))
    ⟨first.nodes ++ others.nodes,first.names :: others.names⟩
  | .choice lhs rhs, .rest .choice parent i =>
    let first := lhs.compile skip (.own (NodeName.element parent i))
    let others := rhs.compile skip (.rest .choice parent (i + 1))
    ⟨first.nodes ++ others.nodes,first.names :: others.names⟩
  | .seq lhs rhs, slot =>
    let e := Expr.seq lhs rhs
    let first := lhs.compile skip (.own (NodeName.element slot.name 0))
    let others := rhs.compile skip (.rest .seq slot.name 1)
    .define (first.nodes ++ others.nodes) ⟨slot.name,e.render,.product (first.names :: others.names) e.fieldNames skip⟩
  | .choice lhs rhs, slot =>
    let e := Expr.choice lhs rhs
    let first := lhs.compile skip (.own (NodeName.element slot.name 0))
    let others := rhs.compile skip (.rest .choice slot.name 1)
    .define (first.nodes ++ others.nodes) ⟨slot.name,e.render,.sum (first.names :: others.names)⟩
  | .opt inner, slot =>
    let part := inner.compile skip (.own (NodeName.optionBody slot.name))
    .define part.nodes ⟨slot.name,(Expr.opt inner).render,.optional part.names⟩
  | .rep inner, slot =>
    let part := inner.compile skip (.own (NodeName.repetitionBody slot.name))
    .define part.nodes ⟨slot.name,(Expr.rep inner).render,.list part.names skip⟩
  | .followedBy inner, slot =>
    let part := inner.compile skip (.own (NodeName.only slot.name))
    .define part.nodes ⟨slot.name,(Expr.followedBy inner).render,.lookahead part.names false⟩
  | .notFollowedBy inner, slot =>
    let part := inner.compile skip (.own (NodeName.only slot.name))
    .define part.nodes ⟨slot.name,(Expr.notFollowedBy inner).render,.lookahead part.names true⟩
  | .restore inner, slot =>
    let part := inner.compile skip (.own (NodeName.only slot.name))
    .define part.nodes ⟨slot.name,(Expr.restore inner).render,.restore part.names⟩
  | .push inner, slot =>
    let part := inner.compile skip (.own (NodeName.only slot.name))
    .define part.nodes ⟨slot.name,(Expr.push inner).render,.push part.names⟩
  | .literal text, slot => .define [] ⟨slot.name,(Expr.literal text).render,.terminal (.literal text)⟩
  | .caseless text, slot => .define [] ⟨slot.name,(Expr.caseless text).render,.terminal (.caseless text)⟩
  | .range lo hi, slot =>
    .define [] ⟨slot.name,(Expr.range lo hi).render,.terminal (.range lo.toString hi.toString)⟩
  | .ref name, slot => .define [] ⟨slot.name,(Expr.ref name).render,.alias name⟩
  | .peek start stop, slot => .define [] ⟨slot.name,(Expr.peek start stop).render,.terminal (.peek start stop)⟩
  | .drop count, slot => .define [] ⟨slot.name,(Expr.drop count).render,.terminal (.drop count)⟩
  | .skipUntil strings, slot =>
    .define [] ⟨slot.name,(Expr.skipUntil strings).render,.terminal (.skipUntil strings)⟩

def lower (skip : Bool) (e : Expr) (slot : Slot) : List Node := (e.compile skip slot).nodes

end Expr

structure Added (τ : Type) extends Logged τ where
  name : String

def NodeTable.addExpr (t : NodeTable) (e : Expr) (name : String) (skip : Bool) : Added NodeTable :=
  let compiled := e.compile skip (.own name)
  ⟨t.insertAll compiled.nodes,compiled.names⟩

namespace Rule

/-- Whether separators may stand inside the rule, as far as the rule itself decides. -/
def skips (rule : Rule) : Bool :=
  rule.kind ≠ .atomic && rule.kind ≠ .compoundAtomic && rule.name ∉ Table.separatorNames

/-- The nodes of a rule. A rule that sets or clears the atomic flag has its body behind a node
that does so. -/
def lower (rule : Rule) : List Node :=
  let part := rule.expr.compile rule.skips (.own (NodeName.ruleBody rule.name))
  let wrapped (body : Body) : List Node := part.nodes ++ [⟨rule.name,rule.expr.render,body⟩]
  match rule.kind with
  | .atomic => wrapped (.atomic part.names)
  | .compoundAtomic => wrapped (.scope part.names true)
  | .nonAtomic => wrapped (.scope part.names false)
  | .normal | .silent | .unknown _ _ => rule.expr.lower rule.skips (.own rule.name)

def table (rule : Rule) : Logged NodeTable := Table.empty.insertAll rule.lower

end Rule

end TypedPeg
