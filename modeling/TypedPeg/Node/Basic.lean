import TypedPeg.Datum

/-! Nodes: the compiled form of a grammar. Every node has a name, a label for
failures, and a body that refers to other nodes by name. -/
namespace TypedPeg

inductive Terminal where
  | literal (text : String)
  | caseless (text : String)
  /-- One character; the bounds are compared as texts. -/
  | range (lo hi : String)
  | any
  | startOfInput
  | endOfInput
  | newline
  | skipUntil (strings : List String)
  | peek (start : Int) (stop : Option Int)
  | drop (count : Int)
  deriving DecidableEq

inductive Body where
  /-- A node that has been declared and cannot be run. -/
  | declared
  | terminal (t : Terminal)
  | lookahead (inner : String) (negative : Bool)
  /-- Matches the body atomically and shows only its span. -/
  | atomic (body : String)
  | alias (target : String)
  /-- Matches the body with the atomic flag as given. -/
  | scope (body : String) (atomic : Bool)
  | restore (inner : String)
  | push (inner : String)
  | product (fields names : List String) (skip : Bool)
  | sum (variants : List String)
  | optional (inner : String)
  | list (inner : String) (skip : Bool)
  deriving DecidableEq

structure Node where
  name : String
  label : String
  body : Body
  deriving DecidableEq

/-- What a leaf's value shows: the text it spans, its one character, or nothing. -/
inductive LeafKind where
  | span
  | char
  | unit
  deriving DecidableEq

def LeafKind.name : LeafKind → String
  | .span => "span"
  | .char => "char"
  | .unit => "unit"

inductive Shape where
  | leaf (kind : LeafKind)
  | product
  | sum
  | optional
  | list
  | alias
  deriving DecidableEq

def Shape.name : Shape → String
  | .leaf _ => "leaf"
  | .product => "product"
  | .sum => "sum"
  | .optional => "optional"
  | .list => "list"
  | .alias => "alias"

namespace Terminal

def leafKind : Terminal → LeafKind
  | .range _ _ | .any => .char
  | .startOfInput | .endOfInput => .unit
  | .literal _ | .caseless _ | .newline | .skipUntil _ | .peek _ _ | .drop _ => .span

def typeName : Terminal → String
  | .literal _ => "LiteralNode"
  | .caseless _ => "InsensitiveNode"
  | .range _ _ => "RangeNode"
  | .any => "AnyNode"
  | .startOfInput => "SoiNode"
  | .endOfInput => "EoiNode"
  | .newline => "NewlineNode"
  | .skipUntil _ => "SkipUntilNode"
  | .peek _ _ => "PeekSliceNode"
  | .drop _ => "StackSkipNode"

def fields : Terminal → List (String × Datum)
  | .literal text | .caseless text => [("text",.text text)]
  | .range lo hi => [("lo",.text lo),("hi",.text hi)]
  | .any | .startOfInput | .endOfInput | .newline => []
  | .skipUntil strings => [("strings",.texts strings)]
  | .peek start stop => [("start",.int start),("end",stop.elim .null .int)]
  | .drop count => [("count",.int count)]

end Terminal

namespace Body

def shape : Body → Shape
  | .declared => .leaf .span
  | .terminal t => .leaf t.leafKind
  | .lookahead _ _ => .leaf .unit
  | .atomic _ => .leaf .span
  | .alias _ | .scope _ _ | .restore _ | .push _ => .alias
  | .product _ _ _ => .product
  | .sum _ => .sum
  | .optional _ => .optional
  | .list _ _ => .list

def typeName : Body → String
  | .declared => "NodeDef"
  | .terminal t => t.typeName
  | .lookahead _ _ => "LookaheadNode"
  | .atomic _ => "AtomicNode"
  | .alias _ => "AliasNode"
  | .scope _ _ => "ScopeNode"
  | .restore _ => "RestoreNode"
  | .push _ => "PushNode"
  | .product _ _ _ => "ProductNode"
  | .sum _ => "SumNode"
  | .optional _ => "OptionalNode"
  | .list _ _ => "ListNode"

def children : Body → List String
  | .declared | .terminal _ => []
  | .lookahead inner _ => [inner]
  | .atomic body => [body]
  | .alias target => [target]
  | .scope body _ => [body]
  | .restore inner | .push inner => [inner]
  | .product fields _ _ => fields
  | .sum variants => variants
  | .optional inner => [inner]
  | .list inner _ => [inner]

def fields : Body → List (String × Datum)
  | .declared => []
  | .terminal t => t.fields
  | .lookahead inner negative => [("inner",.text inner),("negative",.bool negative)]
  | .atomic body => [("body",.text body)]
  | .alias target => [("target",.text target)]
  | .scope body flag => [("body",.text body),("atomic",.bool flag)]
  | .restore inner | .push inner | .optional inner => [("inner",.text inner)]
  | .product fields names skip =>
    [("fields",.texts fields),("field_names",.texts names),("skip",.bool skip)]
  | .sum variants => [("variants",.texts variants)]
  | .list inner skip => [("inner",.text inner),("skip",.bool skip)]

end Body

structure Description where
  typeName : String
  shape : Shape
  children : List String
  deriving DecidableEq

def Node.describe (n : Node) : Description := ⟨n.body.typeName,n.body.shape,n.body.children⟩

end TypedPeg
