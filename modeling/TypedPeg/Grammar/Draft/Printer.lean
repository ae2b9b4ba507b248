import TypedPeg.Grammar.Draft.Sound
import TypedPeg.Grammar.Printer

/-! The written form of drafts. A leaf with parts of the wrong sort may still have one:
numbers and truth values are spelled out, a list of characters is as good as a text.
For the form of what contains it such a leaf is a reference by that form. -/
namespace TypedPeg

/-- A leaf, some part of which may be of the wrong sort. -/
inductive Stray where
  | literal (text : Draft)
  | caseless (text : Draft)
  | ref (name : Draft)
  | peek (start stop : Draft)
  | drop (count : Draft)
  | skipUntil (strings : Draft)

namespace Stray

def ofLeaf? : Form → List Draft → Option Stray
  | .literal,[text] => some (.literal text)
  | .caseless,[text] => some (.caseless text)
  | .ref,[name] => some (.ref name)
  | .peek,[start,stop] => some (.peek start stop)
  | .drop,[count] => some (.drop count)
  | .skipUntil,[strings] => some (.skipUntil strings)
  | _,_ => none

end Stray

/-- An expression written as a draft is, with what its references stand for, left to right. -/
structure StandIn where
  expr : Expr
  refs : List Stray

inductive Written where
  | text (s : StandIn)
  /-- A reference whose name is no text; the name itself comes out. -/
  | bare (name : Draft)

namespace Written

def within (form : Expr → Expr) (misfit : String → Misfit) : Written → Except Misfit Written
  | .text s => .ok (.text ⟨form s.expr,s.refs⟩)
  | .bare name => .error (misfit name.typeName)

/-- The pieces of a chain joined, the first of which has the index given. -/
def joinFrom (link : Connective) (i : Nat) : Written → List Written → Except Misfit StandIn
  | .bare name, _ => .error (.notJoined i name.typeName)
  | .text s, [] => .ok s
  | .text s, next :: rest => do
    let after ← joinFrom link (i + 1) next rest
    return ⟨.join link s.expr after.expr,s.refs ++ after.refs⟩

end Written

namespace Datum

def quoted (d : Datum) : Except Misfit String := do
  return Text.Quoted.text (String.ofList (← d.chars))

end Datum

namespace Draft

def isInt (i : Int) (d : Draft) : Bool := d.same (.plain (.int i))

def quoted : Draft → Except Misfit String
  | .plain d => d.quoted
  | d => .error (.notIterable d.typeName)

def quotedStrings : Draft → Except Misfit (List String)
  | .plain (.text t) => return t.toList.map fun c => Text.Quoted.text c.toString
  | .plain (.list items) => items.mapM Datum.quoted
  | d => .error (.notIterable d.typeName)

/-- A range whose bounds are not both texts has no written form. -/
def rangeMisfit (lo hi : Draft) : Misfit :=
  match lo with
  | .plain (.text _) => .notACharacter hi.typeName
  | _ => .notACharacter lo.typeName

end Draft

def Stray.write : Stray → Except Misfit (String ⊕ Draft)
  | .literal text => return .inl (← text.quoted)
  | .caseless text => return .inl ("^" ++ (← text.quoted))
  | .ref (.plain (.text name)) => return .inl name
  | .ref name => return .inr name
  | .peek start stop =>
    return .inl ("PEEK[" ++ (if start.isInt 0 then "" else start.word) ++ ".." ++ (match stop with
      | .plain .null => ""
      | stop => stop.word) ++ "]")
  | .drop count => return .inl (if count.isInt 1 then "DROP" else "DROP(" ++ count.word ++ ")")
  | .skipUntil strings => return .inl (Expr.skipForm (← strings.quotedStrings))

namespace Draft

def writeLeaf (form : Form) (parts : List Draft) : Except Misfit Written :=
  match leafExpr form parts with
  | some e => .ok (.text ⟨e,if form = .ref then (Stray.ofLeaf? form parts).toList else []⟩)
  | none =>
    match Stray.ofLeaf? form parts,parts with
    | some stray,_ => do
      match ← stray.write with
      | .inl form => return .text ⟨.ref form,[stray]⟩
      | .inr name => return .bare name
    | none,[lo,hi] => .error (rangeMisfit lo hi)
    | none,_ => .error (.notAnExpr form.name)

/-- What a draft is written as. A draft that continues a chain comes in the pieces of the
chain, any other in one. -/
def pieces (chain : Option Connective) : Draft → Except Misfit (Written × List Written)
  | .expr .seq [lhs,rhs] => do
    let (first,_) ← lhs.pieces none
    let (next,rest) ← rhs.pieces (some .seq)
    if chain = some .seq then return (first,next :: rest)
    else return (.text (← Written.joinFrom .seq 0 first (next :: rest)),[])
  | .expr .choice [lhs,rhs] => do
    let (first,_) ← lhs.pieces none
    let (next,rest) ← rhs.pieces (some .choice)
    if chain = some .choice then return (first,next :: rest)
    else return (.text (← Written.joinFrom .choice 0 first (next :: rest)),[])
  | .expr .opt [inner] => do return (← (← inner.pieces none).1.within .opt .notExtended,[])
  | .expr .rep [inner] => do return (← (← inner.pieces none).1.within .rep .notExtended,[])
  | .expr .followedBy [inner] => do
    return (← (← inner.pieces none).1.within .followedBy .notAppended,[])
  | .expr .notFollowedBy [inner] => do
    return (← (← inner.pieces none).1.within .notFollowedBy .notAppended,[])
  | .expr .restore [inner] => do return (← (← inner.pieces none).1.within .restore .notAppended,[])
  | .expr .push [inner] => do return (← (← inner.pieces none).1.within .push .notAppended,[])
  | .expr .tag [inner,.plain (.text name)] => do
    return (← (← inner.pieces none).1.within (.tag · name) .notAppended,[])
  | .expr .tag [_,name] => .error (.notAppended name.typeName)
  | .expr form parts => do return (← writeLeaf form parts,[])
  | .rule _ _ _ => .error (.notAnExpr ruleType)
  | .plain d => .error (.notAnExpr (typeName (.plain d)))

def write (d : Draft) : Except Misfit Written := do return (← d.pieces none).1

def render (d : Draft) : Except Misfit Draft :=
  match d.toExpr? with
  | some e => .ok (.plain (.text e.render))
  | none => do
    match ← d.write with
    | .text s => return .plain (.text s.expr.render)
    | .bare name => return name

end Draft

end TypedPeg
