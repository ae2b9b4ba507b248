import TypedPeg.Match.Failure
import TypedPeg.Match.Value
import TypedPeg.Node.Basic
import TypedPeg.Source.Cursor
import TypedPeg.Text.CaseFolding

/-! How terminals match: the cursor after the match, or the failure. -/
namespace TypedPeg

/-- The line terminators, in the order in which they are tried. -/
def lineTerminators : List String := ["\n","\r\n","\r"]

namespace Source

/-- Where the first occurrence of any of the strings starts, else the end of the text. -/
def firstOf (source : Source) (strings : List String) (offset : Int) : Nat :=
  strings.foldl (fun stop s => min stop ((source.find? s.toList offset).getD stop)) source.length

end Source

namespace Terminal

def move (source : Source) (label : String) (input : Cursor) : Terminal → Except Failure Cursor
  | .literal text =>
    if input.startsWith source text.toList then .ok (input.advance text.length)
    else .error ⟨.literal,"literal mismatch",input.pos,[label]⟩
  | .caseless text =>
    let chunk := input.peek source text.length
    if chunk.length = text.length ∧ Text.CaseFolding.sameFolded chunk text.toList then
      .ok (input.advance text.length)
    else .error ⟨.literal,"literal mismatch",input.pos,[label]⟩
  | .range lo hi =>
    match input.peek source 1 with
    | [] => .error ⟨.character,"unexpected end of input",input.pos,[label]⟩
    | c :: _ =>
      if lo ≤ c.toString ∧ c.toString ≤ hi then .ok (input.advance 1)
      else .error ⟨.character,"character out of range",input.pos,[label]⟩
  | .any =>
    if input.atEnd source then .error ⟨.character,"unexpected end of input",input.pos,["ANY"]⟩
    else .ok (input.advance 1)
  | .startOfInput =>
    if input.pos = 0 then .ok input
    else .error ⟨.lookahead,"not at start of input",input.pos,["SOI"]⟩
  | .endOfInput =>
    if input.atEnd source then .ok input
    else .error ⟨.lookahead,"not at end of input",input.pos,["EOI"]⟩
  | .newline =>
    match lineTerminators.find? (fun t => input.startsWith source t.toList) with
    | some t => .ok (input.advance t.length)
    | none => .error ⟨.literal,"expected line terminator",input.pos,["NEWLINE"]⟩
  | .skipUntil strings => .ok { input with pos := source.firstOf strings input.pos }
  | .peek start stop =>
    match Stack.slice? input.stack start stop with
    | none => .error ⟨.stack,"stack slice out of range",input.pos,[label]⟩
    | some entries =>
      let text := Stack.chars source entries
      if input.startsWith source text then .ok (input.advance text.length)
      else .error ⟨.stack,"stack text mismatch",input.pos,[label]⟩
  | .drop count =>
    match Stack.drop? input.stack count with
    | none =>
      .error ⟨.stack,"stack holds fewer than " ++ toString count ++ " entries",input.pos,[label]⟩
    | some stack => .ok (input.withStack stack)

end Terminal

def Value.spanLeaf (source : Source) (name : String) (before after : Cursor) : Value :=
  .leaf name (before.spanTo after) (some ((before.spanTo after).text source))

def Value.unitLeaf (name : String) (input : Cursor) : Value := .leaf name (input.spanTo input) none

def Terminal.leaf (t : Terminal) (source : Source) (name : String) (before after : Cursor) : Value :=
  match t.leafKind with
  | .unit => .unitLeaf name before
  | .span | .char => .spanLeaf source name before after

end TypedPeg
