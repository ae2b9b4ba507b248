import TypedPeg.Match.Call
import TypedPeg.Node.Draft

/-! Running the nodes of drafts. A leaf with a part of the wrong sort matches as far as
the part can be used; where it cannot, the run is over. -/
namespace TypedPeg

namespace Outcome

def ofExcept {α : Type} : Except Failure α → Outcome α
  | .ok a => .matched a
  | .error f => .failed f

def withPart {α β : Type} (part : Except Misfit α) (next : α → Outcome β) : Outcome β :=
  match part with
  | .ok a => next a
  | .error m => .halted (.misfit m)

end Outcome

def Cursor.startsWithAny (source : Source) (input : Cursor) : List Datum → Except Misfit Bool
  | [] => .ok false
  | .text t :: rest => if input.startsWith source t.toList then .ok true else input.startsWithAny source rest
  | d :: _ => .error (.notOneStart d.typeName)

namespace Draft

def int? : Draft → Option Int
  | .plain (.int i) => some i
  | .plain (.bool b) => some (if b then 1 else 0)
  | _ => none

def number? : Draft → Option Rat
  | .plain (.float q) => some q
  | d => d.int?.map fun i => (i : Rat)

def bound (d : Draft) : Except Misfit Rat :=
  match d.number? with
  | some q => .ok q
  | none => .error (.notOrdered ">=" d.typeName (Datum.int 0).typeName)

/-- The strings to stop at. The characters of a text count as such strings. -/
def stops : Draft → Except Misfit (List String)
  | .plain (.text t) => .ok (t.toList.map Char.toString)
  | .plain (.list items) => items.mapM fun
    | .text t => .ok t
    | d => .error (.notSearched d.typeName)
  | d => .error (.notIterable d.typeName)

end Draft

/-- Whether there is such a range of stack entries, as far as that is a matter of comparing numbers. -/
def Stack.spans (depth : Nat) (start : Rat) (stop : Option Rat) : Bool :=
  let index (q : Rat) := if q < 0 then depth + q else q
  let lo := index start
  let hi := stop.elim (depth : Rat) index
  !(lo < 0 || (depth : Rat) < hi || hi < lo)

namespace Stray

def move (source : Source) (label : String) (input : Cursor) (s : Stray) : Outcome Cursor :=
  let run (t : Terminal) : Outcome Cursor := .ofExcept (t.move source label input)
  let unsliced (within : Bool) : Outcome Cursor :=
    if within then .halted (.misfit .notAnIndex) else .failed ⟨.stack,"stack slice out of range",input.pos,[label]⟩
  let mismatch : Outcome Cursor := .failed ⟨.literal,"literal mismatch",input.pos,[label]⟩
  match s with
  | .literal (.plain (.text t)) => run (.literal t)
  | .literal (.plain (.list texts)) =>
    .withPart (input.startsWithAny source texts) fun found =>
      if found then .matched (input.advance texts.length) else mismatch
  | .literal text => .halted (.misfit (.notAStart text.typeName))
  | .caseless (.plain (.text t)) => run (.caseless t)
  | .caseless text =>
    .withPart text.length fun n =>
      if (input.peek source n).length = n then .halted (.misfit (.noFolding text.typeName)) else mismatch
  | .skipUntil strings => .withPart strings.stops fun strings => run (.skipUntil strings)
  | .peek start (.plain .null) =>
    .withPart start.bound fun lo =>
      match start.int? with
      | some start => run (.peek start none)
      | none => unsliced (Stack.spans input.stack.length lo none)
  | .peek start stop =>
    .withPart start.bound fun lo => .withPart stop.bound fun hi =>
      match start.int?, stop.int? with
      | some start, some stop => run (.peek start (some stop))
      | _,_ => unsliced (Stack.spans input.stack.length lo (some hi))
  | .drop count =>
    let short : Outcome Cursor :=
      .failed ⟨.stack,"stack holds fewer than " ++ count.word ++ " entries",input.pos,[label]⟩
    match count.int?, count.number? with
    | some n,_ => (Stack.drop? input.stack n).elim short fun stack => .matched (input.withStack stack)
    | none,some q => if (input.stack.length : Rat) < q then short else .halted (.misfit .notAnIndex)
    | none,none => .halted (.misfit (.notOrdered "<" (Datum.int 0).typeName count.typeName))
  | .ref name =>
    match name.unhashable? with
    | some type => .halted (.misfit (.unhashable type))
    | none => .halted (.misfit (.notAppended name.typeName))

end Stray

def DraftNode.step {σ : Type} [Observer σ] (source : Source) (calls : Calls σ) (atomic : Bool)
    (node : DraftNode) (input : Cursor) : Run σ (Cursor × Value) :=
  match node.body with
  | .sound b => Node.step source calls atomic ⟨node.name,node.label.word,b⟩ input
  | .stray s =>
    match s.move source node.label.word input with
    | .matched after => return (after,.spanLeaf source node.name input after)
    | .failed f => .fail f
    | .halted h => .halt h

instance : Runnable DraftNode where
  step := DraftNode.step

end TypedPeg
