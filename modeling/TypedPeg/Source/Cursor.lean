import TypedPeg.Source.Basic

/-! A place in the text together with the backreference stack that goes with it.
Returning to an earlier cursor also returns to its stack. -/
namespace TypedPeg

structure Cursor where
  pos : Int
  /-- Bottom first. -/
  stack : List Span
  deriving DecidableEq

namespace Cursor

def start : Cursor := ⟨0,[]⟩

def advance (c : Cursor) (n : Int) : Cursor := { c with pos := c.pos + n }

def push (c : Cursor) (entry : Span) : Cursor := { c with stack := c.stack ++ [entry] }

def withStack (c : Cursor) (stack : List Span) : Cursor := { c with stack }

def spanTo (c after : Cursor) : Span := ⟨c.pos,after.pos⟩

section Text
variable (source : Source)

def rest (c : Cursor) : String := source.slice c.pos source.length

def peek (c : Cursor) (n : Int) : List Char := source.sliceChars c.pos (c.pos + n)

def startsWith (c : Cursor) (text : List Char) : Bool := source.hasAt text c.pos

def atEnd (c : Cursor) : Bool := decide ((source.length : Int) ≤ c.pos)

/-- How often the cursor can still move. Past the end one move is left, back to it. -/
def ahead (c : Cursor) : Nat :=
  if (source.length : Int) < c.pos then 1 else (source.length - c.pos).toNat

end Text

end Cursor

namespace Stack

/-- Where a stack index falls: one below zero counts down from the top. -/
def index (depth : Nat) (i : Int) : Int := if i < 0 then depth + i else i

/-- The entries from `start` up to `stop`, or up to the top. No part of the range may lie
outside the stack. -/
def slice? (stack : List Span) (start : Int) (stop : Option Int) : Option (List Span) :=
  let lo := index stack.length start
  let hi := match stop with
    | none => (stack.length : Int)
    | some i => index stack.length i
  if lo < 0 ∨ (stack.length : Int) < hi ∨ hi < lo then none
  else some ((stack.drop lo.toNat).take (hi - lo).toNat)

def drop? (stack : List Span) (count : Int) : Option (List Span) :=
  if (stack.length : Int) < count then none else some (stack.take (stack.length - count).toNat)

def chars (source : Source) (entries : List Span) : List Char := entries.flatMap (·.chars source)

end Stack

end TypedPeg
