/-! The text under a parse, addressed by code point offsets. A slice bound below
zero counts back from the end, and every bound is clipped to the text. -/
namespace TypedPeg

structure Source where
  chars : Array Char
  deriving DecidableEq

namespace Source

def ofString (t : String) : Source := ⟨t.toList.toArray⟩

def length (s : Source) : Nat := s.chars.size

def clip (s : Source) (bound : Int) : Nat :=
  if bound < 0 then (bound + s.length).toNat else min bound.toNat s.length

def sliceChars (s : Source) (start stop : Int) : List Char :=
  (s.chars.extract (s.clip start) (s.clip stop)).toList

/-- The text between two bounds, empty when they are inverted. -/
def slice (s : Source) (start stop : Int) : String := String.ofList (s.sliceChars start stop)

def standsAt (s : Source) : List Char → Nat → Bool
  | [], _ => true
  | c :: rest, i => s.chars[i]? == some c && s.standsAt rest (i + 1)

/-- Whether `text` stands at an offset. Nothing, not even the empty text, stands past the end. -/
def hasAt (s : Source) (text : List Char) (offset : Int) : Bool :=
  decide (offset ≤ s.length) && s.standsAt text (s.clip offset)

def search (s : Source) (text : List Char) : Nat → Nat → Option Nat
  | 0, _ => none
  | count + 1, i => if s.standsAt text i then some i else s.search text count (i + 1)

def find? (s : Source) (text : List Char) (offset : Int) : Option Nat :=
  if offset ≤ s.length then
    let start := s.clip offset
    s.search text (s.length + 1 - start) start
  else none

end Source

/-- The characters from `start` up to `stop`, exclusive. -/
structure Span where
  start : Int
  stop : Int
  deriving DecidableEq,Inhabited

inductive SpanError where
  | inverted
  | tooLong

def SpanError.message : SpanError → String
  | .inverted => "__len__() should return >= 0"
  | .tooLong => "cannot fit 'int' into an index-sized integer"

namespace Span

def text (s : Span) (source : Source) : String := source.slice s.start s.stop

def chars (s : Span) (source : Source) : List Char := source.sliceChars s.start s.stop

def maxLength : Int := 0x7fffffffffffffff

def length? (s : Span) : Except SpanError Nat :=
  if s.stop < s.start then .error .inverted
  else if maxLength < s.stop - s.start then .error .tooLong
  else .ok (s.stop - s.start).toNat

end Span

end TypedPeg
