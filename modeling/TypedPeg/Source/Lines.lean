import TypedPeg.Source.Basic

/-! Lines and columns of a source, both counted from one. -/
namespace TypedPeg

structure Place where
  line : Nat
  column : Int
  deriving DecidableEq

structure LineTable where
  starts : List Nat
  length : Nat

inductive OffsetError where
  | outside (offset : Int)

def OffsetError.message : OffsetError → String
  | .outside offset => "offset " ++ toString offset ++ " outside source"

namespace LineTable

/-- The offsets just after each newline, when the first character has offset `i`. -/
def afterNewlines (i : Nat) : List Char → List Nat
  | [] => []
  | c :: rest => if c = '\n' then (i + 1) :: afterNewlines (i + 1) rest else afterNewlines (i + 1) rest

def ofSource (s : Source) : LineTable := ⟨0 :: afterNewlines 0 s.chars.toList,s.length⟩

/-- The line an offset is on is the last that begins at or before it. The end of the text has
a place as well. -/
def locate (index : LineTable) (offset : Int) : Except OffsetError Place :=
  if offset < 0 ∨ (index.length : Int) < offset then .error (.outside offset)
  else
    let begun := index.starts.takeWhile (fun start : Nat => (start : Int) ≤ offset)
    .ok ⟨begun.length,offset - begun.getLastD 0 + 1⟩

end LineTable

end TypedPeg
