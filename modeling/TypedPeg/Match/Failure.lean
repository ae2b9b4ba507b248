import TypedPeg.FirstSeen

/-! Failed matches, and the furthest place that any of several failures reached. -/
namespace TypedPeg

inductive FailureKind where
  | plain
  /-- A fixed text does not stand here. -/
  | literal
  /-- The next character is missing or not one of those wanted. -/
  | character
  | undefinedRule
  /-- Every alternative of a choice failed. -/
  | alternatives
  /-- An assertion about what stands here does not hold. -/
  | lookahead
  /-- The stack is too short, or its texts do not stand here. -/
  | stack
  /-- Text is left after a match that had to be complete. -/
  | unconsumed
  deriving DecidableEq

structure Failure where
  kind : FailureKind
  msg : String
  pos : Int
  expected : List String
  deriving DecidableEq

def Failure.message (f : Failure) : String := f.msg ++ " at offset " ++ toString f.pos

/-- The furthest offset seen and what was expected there, each label once. -/
structure Furthest where
  pos : Int
  expected : List String
  deriving DecidableEq

namespace Furthest

/-- Nothing seen, at a place from which failures count. -/
def start (pos : Int) : Furthest := ⟨pos,[]⟩

/-- A failure further on starts afresh, one at the same place adds its labels. -/
def note (far : Furthest) (f : Failure) : Furthest :=
  if far.pos < f.pos then ⟨f.pos,FirstSeen.ofList f.expected⟩
  else if f.pos = far.pos then ⟨far.pos,FirstSeen.addAll far.expected f.expected⟩
  else far

def ofChoice (far : Furthest) (label : String) : Failure :=
  ⟨.alternatives,"no alternative of " ++ label ++ " matched",far.pos,far.expected⟩

end Furthest

def Failure.ofChoice (label : String) (pos : Int) (failures : List Failure) : Failure :=
  (failures.foldl Furthest.note (.start pos)).ofChoice label

def expectation : List String → String
  | [] => "unexpected input"
  | [label] => "expected " ++ label
  | first :: second :: rest =>
    let labels := first :: second :: rest
    "expected " ++ ", ".intercalate labels.dropLast ++ " or " ++ labels.getLastD ""

end TypedPeg
