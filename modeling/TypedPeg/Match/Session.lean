import TypedPeg.Match.Call

/-! Single operations on a node table, one after another. What lasts from one to the
next is the atomic flag, which only `setAtomic` changes, and the tracker. -/
namespace TypedPeg

structure Session (ν : Type) [Definition ν] where
  table : Table ν
  tracker : Tracker
  atomic : Bool

namespace Session

variable {ν : Type} [Runnable ν]

def new (table : Table ν) (tracked : Bool) : Session ν := ⟨table,.new tracked,false⟩

/-- Frames for every call that can be in progress at once: no node is twice in progress at one
offset, a call costs at most four frames, and the cursor only moves ahead. -/
def room (s : Session ν) (source : Source) (input : Cursor) : Nat :=
  4 * (s.table.size * (input.ahead source + 2) + 2)

def calls (s : Session ν) (source : Source) (input : Cursor) : Calls Tracker :=
  s.table.calls source (s.room source input) []

def perform {α : Type} (s : Session ν) (r : Run Tracker α) : Outcome α × Session ν :=
  match r s.tracker with
  | (o,tracker) => (o,{ s with tracker })

def call (s : Session ν) (source : Source) (name : String) (input : Cursor) :
    Outcome (Cursor × Value) × Session ν :=
  s.perform ((s.calls source input).call s.atomic name input)

def callWithin (s : Session ν) (source : Source) (flag : Bool) (name : String) (input : Cursor) :
    Outcome (Cursor × Value) × Session ν :=
  s.perform ((s.calls source input).within flag name input)

def skip (s : Session ν) (source : Source) (input : Cursor) : Outcome Cursor × Session ν :=
  s.perform ((s.calls source input).skip s.atomic input)

/-- Runs a node without calling it, so that it is not in progress itself. -/
def step (s : Session ν) (source : Source) (node : ν) (input : Cursor) :
    Outcome (Cursor × Value) × Session ν :=
  s.perform (Runnable.step source (s.calls source input) s.atomic node input)

def setAtomic (s : Session ν) (flag : Bool) : Session ν := { s with atomic := flag }

def mute (s : Session ν) (n : Int) : Session ν := { s with tracker := s.tracker.mute n }

end Session

end TypedPeg
