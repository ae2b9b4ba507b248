import TypedPeg.Match.Tracker
import TypedPeg.Misfit

/-! Runs: computations that match, fail or halt under the eyes of an observer. A
failure is control data and can be caught; a halt ends the whole run. -/
namespace TypedPeg

inductive Halt where
  /-- A call was about to repeat one in progress. -/
  | leftRecursion (name : String) (pos : Int)
  /-- No frame is left for the next call. -/
  | tooDeep
  /-- The node has no way to match. -/
  | notRunnable
  /-- A part of the node is of the wrong sort. -/
  | misfit (m : Misfit)
  deriving DecidableEq

def Halt.leftRecursionMessage (name : String) (pos : Int) : String :=
  "left recursion in '" ++ name ++ "' at offset " ++ toString pos

inductive Outcome (α : Type) where
  | matched (a : α)
  | failed (f : Failure)
  | halted (h : Halt)
  deriving DecidableEq

/-- A computation that threads the state of its observer. -/
def Run (σ α : Type) : Type := σ → Outcome α × σ

namespace Run

variable {σ α β : Type}

@[always_inline,inline]
def pure (a : α) : Run σ α := fun s => (.matched a,s)

@[always_inline,inline]
def bind (r : Run σ α) (next : α → Run σ β) : Run σ β := fun s =>
  match r s with
  | (.matched a,s) => next a s
  | (.failed f,s) => (.failed f,s)
  | (.halted h,s) => (.halted h,s)

@[always_inline]
instance : Monad (Run σ) where
  pure := Run.pure
  bind := Run.bind

theorem bind_apply (r : Run σ α) (next : α → Run σ β) (s : σ) : (r >>= next) s =
    match r s with
    | (.matched a,s) => next a s
    | (.failed f,s) => (.failed f,s)
    | (.halted h,s) => (.halted h,s) := rfl

@[always_inline,inline]
def halt (h : Halt) : Run σ α := fun s => (.halted h,s)

/-- Fails without telling the observer. -/
@[always_inline,inline]
def raise (f : Failure) : Run σ α := fun s => (.failed f,s)

/-- Fails and tells the observer. -/
@[always_inline,inline]
def fail [Observer σ] (f : Failure) : Run σ α := fun s => (.failed f,Observer.fail f s)

/-- Makes a failure an ordinary result. -/
@[always_inline,inline]
def attempt (r : Run σ α) : Run σ (Except Failure α) := fun s =>
  match r s with
  | (.matched a,s) => (.matched (.ok a),s)
  | (.failed f,s) => (.matched (.error f),s)
  | (.halted h,s) => (.halted h,s)

/-- Runs between a mute and the unmute that goes with it, however the run ends. -/
@[always_inline,inline]
def hushed [Observer σ] (why : Hush) (r : Run σ α) : Run σ α := fun s =>
  match r (Observer.mute why s) with
  | (o,s) => (o,Observer.unmute why s)

@[always_inline,inline]
def visiting [Observer σ] (active : List Entry) (input : Cursor) (r : Run σ α) : Run σ α := fun s =>
  r (Observer.visit active input s)

def stackFrames : Nat := 4096

/-- Takes a stack of its own whenever another `stackFrames` frames have been spent, so the depth
of a run is bounded by its frames alone. -/
@[inline]
def withRoom (frames : Nat) (r : Run σ α) : Run σ α := fun s =>
  if frames % stackFrames < 4 then (Task.spawn (fun _ => r s) .dedicated).get else r s

@[simp] theorem withRoom_eq (frames : Nat) (r : Run σ α) : withRoom frames r = r := by
  funext s
  unfold withRoom
  split <;> rfl

end Run

end TypedPeg
