import Mathlib.Data.Finset.Basic
import TypedPeg.Match.Call

/-! A context that is changed in place. The atomic flag and the calls in progress, which calls by name
otherwise hand down, are in it beside the tracker; whoever changes them puts them back when the run
is over, whether it matched, failed or halted. -/
namespace TypedPeg

structure Context where
  atomic : Bool
  active : Finset Entry
  tracker : Tracker
  deriving DecidableEq

namespace Context

variable {α : Type}

def fresh (atomic tracked : Bool) : Context := ⟨atomic,∅,.new tracked⟩

instance : Observer Context where
  visit _ _ ctx := ctx
  fail f ctx := { ctx with tracker := ctx.tracker.note f }
  mute _ ctx := { ctx with tracker := ctx.tracker.mute 1 }
  unmute _ ctx := { ctx with tracker := ctx.tracker.mute (-1) }

/-- Runs in a changed context. However the run ends, `back` makes the context from the one before and
the one that is left. -/
def borrowing (change : Context → Context) (back : Context → Context → Context) (r : Run Context α) : Run Context α := fun before =>
  match r (change before) with
  | (o,left) => (o,back before left)

def flagged (flag : Bool) : Run Context α → Run Context α :=
  borrowing (fun ctx => { ctx with atomic := flag }) fun before left => { left with atomic := before.atomic }

def entering (entry : Entry) (r : Run Context α) : Run Context α := fun ctx =>
  if entry ∈ ctx.active then (.halted (.leftRecursion entry.name entry.pos),ctx)
  else borrowing (fun ctx => { ctx with active := insert entry ctx.active })
    (fun _ left => { left with active := left.active.erase entry }) r ctx

/-- What can be done with so many frames left. The flags that are handed down are not looked at. -/
def calls (table : NodeTable) (source : Source) : Nat → Calls Context
  | 0 => ⟨fun _ _ _ => .halt .tooDeep,fun _ _ _ => .halt .tooDeep,fun _ _ => .halt .tooDeep⟩
  | frames + 1 => {
      call := fun _ name input =>
        match table.get? name with
        | none => .fail ⟨.undefinedRule,"unknown rule '" ++ name ++ "'",input.pos,[name]⟩
        | some node =>
          entering ⟨input.pos,name⟩ (match frames with
            | 0 => .halt .tooDeep
            | left + 1 => node.step source (calls table source left) false input)
      within := fun flag name input => flagged flag ((calls table source frames).call flag name input)
      skip := fun _ input ctx =>
        Skipping.skip source table.separators (fun name input => (calls table source frames).within true name input)
          ctx.atomic input ctx }

inductive Operation where
  | call (name : String) (input : Cursor)
  | within (flag : Bool) (name : String) (input : Cursor)
  | skip (input : Cursor)
  /-- Runs a node without calling it. -/
  | step (node : Node) (input : Cursor)

namespace Operation

def via {σ : Type} [Observer σ] (calls : Calls σ) (source : Source) (atomic : Bool) : Operation → Run σ (Cursor × Option Value)
  | .call name input => do
    let (after,value) ← calls.call atomic name input
    return (after,some value)
  | .within flag name input => do
    let (after,value) ← calls.within flag name input
    return (after,some value)
  | .skip input => do
    let after ← calls.skip atomic input
    return (after,none)
  | .step node input => do
    let (after,value) ← node.step source calls atomic input
    return (after,some value)

def on (table : NodeTable) (source : Source) (frames : Nat) (op : Operation) : Run Context (Cursor × Option Value) :=
  op.via (calls table source frames) source false

end Operation

/-- How each of a sequence of operations on one context ends, and the context it leaves to the next. -/
def history (table : NodeTable) (source : Source) (frames : Operation → Nat) :
    List Operation → Context → List (Outcome (Cursor × Option Value) × Context)
  | [],_ => []
  | op :: rest,ctx =>
    let ended := op.on table source (frames op) ctx
    ended :: history table source frames rest ended.2

end Context

end TypedPeg
