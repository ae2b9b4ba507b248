import TypedPeg.Match.Step
import TypedPeg.Node.Table

/-! Calls of nodes by name. A call costs two frames, one for the call and one for the
node at work; setting the atomic flag and skipping separators cost one more each. A
call at an offset where the same node is already in progress is left recursion. -/
namespace TypedPeg

namespace Skipping

variable {σ : Type}

/-- Tries each separator once, in order, and keeps what moves forward. -/
def sweep (separator : String → Cursor → Run σ (Cursor × Value)) : List String → Cursor → Run σ Cursor
  | [], input => return input
  | name :: rest, input => do
    match ← (separator name input).attempt with
    | .error _ => sweep separator rest input
    | .ok (after,_) => sweep separator rest (if input.pos < after.pos then after else input)

/-- Sweeps, at most `rounds` times, until a sweep moves nothing. -/
def sweeps (separator : String → Cursor → Run σ (Cursor × Value)) (names : List String) :
    Nat → Cursor → Run σ Cursor
  | 0, input => return input
  | rounds + 1, input => do
    let after ← sweep separator names input
    if input.pos < after.pos then sweeps separator names rounds after else return after

def skip [Observer σ] (source : Source) (names : List String)
    (separator : String → Cursor → Run σ (Cursor × Value)) (atomic : Bool) (input : Cursor) : Run σ Cursor :=
  if names.isEmpty || atomic then return input
  else (sweeps separator names (input.ahead source + 2) input).hushed .separators

end Skipping

class Runnable (ν : Type) extends Definition ν where
  step {σ : Type} [Observer σ] : Source → Calls σ → Bool → ν → Cursor → Run σ (Cursor × Value)

instance : Runnable Node where
  step := Node.step

namespace Table

variable {ν : Type} [Runnable ν] {σ : Type} [Observer σ] (table : Table ν) (source : Source)

/-- What can be done with so many frames left and these calls in progress, innermost first. -/
def calls : Nat → List Entry → Calls σ
  | 0, _ => ⟨fun _ _ _ => .halt .tooDeep,fun _ _ _ => .halt .tooDeep,fun _ _ => .halt .tooDeep⟩
  | frames + 1, active => {
      call := fun atomic name input =>
        match table.get? name with
        | none => .fail ⟨.undefinedRule,"unknown rule '" ++ name ++ "'",input.pos,[name]⟩
        | some node =>
          if Entry.isIn ⟨input.pos,name⟩ active then .halt (.leftRecursion name input.pos)
          else match frames with
            | 0 => .halt .tooDeep
            | left + 1 =>
              let active := ⟨input.pos,name⟩ :: active
              .visiting active input
                (.withRoom left (Runnable.step source (calls left active) atomic node input))
      within := fun flag name input => (calls frames active).call flag name input
      skip := fun atomic input =>
        Skipping.skip source table.separators (fun name input => (calls frames active).within true name input)
          atomic input }

end Table

end TypedPeg
