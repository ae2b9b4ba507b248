import TypedPeg.Proofs.Match.Transcript
import TypedPeg.Proofs.Source.Stack

/-! Positions and stacks in the course of a run. A match is made of matches that each move ahead,
keep the bottom of the stack and put spans of what they match on top; so it does the same. -/
namespace TypedPeg

def Manner.sound (source : Source) (call : String → Cursor → Cursor → Value → Prop) : Manner where
  placed := Cursor.Sound source
  onward := Cursor.Reaches source
  call := call
  refl := .refl
  trans := .trans
  arrives _ moved := moved.sound

theorem Manner.sound_inside (source : Source) (call : String → Cursor → Cursor → Value → Prop) :
    (Manner.sound source call).Inside source := ⟨fun sound => sound.inside,fun moved => moved.further⟩

theorem Node.Made.reaches {source : Source} {call : String → Cursor → Cursor → Value → Prop} {gap : Cursor → Cursor → Prop}
    {node : Node} {c d : Cursor} {v : Value} (made : node.Made source call gap c d v)
    (calls : ∀ {name c d v}, call name c d v → c.Reaches source d) (gaps : ∀ {c d}, gap c d → c.Reaches source d)
    (sound : c.Sound source) : c.Reaches source d := by
  show (Manner.sound source call).onward c d
  exact made.onward (fun _ => calls) gaps (fun _ => Terminal.move_reaches sound) (fun _ moved => moved.push sound.inside) sound

structure Record.Disciplined (source : Source) (r : Record) : Prop where
  placed : r.input.Sound source
  matched : ∀ d v, r.outcome = .matched (d,v) → r.input.Reaches source d
  failed : ∀ f, r.outcome = .failed f → r.input.pos ≤ f.pos ∧ f.pos ≤ source.length

theorem Manner.Admits.disciplined {source : Source} {call : String → Cursor → Cursor → Value → Prop} {r : Record}
    (admitted : (Manner.sound source call).Admits source r) : r.Disciplined source := by
  obtain ⟨placed,ended⟩ := admitted
  refine ⟨placed,fun d v out => ?_,fun f out => ?_⟩
  · rw [out] at ended
    exact ended.1
  · rw [out] at ended
    exact ended

namespace NodeTable

variable {σ : Type} [Observer σ]

/-- Every call made in a run from the start of a text, of what is abandoned too, starts at a sound
cursor and, matching, reaches another; failing, it does so in the text and not behind where it
started. The run on record is the run itself. -/
theorem calls_disciplined (table : NodeTable) (source : Source) (frames : Nat) (atomic : Bool) (name : String) (s : σ) :
    let run := (table.recording source frames []).call atomic name .start ⟨s,[]⟩
    (run.1,run.2.state) = (table.calls source frames []).call atomic name .start s ∧ ∀ r ∈ run.2.records, r.Disciplined source := by
  refine ⟨recording_call frames [] atomic name .start ⟨s,[]⟩,?_⟩
  intro r member
  have inside := Manner.sound_inside source fun _ _ _ _ => True
  refine Manner.Admits.disciplined (recording_admits (fun _ _ => True) inside ?_ (fun _ _ _ _ _ _ _ => trivial) frames [] atomic
    name Cursor.sound_start s r member)
  intro name node c d v _ placed made
  have moved := made.reaches (fun one => one.2.1) (fun skipped => skipped.2.1) placed
  exact ⟨moved,trivial⟩

def echo : NodeTable :=
  ⟨[⟨"twice","twice",.product ["once","again"] ["once","again"] false⟩,⟨"once","once",.push "letter"⟩,
    ⟨"letter","letter",.terminal .any⟩,⟨"again","again",.terminal (.peek (-1) none)⟩],by decide⟩

theorem echo_disciplined :
    let run := (echo.recording (.ofString "ab") 9 []).call false "twice" .start (⟨(),[]⟩ : Recorded Unit)
    let again : Record := ⟨"again",⟨1,[⟨0,1⟩]⟩,.failed ⟨.stack,"stack text mismatch",1,["again"]⟩⟩
    again ∈ run.2.records ∧ again.Disciplined (.ofString "ab") := by
  intro run again
  have member : again ∈ run.2.records := by decide +kernel
  exact ⟨member,(calls_disciplined echo (.ofString "ab") 9 false "twice" ()).2 again member⟩

end NodeTable

end TypedPeg
