import TypedPeg.Proofs.Match.Alike
import TypedPeg.Proofs.Match.Furthest
import TypedPeg.Proofs.Match.Made

/-! Runs with a record of every call made in them, of what is made of it later on and what is
abandoned alike. Recording changes nothing, and what a table minds of calls holds of every call
on record. -/
namespace TypedPeg

/-- A call that has ended: of which node and where, and what came of it. -/
structure Record where
  name : String
  input : Cursor
  outcome : Outcome (Cursor × Value)
  deriving DecidableEq

structure Recorded (σ : Type) where
  state : σ
  /-- Latest first. -/
  records : List Record

instance {σ : Type} [Observer σ] : Observer (Recorded σ) where
  visit active c s := { s with state := Observer.visit active c s.state }
  fail f s := { s with state := Observer.fail f s.state }
  mute why s := { s with state := Observer.mute why s.state }
  unmute why s := { s with state := Observer.unmute why s.state }

def Run.recorded {σ : Type} (name : String) (c : Cursor) (run : Run (Recorded σ) (Cursor × Value)) :
    Run (Recorded σ) (Cursor × Value) := fun s =>
  match run s with
  | (o,t) => (o,{ t with records := ⟨name,c,o⟩ :: t.records })

def NodeTable.recording {σ : Type} [Observer σ] (table : NodeTable) (source : Source) (frames : Nat) (active : List Entry) :
    Calls (Recorded σ) := table.callsAround source Run.recorded frames active

variable {σ : Type} [Observer σ] {table : NodeTable} {source : Source}

section Unchanged

private def itself (σ : Type) : Likeness (Recorded σ) σ := ⟨fun s t => s.state = t,Eq,Eq,fun _ => False,fun _ => False⟩

private theorem itself_fits : (itself σ).Fits Eq := by
  have watched : (itself σ).Watched := by
    refine ⟨?_,?_,?_⟩
    · intro f f' s t failures states
      rw [← (failures : f = f'),← (states : s.state = t)]
      rfl
    · intro why s t states
      rw [← (states : s.state = t)]
      rfl
    · intro why s t states
      rw [← (states : s.state = t)]
      rfl
  exact Likeness.fits_eq watched rfl

omit [Observer σ] in
private theorem alike_recorded {β : Type} {post : Cursor × Value → β → Prop} {run : Run (Recorded σ) (Cursor × Value)} {run' : Run σ β}
    (alike : Run.Alike (itself σ) post run run') (name : String) (c : Cursor) : Run.Alike (itself σ) post (run.recorded name c) run' := by
  intro s t same
  have ended := alike s t same
  unfold Run.recorded
  generalize run s = e at ended
  generalize run' t = e' at ended
  cases ended with
  | matched results states => exact .matched results states
  | failed failures states => exact .failed failures states
  | halted halts states => exact .halted halts states
  | first excused => exact .first excused
  | second excused => exact .second excused

private theorem recording_matching (table : NodeTable) (source : Source) :
    NodeTable.Matching (itself σ) { around := Run.recorded } {} table source where
  failures := rfl
  halts _ := rfl
  told f {_ _} := itself_fits.watched.fail rfl
  visit active c {s t} states := by
    rw [← (states : s.state = t)]
    rfl
  guarded := rfl
  around name c {_ _} alike := alike_recorded alike name c
  step {node _ _ _} _ alike c := Node.step_alike itself_fits alike (fun _ => rfl) (fun t _ => Terminal.alike_eq rfl source node.label t) rfl
  skip {_ _} alike atomic c := Skipping.skip_alike itself_fits (alike.within true) source table.separators atomic rfl

private theorem recording_alike (frames : Nat) (active : List Entry) (atomic : Bool) :
    Calls.Alike (itself σ) Eq (table.recording source frames active) (table.calls source frames active) atomic atomic := by
  rw [← NodeTable.callsBy_plain]
  exact (recording_matching table source).calls frames active atomic

omit [Observer σ] in
private theorem eq_of_itself {α : Type} {run : Run (Recorded σ) α} {run' : Run σ α} (alike : Run.Alike (itself σ) Eq run run')
    (s : Recorded σ) : ((run s).1,(run s).2.state) = run' s.state := by
  obtain ⟨outcome,states⟩ := (alike s s.state rfl).agree rfl rfl (fun _ => id) fun _ => id
  exact Prod.ext outcome states

namespace NodeTable

theorem recording_call (frames : Nat) (active : List Entry) (atomic : Bool) (name : String) (c : Cursor) (s : Recorded σ) :
    (((table.recording source frames active).call atomic name c s).1,
      ((table.recording source frames active).call atomic name c s).2.state) =
      (table.calls source frames active).call atomic name c s.state := by
  refine eq_of_itself (((recording_alike frames active atomic).call name c c rfl).mono ?_) s
  intro x y answers
  exact Prod.ext answers.1 answers.2

theorem recording_skip (frames : Nat) (active : List Entry) (atomic : Bool) (c : Cursor) (s : Recorded σ) :
    (((table.recording source frames active).skip atomic c s).1,((table.recording source frames active).skip atomic c s).2.state) =
      (table.calls source frames active).skip atomic c s.state :=
  eq_of_itself ((recording_alike frames active atomic).skip c c rfl) s

end NodeTable

end Unchanged

section Admitted
variable {manner : Manner}

structure Manner.Inside (manner : Manner) (source : Source) : Prop where
  placed : ∀ {c}, manner.placed c → c.From source 0
  onward : ∀ {c d}, manner.onward c d → c.pos ≤ d.pos

def Manner.Admits (manner : Manner) (source : Source) (r : Record) : Prop :=
  manner.placed r.input ∧ match r.outcome with
    | .matched (d,v) => manner.onward r.input d ∧ manner.call r.name r.input d v
    | .failed f => r.input.pos ≤ f.pos ∧ f.pos ≤ source.length
    | .halted _ => True

def Manner.recording (manner : Manner) (inside : manner.Inside source) : Account (Recorded σ) manner where
  leads s t := (∀ r ∈ s.records, manner.Admits source r) → ∀ r ∈ t.records, manner.Admits source r
  refl _ := id
  trans first second := second ∘ first
  visit _ _ _ := id
  hushed led := led
  failed c f _ := c.pos ≤ f.pos ∧ f.pos ≤ source.length
  lasting failed _ := failed
  told placed _ _ _ := ⟨id,Int.le_refl _,(inside.placed placed).2⟩
  behind moved failed := ⟨Int.le_trans (inside.onward moved) failed.1,failed.2⟩
  relabelled _ failed := ⟨Int.le_refl _,Int.le_trans failed.1 failed.2⟩
  begun _ failed := Furthest.pos_note_between (Int.le_refl _) (Int.le_trans failed.1 failed.2) failed.2
  noted _ known failed := Furthest.pos_note_between known.1 known.2 failed.2

theorem Manner.recorded (inside : manner.Inside source) (name : String) (c : Cursor) (run : Run (Recorded σ) (Cursor × Value))
    (placed : manner.placed c) (keeps : run.Keeps (manner.recording inside).toCourse (fun x => manner.Matches name c x.1 x.2)
      ((manner.recording (σ := σ) inside).failed c)) :
    (run.recorded name c).Keeps (manner.recording inside).toCourse (fun x => manner.Matches name c x.1 x.2)
      ((manner.recording (σ := σ) inside).failed c) := by
  intro s
  obtain ⟨led,ended⟩ := keeps s
  unfold Run.KeepsAt Run.recorded
  generalize run s = e at led ended
  obtain ⟨o,t⟩ := e
  refine ⟨?_,ended⟩
  intro before r member
  rcases List.mem_cons.1 member with rfl | member
  · refine ⟨placed,?_⟩
    cases o with
    | matched x => exact ended.2
    | failed f => exact ended
    | halted h => trivial
  · exact led before r member

/-- Every call on the record of a run is admitted, if a match is that is made of matches admitted. -/
theorem NodeTable.recording_admits (ran : Cursor → Cursor → Prop) (inside : manner.Inside source)
    (made : ∀ {name node c d v}, table.get? name = some node → manner.placed c →
      node.Made source manner.Matches (manner.Skipped ran) c d v → manner.onward c d ∧ manner.call name c d v)
    (skips : ∀ frames active c d (s : σ), manner.placed c → ((table.calls source frames active).skip false c s).1 = .matched d → ran c d)
    (frames : Nat) (active : List Entry) (atomic : Bool) (name : String) {c : Cursor} (placed : manner.placed c) (s : σ) :
    ∀ r ∈ ((table.recording source frames active).call atomic name c ⟨s,[]⟩).2.records, manner.Admits source r := by
  have minds : table.Minds source (manner.recording (σ := σ) inside) ran := by
    refine { made := made,empty := ?_ }
    intro node c _ placed _ s
    exact ⟨Int.le_refl _,(inside.placed placed).2⟩
  have skips' : ∀ frames active c d (s : Recorded σ), manner.placed c →
      ((table.callsAround source Run.recorded frames active).skip false c s).1 = .matched d → ran c d := by
    intro frames active c d s placed ended
    apply skips frames active c d s.state placed
    rw [← recording_skip]
    exact ended
  have mannerly := callsAround_mannerly minds (manner.recorded inside) skips' frames active atomic
  exact (mannerly.call name c placed ⟨s,[]⟩).1 fun _ member => (List.not_mem_nil member).elim

end Admitted

end TypedPeg
