import TypedPeg.Match.Run

/-! What a run keeps. However it ends, it leads its observer on along a given course; a match is as
it should be, and so is a failure in view of what the observer has come to, and a halt is one there
may be. Every way of making runs from runs passes this on. -/
namespace TypedPeg

/-- How the state of an observer may change in the course of a run, and which halts may end it. -/
structure Course (σ : Type) [Observer σ] where
  leads : σ → σ → Prop
  refl : ∀ s, leads s s
  trans : ∀ {s t u}, leads s t → leads t u → leads s u
  visit : ∀ active c s, leads s (Observer.visit active c s)
  hushed : ∀ {why s t}, leads (Observer.mute why s) t → leads s (Observer.unmute why t)
  halts : Halt → Prop := fun _ => True

namespace Run

variable {σ α β : Type} [Observer σ] {course : Course σ}

def KeepsAt (course : Course σ) (r : Run σ α) (s : σ) (ok : α → Prop) (no : Failure → σ → Prop) : Prop :=
  course.leads s (r s).2 ∧ match (r s).1 with
    | .matched a => ok a
    | .failed f => no f (r s).2
    | .halted h => course.halts h

def Keeps (course : Course σ) (r : Run σ α) (ok : α → Prop) (no : Failure → σ → Prop) : Prop := ∀ s, r.KeepsAt course s ok no

section At
variable {r : Run σ α} {s : σ} {ok : α → Prop} {no : Failure → σ → Prop}

theorem KeepsAt.mono {ok' : α → Prop} {no' : Failure → σ → Prop} (keeps : r.KeepsAt course s ok no) (match' : ∀ a, ok a → ok' a)
    (fail' : ∀ f t, no f t → no' f t) : r.KeepsAt course s ok' no' := by
  obtain ⟨leads,ended⟩ := keeps
  refine ⟨leads,?_⟩
  cases out : (r s).1 with
  | matched a =>
    rw [out] at ended
    exact match' a ended
  | failed f =>
    rw [out] at ended
    exact fail' f _ ended
  | halted h =>
    rw [out] at ended
    exact ended

theorem KeepsAt.bind {next : α → Run σ β} {ok' : β → Prop} (keeps : r.KeepsAt course s ok no)
    (rest : ∀ a, ok a → (next a).Keeps course ok' no) : (r >>= next).KeepsAt course s ok' no := by
  unfold KeepsAt at *
  rw [bind_apply]
  generalize r s = e at keeps
  obtain ⟨o,t⟩ := e
  cases o with
  | matched a => exact ⟨course.trans keeps.1 (rest a keeps.2 t).1,(rest a keeps.2 t).2⟩
  | failed f => exact keeps
  | halted h => exact keeps

theorem KeepsAt.tried {next : Except Failure α → Run σ β} {ok' : β → Prop} {no' : Failure → σ → Prop}
    (keeps : r.KeepsAt course s ok no) (fails : ∀ f t, course.leads s t → no f t → (next (.error f)).KeepsAt course t ok' no')
    (matched : ∀ a, ok a → (next (.ok a)).Keeps course ok' no') : (r.attempt >>= next).KeepsAt course s ok' no' := by
  unfold KeepsAt at keeps ⊢
  rw [bind_apply,attempt]
  generalize r s = e at keeps
  obtain ⟨o,t⟩ := e
  cases o with
  | matched a => exact ⟨course.trans keeps.1 (matched a keeps.2 t).1,(matched a keeps.2 t).2⟩
  | failed f =>
    -- what is known of the failure is known in the state it leaves, from which the run goes on
    have rest := fails f t keeps.1 keeps.2
    exact ⟨course.trans keeps.1 rest.1,rest.2⟩
  | halted h => exact keeps

theorem KeepsAt.raise {f : Failure} (known : no f s) : (Run.raise f : Run σ α).KeepsAt course s ok no := ⟨course.refl s,known⟩

end At

namespace Keeps

variable {r : Run σ α} {ok : α → Prop} {no : Failure → σ → Prop}

theorem mono {ok' : α → Prop} {no' : Failure → σ → Prop} (keeps : r.Keeps course ok no) (match' : ∀ a, ok a → ok' a)
    (fail' : ∀ f t, no f t → no' f t) : r.Keeps course ok' no' :=
  fun s => (keeps s).mono match' fail'

theorem pure {a : α} (holds : ok a) : Keeps course (Pure.pure a) ok no := fun s => ⟨course.refl s,holds⟩

theorem halt {h : Halt} (allowed : course.halts h) : Keeps course (Run.halt h : Run σ α) ok no := fun s => ⟨course.refl s,allowed⟩

theorem fail {f : Failure} (known : ∀ s, course.leads s (Observer.fail f s) ∧ no f (Observer.fail f s)) :
    Keeps course (Run.fail f : Run σ α) ok no := known

theorem bind {next : α → Run σ β} {ok' : β → Prop} (keeps : r.Keeps course ok no)
    (rest : ∀ a, ok a → (next a).Keeps course ok' no) : (r >>= next).Keeps course ok' no :=
  fun s => (keeps s).bind rest

theorem tried {next : Except Failure α → Run σ β} {ok' : β → Prop} {no' : Failure → σ → Prop} (keeps : r.Keeps course ok no)
    (fails : ∀ f t, no f t → (next (.error f)).KeepsAt course t ok' no')
    (matched : ∀ a, ok a → (next (.ok a)).Keeps course ok' no') : (r.attempt >>= next).Keeps course ok' no' :=
  fun s => (keeps s).tried (fun f t _ => fails f t) matched

theorem hushed (keeps : r.Keeps course ok fun _ _ => False) (why : Hush) : (r.hushed why).Keeps course ok no := by
  intro s
  have ended := keeps (Observer.mute why s)
  unfold KeepsAt Run.hushed at *
  generalize r (Observer.mute why s) = e at ended
  obtain ⟨o,t⟩ := e
  refine ⟨course.hushed ended.1,?_⟩
  cases o with
  | matched a => exact ended.2
  | failed f => exact ended.2.elim -- of a failure under the mute nothing would be known after it
  | halted h => exact ended.2

theorem attempt {no' : Failure → σ → Prop} (keeps : r.Keeps course ok no) :
    r.attempt.Keeps course (fun got => ∀ a, got = .ok a → ok a) no' := by
  intro s
  have ended := keeps s
  unfold KeepsAt Run.attempt at *
  generalize r s = e at ended
  obtain ⟨o,t⟩ := e
  cases o with
  | matched a =>
    refine ⟨ended.1,?_⟩
    intro b same
    cases same
    exact ended.2
  | failed f => exact ⟨ended.1,nofun⟩
  | halted h => exact ended

theorem visiting (keeps : r.Keeps course ok no) (active : List Entry) (c : Cursor) : (r.visiting active c).Keeps course ok no :=
  fun s => ⟨course.trans (course.visit active c s) (keeps (Observer.visit active c s)).1,(keeps (Observer.visit active c s)).2⟩

theorem reached (keeps : r.Keeps course ok no) : r.Keeps course (fun a => ok a ∧ ∃ s, (r s).1 = .matched a) no := by
  intro s
  refine ⟨(keeps s).1,?_⟩
  have ended := (keeps s).2
  cases out : (r s).1 with
  | matched a =>
    rw [out] at ended
    exact ⟨ended,s,out⟩
  | failed f =>
    rw [out] at ended
    exact ended
  | halted h =>
    rw [out] at ended
    exact ended

end Keeps

end Run

end TypedPeg
