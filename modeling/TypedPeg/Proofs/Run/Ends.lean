import TypedPeg.Match.Run

/-! What may come of a run, whatever its observer has seen: the matches, the failure and the halts
that are allowed. Every way of making runs from runs passes this on. -/
namespace TypedPeg

def Halt.CutShort : Halt → Prop
  | .tooDeep | .leftRecursion _ _ => True
  | .notRunnable | .misfit _ => False

namespace Run

variable {σ α β : Type} {halts : Halt → Prop}

/-- A match is as it should be, and so is a failure, and there are no halts but these. -/
def Gives (halts : Halt → Prop) (r : Run σ α) (ok : α → Prop) (no : Prop) : Prop :=
  ∀ s, match (r s).1 with
    | .matched a => ok a
    | .failed _ => no
    | .halted h => halts h

namespace Gives

variable {r : Run σ α} {ok : α → Prop} {no : Prop}

theorem mono {ok' : α → Prop} {no' : Prop} (gives : r.Gives halts ok no) (match' : ∀ a, ok a → ok' a) (fail' : no → no') :
    r.Gives halts ok' no' := by
  intro s
  have ended := gives s
  generalize (r s).1 = o at ended ⊢
  cases o with
  | matched a => exact match' a ended
  | failed f => exact fail' ended
  | halted h => exact ended

section Of
variable {s : σ}

theorem of_matched (gives : r.Gives halts ok no) {a : α} (ended : (r s).1 = .matched a) : ok a := by
  have given := gives s
  rwa [ended] at given

theorem of_failed (gives : r.Gives halts ok no) {f : Failure} (ended : (r s).1 = .failed f) : no := by
  have given := gives s
  rwa [ended] at given

theorem of_halted (gives : r.Gives halts ok no) {h : Halt} (ended : (r s).1 = .halted h) : halts h := by
  have given := gives s
  rwa [ended] at given

end Of

theorem pure {a : α} (holds : ok a) : Gives halts (Pure.pure a : Run σ α) ok no := fun _ => holds

theorem halt {h : Halt} (allowed : halts h) : Gives halts (Run.halt h : Run σ α) ok no := fun _ => allowed

theorem raise {f : Failure} (holds : no) : Gives halts (Run.raise f : Run σ α) ok no := fun _ => holds

theorem fail [Observer σ] {f : Failure} (holds : no) : Gives halts (Run.fail f : Run σ α) ok no := fun _ => holds

theorem bind {next : α → Run σ β} {mid : α → Prop} {ok : β → Prop} (gives : r.Gives halts mid no)
    (rest : ∀ a, mid a → (next a).Gives halts ok no) : (r >>= next).Gives halts ok no := by
  intro s
  have ended := gives s
  rw [bind_apply]
  generalize r s = e at ended ⊢
  obtain ⟨o,t⟩ := e
  cases o with
  | matched a => exact rest a ended t
  | failed f => exact ended
  | halted h => exact ended

/-- A failure that is caught tells as much as a match. -/
theorem attempt {no' : Prop} (gives : r.Gives halts ok no) :
    r.attempt.Gives halts (fun got => match got with | .ok a => ok a | .error _ => no) no' := by
  intro s
  have ended := gives s
  unfold Run.attempt
  generalize r s = e at ended ⊢
  obtain ⟨o,t⟩ := e
  cases o with
  | matched a => exact ended
  | failed f => exact ended
  | halted h => exact ended

theorem hushed [Observer σ] (gives : r.Gives halts ok no) (why : Hush) : (r.hushed why).Gives halts ok no :=
  fun s => gives (Observer.mute why s)

theorem visiting [Observer σ] (gives : r.Gives halts ok no) (active : List Entry) (c : Cursor) :
    (r.visiting active c).Gives halts ok no :=
  fun s => gives (Observer.visit active c s)

end Gives

def Finds (halts : Halt → Prop) (r : Run σ (Cursor × α)) (ends : Option Cursor → Prop) : Prop :=
  r.Gives halts (fun x => ends (some x.1)) (ends none)

namespace Finds

variable {r : Run σ (Cursor × α)} {ends : Option Cursor → Prop}

theorem mono {ends' : Option Cursor → Prop} (finds : r.Finds halts ends) (wider : ∀ o, ends o → ends' o) : r.Finds halts ends' :=
  Gives.mono finds (fun x => wider (some x.1)) (wider none)

theorem bind {next : Cursor × α → Run σ β} {ok : β → Prop} {no : Prop} (finds : r.Finds halts ends) (fails : ends none → no)
    (rest : ∀ x, ends (some x.1) → (next x).Gives halts ok no) : (r >>= next).Gives halts ok no :=
  Gives.bind (Gives.mono finds (fun _ => id) fails) rest

end Finds

def Comes (r : Run σ (Cursor × α)) (o : Option Cursor) : Prop := r.Finds (fun _ => False) (o = ·)

def Stops (r : Run σ Cursor) (o : Option Cursor) : Prop := r.Gives (fun _ => False) (o = some ·) (o = none)

section Known
theorem Comes.pure {a : α} {d : Cursor} : (Pure.pure (d,a) : Run σ (Cursor × α)).Comes (some d) := fun _ => rfl

variable {r : Run σ (Cursor × α)} {d : Cursor} {ok : β → Prop} {no : Prop}

theorem Comes.bind {next : Cursor × α → Run σ β} (comes : r.Comes (some d)) (rest : ∀ a, (next (d,a)).Gives (fun _ => False) ok no) :
    (r >>= next).Gives (fun _ => False) ok no := by
  refine Finds.bind comes nofun fun x same => ?_
  obtain ⟨after,a⟩ := x
  cases same
  exact rest a

theorem Comes.fails {next : Cursor × α → Run σ β} (comes : r.Comes none) (holds : no) : (r >>= next).Gives (fun _ => False) ok no :=
  Finds.bind comes (fun _ => holds) nofun

/-- What is done with the result alone does not move. -/
theorem Comes.keeps {next : Cursor × α → Run σ (Cursor × β)} {o : Option Cursor} (comes : r.Comes o)
    (rest : ∀ d a, (next (d,a)).Comes (some d)) : (r >>= next).Comes o := by
  cases o with
  | none => exact comes.fails rfl
  | some d => exact comes.bind (rest d)

theorem Comes.tried {next : Except Failure (Cursor × α) → Run σ β} (comes : r.Comes (some d))
    (rest : ∀ a, (next (.ok (d,a))).Gives (fun _ => False) ok no) : (r.attempt >>= next).Gives (fun _ => False) ok no := by
  refine Gives.bind (Gives.attempt comes) fun got same => ?_
  cases got with
  | ok x =>
    obtain ⟨after,a⟩ := x
    cases same
    exact rest a
  | error f => cases same

theorem Comes.caught {next : Except Failure (Cursor × α) → Run σ β} (comes : r.Comes none)
    (rest : ∀ f, (next (.error f)).Gives (fun _ => False) ok no) : (r.attempt >>= next).Gives (fun _ => False) ok no := by
  refine Gives.bind (Gives.attempt comes) fun got same => ?_
  cases got with
  | ok x => cases same
  | error f => exact rest f

theorem Stops.bind {r : Run σ Cursor} {next : Cursor → Run σ β} (stops : r.Stops (some d))
    (rest : (next d).Gives (fun _ => False) ok no) : (r >>= next).Gives (fun _ => False) ok no := by
  refine Gives.bind (Gives.mono stops (fun _ => id) nofun) fun after same => ?_
  cases same
  exact rest

end Known

end Run

end TypedPeg
