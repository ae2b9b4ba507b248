import TypedPeg.Match.Run

/-! Two runs side by side. They are alike if, from related states of their observers, they
end in the same way with related results, unless one of them halts for a reason that excuses
it. Every way of making runs from runs keeps them alike. -/
namespace TypedPeg

/-- What two runs are to have in common. After an excused halt of either nothing is asked of
the other. -/
structure Likeness (σ τ : Type) where
  states : σ → τ → Prop
  failures : Failure → Failure → Prop
  halts : Halt → Halt → Prop
  firstExcused : Halt → Prop
  secondExcused : Halt → Prop

namespace Likeness

variable {σ τ α β : Type}

inductive Ends (l : Likeness σ τ) (post : α → β → Prop) : Outcome α × σ → Outcome β × τ → Prop
  | matched {a b s t} (results : post a b) (states : l.states s t) : Ends l post (.matched a,s) (.matched b,t)
  | failed {f f' s t} (failures : l.failures f f') (states : l.states s t) :
      Ends l post (.failed f,s) (.failed f',t)
  | halted {h h' s t} (halts : l.halts h h') (states : l.states s t) : Ends l post (.halted h,s) (.halted h',t)
  | first {h s e} (excused : l.firstExcused h) : Ends l post (.halted h,s) e
  | second {h t e} (excused : l.secondExcused h) : Ends l post e (.halted h,t)

theorem Ends.mono {l : Likeness σ τ} {post wider : α → β → Prop} (widen : ∀ a b, post a b → wider a b)
    {e : Outcome α × σ} {e' : Outcome β × τ} (ended : l.Ends post e e') : l.Ends wider e e' := by
  cases ended with
  | matched results states => exact .matched (widen _ _ results) states
  | failed failures states => exact .failed failures states
  | halted halts states => exact .halted halts states
  | first excused => exact .first excused
  | second excused => exact .second excused

/-- Where nothing is excused, runs that are alike end in the same way. -/
theorem Ends.agree {l : Likeness σ τ} (failures : l.failures = Eq) (halts : l.halts = Eq) (first : ∀ h, ¬l.firstExcused h)
    (second : ∀ h, ¬l.secondExcused h) {e : Outcome α × σ} {e' : Outcome α × τ} (ended : l.Ends Eq e e') :
    e.1 = e'.1 ∧ l.states e.2 e'.2 := by
  cases ended with
  | matched results states => exact ⟨congrArg Outcome.matched results,states⟩
  | failed same states =>
    rw [failures] at same
    exact ⟨congrArg Outcome.failed same,states⟩
  | halted same states =>
    rw [halts] at same
    exact ⟨congrArg Outcome.halted same,states⟩
  | first excused => exact (first _ excused).elim
  | second excused => exact (second _ excused).elim

end Likeness

namespace Run

variable {σ τ α β γ δ : Type} {l : Likeness σ τ}

def Alike (l : Likeness σ τ) (post : α → β → Prop) (r : Run σ α) (r' : Run τ β) : Prop :=
  ∀ s t, l.states s t → l.Ends post (r s) (r' t)

namespace Alike

theorem mono {post wider : α → β → Prop} {r : Run σ α} {r' : Run τ β} (alike : Alike l post r r')
    (widen : ∀ a b, post a b → wider a b) : Alike l wider r r' :=
  fun s t related => (alike s t related).mono widen

theorem pure {post : α → β → Prop} {a : α} {b : β} (results : post a b) :
    Alike l post (Pure.pure a : Run σ α) (Pure.pure b : Run τ β) :=
  fun _ _ related => .matched results related

theorem bind {mid : α → β → Prop} {post : γ → δ → Prop} {r : Run σ α} {r' : Run τ β}
    {next : α → Run σ γ} {next' : β → Run τ δ} (first : Alike l mid r r')
    (rest : ∀ a b, mid a b → Alike l post (next a) (next' b)) : Alike l post (r >>= next) (r' >>= next') := by
  intro s t related
  rw [bind_apply,bind_apply]
  have ended := first s t related
  generalize r s = e at ended ⊢
  generalize r' t = e' at ended ⊢
  cases ended with
  | matched results states => exact rest _ _ results _ _ states
  | failed failures states => exact .failed failures states
  | halted halts states => exact .halted halts states
  | first excused => exact .first excused
  | second excused => exact .second excused

theorem halt {post : α → β → Prop} {h h' : Halt} (halts : l.halts h h') :
    Alike l post (Run.halt h : Run σ α) (Run.halt h' : Run τ β) :=
  fun _ _ related => .halted halts related

theorem raise {post : α → β → Prop} {f f' : Failure} (failures : l.failures f f') :
    Alike l post (Run.raise f : Run σ α) (Run.raise f' : Run τ β) :=
  fun _ _ related => .failed failures related

def caught (l : Likeness σ τ) (post : α → β → Prop) : Except Failure α → Except Failure β → Prop
  | .ok a,.ok b => post a b
  | .error f,.error f' => l.failures f f'
  | _,_ => False

theorem attempt {post : α → β → Prop} {r : Run σ α} {r' : Run τ β} (alike : Alike l post r r') :
    Alike l (caught l post) r.attempt r'.attempt := by
  intro s t related
  have ended := alike s t related
  unfold Run.attempt
  generalize r s = e at ended ⊢
  generalize r' t = e' at ended ⊢
  cases ended with
  | matched results states => exact .matched results states
  | failed failures states => exact .matched failures states
  | halted halts states => exact .halted halts states
  | first excused => exact .first excused
  | second excused => exact .second excused

/-- Both fail and go on from the failure, or both match. -/
theorem tried {mid : α → β → Prop} {post : γ → δ → Prop} {r : Run σ (Except Failure α)} {r' : Run τ (Except Failure β)}
    {next : Except Failure α → Run σ γ} {next' : Except Failure β → Run τ δ} (alike : Alike l (caught l mid) r r')
    (fails : ∀ f f', l.failures f f' → Alike l post (next (.error f)) (next' (.error f')))
    (matched : ∀ a b, mid a b → Alike l post (next (.ok a)) (next' (.ok b))) : Alike l post (r >>= next) (r' >>= next') := by
  refine alike.bind fun got got' same => ?_
  cases got with
  | error f =>
    cases got' with
    | error f' => exact fails f f' same
    | ok b => exact same.elim
  | ok a =>
    cases got' with
    | error f' => exact same.elim
    | ok b => exact matched a b same

end Alike

end Run

/-- Nobody watches. -/
instance : Observer Unit where
  visit _ _ _ := ()
  fail _ _ := ()
  mute _ _ := ()
  unmute _ _ := ()

/-- The observers' states stay related whatever both are told. -/
structure Likeness.Watched {σ τ : Type} [Observer σ] [Observer τ] (l : Likeness σ τ) : Prop where
  fail : ∀ {f f' s t}, l.failures f f' → l.states s t → l.states (Observer.fail f s) (Observer.fail f' t)
  mute : ∀ {why s t}, l.states s t → l.states (Observer.mute why s) (Observer.mute why t)
  unmute : ∀ {why s t}, l.states s t → l.states (Observer.unmute why s) (Observer.unmute why t)

namespace Run.Alike

variable {σ τ α β : Type} [Observer σ] [Observer τ] {l : Likeness σ τ} {post : α → β → Prop}

theorem fail (watched : l.Watched) {f f' : Failure} (failures : l.failures f f') :
    Alike l post (Run.fail f : Run σ α) (Run.fail f' : Run τ β) :=
  fun _ _ related => .failed failures (watched.fail failures related)

theorem hushed (watched : l.Watched) {r : Run σ α} {r' : Run τ β} (alike : Alike l post r r') (why : Hush) :
    Alike l post (r.hushed why) (r'.hushed why) := by
  intro s t related
  have muted : l.states (Observer.mute why s) (Observer.mute why t) := watched.mute related
  have ended := alike _ _ muted
  unfold Run.hushed
  generalize r (Observer.mute why s) = e at ended ⊢
  generalize r' (Observer.mute why t) = e' at ended ⊢
  cases ended with
  | matched results states => exact .matched results (watched.unmute states)
  | failed failures states => exact .failed failures (watched.unmute states)
  | halted halts states => exact .halted halts (watched.unmute states)
  | first excused => exact .first excused
  | second excused => exact .second excused

end Run.Alike

end TypedPeg
