import TypedPeg.Match.Context
import TypedPeg.Proofs.Match.Diagnostics

/-! A context is left as it was found. What it has of the calls in progress and of the atomic flag is, at every
point, what a run of calls that hand these down would have been handed, so the two end alike; and
what one operation does to the tracker is of no interest to the next. -/
namespace TypedPeg

section Operation
variable {σ τ : Type} [Observer σ] [Observer τ] (source : Source)

theorem Context.Operation.via_alike {l : Likeness σ τ} (watched : l.Watched) (failures : l.failures = Eq) (halts : ∀ h, l.halts h h)
    {calls : Calls σ} {calls' : Calls τ} {atomic atomic' : Bool} (alike : Calls.Alike l Eq calls calls' atomic atomic') (op : Operation) :
    Run.Alike l Eq (op.via calls source atomic) (op.via calls' source atomic') := by
  have answer {r : Run σ (Cursor × Value)} {r' : Run τ (Cursor × Value)} (same : Run.Alike l (Likeness.Answers Eq) r r') :
      Run.Alike l Eq (r >>= fun x => pure (x.1,some x.2)) (r' >>= fun x => pure (x.1,some x.2)) := by
    refine same.answer fun after after' value close => ?_
    exact .pure (by rw [close])
  cases op with
  | call name input => exact answer (alike.call name input input rfl)
  | within flag name input => exact answer (alike.within flag name input input rfl)
  | skip input =>
    refine (alike.skip input input rfl).bind fun after after' same => ?_
    exact .pure (by rw [same])
  | step node input =>
    exact answer (Node.step_alike (Likeness.fits_eq watched failures) alike (fun _ => halts _)
      (fun t _ => Terminal.alike_eq failures source _ t) rfl)

theorem Context.Operation.via_leads (course : Course σ) (told : ∀ f s, course.leads s (Observer.fail f s)) (halts : ∀ h, course.halts h)
    (table : NodeTable) (frames : Nat) (active : List Entry) (atomic : Bool) (op : Operation) (s : σ) :
    course.leads s (op.via (table.calls source frames active) source atomic s).2 := by
  have mannerly := NodeTable.calls_lead course told halts table source frames active atomic
  have left {α : Type} {r : Run σ α} {ok : α → Prop} {no : Failure → σ → Prop} (keeps : r.Keeps course ok no)
      (show' : α → Cursor × Option Value) : course.leads s ((r >>= fun a => pure (show' a)) s).2 := by
    have shown : (r >>= fun a => pure (show' a)).Keeps course (fun _ => True) no := keeps.bind fun _ _ => .pure trivial
    exact (shown s).1
  cases op with
  | call name input => exact left (mannerly.call name input trivial) fun x => (x.1,some x.2)
  | within flag name input => exact left (mannerly.within flag name input trivial) fun x => (x.1,some x.2)
  | skip input => exact left (mannerly.skip input trivial) fun c => (c,none)
  | step node input =>
    exact left (Node.step_mannerly source mannerly { declared := fun _ => halts _ } trivial fun _ _ => trivial) fun x => (x.1,some x.2)

end Operation

namespace Context

variable {α β : Type}

def holding (atomic : Bool) (active : Finset Entry) : Likeness Context Tracker :=
  ⟨fun ctx t => ctx = ⟨atomic,active,t⟩,Eq,Eq,fun _ => False,fun _ => False⟩

theorem holding_watched (atomic : Bool) (active : Finset Entry) : (holding atomic active).Watched where
  fail := by
    rintro f _ _ t rfl rfl
    rfl
  mute := by
    rintro why _ t rfl
    rfl
  unmute := by
    rintro why _ t rfl
    rfl

/-- A change is made good if it is taken back from whatever context is left. -/
theorem borrowing_alike {atomic atomic' : Bool} {active active' : Finset Entry} {post : α → β → Prop} {change : Context → Context}
    {back : Context → Context → Context} {r : Run Context α} {r' : Run Tracker β}
    (changed : ∀ t, change ⟨atomic,active,t⟩ = ⟨atomic',active',t⟩)
    (restored : ∀ t t', back ⟨atomic,active,t⟩ ⟨atomic',active',t'⟩ = ⟨atomic,active,t'⟩)
    (alike : Run.Alike (holding atomic' active') post r r') : Run.Alike (holding atomic active) post (borrowing change back r) r' := by
  rintro _ t rfl
  have ended := alike _ t (changed t)
  unfold borrowing
  generalize r (change ⟨atomic,active,t⟩) = e at ended ⊢
  generalize r' t = e' at ended ⊢
  cases ended with
  | matched results states =>
    cases states
    exact .matched results (restored _ _)
  | failed failures states =>
    cases states
    exact .failed failures (restored _ _)
  | halted halts states =>
    cases states
    exact .halted halts (restored _ _)
  | first excused => exact excused.elim
  | second excused => exact excused.elim

theorem flagged_alike {atomic flag : Bool} {active : Finset Entry} {post : α → β → Prop} {r : Run Context α} {r' : Run Tracker β}
    (alike : Run.Alike (holding flag active) post r r') : Run.Alike (holding atomic active) post (flagged flag r) r' :=
  borrowing_alike (fun _ => rfl) (fun _ _ => rfl) alike

theorem entering_alike {atomic : Bool} {active : Finset Entry} {entry : Entry} {post : α → β → Prop} {r : Run Context α}
    {r' : Run Tracker β}
    (fresh : entry ∉ active) (alike : Run.Alike (holding atomic (insert entry active)) post r r') :
    Run.Alike (holding atomic active) post (entering entry r) r' := by
  rintro _ t rfl
  rw [entering,if_neg fresh]
  refine borrowing_alike (fun _ => rfl) (fun t t' => ?_) alike _ t rfl
  dsimp only
  rw [Finset.erase_insert fresh]

theorem entering_busy {atomic : Bool} {active : Finset Entry} {entry : Entry} {post : α → β → Prop} {r : Run Context α}
    (busy : entry ∈ active) : Run.Alike (holding atomic active) post (entering entry r)
      (Run.halt (.leftRecursion entry.name entry.pos) : Run Tracker β) := by
  rintro _ t rfl
  rw [entering,if_pos busy]
  exact .halted rfl rfl

variable (table : NodeTable) (source : Source)

/-- Calls on a context end as calls that are handed its flag and the calls in progress, and give it back. -/
theorem calls_alike (frames : Nat) (active : List Entry) (flag atomic : Bool) :
    Calls.Alike (holding atomic active.toFinset) Eq (calls table source frames) (table.calls source frames active) flag atomic := by
  -- on the frames, for every flag and all calls in progress: a node at work has itself in progress, a separator the flag set
  induction frames using Nat.strongRecOn generalizing active flag atomic with
  | ind frames ih =>
    cases frames with
    | zero =>
      have spent {α : Type} {post : α → α → Prop} : Run.Alike (holding atomic active.toFinset) post (Run.halt .tooDeep)
          (Run.halt .tooDeep) :=
        .halt rfl
      exact ⟨fun _ _ _ _ => spent,fun _ _ _ _ _ => spent,fun _ _ _ => spent⟩
    | succ frames =>
      have watched := holding_watched atomic active.toFinset
      refine ⟨?_,?_,?_⟩
      · rintro name c _ rfl
        simp only [calls,Table.calls]
        cases table.get? name with
        | none => exact .fail watched rfl
        | some node =>
          dsimp only
          by_cases busy : Entry.isIn ⟨c.pos,name⟩ active = true
          · rw [if_pos busy]
            exact entering_busy (List.mem_toFinset.2 (Entry.isIn_iff.1 busy))
          · rw [if_neg busy]
            refine entering_alike (fun member => busy (Entry.isIn_iff.2 (List.mem_toFinset.1 member))) ?_
            rw [← List.toFinset_cons]
            cases frames with
            | zero => exact .halt rfl
            | succ left =>
              dsimp only
              rw [Run.withRoom_eq]
              exact Node.step_alike (Likeness.fits_eq (holding_watched _ _) rfl) (ih left (by omega) (⟨c.pos,name⟩ :: active) false atomic)
                (fun _ => rfl) (fun t _ => Terminal.alike_eq rfl source _ t) rfl
      · rintro flag name c _ rfl
        simp only [calls,Table.calls]
        exact flagged_alike ((ih frames (by omega) active flag flag).call name c c rfl)
      · rintro c _ rfl
        simp only [calls,Table.calls]
        have swept := Skipping.skip_alike (Likeness.fits_eq watched rfl) (ih frames (by omega) active true atomic |>.within true) source
          table.separators atomic (rfl : c = c)
        rintro _ t rfl
        exact swept _ t rfl

namespace Operation

/-- An operation on a context is a run of calls that are handed what the context has. -/
theorem on_eq (op : Operation) (frames : Nat) {ctx : Context} {active : List Entry} (held : active.toFinset = ctx.active) :
    op.on table source frames ctx =
      let ended := op.via (table.calls source frames active) source ctx.atomic ctx.tracker
      (ended.1,{ ctx with tracker := ended.2 }) := by
  obtain ⟨atomic,_,t⟩ := ctx
  subst held
  have ended := op.via_alike source (holding_watched atomic active.toFinset) rfl (fun _ => rfl)
    (calls_alike table source frames active false atomic) ⟨atomic,active.toFinset,t⟩ t rfl
  obtain ⟨outcome,states⟩ := ended.agree rfl rfl (fun _ => id) fun _ => id
  exact Prod.ext outcome states

/-- Of a context an operation changes nothing but what the tracker has seen. -/
theorem on_framed (op : Operation) (frames : Nat) (ctx : Context) :
    (op.on table source frames ctx).2 =
      { ctx with tracker := { ctx.tracker with furthest := (op.on table source frames ctx).2.tracker.furthest } } := by
  rw [op.on_eq table source frames ctx.active.toList_toFinset]
  dsimp only
  obtain ⟨enabled,muted,-⟩ := op.via_leads source Tracker.steady Tracker.steady_told
    (fun _ => trivial) table frames ctx.active.toList ctx.atomic ctx.tracker
  rw [← enabled,← muted]

theorem on_outcome (op : Operation) (frames : Nat) (atomic : Bool) (t t' : Tracker) :
    (op.on table source frames ⟨atomic,∅,t⟩).1 = (op.on table source frames ⟨atomic,∅,t'⟩).1 := by
  have nothing : ([] : List Entry).toFinset = ∅ := List.toFinset_nil
  rw [op.on_eq table source frames nothing,op.on_eq table source frames nothing]
  exact Run.outcome_eq (op.via_alike source unobserved_watched rfl (fun _ => rfl)
    (NodeTable.calls_unobserved table source frames [] atomic)) t t'

end Operation

/-- Whatever is done to a context one after another, and however each of these ends, the atomic flag, the calls
in progress and the depth of mutes are after each what they were before it. So where no call is in progress
each ends as it would on a fresh context with that flag, and that is as the calls end that are handed the flag. -/
theorem history_framed (table : NodeTable) (source : Source) (frames : Operation → Nat) (ops : List Operation) :
    (∀ ctx, (history table source frames ops ctx).map (fun ended => (ended.2.atomic,ended.2.active,ended.2.tracker.muted)) =
      ops.map fun _ => (ctx.atomic,ctx.active,ctx.tracker.muted)) ∧
    (∀ atomic tracker tracked, (history table source frames ops ⟨atomic,∅,tracker⟩).map Prod.fst =
      ops.map fun op => (op.on table source (frames op) (fresh atomic tracked)).1) ∧
    ∀ (op : Operation) atomic tracker, op.on table source (frames op) ⟨atomic,∅,tracker⟩ =
      let ended := op.via (table.calls source (frames op) []) source atomic tracker
      (ended.1,⟨atomic,∅,ended.2⟩) := by
  refine ⟨?_,?_,fun op atomic tracker => op.on_eq table source (frames op) List.toFinset_nil⟩
  · induction ops with
    | nil => exact fun _ => rfl
    | cons op ops ih =>
      intro ctx
      have framed := op.on_framed table source (frames op) ctx
      rw [history,List.map_cons,List.map_cons,ih,framed]
  · intro atomic tracker tracked
    induction ops generalizing tracker with
    | nil => rfl
    | cons op ops ih =>
      have framed := op.on_framed table source (frames op) ⟨atomic,∅,tracker⟩
      rw [history,List.map_cons,List.map_cons,framed,ih]
      exact congrArg (· :: _) (op.on_outcome table source (frames op) atomic tracker _)

end Context

end TypedPeg
