import TypedPeg.Proofs.Match.Context

/-! Where skipping comes to rest. The last sweep has tried every separator and moved past none, so none
moves past where it ends; sweeping from there moves nothing, and what was not moved at all keeps its stack. -/
namespace TypedPeg

namespace Skipping

variable {σ : Type} {source : Source} {separator : String → Cursor → Run σ (Cursor × Value)} {name : String} {names : List String}
  {c : Cursor}

/-- Whoever watches, the separator fails there or moves no further. -/
def Idle (separator : String → Cursor → Run σ (Cursor × Value)) (c : Cursor) (name : String) : Prop :=
  (separator name c).Gives (fun _ => False) (fun x => x.1.pos ≤ c.pos) True

section Idle

theorem sweep_idle (idle : ∀ name ∈ names, Idle separator c name) : (sweep separator names c).Stops (some c) := by
  induction names with
  | nil => exact .pure rfl
  | cons name names ih =>
    obtain ⟨first,others⟩ := List.forall_mem_cons.1 idle
    refine Run.Gives.bind (.attempt first) fun got still => ?_
    cases got with
    | error f => exact ih others
    | ok x =>
      dsimp only
      rw [if_neg (Int.not_lt.2 still)]
      exact ih others

theorem sweeps_idle (idle : ∀ name ∈ names, Idle separator c name) (rounds : Nat) : (sweeps separator names rounds c).Stops (some c) := by
  cases rounds with
  | zero => exact .pure rfl
  | succ rounds =>
    refine (sweep_idle idle).bind ?_
    rw [if_neg (Int.lt_irrefl c.pos)]
    exact .pure rfl

theorem skip_idle [Observer σ] {atomic : Bool} (idle : atomic = false → ∀ name ∈ names, Idle separator c name) :
    (skip source names separator atomic c).Stops (some c) := by
  unfold skip
  split
  · exact .pure rfl
  · rename_i opened
    rw [Bool.or_eq_true,not_or,Bool.not_eq_true,Bool.not_eq_true] at opened
    exact (sweeps_idle (idle opened.2) _).hushed _

end Idle

section Rest
variable (blind : ∀ name c s t, (separator name c s).1 = (separator name c t).1)
  (nears : ∀ {name c s d v}, (separator name c s).1 = .matched (d,v) → c.Nears source d)
include blind nears

/-- A separator that has been tried moves on, or is idle there. -/
theorem gives_of_blind (name : String) (c : Cursor) : (separator name c).Gives (fun _ => True)
    (fun x => c.Nears source x.1 ∧ (x.1.pos ≤ c.pos → Idle separator c name)) (Idle separator c name) := by
  intro s
  cases ended : (separator name c s).1 with
  | matched x =>
    refine ⟨nears ended,fun still t => ?_⟩
    rw [blind name c t s,ended]
    exact still
  | failed f =>
    intro t
    rw [blind name c t s,ended]
    trivial
  | halted h => trivial

theorem sweep_rests (names : List String) (c : Cursor) : (sweep separator names c).Gives (fun _ => True)
    (fun r => c.pos < r.pos ∧ r.ahead source < c.ahead source ∨ r = c ∧ ∀ name ∈ names, Idle separator c name) False := by
  induction names generalizing c with
  | nil => exact .pure (.inr ⟨rfl,nofun⟩)
  | cons name names ih =>
    have still (idle : Idle separator c name) : (sweep separator names c).Gives (fun _ => True) (fun r =>
        c.pos < r.pos ∧ r.ahead source < c.ahead source ∨ r = c ∧ ∀ other ∈ name :: names, Idle separator c other) False :=
      (ih c).mono (fun r rests => rests.imp_right fun ⟨same,others⟩ => ⟨same,List.forall_mem_cons.2 ⟨idle,others⟩⟩) id
    refine Run.Gives.bind (.attempt (gives_of_blind blind nears name c)) fun got tried => ?_
    cases got with
    | error f => exact still tried
    | ok x =>
      obtain ⟨near,idle⟩ := tried
      dsimp only
      split
      · rename_i further
        have less := near.ahead_lt (Int.ne_of_gt further)
        refine (ih x.1).mono (fun r rests => .inl ?_) id
        rcases rests with ⟨further',less'⟩ | ⟨rfl,-⟩
        · exact ⟨Int.lt_trans further further',Nat.lt_trans less' less⟩
        · exact ⟨further,less⟩
      · rename_i behind
        exact still (idle (Int.not_lt.1 behind))

/-- Sweeps end where every separator is idle, and as they began if they end there. -/
theorem sweeps_rests (names : List String) {rounds : Nat} {c : Cursor} (enough : c.ahead source < rounds) :
    (sweeps separator names rounds c).Gives (fun _ => True)
      (fun r => c.pos ≤ r.pos ∧ (r.pos = c.pos → r = c) ∧ ∀ name ∈ names, Idle separator r name) False := by
  -- every round but the last leaves less ahead, so the rounds do not run out
  induction rounds generalizing c with
  | zero => exact (Nat.not_lt_zero _ enough).elim
  | succ rounds ih =>
    refine (sweep_rests blind nears names c).bind fun d rests => ?_
    split
    · rename_i further
      rcases rests with ⟨-,less⟩ | ⟨rfl,-⟩
      · refine (ih (Nat.lt_of_lt_of_le less (Nat.lt_succ_iff.1 enough))).mono ?_ id
        rintro r ⟨after,-,idle⟩
        have beyond := Int.lt_of_lt_of_le further after
        exact ⟨Int.le_of_lt beyond,fun same => (Int.ne_of_gt beyond same).elim,idle⟩
      · exact (Int.lt_irrefl _ further).elim
    · rename_i behind
      rcases rests with ⟨further,-⟩ | ⟨rfl,idle⟩
      · exact (behind further).elim
      · exact .pure ⟨Int.le_refl _,fun _ => rfl,idle⟩

theorem skip_rests [Observer σ] (names : List String) (atomic : Bool) (c : Cursor) :
    (skip source names separator atomic c).Gives (fun _ => True)
    (fun r => c.pos ≤ r.pos ∧ (r.pos = c.pos → r = c) ∧ (atomic = false → ∀ name ∈ names, Idle separator r name)) False := by
  unfold skip
  split
  · rename_i closed
    refine .pure ⟨Int.le_refl _,fun _ => rfl,fun opened name member => ?_⟩
    rw [opened,Bool.or_false,List.isEmpty_iff] at closed
    rw [closed] at member
    exact (List.not_mem_nil member).elim
  · refine .mono (.hushed (sweeps_rests blind nears names (by omega)) _) ?_ id
    rintro r ⟨after,same,idle⟩
    exact ⟨after,same,fun _ => idle⟩

end Rest

end Skipping

namespace NodeTable

variable {σ : Type} [Observer σ] (table : NodeTable) (source : Source) (frames : Nat) (active : List Entry)

theorem within_blind (flag : Bool) (name : String) (c : Cursor) (s t : σ) :
    ((table.calls source frames active).within flag name c s).1 = ((table.calls source frames active).within flag name c t).1 := by
  have alike : Calls.Alike (unobserved σ σ) Eq (table.calls source frames active) (table.calls source frames active) flag flag :=
    calls_unobserved table source frames active flag
  exact Run.outcome_eq ((alike.within flag name c c rfl).mono fun _ _ => Answers.eq) s t

theorem calls_skip (atomic : Bool) (c : Cursor) : ((table.calls source (frames + 1) active).skip atomic c : Run σ Cursor) =
    Skipping.skip source table.separators ((table.calls source frames active).within true) atomic c := by
  rw [← callsIf_true,callsIf_skip,callsIf_true]

/-- With another frame a separator is as idle as it was. -/
theorem idle_succ {c : Cursor} {name : String} (idle : Skipping.Idle ((table.calls source frames active : Calls σ).within true) c name) :
    Skipping.Idle ((table.calls source (frames + 1) active : Calls σ).within true) c name := by
  intro s
  have ended := idle s
  rw [← callsIf_true,callsIf_within] at ended
  rw [← callsIf_true,callsIf_within,Nat.add_sub_cancel]
  have finished : ((table.callsIf source true (frames - 1) active).call true name c s).1 ≠ .halted .tooDeep := by
    intro spent
    rw [spent] at ended
    exact ended
  have same := callsIf_mono (Nat.sub_le frames 1) active true name c finished
  rw [same]
  exact ended

/-- What is idle consumes nothing. From past the end it may still come back to it. -/
theorem within_idle_gives {c : Cursor} {name : String}
    (idle : Skipping.Idle ((table.calls source frames active : Calls σ).within true) c name) :
    ((table.calls source frames active : Calls σ).within true name c).Gives (fun _ => False)
      (fun x => x.1.pos ≤ c.pos ∧ (c.pos ≤ source.length → x.1.pos = c.pos)) True := by
  intro s
  have ended := idle s
  cases out : ((table.calls source frames active).within true name c s).1 with
  | matched x =>
    obtain ⟨d,v⟩ := x
    rw [out] at ended
    have nears : c.Nears source d := ((table.calls_nearing source frames active true).of_within trivial out).2.1
    have still : d.pos ≤ c.pos := ended
    refine ⟨still,fun inside => ?_⟩
    have further := (nears.from inside).1
    exact Int.le_antisymm still further
  | failed f => trivial
  | halted h =>
    rw [out] at ended
    exact ended

theorem skip_rests (atomic : Bool) (c : Cursor) :
    let calls : Calls σ := table.calls source frames active
    (calls.skip atomic c).Gives (fun _ => True) (fun r => c.pos ≤ r.pos ∧ (r.pos = c.pos → r = c) ∧
      (atomic = false → ∀ name ∈ table.separators, Skipping.Idle (calls.within true) r name) ∧
        (calls.skip atomic r).Stops (some r)) False := by
  cases frames with
  | zero => exact .halt trivial
  | succ frames =>
    have swept := Skipping.skip_rests (table.within_blind source frames active true)
      (fun matched => ((table.calls_nearing (σ := σ) source frames active true).of_within trivial matched).2.1) table.separators atomic c
    dsimp only
    rw [calls_skip]
    refine swept.mono ?_ id
    rintro r ⟨after,same,idle⟩
    rw [calls_skip]
    exact ⟨after,same,fun opened name member => table.idle_succ source frames active (idle opened name member),Skipping.skip_idle idle⟩

end NodeTable

/-- Skipping leaves a tracker as it was, unless more mutes have been taken back than were made. -/
theorem Tracker.skip_untold (table : NodeTable) (source : Source) (frames : Nat) (active : List Entry) (atomic : Bool) (c : Cursor)
    {t : Tracker} (unmuted : 0 ≤ t.muted) : ((table.calls source frames active).skip atomic c t).2 = t := by
  cases frames with
  | zero => rfl
  | succ frames =>
    rw [NodeTable.calls_skip,Skipping.skip]
    split
    · rfl
    · have within := (calls_steady table source frames active true).within true
      have swept := Skipping.sweeps_mannerly (c := c) within table.separators (c.ahead source + 2) trivial (Observer.mute .separators t)
      obtain ⟨enabled,muted,kept⟩ := swept.1
      have kept := kept (Int.lt_add_one_of_le unmuted)
      unfold Run.hushed
      generalize Skipping.sweeps ((table.calls source frames active).within true) table.separators (c.ahead source + 2) c
        (Observer.mute .separators t) = swept at enabled muted kept ⊢
      obtain ⟨o,u⟩ := swept
      obtain ⟨on,count,furthest⟩ := u
      cases enabled
      cases muted
      cases kept
      show (⟨t.enabled,t.muted + 1 + -1,t.furthest⟩ : Tracker) = t
      rw [Int.add_neg_cancel_right]

namespace Context

variable (table : NodeTable) (source : Source) (frames : Nat)

namespace Operation

section Via
variable {σ : Type} [Observer σ] {calls : Calls σ} {halts : Halt → Prop} {no : Prop} {c : Cursor}

theorem via_skip {atomic : Bool} {ok : Cursor → Prop} (gives : (calls.skip atomic c).Gives halts ok no) :
    ((Operation.skip c).via calls source atomic).Gives halts (fun x => x.2 = none ∧ ok x.1) no :=
  gives.bind fun _ known => .pure ⟨rfl,known⟩

theorem via_within {flag : Bool} {name : String} {ok : Cursor × Value → Prop} (gives : (calls.within flag name c).Gives halts ok no)
    (atomic : Bool) : ((Operation.within flag name c).via calls source atomic).Gives halts (fun x => ∃ v, ok (x.1,v)) no :=
  gives.bind fun x known => .pure ⟨x.2,known⟩

end Via

variable {table source frames} {ctx : Context}

theorem skip_on (unmuted : 0 ≤ ctx.tracker.muted) (c : Cursor) : ((Operation.skip c).on table source frames ctx).2 = ctx := by
  rw [on_eq table source (.skip c) frames ctx.active.toList_toFinset]
  have untold := Tracker.skip_untold table source frames ctx.active.toList ctx.atomic c unmuted
  have left : ((Operation.skip c).via (table.calls source frames ctx.active.toList) source ctx.atomic ctx.tracker).2 = ctx.tracker := by
    rw [via,Run.bind_apply]
    generalize (table.calls source frames ctx.active.toList).skip ctx.atomic c ctx.tracker = ended at untold ⊢
    obtain ⟨o,t⟩ := ended
    cases o <;> exact untold
  dsimp only
  rw [left]

end Operation

/-- Skipping on a context that is not unmuted never fails and leaves the context as it was, whatever it comes to. A cursor
to which it comes is not before the one given, and is that one if it stands there; unless the atomic flag is set, every
separator fails there or consumes nothing; and skipping from there comes to it again. -/
theorem skip_quiescent (ctx : Context) (unmuted : 0 ≤ ctx.tracker.muted) (c : Cursor) :
    let ended := (Operation.skip c).on table source frames ctx
    ended.2 = ctx ∧ (∀ f, ended.1 ≠ .failed f) ∧ ∀ r shown, ended.1 = .matched (r,shown) →
      shown = none ∧ c.pos ≤ r.pos ∧ (r.pos = c.pos → r = c) ∧
      (ctx.atomic = false → ∀ name ∈ table.separators,
        let tried := ((Operation.within true name r).on table source frames ctx).1
        (∃ f, tried = .failed f) ∨ ∃ d v, tried = .matched (d,v) ∧ d.pos ≤ r.pos ∧ (r.pos ≤ source.length → d.pos = r.pos)) ∧
      (Operation.skip r).on table source frames ctx = (.matched (r,none),ctx) := by
  intro ended
  have outcome (op : Operation) := congrArg Prod.fst (op.on_eq table source frames ctx.active.toList_toFinset)
  have comes := Operation.via_skip source (table.skip_rests (σ := Tracker) source frames ctx.active.toList ctx.atomic c)
  refine ⟨Operation.skip_on unmuted c,fun f failed => ?_,fun r shown matched => ?_⟩
  · rw [outcome] at failed
    exact comes.of_failed failed
  · rw [outcome] at matched
    obtain ⟨unshown,after,same,idle,stops⟩ := comes.of_matched matched
    refine ⟨unshown,after,same,fun opened name member => ?_,?_⟩
    · have still := Operation.via_within source (table.within_idle_gives source frames _ (idle opened name member)) ctx.atomic
      rw [outcome]
      cases tried : ((Operation.within true name r).via (table.calls source frames ctx.active.toList) source ctx.atomic ctx.tracker).1 with
      | matched x =>
        obtain ⟨v,consumed⟩ := still.of_matched tried
        exact .inr ⟨x.1,x.2,rfl,consumed⟩
      | failed f => exact .inl ⟨f,rfl⟩
      | halted h => exact (still.of_halted tried).elim
    · have again := Operation.via_skip source stops
      refine Prod.ext ?_ (Operation.skip_on unmuted r)
      rw [outcome]
      cases skipped : ((Operation.skip r).via (table.calls source frames ctx.active.toList) source ctx.atomic ctx.tracker).1 with
      | matched x =>
        obtain ⟨d,shown⟩ := x
        obtain ⟨unshown,same⟩ := again.of_matched skipped
        cases unshown
        cases same
        rfl
      | failed f => cases again.of_failed skipped
      | halted h => exact (again.of_halted skipped).elim

def commented : NodeTable :=
  ⟨[⟨"WHITESPACE","WHITESPACE",.sum ["blank","NEWLINE"]⟩,⟨"blank","blank",.terminal (.literal " ")⟩,
    ⟨"NEWLINE","NEWLINE",.terminal .newline⟩,
    ⟨"COMMENT","COMMENT",.product ["hash","line"] ["hash","line"] false⟩,⟨"hash","hash",.terminal (.literal "#")⟩,
    ⟨"line","line",.terminal (.skipUntil ["\n"])⟩],by decide⟩

theorem commented_quiescent :
    let ctx := Context.fresh false true
    0 ≤ ctx.tracker.muted ∧ (Operation.skip ⟨1,[⟨0,1⟩]⟩).on commented (.ofString "a #b\n c") 20 ctx = (.matched (⟨6,[⟨0,1⟩]⟩,none),ctx) ∧
      (Operation.skip ⟨6,[⟨0,1⟩]⟩).on commented (.ofString "a #b\n c") 20 ctx = (.matched (⟨6,[⟨0,1⟩]⟩,none),ctx) := by
  intro ctx
  have unmuted : 0 ≤ ctx.tracker.muted := by decide
  have skipped : (Operation.skip ⟨1,[⟨0,1⟩]⟩).on commented (.ofString "a #b\n c") 20 ctx = (.matched (⟨6,[⟨0,1⟩]⟩,none),ctx) := by
    decide +kernel
  have ⟨_,_,comes⟩ := skip_quiescent commented (.ofString "a #b\n c") 20 ctx unmuted ⟨1,[⟨0,1⟩]⟩
  obtain ⟨-,-,-,-,again⟩ := comes ⟨6,[⟨0,1⟩]⟩ none (congrArg Prod.fst skipped)
  exact ⟨unmuted,skipped,again⟩

end Context

end TypedPeg
