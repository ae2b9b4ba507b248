import TypedPeg.Parser
import TypedPeg.Proofs.Match.Orderly

/-! Every parse ends. The loops in it run out of text before they run out of rounds; a run with
frames for every call that can be in progress answers, and further frames change no answer. -/
namespace TypedPeg

section Loops
variable {σ : Type} {source : Source}

theorem Run.bind_congr {α β : Type} {r : Run σ α} {next next' : α → Run σ β} {s : σ}
    (same : ∀ a s', r s = (.matched a,s') → next a s' = next' a s') : (r >>= next) s = (r >>= next') s := by
  rw [bind_apply,bind_apply]
  cases ended : r s with
  | mk o s' =>
    cases o with
    | matched a => exact same a s' ended
    | failed f => rfl
    | halted h => rfl

theorem Run.attempt_ok {α : Type} {r : Run σ α} {a : α} {s s' : σ}
    (caught : r.attempt s = (.matched (.ok a),s')) : r s = (.matched a,s') := by
  unfold attempt at caught
  cases ended : r s with
  | mk o t =>
    rw [ended] at caught
    cases o <;> cases caught
    rfl

structure Calls.Onward (source : Source) (calls : Calls σ) (atomic : Bool) : Prop where
  call : ∀ {name c s after value s'}, c.From source 0 →
    calls.call atomic name c s = (.matched (after,value),s') → after.From source c.pos
  within : ∀ {flag name c s after value s'}, c.From source 0 →
    calls.within flag name c s = (.matched (after,value),s') → after.From source c.pos
  skip : ∀ {c s after s'}, c.From source 0 → calls.skip atomic c s = (.matched after,s') → after.From source c.pos

theorem Calls.Onward.gap {calls : Calls σ} {atomic allowed : Bool} (onward : calls.Onward source atomic) {c after : Cursor}
    {s s' : σ} (inside : c.From source 0) (moved : calls.gap allowed atomic c s = (.matched after,s')) :
    after.From source c.pos := by
  cases allowed with
  | true => exact onward.skip inside moved
  | false =>
    cases moved
    exact inside.refl

theorem Cursor.ahead_lt {c after : Cursor} (moved : after.From source c.pos) (further : c.pos < after.pos) :
    after.ahead source < c.ahead source :=
  Nears.ahead_lt (.inr (.inr ⟨further,moved.2⟩)) (Int.ne_of_gt further)

/-- A repetition with more rounds than there is text ahead ends before its rounds do. -/
theorem Node.repetition_rounds {calls : Calls σ} {atomic : Bool} (onward : calls.Onward source atomic) (skip : Bool)
    (inner : String) {rounds rounds' : Nat} {c : Cursor} (inside : c.From source 0) (enough : c.ahead source < rounds)
    (enough' : c.ahead source < rounds') (items : List Value) :
    repetition calls skip atomic inner rounds c items = repetition calls skip atomic inner rounds' c items := by
  induction rounds generalizing rounds' c items with
  | zero => omega
  | succ rounds ih =>
    cases rounds' with
    | zero => omega
    | succ rounds' =>
      funext s
      refine Run.bind_congr fun start s started => Run.bind_congr fun got s attempted => ?_
      cases got with
      | error f => rfl
      | ok got =>
        obtain ⟨after,value⟩ := got
        have before := onward.gap inside started
        have begun : start.From source 0 := inside.trans before
        have moved := onward.call begun (Run.attempt_ok attempted)
        dsimp only
        split
        · rfl
        · rename_i further
          have less := Cursor.ahead_lt (before.trans moved) (by have := moved.1; have := before.1; omega)
          exact congrFun (ih (begun.trans moved) (by omega) (by omega) _) _

namespace Skipping

variable {separator : String → Cursor → Run σ (Cursor × Value)}

theorem sweep_onward (onward : ∀ {name c s after value s'}, c.From source 0 →
      separator name c s = (.matched (after,value),s') → after.From source c.pos) (names : List String) {c after : Cursor}
    {s s' : σ} (inside : c.From source 0) (swept : sweep separator names c s = (.matched after,s')) :
    after.From source c.pos := by
  induction names generalizing c s with
  | nil =>
    cases swept
    exact inside.refl
  | cons name rest ih =>
    rw [sweep,Run.bind_apply] at swept
    cases ended : (separator name c).attempt s with
    | mk o t =>
      rw [ended] at swept
      cases o with
      | failed f => cases swept
      | halted h => cases swept
      | matched got =>
        cases got with
        | error f => exact ih inside swept
        | ok got =>
          obtain ⟨next,value⟩ := got
          have moved := onward inside (Run.attempt_ok ended)
          dsimp only at swept
          split at swept
          · exact moved.trans (ih (inside.trans moved) swept)
          · exact ih inside swept

/-- Sweeping with more rounds than there is text ahead ends before its rounds do. -/
theorem sweeps_rounds (onward : ∀ {name c s after value s'}, c.From source 0 →
      separator name c s = (.matched (after,value),s') → after.From source c.pos) (names : List String)
    {rounds rounds' : Nat} {c : Cursor} (inside : c.From source 0) (enough : c.ahead source < rounds)
    (enough' : c.ahead source < rounds') : sweeps separator names rounds c = sweeps separator names rounds' c := by
  induction rounds generalizing rounds' c with
  | zero => omega
  | succ rounds ih =>
    cases rounds' with
    | zero => omega
    | succ rounds' =>
      funext s
      refine Run.bind_congr fun after s swept => ?_
      have moved := sweep_onward onward names inside swept
      split
      · rename_i further
        have less := Cursor.ahead_lt moved further
        exact congrFun (ih (inside.trans moved) (by omega) (by omega)) _
      · rfl

end Skipping

end Loops

namespace NodeTable

variable {σ : Type} [Observer σ] {table : NodeTable} {source : Source} {active : List Entry}

theorem onward (nested : table.Nested source active) (frames : Nat) (atomic : Bool) :
    (table.calls source frames active : Calls σ).Onward source atomic := by
  rw [← callsIf_true]
  have order (floor : Int) (nonneg : 0 ≤ floor) : Calls.Alike (orderly source (fun _ : σ => True) False floor)
      (beside source floor) (table.callsIf source true frames active) (table.callsIf source true frames active) atomic atomic :=
    calls_orderly kept_trivial nonneg nested False.elim atomic
  have alone {α : Type} {floor : Int} {post : α → α → Prop} {r : Run σ α} {s s' : σ} {a : α}
      (alike : Run.Alike (orderly source (fun _ => True) False floor) post r r) (ended : r s = (.matched a,s')) :
      post a a := (alone_of_orderly alike trivial).2.1 a (by rw [ended])
  refine ⟨fun inside ended => ?_,fun inside ended => ?_,fun inside ended => ?_⟩
  · exact (alone ((order _ inside.1).call _ _ _ ⟨rfl,inside.refl⟩) ended).1.2
  · exact (alone ((order _ inside.1).within _ _ _ _ ⟨rfl,inside.refl⟩) ended).1.2
  · exact (alone ((order _ inside.1).skip _ _ ⟨rfl,inside.refl⟩) ended).2

end NodeTable

/-- The calls in progress at the beginning of each call of a run, latest first. At any other moment
the calls in progress are those at the beginning of one of them. -/
structure Journal where
  moments : List (List Entry)

instance : Observer Journal where
  visit active _ journal := ⟨active :: journal.moments⟩
  fail _ journal := journal
  mute _ journal := journal
  unmute _ journal := journal

namespace NodeTable

variable {table : NodeTable} {source : Source}

theorem journal_kept : Kept table source fun journal : Journal => ∀ active ∈ journal.moments, table.Nested source active where
  visit := by
    intro active c journal nested holds stack member
    rcases List.mem_cons.1 member with rfl | member
    · exact nested
    · exact holds stack member
  fail := id
  mute := id
  unmute := id

end NodeTable

namespace Parser

variable {p : Parser Node} {source : Source} {rule : String} {full : Bool} {σ : Type} [Observer σ]

/-- A parse is orderly, from its first call to the check that nothing is left. -/
theorem run_orderly {inv : σ → Prop} {roomy : Prop} (kept : NodeTable.Kept p.table source inv)
    (room : roomy → 4 * NodeTable.callCount p.table source + 1 ≤ p.frames) :
    Run.Alike (NodeTable.orderly source inv roomy 0) (fun _ _ => True) (p.run source rule full)
      (p.run source rule full) := by
  have fits : (NodeTable.orderly source inv roomy 0).Fits (NodeTable.beside source 0) := NodeTable.orderly_fits kept
  have room : roomy → NodeTable.need p.table source [] + 1 ≤ p.frames := by simpa [NodeTable.need] using room
  have called := NodeTable.call_orderly kept (Int.le_refl 0) NodeTable.nested_nil room false rule ⟨rfl,Cursor.from_start⟩
  rw [NodeTable.callsIf_true] at called
  unfold run fromStart
  refine called.answer fun after after' value close => ?_
  obtain ⟨rfl,inside⟩ := close
  dsimp only
  split
  · exact .fail fits.watched ⟨rfl,inside⟩
  · exact .pure trivial

theorem run_not_tooDeep (room : 4 * NodeTable.callCount p.table source + 1 ≤ p.frames) (s : σ) :
    (p.run source rule full s).1 ≠ .halted .tooDeep :=
  (NodeTable.alone_of_orderly (run_orderly NodeTable.kept_trivial fun _ : True => room) (s := s) trivial).2.2 trivial

theorem run_mono {q : Parser Node} (sameTable : q.table = p.table) (more : p.frames ≤ q.frames) {s : σ}
    (finished : (p.run source rule full s).1 ≠ .halted .tooDeep) : q.run source rule full s = p.run source rule full s := by
  unfold run fromStart at finished ⊢
  rw [Run.bind_apply] at finished
  rw [Run.bind_apply,Run.bind_apply,sameTable]
  have called : (p.table.calls source q.frames []).call false rule .start s =
      (p.table.calls source p.frames []).call false rule .start s := by
    rw [← NodeTable.callsIf_true,← NodeTable.callsIf_true] at *
    refine NodeTable.callsIf_mono more [] false rule .start fun ended => ?_
    cases out : (NodeTable.callsIf p.table source true p.frames []).call false rule .start s with
    | mk o t =>
      rw [out] at ended finished
      cases ended
      exact finished rfl
  rw [called]

theorem attempt_not_tooDeep (room : 4 * NodeTable.callCount p.table source + 1 ≤ p.frames) (again : String) :
    (p.attempt source rule full).value ≠ .error (.nestedTooDeeply again) := by
  intro ended
  unfold attempt at ended
  split at ended
  · cases ended
  · split at ended
    · cases ended
    · have finished : (p.run source rule full (Tracker.new p.tracked)).1 ≠ .halted .tooDeep := run_not_tooDeep room _
      generalize p.run source rule full (Tracker.new p.tracked) = e at ended finished
      unfold answer at ended
      split at ended
      · cases ended
      · cases ended
      · exact finished rfl
      · cases ended
      · cases ended
      · split at ended <;> cases ended

theorem attempt_mono {q : Parser Node} (sameTable : q.table = p.table) (sameTracking : q.tracked = p.tracked)
    (more : p.frames ≤ q.frames) (accepted : q.limit ≤ greatestLimit)
    (finished : ∀ again, (p.attempt source rule full).value ≠ .error (.nestedTooDeeply again)) :
    q.attempt source rule full = p.attempt source rule full := by
  have accepted' : p.limit ≤ greatestLimit := by
    unfold frames greatestLimit at *
    omega
  have refused : ¬greatestLimit < p.limit := by omega
  have refused' : ¬greatestLimit < q.limit := by omega
  unfold attempt at finished ⊢
  rw [sameTable,sameTracking,if_neg refused']
  rw [if_neg refused] at finished ⊢
  split
  · rfl
  · rename_i present
    rw [if_neg present] at finished
    rw [run_mono sameTable more]
    intro ended
    refine finished rule ?_
    generalize p.run source rule full (Tracker.new p.tracked) = e at ended
    obtain ⟨o,t⟩ := e
    cases ended
    rfl

/-- What holds of the parse of a text from a rule, when a parse that has frames for every call there
can be, each at its dearest, is to have so many more to spare. -/
structure Bounded (spare : Nat) (p : Parser Node) (source : Source) (rule : String) (full : Bool) : Prop where
  distinct : ∀ active ∈ (p.run source rule full (⟨[]⟩ : Journal)).2.moments, active.Nodup
  placed : ∀ active ∈ (p.run source rule full (⟨[]⟩ : Journal)).2.moments, ∀ e ∈ active,
    e.name ∈ p.table.names ∧ 0 ≤ e.pos ∧ e.pos ≤ source.length
  few : ∀ active ∈ (p.run source rule full (⟨[]⟩ : Journal)).2.moments,
    active.length ≤ p.table.size * (source.length + 1)
  /-- Further rounds add nothing to a repetition, whatever calls are in progress. -/
  repetitions : ∀ {σ : Type} [Observer σ] (frames : Nat) (active : List Entry), NodeTable.Nested p.table source active →
    ∀ (c : Cursor), c.From source 0 → ∀ (skip atomic : Bool) (inner : String) (items : List Value) (more : Nat),
      Node.repetition (p.table.calls source frames active : Calls σ) skip atomic inner (c.ahead source + 2 + more) c items =
        Node.repetition (p.table.calls source frames active) skip atomic inner (c.ahead source + 2) c items
  sweeps : ∀ {σ : Type} [Observer σ] (frames : Nat) (active : List Entry), NodeTable.Nested p.table source active →
    ∀ (c : Cursor), c.From source 0 → ∀ more : Nat,
      Skipping.sweeps ((p.table.calls source frames active : Calls σ).within true) p.table.separators
          (c.ahead source + 2 + more) c =
        Skipping.sweeps ((p.table.calls source frames active).within true) p.table.separators (c.ahead source + 2) c
  answered : 4 * (p.table.size * (source.length + 1) + 1) + spare ≤ p.frames →
    (∀ {σ : Type} [Observer σ] (s : σ), (p.run source rule full s).1 ≠ .halted .tooDeep) ∧
      ∀ again, (p.attempt source rule full).value ≠ .error (.nestedTooDeeply again)
  sameRun : ∀ q : Parser Node, q.table = p.table → p.frames ≤ q.frames → ∀ {σ : Type} [Observer σ] (s : σ),
    (p.run source rule full s).1 ≠ .halted .tooDeep → q.run source rule full s = p.run source rule full s
  sameAnswer : ∀ q : Parser Node, q.table = p.table → q.tracked = p.tracked → p.frames ≤ q.frames →
    q.limit ≤ greatestLimit → (∀ again, (p.attempt source rule full).value ≠ .error (.nestedTooDeeply again)) →
      q.attempt source rule full = p.attempt source rule full

/-- Every parse of every text by every table ends, with nesting bounded by the number of different
calls. Frames are taken up by calls alone: what makes a leaf, moves a cursor or tells a failure takes up none, so none
need be spared for it. -/
theorem parses_bounded : ∃ spare, ∀ (p : Parser Node) (source : Source) (rule : String) (full : Bool),
    p.Bounded spare source rule full := by
  refine ⟨0,fun p source rule full => ?_⟩
  have nested : ∀ active ∈ (p.run source rule full (⟨[]⟩ : Journal)).2.moments, NodeTable.Nested p.table source active :=
    (NodeTable.alone_of_orderly (run_orderly NodeTable.journal_kept False.elim) fun _ member => (List.not_mem_nil member).elim).1
  exact {
    distinct := fun active member => (nested active member).distinct
    placed := fun active member e inside => ⟨(nested active member).defined e inside,(nested active member).inside e inside⟩
    few := fun active member => (nested active member).length_le
    repetitions := fun frames active nested c inside skip atomic inner items more =>
      Node.repetition_rounds (NodeTable.onward nested frames atomic) skip inner inside (by omega) (by omega) items
    sweeps := fun frames active nested c inside more =>
      Skipping.sweeps_rounds (NodeTable.onward nested frames true).within _ inside (by omega) (by omega)
    answered := fun room => by
      have room : 4 * NodeTable.callCount p.table source + 1 ≤ p.frames := by
        unfold NodeTable.callCount
        omega
      exact ⟨fun s => run_not_tooDeep room s,attempt_not_tooDeep room⟩
    sameRun := fun q sameTable more _ _ s => run_mono sameTable more
    sameAnswer := fun q sameTable sameTracking more accepted => attempt_mono sameTable sameTracking more accepted }

end Parser

end TypedPeg
