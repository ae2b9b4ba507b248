import Mathlib.Data.List.Perm.Subperm
import TypedPeg.Proofs.Match.Guard
import TypedPeg.Proofs.Source.Bounds

/-! How runs of a table are nested. No two calls in progress are the same, all are of nodes of
the table and at offsets of the text, so there are only so many of them; and no call ends, or
fails, before the place where it began. With frames for all the calls that can be in progress
at once no run is out of frames. -/
namespace TypedPeg

namespace NodeTable

structure Nested (table : NodeTable) (source : Source) (active : List Entry) : Prop where
  distinct : active.Nodup
  defined : ∀ e ∈ active, e.name ∈ table.names
  inside : ∀ e ∈ active, 0 ≤ e.pos ∧ e.pos ≤ source.length

/-- How many different calls there are: one of each node at each offset, the end included. -/
def callCount (table : NodeTable) (source : Source) : Nat := table.size * (source.length + 1)

variable {table : NodeTable} {source : Source} {active : List Entry}

theorem nested_nil : table.Nested source [] :=
  ⟨List.nodup_nil,fun _ member => (List.not_mem_nil member).elim,fun _ member => (List.not_mem_nil member).elim⟩

theorem Nested.cons {name : String} {node : Node} {c : Cursor} (nested : table.Nested source active)
    (defined : table.get? name = some node) (inside : c.From source 0)
    (fresh : Entry.isIn ⟨c.pos,name⟩ active = false) : table.Nested source (⟨c.pos,name⟩ :: active) := by
  have present : name ∈ table.names := Table.contains_iff.1 (by rw [Table.contains,defined]; rfl)
  have absent : (⟨c.pos,name⟩ : Entry) ∉ active := by
    intro member
    rw [Entry.isIn_iff.2 member] at fresh
    cases fresh
  refine ⟨List.nodup_cons.2 ⟨absent,nested.distinct⟩,?_,?_⟩
  · intro e member
    rcases List.mem_cons.1 member with rfl | member
    · exact present
    · exact nested.defined e member
  · intro e member
    rcases List.mem_cons.1 member with rfl | member
    · exact inside
    · exact nested.inside e member

theorem Nested.length_le (nested : table.Nested source active) : active.length ≤ table.callCount source := by
  let every := table.names.flatMap fun name => (List.range (source.length + 1)).map fun i : Nat => (⟨i,name⟩ : Entry)
  have subset : active ⊆ every := by
    intro e member
    have := nested.inside e member
    refine List.mem_flatMap.2 ⟨e.name,nested.defined e member,List.mem_map.2 ⟨e.pos.toNat,?_,?_⟩⟩
    · rw [List.mem_range]
      omega
    · rw [Int.toNat_of_nonneg this.1]
  have size : every.length = table.callCount source := by
    simp [every,List.length_flatMap,Function.comp_def,callCount,Table.names,Table.size]
  rw [← size]
  exact (nested.distinct.subperm subset).length_le

section Order
variable {σ : Type} [Observer σ]

/-- A property of the observer's state that nothing it is told can break, as long as the calls in
progress are as they should be. -/
structure Kept (table : NodeTable) (source : Source) (inv : σ → Prop) : Prop where
  visit : ∀ {active c s}, table.Nested source active → inv s → inv (Observer.visit active c s)
  fail : ∀ {f s}, inv s → inv (Observer.fail f s)
  mute : ∀ {why s}, inv s → inv (Observer.mute why s)
  unmute : ∀ {why s}, inv s → inv (Observer.unmute why s)

theorem kept_trivial : Kept table source fun _ : σ => True :=
  ⟨fun _ _ => trivial,fun _ => trivial,fun _ => trivial,fun _ => trivial⟩

def orderly (source : Source) (inv : σ → Prop) (roomy : Prop) (floor : Int) : Likeness σ σ where
  states s t := s = t ∧ inv s
  failures f f' := f = f' ∧ floor ≤ f.pos ∧ f.pos ≤ source.length
  halts h h' := h = h' ∧ (roomy → h ≠ .tooDeep)
  firstExcused _ := False
  secondExcused _ := False

def beside (source : Source) (floor : Int) (c c' : Cursor) : Prop := c = c' ∧ c.From source floor

variable {inv : σ → Prop} {roomy : Prop} {floor : Int}

theorem orderly_fits (kept : Kept table source inv) : (orderly source inv roomy floor).Fits (beside source floor) where
  watched := {
    fail := by
      intro f f' s s' failures states
      obtain ⟨rfl,_⟩ := failures
      obtain ⟨rfl,holds⟩ := states
      exact ⟨rfl,kept.fail holds⟩
    mute := by
      intro why s s' states
      obtain ⟨rfl,holds⟩ := states
      exact ⟨rfl,kept.mute holds⟩
    unmute := by
      intro why s s' states
      obtain ⟨rfl,holds⟩ := states
      exact ⟨rfl,kept.unmute holds⟩ }
  samePos := by
    intro c c' close
    exact congrArg Cursor.pos close.1
  push := by
    intro c c' entry close
    obtain ⟨rfl,inside⟩ := close
    exact ⟨rfl,inside⟩
  here := by
    intro c c' kind msg labels close
    obtain ⟨rfl,inside⟩ := close
    exact ⟨rfl,inside⟩
  relabelled := by
    intro c c' f f' kind msg close failures
    obtain ⟨rfl,inside⟩ := close
    obtain ⟨rfl,_⟩ := failures
    exact ⟨rfl,inside⟩
  noted := by
    intro far far' f f' label choices failures
    obtain ⟨same,between⟩ := choices
    obtain ⟨rfl,place⟩ := failures
    obtain rfl := Furthest.ofChoice_inj same
    refine ⟨rfl,?_⟩
    simp only [Furthest.ofChoice,Furthest.note] at between ⊢
    split
    · exact place
    · split <;> exact between

omit [Observer σ] in
theorem terminal_orderly (nonneg : 0 ≤ floor) (label : String) (t : Terminal) :
    t.Alike (orderly source inv roomy floor) (beside source floor) source label := by
  intro c c' close
  obtain ⟨rfl,inside⟩ := close
  have whole : c.From source 0 := ⟨Int.le_trans nonneg inside.1,inside.2⟩
  cases moved : t.move source label c with
  | ok after => exact ⟨rfl,inside.trans (Terminal.move_from whole moved)⟩
  | error f =>
    refine ⟨rfl,?_⟩
    rw [Terminal.pos_of_move_error moved]
    exact inside

omit [Observer σ] in
private theorem tooDeep_orderly {α : Type} {post : α → α → Prop} (tight : ¬ roomy) :
    Run.Alike (orderly source inv roomy floor) post (Run.halt .tooDeep : Run σ α) (Run.halt .tooDeep) :=
  .halt ⟨rfl,fun holds => (tight holds).elim⟩

/-- How many frames are needed for calls in the midst of others. A call takes two frames, a scoped
call one more, and separators again one more; and calls that are not in progress are left. -/
def need (table : NodeTable) (source : Source) (active : List Entry) : Nat :=
  4 * (table.callCount source - active.length)

private theorem calls_of_call (kept : Kept table source inv) {frames : Nat}
    (room : roomy → table.need source active + 3 ≤ frames) (atomic : Bool)
    (call : ∀ left ≤ frames, (roomy → table.need source active + 1 ≤ left) → ∀ flag name c c',
      beside source floor c c' → Run.Alike (orderly source inv roomy floor) (Likeness.Answers (beside source floor))
        ((table.callsIf source true left active).call flag name c)
        ((table.callsIf source true left active).call flag name c')) :
    Calls.Alike (orderly source inv roomy floor) (beside source floor) (table.callsIf source true frames active)
      (table.callsIf source true frames active) atomic atomic := by
  refine callsIf_alike (orderly_fits kept) (.inl rfl) (call _ (Nat.le_refl _) (fun holds => ?_) atomic)
    (call _ (by omega) fun holds => ?_) (call _ (by omega) (fun holds => ?_) true) fun zero c c' => ?_
  · have := room holds
    omega
  · have := room holds
    omega
  · have := room holds
    omega
  · obtain rfl : frames = 0 := by omega
    exact tooDeep_orderly fun holds => by have := room holds; omega

theorem call_orderly (kept : Kept table source inv) (nonneg : 0 ≤ floor) {frames : Nat}
    (nested : table.Nested source active) (room : roomy → table.need source active + 1 ≤ frames) (atomic : Bool)
    (name : String) {c c' : Cursor} (close : beside source floor c c') :
    Run.Alike (orderly source inv roomy floor) (Likeness.Answers (beside source floor))
      ((table.callsIf source true frames active).call atomic name c)
      ((table.callsIf source true frames active).call atomic name c') := by
  have fits : (orderly source inv roomy floor).Fits (beside source floor) := orderly_fits kept
  induction frames using Nat.strongRecOn generalizing active atomic name c c' with
  | ind frames ih =>
  cases frames with
  | zero => exact tooDeep_orderly fun holds => by have := room holds; omega
  | succ frames =>
    obtain ⟨rfl,inside⟩ := close
    have whole : c.From source 0 := ⟨Int.le_trans nonneg inside.1,inside.2⟩
    simp only [callsIf_succ]
    cases found : table.get? name with
    | none => exact .fail fits.watched (fits.here _ _ _ ⟨rfl,inside⟩)
    | some node =>
      dsimp only
      rw [Bool.true_and]
      cases fresh : Entry.isIn ⟨c.pos,name⟩ active with
      | true =>
        rw [if_pos rfl]
        exact .halt ⟨rfl,fun _ same => by cases same⟩
      | false =>
        rw [if_neg (by simp)]
        have deeper := nested.cons found whole fresh
        -- a call that is not in progress leaves room among all the calls there are
        have more := deeper.length_le
        have less : table.need source (⟨c.pos,name⟩ :: active) + 4 = table.need source active := by
          rw [List.length_cons] at more
          rw [need,need,List.length_cons]
          omega
        cases frames with
        | zero => exact tooDeep_orderly fun holds => by have := room holds; omega
        | succ left =>
          intro s s' states
          obtain ⟨rfl,holds⟩ := states
          have room : roomy → table.need source (⟨c.pos,name⟩ :: active) + 3 ≤ left := by
            intro holds
            have := room holds
            omega
          have below := calls_of_call kept room atomic fun m less room flag name c c' => ih m (by omega) deeper room flag name
          exact Node.step_alike fits below (fun _ => ⟨rfl,by simp⟩) (fun t _ => terminal_orderly nonneg node.label t)
            ⟨rfl,inside⟩ _ _ ⟨rfl,kept.visit deeper holds⟩

theorem calls_orderly (kept : Kept table source inv) (nonneg : 0 ≤ floor) {frames : Nat}
    (nested : table.Nested source active) (room : roomy → table.need source active + 3 ≤ frames) (atomic : Bool) :
    Calls.Alike (orderly source inv roomy floor) (beside source floor) (table.callsIf source true frames active)
      (table.callsIf source true frames active) atomic atomic :=
  calls_of_call kept room atomic fun _ _ room flag name _ _ => call_orderly kept nonneg nested room flag name

omit [Observer σ] in
theorem alone_of_orderly {α : Type} {inv : σ → Prop} {roomy : Prop} {floor : Int} {post : α → α → Prop} {r : Run σ α}
    (alike : Run.Alike (orderly source inv roomy floor) post r r) {s : σ} (holds : inv s) :
    inv (r s).2 ∧ (∀ a, (r s).1 = .matched a → post a a) ∧ (roomy → (r s).1 ≠ .halted .tooDeep) := by
  have both := alike s s ⟨rfl,holds⟩
  generalize r s = e at both
  cases both with
  | matched results states =>
    refine ⟨states.2,?_,fun _ => nofun⟩
    intro a same
    cases same
    exact results
  | failed failures states => exact ⟨states.2,nofun,fun _ => nofun⟩
  | halted halts states =>
    refine ⟨states.2,nofun,?_⟩
    intro room same
    cases same
    exact halts.2 room rfl
  | first excused | second excused => exact excused.elim

theorem call_not_tooDeep {c : Cursor} (inside : c.From source 0) {frames : Nat}
    (enough : 4 * (table.size * (source.length + 1) + 1) ≤ frames) (atomic : Bool) (name : String) (s : σ) :
    ((table.callsIf source true frames []).call atomic name c s).1 ≠ .halted .tooDeep := by
  have room : True → table.need source [] + 1 ≤ frames := by
    intro _
    simp only [need,callCount,List.length_nil]
    omega
  have called := call_orderly (σ := σ) kept_trivial (Int.le_refl 0) nested_nil room atomic name ⟨rfl,inside⟩
  exact (alone_of_orderly called trivial).2.2 trivial

end Order

end NodeTable

end TypedPeg
