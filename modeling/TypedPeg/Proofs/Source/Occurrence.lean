import TypedPeg.Proofs.Source.Bounds

/-! Where texts occur. A text stands where the rest of the source begins with it; a search finds the
first place, of all from an offset on, where one of its strings stands, or else the end. -/
namespace TypedPeg

namespace Source

variable {source : Source}

theorem standsAt_iff {text : List Char} {i : Nat} : source.standsAt text i = true ↔ text <+: source.chars.toList.drop i := by
  induction text generalizing i with
  | nil => simp [standsAt]
  | cons c rest ih =>
    rw [standsAt,Bool.and_eq_true,beq_iff_eq,ih]
    by_cases inside : i < source.chars.size
    · have split : source.chars.toList.drop i = source.chars[i] :: source.chars.toList.drop (i + 1) := by
        rw [List.drop_eq_getElem_cons (by simpa using inside),Array.getElem_toList]
      rw [split,List.cons_prefix_cons,Array.getElem?_eq_getElem inside,Option.some.injEq,eq_comm]
    · have nothing : source.chars.toList.drop i = [] := List.drop_eq_nil_of_le (by simpa using inside)
      rw [nothing,Array.getElem?_eq_none (Nat.not_lt.1 inside)]
      simp

/-- The text from an offset on. -/
theorem toList_slice_length (source : Source) (offset : Int) :
    (source.slice offset source.length).toList = source.chars.toList.drop (source.clip offset) := by
  have last : source.clip source.length = source.chars.size := by
    rw [clip_inside (Int.natCast_nonneg _) (Int.le_refl _)]
    rfl
  rw [slice,String.toList_ofList,sliceChars,last,Array.toList_extract,List.extract_eq_take_drop]
  exact List.take_of_length_le (by simp)

def Occurs (source : Source) (strings : List String) (i : Nat) : Prop := ∃ s ∈ strings, source.standsAt s.toList i = true

theorem search_eq_some {text : List Char} {count i j : Nat} (found : source.search text count i = some j) :
    source.standsAt text j = true ∧ ∀ k, i ≤ k → k < j → source.standsAt text k = false := by
  induction count generalizing i with
  | zero => cases found
  | succ count ih =>
    rw [search] at found
    split at found
    · rename_i stands
      cases found
      exact ⟨stands,fun k after before => (Nat.not_lt.2 after before).elim⟩
    · rename_i absent
      obtain ⟨stands,first⟩ := ih found
      refine ⟨stands,fun k after before => ?_⟩
      rcases Nat.eq_or_lt_of_le after with rfl | after
      · exact Bool.eq_false_iff.2 absent
      · exact first k after before

theorem search_eq_none {text : List Char} {count i : Nat} (lost : source.search text count i = none) :
    ∀ k, i ≤ k → k < i + count → source.standsAt text k = false := by
  induction count generalizing i with
  | zero => exact fun k after before => (Nat.not_lt.2 after before).elim
  | succ count ih =>
    rw [search] at lost
    split at lost
    · cases lost
    · rename_i absent
      intro k after before
      rcases Nat.eq_or_lt_of_le after with rfl | after
      · exact Bool.eq_false_iff.2 absent
      · exact ih lost k after (by omega)

theorem find?_eq_some {text : List Char} {offset : Int} {j : Nat} (found : source.find? text offset = some j) :
    source.standsAt text j = true ∧ ∀ k, source.clip offset ≤ k → k < j → source.standsAt text k = false := by
  unfold find? at found
  split at found
  · exact search_eq_some found
  · cases found

theorem find?_eq_none {text : List Char} {offset : Int} (inside : offset ≤ source.length) (lost : source.find? text offset = none) :
    ∀ k, source.clip offset ≤ k → k ≤ source.length → source.standsAt text k = false := by
  rw [find?,if_pos inside] at lost
  have start : source.clip offset ≤ source.length := clip_le offset
  exact fun k after before => search_eq_none lost k after (by omega)

theorem firstOf_le_of_find? {strings : List String} {s : String} {offset : Int} {j : Nat} (member : s ∈ strings)
    (found : source.find? s.toList offset = some j) : source.firstOf strings offset ≤ j := by
  have least : ∀ (strings : List String) (stop : Nat),
      strings.foldl (fun stop s => min stop ((source.find? s.toList offset).getD stop)) stop ≤ stop := by
    intro strings
    induction strings with
    | nil => exact Nat.le_refl
    | cons s rest ih => exact fun stop => Nat.le_trans (ih _) (Nat.min_le_left _ _)
  unfold firstOf
  generalize source.length = stop
  induction strings generalizing stop with
  | nil => cases member
  | cons other rest ih =>
    rcases List.mem_cons.1 member with rfl | member
    · refine Nat.le_trans (least rest _) ?_
      dsimp only
      rw [found]
      exact Nat.min_le_right stop j
    · exact ih member _

/-- Before the first of the strings none of them stands. -/
theorem not_occurs_of_lt_firstOf {strings : List String} {offset : Int} {k : Nat} (inside : offset ≤ source.length)
    (after : source.clip offset ≤ k) (before : k < source.firstOf strings offset) : ¬source.Occurs strings k := by
  rintro ⟨s,member,stands⟩
  cases found : source.find? s.toList offset with
  | none =>
    have short := Nat.le_trans (Nat.le_of_lt before) (source.firstOf_le strings offset)
    rw [find?_eq_none inside found k after short] at stands
    cases stands
  | some j =>
    have reached := firstOf_le_of_find? member found
    rw [(find?_eq_some found).2 k after (Nat.lt_of_lt_of_le before reached)] at stands
    cases stands

/-- Where the search ends short of the end of the text, one of the strings stands. -/
theorem occurs_firstOf {strings : List String} {offset : Int} (short : source.firstOf strings offset < source.length) :
    source.Occurs strings (source.firstOf strings offset) := by
  rcases source.firstOf_cases strings offset with same | ⟨s,member,found⟩
  · exact (Nat.ne_of_lt short same).elim
  · exact ⟨s,member,(find?_eq_some found).1⟩

/-- At the end, or where one of the strings stands, the search ends at once. -/
theorem firstOf_here {strings : List String} {i : Nat} (inside : i ≤ source.length) (ends : i = source.length ∨ source.Occurs strings i) :
    source.firstOf strings i = i := by
  have start : source.clip i = i := clip_inside (Int.natCast_nonneg i) (Int.ofNat_le.2 inside)
  have after := Int.ofNat_le.1 (source.le_firstOf strings (Int.ofNat_le.2 inside))
  refine Nat.le_antisymm (Nat.not_lt.1 fun late => ?_) after
  have short := Nat.lt_of_lt_of_le late (source.firstOf_le strings i)
  exact not_occurs_of_lt_firstOf (Int.ofNat_le.2 inside) (Nat.le_of_eq start) late (ends.resolve_left (Nat.ne_of_lt short))

/-- Where none of them stands it ends where it would end from the next place on. -/
theorem firstOf_next {strings : List String} {i : Nat} (more : i < source.length) (lost : ¬source.Occurs strings i) :
    source.firstOf strings ((i : Int) + 1) = source.firstOf strings i := by
  have inside : (i : Int) ≤ source.length := by omega
  have inside' : (i : Int) + 1 ≤ source.length := by omega
  have start : source.clip i = i := clip_inside (Int.natCast_nonneg i) inside
  have start' : source.clip ((i : Int) + 1) = i + 1 := clip_inside (by omega) inside'
  have after := source.le_firstOf strings inside
  have after' := source.le_firstOf strings inside'
  rcases Nat.lt_trichotomy (source.firstOf strings ((i : Int) + 1)) (source.firstOf strings i) with less | same | less
  · have stands := occurs_firstOf (Nat.lt_of_lt_of_le less (source.firstOf_le strings _))
    exact (not_occurs_of_lt_firstOf inside (by omega) less stands).elim
  · exact same
  · have stands := occurs_firstOf (Nat.lt_of_lt_of_le less (source.firstOf_le strings _))
    have other : source.firstOf strings i ≠ i := fun here => lost (here ▸ stands)
    exact (not_occurs_of_lt_firstOf inside' (by omega) less stands).elim

end Source

namespace Cursor

variable {source : Source} {c : Cursor} {text : List Char}

theorem startsWith_eq (inside : c.pos ≤ source.length) : c.startsWith source text = source.standsAt text (source.clip c.pos) := by
  rw [startsWith,Source.hasAt,decide_eq_true inside,Bool.true_and]

theorem startsWith_iff (inside : c.pos ≤ source.length) : c.startsWith source text = true ↔ text <+: (c.rest source).toList := by
  rw [startsWith_eq inside,rest,Source.toList_slice_length,Source.standsAt_iff]

end Cursor

end TypedPeg
