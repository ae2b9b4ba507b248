import Mathlib.Data.List.DropRight
import TypedPeg.Source.Lines

/-! Where an offset is, told from the text before it: on which line by the newlines there, and in which column by what
comes after the last of them. So offsets are in the order of their places. -/
namespace TypedPeg

def Place.Before (p q : Place) : Prop := p.line < q.line ∨ p.line = q.line ∧ p.column < q.column

theorem Place.Before.asymm {p q : Place} (before : p.Before q) : ¬q.Before p := by
  unfold Before at before ⊢
  omega

theorem Place.Before.ne {p q : Place} (before : p.Before q) : p ≠ q := by
  rintro rfl
  exact before.asymm before

namespace LineTable

variable {s : Source} {cs : List Char} {c : Char} {start i : Nat}

theorem afterNewlines_append (i : Nat) (cs ds : List Char) :
    afterNewlines i (cs ++ ds) = afterNewlines i cs ++ afterNewlines (i + cs.length) ds := by
  induction cs generalizing i with
  | nil => rfl
  | cons c cs ih =>
    rw [List.cons_append,afterNewlines,afterNewlines,ih,List.length_cons,Nat.add_right_comm,Nat.add_assoc]
    split <;> rfl

theorem afterNewlines_bounds (member : start ∈ afterNewlines i cs) : i < start ∧ start ≤ i + cs.length := by
  induction cs generalizing i with
  | nil => cases member
  | cons c cs ih =>
    rw [afterNewlines] at member
    rw [List.length_cons]
    split at member
    · rcases List.mem_cons.1 member with rfl | member
      · omega
      · have := ih member
        omega
    · have := ih member
      omega

/-- The lines begun at or before an offset are those of the text before it. -/
theorem takeWhile_afterNewlines (cs ds : List Char) :
    (afterNewlines 0 (cs ++ ds)).takeWhile (fun start : Nat => (start : Int) ≤ cs.length) = afterNewlines 0 cs := by
  rw [afterNewlines_append,Nat.zero_add,List.takeWhile_append_of_pos]
  · have none : (afterNewlines cs.length ds).takeWhile (fun start : Nat => (start : Int) ≤ cs.length) = [] := by
      rw [List.takeWhile_eq_nil_iff]
      intro some
      have := (afterNewlines_bounds (List.getElem_mem some)).1
      simpa using this
    rw [none,List.append_nil]
  · intro start member
    have := (afterNewlines_bounds member).2
    simpa using this

theorem length_afterNewlines (i : Nat) (cs : List Char) : (afterNewlines i cs).length = cs.count '\n' := by
  induction cs generalizing i with
  | nil => rfl
  | cons c cs ih =>
    rw [afterNewlines,List.count_cons]
    split
    · rename_i newline
      rw [List.length_cons,ih,newline]
      rfl
    · rename_i other
      rw [ih]
      simp [other]

def lastLine (cs : List Char) : List Char := cs.rtakeWhile (· ≠ '\n')

theorem lastLine_newline (cs : List Char) : lastLine (cs ++ ['\n']) = [] := List.rtakeWhile_concat_neg _ _ _ (by decide)

theorem lastLine_concat (other : c ≠ '\n') (cs : List Char) : lastLine (cs ++ [c]) = lastLine cs ++ [c] :=
  List.rtakeWhile_concat_pos _ _ _ (by simpa using other)

theorem lastLine_append {ds : List Char} (unbroken : ds.count '\n' = 0) (cs : List Char) : lastLine (cs ++ ds) = lastLine cs ++ ds := by
  induction ds using List.reverseRecOn with
  | nil => rw [List.append_nil,List.append_nil]
  | append_singleton ds c ih =>
    rw [List.count_append,Nat.add_eq_zero_iff,List.count_eq_zero,List.count_eq_zero] at unbroken
    have other : c ≠ '\n' := fun same => unbroken.2 (List.mem_singleton.2 same.symm)
    rw [← List.append_assoc,lastLine_concat other,ih (List.count_eq_zero.2 unbroken.1),List.append_assoc]

theorem getLastD_afterNewlines (cs : List Char) : (afterNewlines 0 cs).getLastD 0 + (lastLine cs).length = cs.length := by
  induction cs using List.reverseRecOn with
  | nil => rfl
  | append_singleton cs c ih =>
    rw [afterNewlines_append,Nat.zero_add,afterNewlines,afterNewlines,List.length_append,List.length_singleton]
    split
    · rename_i newline
      rw [newline,lastLine_newline,List.getLastD_concat]
      rfl
    · rename_i other
      rw [lastLine_concat other,List.append_nil,List.length_append,List.length_singleton]
      omega

def placeAfter (cs : List Char) : Place := ⟨1 + cs.count '\n',1 + (lastLine cs).length⟩

theorem placeAfter_before {ds : List Char} (more : ds ≠ []) (cs : List Char) : (placeAfter cs).Before (placeAfter (cs ++ ds)) := by
  have longer := List.length_pos_iff.2 more
  by_cases unbroken : ds.count '\n' = 0
  · refine .inr ⟨?_,?_⟩
    · simp [placeAfter,unbroken]
    · simp only [placeAfter,lastLine_append unbroken,List.length_append]
      omega
  · refine .inl ?_
    simp only [placeAfter,List.count_append]
    omega

theorem locate_eq_error {offset : Int} {e : OffsetError} : (ofSource s).locate offset = .error e ↔
    (offset < 0 ∨ (s.length : Int) < offset) ∧ e = .outside offset := by
  unfold locate
  split
  · rename_i outside
    refine Iff.trans ?_ (and_iff_right outside).symm
    exact ⟨fun same => (Except.error.inj same).symm,fun same => congrArg _ same.symm⟩
  · rename_i inside
    exact iff_of_false nofun fun same => inside same.1

theorem begun_inside {n : Nat} (inside : n ≤ s.length) : (ofSource s).starts.takeWhile (fun start : Nat => (start : Int) ≤ n) =
    0 :: afterNewlines 0 (s.chars.toList.take n) := by
  have later := takeWhile_afterNewlines (s.chars.toList.take n) (s.chars.toList.drop n)
  rw [List.take_append_drop,List.length_take_of_le inside] at later
  rw [ofSource,List.takeWhile_cons,later]
  exact if_pos (decide_eq_true (Int.natCast_nonneg n))

theorem locate_inside {n : Nat} (inside : n ≤ s.length) : (ofSource s).locate n = .ok (placeAfter (s.chars.toList.take n)) := by
  have placed : ¬((n : Int) < 0 ∨ (s.length : Int) < n) := by omega
  have last := getLastD_afterNewlines (s.chars.toList.take n)
  rw [List.length_take_of_le inside] at last
  rw [locate,begun_inside inside]
  refine (if_neg placed).trans ?_
  dsimp only
  rw [List.length_cons,length_afterNewlines,List.getLastD_cons,placeAfter]
  congr 2
  · omega
  · omega

theorem exists_of_locate {offset : Int} {p : Place} (located : (ofSource s).locate offset = .ok p) :
    ∃ n : Nat, offset = n ∧ n ≤ s.length ∧ p = placeAfter (s.chars.toList.take n) := by
  have inside : ¬(offset < 0 ∨ (s.length : Int) < offset) := fun outside => by
    rw [locate_eq_error.2 ⟨outside,rfl⟩] at located
    cases located
  obtain ⟨n,rfl⟩ := Int.eq_ofNat_of_zero_le (Int.not_lt.1 fun low => inside (.inl low))
  have bound : n ≤ s.length := by omega
  rw [locate_inside bound] at located
  exact ⟨n,rfl,bound,(Except.ok.inj located).symm⟩

theorem before_of_lt {n m : Nat} (less : n < m) (inside : m ≤ s.length) :
    (placeAfter (s.chars.toList.take n)).Before (placeAfter (s.chars.toList.take m)) := by
  have whole : s.chars.toList.length = s.length := s.chars.length_toList
  have split : s.chars.toList.take m = s.chars.toList.take n ++ (s.chars.toList.drop n).take (m - n) := by
    rw [← List.take_add,Nat.add_sub_cancel' (Nat.le_of_lt less)]
  rw [split]
  refine placeAfter_before (List.ne_nil_of_length_pos ?_) _
  rw [List.length_take,List.length_drop]
  omega

/-- Just the offsets outside the text have no place. Any other is on the line after the newlines before it, in the column
after what comes between the last of these, or the start, and the offset. Offsets are in the order of their places, and none
share one. -/
theorem located_exactly (s : Source) :
    (∀ (offset : Int) (e : OffsetError),
      (ofSource s).locate offset = .error e ↔ (offset < 0 ∨ (s.length : Int) < offset) ∧ e = .outside offset) ∧
    (∀ n : Nat, n ≤ s.length → (ofSource s).locate n =
      .ok ⟨1 + (s.chars.toList.take n).count '\n',1 + ((s.chars.toList.take n).rtakeWhile (· ≠ '\n')).length⟩) ∧
    ∀ (a b : Int) (p q : Place), (ofSource s).locate a = .ok p → (ofSource s).locate b = .ok q →
      (a < b ↔ p.Before q) ∧ (a = b ↔ p = q) := by
  refine ⟨fun offset e => locate_eq_error,fun n inside => locate_inside inside,fun a b p q first second => ?_⟩
  obtain ⟨n,rfl,low,rfl⟩ := exists_of_locate first
  obtain ⟨m,rfl,high,rfl⟩ := exists_of_locate second
  rcases Nat.lt_trichotomy n m with less | rfl | greater
  · have before := before_of_lt less high
    exact ⟨iff_of_true (Int.ofNat_lt.2 less) before,iff_of_false (by omega) before.ne⟩
  · exact ⟨iff_of_false (Int.lt_irrefl _) fun before => before.ne rfl,iff_of_true rfl rfl⟩
  · have before := before_of_lt greater low
    exact ⟨iff_of_false (by omega) before.asymm,iff_of_false (by omega) before.ne.symm⟩

theorem blank_line_located :
    let s := Source.ofString "ab\n\nc"
    4 ≤ s.length ∧ (ofSource s).locate 3 = .ok ⟨2,1⟩ ∧ (ofSource s).locate 4 = .ok ⟨3,1⟩ ∧ (⟨2,1⟩ : Place).Before ⟨3,1⟩ ∧
      ∃ e, (ofSource s).locate 6 = .error e := by
  intro s
  obtain ⟨outside,inside,ordered⟩ := located_exactly s
  have third : (ofSource s).locate 3 = .ok ⟨2,1⟩ := inside 3 (by decide)
  have fourth : (ofSource s).locate 4 = .ok ⟨3,1⟩ := inside 4 (by decide)
  have before := (ordered 3 4 _ _ third fourth).1.1 (by decide)
  exact ⟨by decide,third,fourth,before,_,(outside 6 _).2 ⟨.inr (by decide),rfl⟩⟩

end LineTable

end TypedPeg
