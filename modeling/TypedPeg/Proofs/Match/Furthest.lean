import TypedPeg.Match.Failure

/-! What failures come to when one after the other is noted: the greatest of their offsets, and the
labels of those that are there, each once. Noting takes the least place that is not behind either. -/
namespace TypedPeg

namespace FirstSeen

variable {α : Type} [DecidableEq α]

theorem add_eraseDups (l : List α) (a : α) : add l.eraseDups a = (l ++ [a]).eraseDups := by
  rw [List.eraseDups_append,add]
  by_cases seen : a ∈ l
  · have none : [a].removeAll l = [] := by simp [List.removeAll,seen]
    rw [if_pos (List.mem_eraseDups.2 seen),none,List.eraseDups_nil,List.append_nil]
  · have here : [a].removeAll l = [a] := by simp [List.removeAll,seen]
    rw [if_neg fun kept => seen (List.mem_eraseDups.1 kept),here]
    rfl

theorem addAll_eraseDups (l new : List α) : addAll l.eraseDups new = (l ++ new).eraseDups := by
  induction new generalizing l with
  | nil => rw [List.append_nil]; rfl
  | cons a new ih =>
    have step : addAll l.eraseDups (a :: new) = addAll (add l.eraseDups a) new := rfl
    rw [step,add_eraseDups,ih,List.append_assoc,List.singleton_append]

theorem ofList_eq_eraseDups (l : List α) : ofList l = l.eraseDups := addAll_eraseDups [] l

end FirstSeen

namespace Furthest

variable {far top : Furthest} {f : Failure} {base : Int} {fs : List Failure}

theorem note_of_lt (further : far.pos < f.pos) : far.note f = ⟨f.pos,f.expected.eraseDups⟩ := by
  rw [note,if_pos further,FirstSeen.ofList_eq_eraseDups]

theorem note_of_eq (same : f.pos = far.pos) : far.note f = ⟨far.pos,FirstSeen.addAll far.expected f.expected⟩ := by
  rw [note,if_neg (by omega),if_pos same]

theorem note_of_gt (behind : f.pos < far.pos) : far.note f = far := by rw [note,if_neg (by omega),if_neg (by omega)]

theorem pos_note (far : Furthest) (f : Failure) : (far.note f).pos = max far.pos f.pos := by
  rcases Int.lt_trichotomy far.pos f.pos with further | same | behind
  · rw [note_of_lt further,Int.max_eq_right (Int.le_of_lt further)]
  · rw [note_of_eq same.symm,← same,Int.max_self]
  · rw [note_of_gt behind,Int.max_eq_left (Int.le_of_lt behind)]

theorem pos_note_between {low high : Int} (below : low ≤ far.pos) (above : far.pos ≤ high) (failed : f.pos ≤ high) :
    low ≤ (far.note f).pos ∧ (far.note f).pos ≤ high := by
  rw [pos_note]
  exact ⟨Int.le_trans below (Int.le_max_left _ _),Int.max_le.2 ⟨above,failed⟩⟩

/-- It is what the failures come to, from offset `base` on. -/
structure Sums (far : Furthest) (base : Int) (fs : List Failure) : Prop where
  upper : ∀ f ∈ fs, f.pos ≤ far.pos
  attained : base < far.pos → ∃ f ∈ fs, f.pos = far.pos
  base : base ≤ far.pos
  labels : far.expected = ((fs.filter fun f => f.pos = far.pos).flatMap (·.expected)).eraseDups

theorem sums_start (base : Int) : (start base).Sums base [] :=
  ⟨fun _ member => (List.not_mem_nil member).elim,fun further => (Int.lt_irrefl _ further).elim,Int.le_refl _,rfl⟩

theorem Sums.note (sums : far.Sums base fs) (f : Failure) : (far.note f).Sums base (fs ++ [f]) := by
  have last : f ∈ fs ++ [f] := List.mem_append_right _ List.mem_cons_self
  have upper {place : Int} (old : far.pos ≤ place) (new : f.pos ≤ place) : ∀ g ∈ fs ++ [f], g.pos ≤ place :=
    List.forall_mem_append.2 ⟨fun g member => Int.le_trans (sums.upper g member) old,List.forall_mem_singleton.2 new⟩
  rcases Int.lt_trichotomy far.pos f.pos with further | same | behind
  · rw [note_of_lt further]
    -- what was noted before is left behind
    have none : fs.filter (fun g => g.pos = f.pos) = [] := by
      rw [List.filter_eq_nil_iff]
      intro g member
      have := sums.upper g member
      simp only [decide_eq_true_eq]
      omega
    refine ⟨upper (Int.le_of_lt further) (Int.le_refl _),fun _ => ⟨f,last,rfl⟩,Int.le_trans sums.base (Int.le_of_lt further),?_⟩
    simp [List.filter_append,none]
  · rw [note_of_eq same.symm]
    refine ⟨upper (Int.le_refl _) (Int.le_of_eq same.symm),fun _ => ⟨f,last,same.symm⟩,sums.base,?_⟩
    dsimp only
    rw [sums.labels,FirstSeen.addAll_eraseDups,List.filter_append,List.flatMap_append]
    simp [same]
  · rw [note_of_gt behind]
    refine ⟨upper (Int.le_refl _) (Int.le_of_lt behind),fun above => ?_,sums.base,?_⟩
    · obtain ⟨g,member,there⟩ := sums.attained above
      exact ⟨g,List.mem_append_left _ member,there⟩
    · have other : f.pos ≠ far.pos := Int.ne_of_lt behind
      rw [sums.labels,List.filter_append]
      simp [other]

theorem Sums.foldl (sums : far.Sums base fs) (gs : List Failure) : (gs.foldl Furthest.note far).Sums base (fs ++ gs) := by
  induction gs generalizing far fs with
  | nil =>
    rw [List.append_nil]
    exact sums
  | cons g gs ih =>
    have rest := ih (sums.note g)
    rwa [List.append_assoc] at rest

/-- Behind the other, or at the same place with no further labels. -/
def Within (far top : Furthest) : Prop := far.pos ≤ top.pos ∧ (far.pos = top.pos → far.expected ⊆ top.expected)

def ofFailure (f : Failure) : Furthest := ⟨f.pos,f.expected⟩

theorem Within.refl (far : Furthest) : far.Within far := ⟨Int.le_refl _,fun _ _ => id⟩

theorem Within.trans {mid : Furthest} (first : far.Within mid) (second : mid.Within top) : far.Within top := by
  refine ⟨Int.le_trans first.1 second.1,fun same => ?_⟩
  have ordered := first.1
  have ordered' := second.1
  exact List.Subset.trans (first.2 (by omega)) (second.2 (by omega))

theorem start_within (low : base ≤ top.pos) : (start base).Within top := ⟨low,fun _ => List.nil_subset _⟩

theorem within_note (far : Furthest) (f : Failure) : far.Within (far.note f) := by
  rcases Int.lt_trichotomy far.pos f.pos with further | same | behind
  · rw [note_of_lt further]
    exact ⟨Int.le_of_lt further,fun same => (Int.ne_of_lt further same).elim⟩
  · rw [note_of_eq same.symm]
    exact ⟨Int.le_refl _,fun _ label member => FirstSeen.mem_addAll.2 (.inl member)⟩
  · rw [note_of_gt behind]
    exact .refl far

theorem ofFailure_within_note (far : Furthest) (f : Failure) : (ofFailure f).Within (far.note f) := by
  rcases Int.lt_trichotomy far.pos f.pos with further | same | behind
  · rw [note_of_lt further]
    exact ⟨Int.le_refl _,fun _ label member => List.mem_eraseDups.2 member⟩
  · rw [note_of_eq same.symm]
    exact ⟨Int.le_of_eq same.symm,fun _ label member => FirstSeen.mem_addAll.2 (.inr member)⟩
  · rw [note_of_gt behind]
    exact ⟨Int.le_of_lt behind,fun same => (Int.ne_of_lt behind same).elim⟩

theorem note_within (low : far.Within top) (failed : (ofFailure f).Within top) : (far.note f).Within top := by
  rcases Int.lt_trichotomy far.pos f.pos with further | same | behind
  · rw [note_of_lt further]
    exact ⟨failed.1,fun there label member => failed.2 there (List.mem_eraseDups.1 member)⟩
  · rw [note_of_eq same.symm]
    refine ⟨low.1,fun there label member => ?_⟩
    rcases FirstSeen.mem_addAll.1 member with old | new
    · exact low.2 there old
    · exact failed.2 (same.symm.trans there) new
  · rw [note_of_gt behind]
    exact low

end Furthest

end TypedPeg
