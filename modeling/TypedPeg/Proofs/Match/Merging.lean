import Mathlib.Data.List.Induction
import TypedPeg.Match.Tracker
import TypedPeg.Proofs.Match.Report

/-! What failures come to, said at once: the greatest of the offsets, and the labels of the failures that are there, in
order and each once. A tracker comes to that of the failures it heard, a choice to that of its alternatives, and a choice
among these may as well stand for its own. -/
namespace TypedPeg

namespace FirstSeen

variable {α : Type} [DecidableEq α]

theorem addAll_append_singleton (l new : List α) (a : α) : addAll l (new ++ [a]) = add (addAll l new) a := List.foldl_concat ..

theorem addAll_eraseDups_right (l new : List α) : addAll l new.eraseDups = addAll l new := by
  induction new using List.reverseRecOn with
  | nil => rfl
  | append_singleton new a ih =>
    rw [← add_eraseDups,addAll_append_singleton,add]
    by_cases seen : a ∈ new
    · rw [if_pos (List.mem_eraseDups.2 seen),ih,add,if_pos (mem_addAll.2 (.inr seen))]
    · rw [if_neg fun kept => seen (List.mem_eraseDups.1 kept),addAll_append_singleton,ih]

theorem eraseDups_append_eraseDups (l new : List α) : (l ++ new.eraseDups).eraseDups = (l ++ new).eraseDups := by
  rw [← addAll_eraseDups,← addAll_eraseDups,addAll_eraseDups_right]

theorem eraseDups_middle (l new after : List α) : (l ++ new.eraseDups ++ after).eraseDups = (l ++ new ++ after).eraseDups := by
  rw [← addAll_eraseDups (l ++ new.eraseDups),eraseDups_append_eraseDups,addAll_eraseDups]

end FirstSeen

namespace Furthest

variable {far : Furthest} {base pos' : Int} {fs before after : List Failure}

def labelsAt (pos : Int) (fs : List Failure) : List String := (fs.filter fun f => f.pos = pos).flatMap (·.expected)

/-- The greatest of a given offset and those of the failures, and the labels there, each once. -/
def ofAll (base : Int) (fs : List Failure) : Furthest :=
  let pos := (fs.map (·.pos)).foldl max base
  ⟨pos,(labelsAt pos fs).eraseDups⟩

theorem pos_foldl (far : Furthest) (fs : List Failure) : (fs.foldl note far).pos = (fs.map (·.pos)).foldl max far.pos := by
  induction fs generalizing far with
  | nil => rfl
  | cons f fs ih => rw [List.foldl_cons,ih,pos_note,List.map_cons,List.foldl_cons]

theorem sums_foldl (base : Int) (fs : List Failure) : (fs.foldl note (.start base)).Sums base fs := (sums_start base).foldl fs

theorem foldl_start (base : Int) (fs : List Failure) : fs.foldl note (.start base) = ofAll base fs := by
  have pos : (fs.foldl note (.start base)).pos = (ofAll base fs).pos := pos_foldl _ fs
  have labels := (sums_foldl base fs).labels
  rw [pos] at labels
  exact congrArg₂ Furthest.mk pos labels

/-- There is but one thing that failures come to. -/
theorem Sums.unique {other : Furthest} (sums : far.Sums base fs) (sums' : other.Sums base fs) : far = other := by
  have least {x y : Furthest} (one : x.Sums base fs) (two : y.Sums base fs) : x.pos ≤ y.pos := by
    rcases Int.lt_or_eq_of_le one.base with above | same
    · obtain ⟨f,member,there⟩ := one.attained above
      exact Int.le_trans (Int.le_of_eq there.symm) (two.upper f member)
    · exact Int.le_trans (Int.le_of_eq same.symm) two.base
  have pos : far.pos = other.pos := Int.le_antisymm (least sums sums') (least sums' sums)
  have labels := sums.labels
  rw [pos,← sums'.labels] at labels
  exact congrArg₂ Furthest.mk pos labels

theorem labelsAt_eq_nil {pos : Int} (behind : ∀ f ∈ fs, f.pos < pos) : labelsAt pos fs = [] := by
  have none : fs.filter (fun f => f.pos = pos) = [] := by
    rw [List.filter_eq_nil_iff]
    intro f member
    simpa using Int.ne_of_lt (behind f member)
  rw [labelsAt,none]
  rfl

section Merged
variable {f : Failure} (merged : (ofFailure f).Sums pos' fs)

include merged

theorem Sums.labelsAt_eq {place : Int} (reached : f.pos ≤ place) : labelsAt place [f] = (labelsAt place fs).eraseDups := by
  rcases Int.lt_or_eq_of_le reached with short | rfl
  · rw [labelsAt_eq_nil (List.forall_mem_singleton.2 short),
      labelsAt_eq_nil fun g member => Int.lt_of_le_of_lt (merged.upper g member) short]
    rfl
  · refine Eq.trans ?_ merged.labels
    simp [labelsAt,ofFailure]

theorem Sums.exists_pos_eq (near : pos' < f.pos ∨ ∃ g ∈ fs, pos' ≤ g.pos) : ∃ g ∈ fs, g.pos = f.pos := by
  rcases Int.lt_or_eq_of_le merged.base with beyond | same
  · exact merged.attained beyond
  · have same : pos' = f.pos := same
    rcases near with beyond | ⟨g,member,near⟩
    · exact (Int.ne_of_lt beyond same).elim
    · exact ⟨g,member,Int.le_antisymm (merged.upper g member) (same ▸ near)⟩

/-- The failure that others come to may stand for them, if they start no further on or one of them is where they start or beyond. -/
theorem Sums.expand (sums : far.Sums base (before ++ [f] ++ after)) (near : pos' ≤ base ∨ ∃ g ∈ fs, pos' ≤ g.pos) :
    far.Sums base (before ++ fs ++ after) := by
  obtain ⟨upper,attained,above,labels⟩ := sums
  simp only [List.forall_mem_append,List.forall_mem_singleton] at upper
  obtain ⟨⟨first,top⟩,last⟩ := upper
  refine ⟨?_,fun further => ?_,above,?_⟩
  · simp only [List.forall_mem_append]
    exact ⟨⟨first,fun g member => Int.le_trans (merged.upper g member) top⟩,last⟩
  · simp only [List.mem_append,List.mem_singleton] at attained ⊢
    obtain ⟨g,(member | rfl) | member,there⟩ := attained further
    · exact ⟨g,.inl (.inl member),there⟩
    · obtain ⟨h,member,same⟩ := merged.exists_pos_eq (near.imp_left fun low => Int.lt_of_le_of_lt low (there ▸ further))
      exact ⟨h,.inl (.inr member),same.trans there⟩
    · exact ⟨g,.inr member,there⟩
  · have split (middle : List Failure) : ((before ++ middle ++ after).filter fun g => g.pos = far.pos).flatMap (·.expected) =
        labelsAt far.pos before ++ labelsAt far.pos middle ++ labelsAt far.pos after := by
      simp only [List.filter_append,List.flatMap_append,labelsAt]
    rw [labels,split,split,merged.labelsAt_eq top,FirstSeen.eraseDups_middle]

end Merged

theorem ofFailure_ofChoice (label : String) (pos : Int) (fs : List Failure) :
    ofFailure (.ofChoice label pos fs) = fs.foldl note (.start pos) := rfl

theorem ofChoice_expand {pos : Int} (label inner : String) (before : List Failure) (near : pos' ≤ pos ∨ ∃ f ∈ fs, pos' ≤ f.pos)
    (after : List Failure) : ofFailure (.ofChoice label pos (before ++ .ofChoice inner pos' fs :: after)) =
      ofFailure (.ofChoice label pos (before ++ fs ++ after)) := by
  have merged : (ofFailure (.ofChoice inner pos' fs)).Sums pos' fs := sums_foldl pos' fs
  have whole := sums_foldl pos (before ++ [.ofChoice inner pos' fs] ++ after)
  rw [ofFailure_ofChoice,ofFailure_ofChoice,List.append_cons]
  exact (merged.expand whole near).unique (sums_foldl pos _)

end Furthest

namespace Tracker

inductive Step where
  | record (f : Failure)
  | mute (n : Int)
  deriving DecidableEq

def step (t : Tracker) : Step → Tracker
  | .record f => t.note f
  | .mute n => t.mute n

/-- The failures that are recorded while what is muted does not come to more than nothing. -/
def heard (muted : Int) : List Step → List Failure
  | [] => []
  | .record f :: rest => if muted ≤ 0 then f :: heard muted rest else heard muted rest
  | .mute n :: rest => heard (muted + n) rest

theorem foldl_step {t : Tracker} (on : t.enabled = true) (steps : List Step) :
    (steps.foldl step t).furthest = (heard t.muted steps).foldl Furthest.note t.furthest := by
  induction steps generalizing t with
  | nil => rfl
  | cons first rest ih =>
    cases first with
    | record f =>
      rw [List.foldl_cons,step,heard]
      by_cases opened : t.muted ≤ 0
      · rw [if_pos opened,note_heard on opened]
        exact ih on
      · rw [note_unheard fun _ => opened,ih on,if_neg opened]
    | mute n => exact ih on

theorem heard_record {muted : Int} (opened : muted ≤ 0) (fs : List Failure) : heard muted (fs.map .record) = fs := by
  induction fs with
  | nil => rfl
  | cons f fs ih => rw [List.map_cons,heard,if_pos opened,ih]

/-- A tracker has what the failures come to that it heard. The failure of a choice is what those of the alternatives
come to, just as a tracker has it that started there and heard them all. If one of them is that of another choice, they
come to the same with its alternatives in its place. This may even start further on, if an alternative of it failed there
or beyond. -/
theorem merges_agree :
    (∀ steps : List Step, (steps.foldl step (.new true)).furthest = .ofAll (-1) (heard 0 steps)) ∧
    (∀ (label : String) (pos muted : Int) (fs : List Failure), muted ≤ 0 →
      Furthest.ofFailure (.ofChoice label pos fs) = .ofAll pos fs ∧
        ((fs.map .record).foldl step ⟨true,muted,.start pos⟩).furthest = .ofFailure (.ofChoice label pos fs)) ∧
    ∀ (label inner : String) (pos pos' : Int) (before fs after : List Failure), (pos' ≤ pos ∨ ∃ f ∈ fs, pos' ≤ f.pos) →
      Furthest.ofFailure (.ofChoice label pos (before ++ .ofChoice inner pos' fs :: after)) =
        .ofFailure (.ofChoice label pos (before ++ fs ++ after)) := by
  refine ⟨fun steps => ?_,fun label pos muted fs opened => ⟨?_,?_⟩,fun label inner pos pos' before fs after near => ?_⟩
  · rw [foldl_step rfl,← Furthest.foldl_start]
    rfl
  · rw [Furthest.ofFailure_ofChoice,Furthest.foldl_start]
  · rw [foldl_step rfl,heard_record opened,Furthest.ofFailure_ofChoice]
  · exact Furthest.ofChoice_expand label inner before near after

theorem lookahead_merges :
    let near : Failure := ⟨.literal,"",1,["a"]⟩
    let far : Failure := ⟨.literal,"",3,["c","b","c"]⟩
    let also : Failure := ⟨.character,"",3,["d","b"]⟩
    let steps : List Step := [.record near,.mute 1,.record far,.mute (-1),.record ⟨.plain,"",-2,["x"]⟩,.record near]
    (steps.foldl step (.new true)).furthest = ⟨1,["a"]⟩ ∧
    (-1 : Int) ≤ 0 ∧ Furthest.ofFailure (.ofChoice "x" 1 [far,near,also]) = ⟨3,["c","b","d"]⟩ ∧
    (([far,near,also].map .record).foldl step ⟨true,-1,.start 1⟩).furthest = ⟨3,["c","b","d"]⟩ ∧
    ((2 : Int) ≤ 1 ∨ ∃ f ∈ [near,also], 2 ≤ f.pos) ∧
    Furthest.ofFailure (.ofChoice "x" 1 ([far] ++ .ofChoice "y" 2 [near,also] :: [])) = ⟨3,["c","b","d"]⟩ := by
  intro near far also steps
  obtain ⟨tracked,chosen,nested⟩ := merges_agree
  have merged := chosen "x" 1 (-1) [far,near,also] (by decide)
  have there : (2 : Int) ≤ 1 ∨ ∃ f ∈ [near,also], 2 ≤ f.pos := by decide
  have same := nested "x" "y" 1 2 [far] [near,also] [] there
  refine ⟨(tracked steps).trans (by decide),by decide,merged.1.trans (by decide),merged.2.trans (merged.1.trans (by decide)),there,?_⟩
  exact same.trans merged.1

end Tracker

end TypedPeg
