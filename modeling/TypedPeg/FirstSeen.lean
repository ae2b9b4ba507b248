/-! Lists without repeats, in the order their members were first seen. -/
namespace TypedPeg.FirstSeen

variable {α : Type} [DecidableEq α]

def add (seen : List α) (a : α) : List α := if a ∈ seen then seen else seen ++ [a]

def addAll (seen new : List α) : List α := new.foldl add seen

def ofList (l : List α) : List α := addAll [] l

/-- A list without the members that are the same as an earlier one. -/
def ofListBy {β : Type} (same : β → β → Bool) (l : List β) : List β :=
  l.foldl (fun seen b => if seen.any (same b) then seen else seen ++ [b]) []

theorem nodup_add {seen : List α} (h : seen.Nodup) (a : α) : (add seen a).Nodup := by
  unfold add
  split
  · exact h
  · rename_i absent
    exact List.nodup_append.2 ⟨h,by simp,fun x hx y hy same => by
      rw [List.mem_singleton] at hy
      exact absent (hy ▸ same ▸ hx)⟩

theorem nodup_addAll {seen : List α} (h : seen.Nodup) (new : List α) : (addAll seen new).Nodup := by
  induction new generalizing seen with
  | nil => exact h
  | cons a new ih => exact ih (nodup_add h a)

theorem mem_add {seen : List α} {a x : α} : x ∈ add seen a ↔ x ∈ seen ∨ x = a := by
  unfold add
  split
  · rename_i present
    constructor
    · exact Or.inl
    · rintro (h | rfl)
      · exact h
      · exact present
  · simp

theorem mem_addAll {seen new : List α} {x : α} : x ∈ addAll seen new ↔ x ∈ seen ∨ x ∈ new := by
  induction new generalizing seen with
  | nil => simp [addAll]
  | cons a new ih =>
    show x ∈ addAll (add seen a) new ↔ _
    rw [ih,mem_add,List.mem_cons,or_assoc]

end TypedPeg.FirstSeen
