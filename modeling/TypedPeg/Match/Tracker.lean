import TypedPeg.Match.Failure
import TypedPeg.Source.Cursor

/-! Observers of a run. A tracker keeps the furthest failure, except while it is
muted or switched off. -/
namespace TypedPeg

structure Entry where
  pos : Int
  name : String
  deriving DecidableEq

def Entry.isIn (e : Entry) : List Entry → Bool
  | [] => false
  | other :: rest => (other.pos = e.pos && other.name = e.name) || e.isIn rest

theorem Entry.isIn_iff {e : Entry} {active : List Entry} : e.isIn active = true ↔ e ∈ active := by
  induction active with
  | nil => simp [isIn]
  | cons other rest ih =>
    rw [isIn,Bool.or_eq_true,ih,List.mem_cons]
    refine or_congr_left ?_
    rw [Bool.and_eq_true,decide_eq_true_eq,decide_eq_true_eq]
    constructor
    · rintro ⟨samePos,sameName⟩
      cases e; cases other
      cases samePos; cases sameName
      rfl
    · rintro rfl
      exact ⟨rfl,rfl⟩

theorem Entry.isIn_eq_false {e : Entry} {active : List Entry} (fresh : e ∉ active) : e.isIn active = false :=
  Bool.eq_false_iff.2 fun isIn => fresh (Entry.isIn_iff.1 isIn)

inductive Hush where
  /-- Inside a negative lookahead. -/
  | negation
  /-- While separators are skipped. -/
  | separators
  deriving DecidableEq

/-- What a run tells whoever watches it. Watching never changes the run. -/
class Observer (σ : Type) where
  /-- A call begins at a cursor; the calls in progress, innermost first, include it. -/
  visit : List Entry → Cursor → σ → σ
  fail : Failure → σ → σ
  mute : Hush → σ → σ
  unmute : Hush → σ → σ

structure Tracker where
  enabled : Bool
  muted : Int
  furthest : Furthest
  deriving DecidableEq

namespace Tracker

def new (enabled : Bool) : Tracker := ⟨enabled,0,.start (-1)⟩

def note (t : Tracker) (f : Failure) : Tracker :=
  if t.enabled && decide (t.muted ≤ 0) then { t with furthest := t.furthest.note f } else t

def mute (t : Tracker) (n : Int) : Tracker := { t with muted := t.muted + n }

instance : Observer Tracker where
  visit _ _ t := t
  fail f t := t.note f
  mute _ t := t.mute 1
  unmute _ t := t.mute (-1)

end Tracker

end TypedPeg
