import TypedPeg.Proofs.Grammar.Completeness
import TypedPeg.Proofs.Match.LeftRecursion
import TypedPeg.Proofs.Match.Settled

/-! The table of an accepted grammar does what the grammar means. -/
namespace TypedPeg

variable {σ : Type} [Observer σ] {table : NodeTable} {rules : List Rule} {source : Source} {atomic : Bool} {name : String} {c : Cursor}
  {r : Option Cursor}

omit [Observer σ] in
theorem Run.comes_iff {α : Type} {run : Run σ (Cursor × α)} : run.Comes r ↔ ∀ s, (run s).1.shown = some r := by
  refine forall_congr' fun s => ?_
  generalize (run s).1 = o
  cases o with
  | matched x => exact ⟨fun same => congrArg some same.symm,fun same => (Option.some.inj same).symm⟩
  | failed f => exact ⟨fun same => congrArg some same.symm,fun same => (Option.some.inj same).symm⟩
  | halted h => exact ⟨False.elim,nofun⟩

namespace Means

theorem comes (compiled : table.Compiled rules) (means : Means rules source atomic (.call name) c r) (inside : c.From source 0) :
    ∃ depth, ∀ frames ≥ depth, ∀ active (s : σ),
      ((table.callsIf source false frames active : Calls σ).call atomic name c s).1.shown = some r := by
  obtain ⟨depth,arrives⟩ := Filter.eventually_atTop.1 (means.arrives (σ := σ) compiled inside)
  exact ⟨depth,fun frames enough active => Run.comes_iff.1 (arrives frames enough active)⟩

end Means

namespace NodeTable

end NodeTable

end TypedPeg
