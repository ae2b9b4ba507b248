import TypedPeg.Match.Call
import TypedPeg.Proofs.Node.Parts

/-! A node makes no use of other calls than those of the nodes that it refers to, and skips separators
only if its body says so. So over calls that agree on these it comes to the same, whatever the flags. -/
namespace TypedPeg

variable {σ : Type} {calls calls' : Calls σ} {atomic atomic' skip : Bool}

/-- Two ways of calling agree in what is of use to a node. -/
structure Node.Agrees (node : Node) (calls calls' : Calls σ) (atomic atomic' : Bool) : Prop where
  call : node.body.flag? = none → ∀ child ∈ node.body.children, calls.call atomic child = calls'.call atomic' child
  within : ∀ {flag}, node.body.flag? = some flag → ∀ child ∈ node.body.children, calls.within flag child = calls'.within flag child
  skip : node.body.flag? = none → node.body.skips = true → calls.skip atomic = calls'.skip atomic'

theorem Calls.gap_congr (skips : skip = true → calls.skip atomic = calls'.skip atomic') (allowed : Bool)
    (only : allowed = true → skip = true)
    (c : Cursor) : calls.gap allowed atomic c = calls'.gap allowed atomic' c := by
  unfold gap
  split
  · rename_i allowed
    rw [skips (only allowed)]
  · rfl

namespace Node

theorem elements_congr (skips : skip = true → calls.skip atomic = calls'.skip atomic') (names : List String)
    (same : ∀ name ∈ names, calls.call atomic name = calls'.call atomic' name) (c : Cursor) :
    elements calls skip atomic names c = elements calls' skip atomic' names c := by
  induction names generalizing c with
  | nil => rfl
  | cons name names ih =>
    have rest := ih fun other member => same other (List.mem_cons_of_mem name member)
    simp only [elements,Calls.gap_congr skips skip id,same name List.mem_cons_self,rest]

theorem sequence_congr (skips : skip = true → calls.skip atomic = calls'.skip atomic') (names : List String)
    (same : ∀ name ∈ names, calls.call atomic name = calls'.call atomic' name) (c : Cursor) :
    sequence calls skip atomic names c = sequence calls' skip atomic' names c := by
  cases names with
  | nil => rfl
  | cons name names =>
    have rest := elements_congr skips names fun other member => same other (List.mem_cons_of_mem name member)
    simp only [sequence,same name List.mem_cons_self,rest]

theorem alternatives_congr (label : String) (c : Cursor) (names : List String)
    (same : ∀ name ∈ names, calls.call atomic name = calls'.call atomic' name) (index : Int) (far : Furthest) :
    alternatives calls atomic label c names index far = alternatives calls' atomic' label c names index far := by
  induction names generalizing index far with
  | nil => rfl
  | cons name names ih =>
    have rest := ih fun other member => same other (List.mem_cons_of_mem name member)
    simp only [alternatives,same name List.mem_cons_self,rest]

theorem repetition_congr (skips : skip = true → calls.skip atomic = calls'.skip atomic') {inner : String}
    (same : calls.call atomic inner = calls'.call atomic' inner) (rounds : Nat) (c : Cursor) (items : List Value) :
    repetition calls skip atomic inner rounds c items = repetition calls' skip atomic' inner rounds c items := by
  induction rounds generalizing c items with
  | zero => rfl
  | succ rounds ih =>
    have gap := Calls.gap_congr skips (skip && !items.isEmpty) fun both => (Bool.and_eq_true_iff.1 both).1
    simp only [repetition,gap,same,ih]

theorem step_congr [Observer σ] {node : Node} (agrees : node.Agrees calls calls' atomic atomic') (source : Source) (c : Cursor) :
    node.step source calls atomic c = node.step source calls' atomic' c := by
  obtain ⟨call,within,skips⟩ := agrees
  unfold step
  cases body : node.body with
  | declared => rfl
  | terminal t => rfl
  | lookahead inner negative =>
    rw [body] at call
    cases negative <;> simp only [call rfl inner (List.mem_singleton_self _)]
  | atomic inner =>
    rw [body] at within
    simp only [within rfl inner (List.mem_singleton_self _)]
  | «alias» target =>
    rw [body] at call
    exact congrFun (call rfl target (List.mem_singleton_self _)) c
  | scope inner flag =>
    rw [body] at within
    exact congrFun (within rfl inner (List.mem_singleton_self _)) c
  | restore inner =>
    rw [body] at call
    exact congrFun (call rfl inner (List.mem_singleton_self _)) c
  | push inner =>
    rw [body] at call
    simp only [call rfl inner (List.mem_singleton_self _)]
  | product fields names skip =>
    rw [body] at call skips
    have skips : skip = true → calls.skip atomic = calls'.skip atomic' := skips rfl
    simp only [sequence_congr skips fields (call rfl)]
  | sum variants =>
    rw [body] at call
    simp only [alternatives_congr node.label c variants (call rfl)]
  | optional inner =>
    rw [body] at call
    simp only [call rfl inner (List.mem_singleton_self _)]
  | list inner skip =>
    rw [body] at call skips
    have skips : skip = true → calls.skip atomic = calls'.skip atomic' := skips rfl
    simp only [repetition_congr skips (call rfl inner (List.mem_singleton_self _))]

end Node

namespace Skipping

variable {separator separator' : String → Cursor → Run σ (Cursor × Value)}

theorem sweep_congr (names : List String) (same : ∀ name ∈ names, separator name = separator' name) (c : Cursor) :
    sweep separator names c = sweep separator' names c := by
  induction names generalizing c with
  | nil => rfl
  | cons name names ih =>
    have rest := ih fun other member => same other (List.mem_cons_of_mem name member)
    simp only [sweep,same name List.mem_cons_self,rest]

theorem sweeps_congr (names : List String) (same : ∀ name ∈ names, separator name = separator' name) (rounds : Nat) (c : Cursor) :
    sweeps separator names rounds c = sweeps separator' names rounds c := by
  induction rounds generalizing c with
  | zero => rfl
  | succ rounds ih => simp only [sweeps,sweep_congr names same,ih]

theorem skip_congr [Observer σ] (source : Source) (names : List String) (same : ∀ name ∈ names, separator name = separator' name)
    (atomic : Bool) (c : Cursor) : Skipping.skip source names separator atomic c = Skipping.skip source names separator' atomic c := by
  simp only [Skipping.skip,sweeps_congr names same]

end Skipping

end TypedPeg
