import TypedPeg.Match.Call
import TypedPeg.Proofs.Match.Alike

/-! The calls of a table when more is done about them. Whether a call in progress is refused, what is
done around each call and each skip, and what a node is given to call with may all be chosen; the
plain choice is the way in which tables match. -/
namespace TypedPeg

structure Handling (σ : Type) where
  /-- Only then is a call refused that is in progress already. -/
  guarded : Bool := true
  around : String → Cursor → Run σ (Cursor × Value) → Run σ (Cursor × Value) := fun _ _ run => run
  lent : Node → Calls σ → Calls σ := fun _ calls => calls
  aside : Run σ Cursor → Run σ Cursor := fun run => run

namespace NodeTable

section Definition
variable {σ : Type} [Observer σ] (table : NodeTable) (source : Source)

def callsBy (how : Handling σ) : Nat → List Entry → Calls σ
  | 0, _ => ⟨fun _ _ _ => .halt .tooDeep,fun _ _ _ => .halt .tooDeep,fun _ _ => .halt .tooDeep⟩
  | frames + 1, active => {
      call := fun atomic name input => how.around name input
        (match table.get? name with
        | none => .fail ⟨.undefinedRule,"unknown rule '" ++ name ++ "'",input.pos,[name]⟩
        | some node =>
          if how.guarded && Entry.isIn ⟨input.pos,name⟩ active then .halt (.leftRecursion name input.pos)
          else match frames with
            | 0 => .halt .tooDeep
            | left + 1 =>
              let active := ⟨input.pos,name⟩ :: active
              .visiting active input (node.step source (how.lent node (callsBy how left active)) atomic input))
      within := fun flag name input => (callsBy how frames active).call flag name input
      skip := fun atomic input => how.aside
        (Skipping.skip source table.separators (fun name input => (callsBy how frames active).within true name input)
          atomic input) }

variable (how : Handling σ)

theorem callsBy_call (frames : Nat) (active : List Entry) (atomic : Bool) (name : String) (input : Cursor) :
    (table.callsBy source how (frames + 1) active).call atomic name input = how.around name input
      (match table.get? name with
      | none => .fail ⟨.undefinedRule,"unknown rule '" ++ name ++ "'",input.pos,[name]⟩
      | some node =>
        if how.guarded && Entry.isIn ⟨input.pos,name⟩ active then .halt (.leftRecursion name input.pos)
        else match frames with
          | 0 => .halt .tooDeep
          | left + 1 => .visiting (⟨input.pos,name⟩ :: active) input
              (node.step source (how.lent node (table.callsBy source how left (⟨input.pos,name⟩ :: active))) atomic input)) := by
  rw [callsBy]

theorem callsBy_within (frames : Nat) (active : List Entry) (flag : Bool) (name : String) (input : Cursor) :
    (table.callsBy source how frames active).within flag name input =
      (table.callsBy source how (frames - 1) active).call flag name input := by
  cases frames with
  | zero => rfl
  | succ frames => rw [callsBy,Nat.add_sub_cancel]

theorem callsBy_skip (frames : Nat) (active : List Entry) (atomic : Bool) (input : Cursor) :
    (table.callsBy source how (frames + 1) active).skip atomic input =
      how.aside (Skipping.skip source table.separators ((table.callsBy source how frames active).within true) atomic input) := by
  rw [callsBy]

/-- Without more done about them, the calls are those of the table. -/
theorem callsBy_plain (frames : Nat) (active : List Entry) :
    (table.callsBy source {} frames active : Calls σ) = table.calls source frames active := by
  induction frames using Nat.strongRecOn generalizing active with
  | ind frames ih =>
    cases frames with
    | zero => rfl
    | succ frames =>
      have same := ih frames (Nat.lt_succ_self _) active
      simp only [callsBy,Table.calls,same,Run.withRoom_eq,Bool.true_and,Calls.mk.injEq,and_true]
      funext atomic name input
      cases table.get? name with
      | none => rfl
      | some node =>
        cases frames with
        | zero => rfl
        | succ left =>
          simp only [ih left (by omega)]
          rfl

end Definition

variable {σ τ : Type} [Observer σ] [Observer τ]

/-- What is asked of two ways to handle calls for the runs under both to be alike, given the same of
calls with fewer frames. -/
structure Matching (l : Likeness σ τ) (how : Handling σ) (how' : Handling τ) (table : NodeTable) (source : Source) : Prop where
  failures : l.failures = Eq
  halts : ∀ h, l.halts h h
  told : ∀ f {s t}, l.states s t → l.states (Observer.fail f s) (Observer.fail f t)
  visit : ∀ active c {s t}, l.states s t → l.states (Observer.visit active c s) (Observer.visit active c t)
  guarded : how.guarded = how'.guarded
  around : ∀ name c {run run'}, Run.Alike l (Likeness.Answers Eq) run run' →
    Run.Alike l (Likeness.Answers Eq) (how.around name c run) (how'.around name c run')
  step : ∀ {node frames active atomic}, node ∈ table.nodes →
    Calls.Alike l Eq (table.callsBy source how frames active) (table.callsBy source how' frames active) atomic atomic →
    ∀ c, Run.Alike l (Likeness.Answers Eq) (node.step source (how.lent node (table.callsBy source how frames active)) atomic c)
      (node.step source (how'.lent node (table.callsBy source how' frames active)) atomic c)
  skip : ∀ {frames active},
    Calls.Alike l Eq (table.callsBy source how frames active) (table.callsBy source how' frames active) true true →
    ∀ atomic c, Run.Alike l Eq
      (how.aside (Skipping.skip source table.separators ((table.callsBy source how frames active).within true) atomic c))
      (how'.aside (Skipping.skip source table.separators ((table.callsBy source how' frames active).within true) atomic c))

theorem Matching.calls {l : Likeness σ τ} {how : Handling σ} {how' : Handling τ} {table : NodeTable} {source : Source}
    (matching : Matching l how how' table source) (frames : Nat) (active : List Entry) (atomic : Bool) :
    Calls.Alike l Eq (table.callsBy source how frames active) (table.callsBy source how' frames active) atomic atomic := by
  -- a node at work calls with two frames less, what separators cost is one frame
  induction frames using Nat.strongRecOn generalizing active atomic with
  | ind frames ih =>
    cases frames with
    | zero =>
      have spent := matching.halts .tooDeep
      exact ⟨fun _ _ _ _ => .halt spent,fun _ _ _ _ _ => .halt spent,fun _ _ _ => .halt spent⟩
    | succ frames =>
      have below := ih frames (Nat.lt_succ_self _) active
      refine ⟨?_,?_,?_⟩
      · rintro name c _ rfl
        simp only [callsBy]
        refine matching.around name c ?_
        cases found : table.get? name with
        | none =>
          exact fun s t states => .failed (matching.failures ▸ rfl) (matching.told _ states)
        | some node =>
          dsimp only
          rw [← matching.guarded]
          split
          · exact .halt (matching.halts _)
          · cases frames with
            | zero => exact .halt (matching.halts _)
            | succ left =>
              have inner := ih left (by omega) (⟨c.pos,name⟩ :: active) atomic
              have stepped := matching.step (List.mem_of_find?_eq_some found) inner c
              exact fun s t states => stepped _ _ (matching.visit _ c states)
      · rintro flag name c _ rfl
        rw [callsBy_within,callsBy_within]
        exact (below flag).call name c c rfl
      · rintro c _ rfl
        rw [callsBy_skip,callsBy_skip]
        exact matching.skip (below true) atomic c

end NodeTable

end TypedPeg
