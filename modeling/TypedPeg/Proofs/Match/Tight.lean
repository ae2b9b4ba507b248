import TypedPeg.Proofs.Match.Congruence
import TypedPeg.Proofs.Match.Diagnostics

/-! Matching with the atomic flag set beside matching in a table where no separators may stand. As long as
nothing on the way clears the flag the two are the same run, whoever watches, and no separator is tried. -/
namespace TypedPeg

def Body.tight : Body → Body
  | .product fields names _ => .product fields names false
  | .list inner _ => .list inner false
  | body => body

def Node.tight (node : Node) : Node := { node with body := node.body.tight }

namespace NodeTable

def tight (table : NodeTable) : NodeTable := ⟨table.nodes.map Node.tight,by
  rw [List.map_map]
  exact table.distinct⟩

/-- No node clears the atomic flag. -/
def Inheriting (table : NodeTable) : Prop := ∀ node ∈ table.nodes, ∀ body, node.body ≠ .scope body false

theorem get?_tight (table : NodeTable) (name : String) : table.tight.get? name = (table.get? name).map Node.tight :=
  List.find?_map

end NodeTable

namespace Body

theorem skips_tight (body : Body) : body.tight.skips = false := by
  cases body <;> rfl

theorem flag?_tight (body : Body) : body.tight.flag? = body.flag? := by
  cases body <;> rfl

theorem tight_tight (body : Body) : body.tight.tight = body.tight := by
  cases body <;> rfl

end Body

namespace NodeTable

variable {table : NodeTable}

theorem tight_tight (table : NodeTable) : table.tight.tight = table.tight := by
  have same (node : Node) : node.tight.tight = node.tight := congrArg (Node.mk node.name node.label) node.body.tight_tight
  simp [tight,same]

theorem Inheriting.flag (inheriting : table.Inheriting) {node : Node} (member : node ∈ table.nodes) {flag : Bool}
    (set : node.body.flag? = some flag) : flag = true := by
  have kept := inheriting node member
  cases flag with
  | true => rfl
  | false =>
    cases body : node.body with
    | scope inner other =>
      rw [body] at set
      cases set
      exact absurd body (kept inner)
    | _ =>
      rw [body] at set
      cases set

theorem Inheriting.tight (inheriting : table.Inheriting) : table.tight.Inheriting := by
  intro node member body same
  obtain ⟨loose,listed,rfl⟩ := List.mem_map.1 member
  have set : loose.body.flag? = some false := by
    rw [← Body.flag?_tight]
    exact congrArg Body.flag? same
  cases inheriting.flag listed set

end NodeTable

/-- An observer that is not told when separators are skipped. -/
@[reducible]
def Observer.deaf {σ : Type} (watch : Observer σ) : Observer σ where
  visit := watch.visit
  fail := watch.fail
  mute
    | .negation => watch.mute .negation
    | .separators => id
  unmute
    | .negation => watch.unmute .negation
    | .separators => id

namespace Calls

variable {σ : Type}

def Still (calls : Calls σ) : Prop :=
  (∀ c, calls.skip true c = pure c) ∨ (∀ c, calls.skip true c = .halt .tooDeep) ∧ ∀ name c, calls.call true name c = .halt .tooDeep

variable {calls : Calls σ} {α : Type}

theorem Still.gap (still : calls.Still) (allowed : Bool) {c : Cursor} {next : Cursor → Run σ α}
    (spent : (∀ name d, calls.call true name d = .halt .tooDeep) → next c = .halt .tooDeep) :
    calls.gap allowed true c >>= next = next c := by
  unfold Calls.gap
  split
  · rcases still with stays | ⟨skip,call⟩
    · rw [stays]
      rfl
    · rw [skip,spent call]
      rfl
  · rfl

end Calls

namespace Node

variable {σ : Type} {calls : Calls σ}

theorem elements_tight (still : calls.Still) (skip : Bool) (names : List String) (c : Cursor) :
    elements calls skip true names c = elements calls false true names c := by
  induction names generalizing c with
  | nil => rfl
  | cons name names ih =>
    simp only [elements,ih]
    rw [still.gap,still.gap]
    all_goals
      intro spent
      rw [spent]
      rfl

theorem sequence_tight (still : calls.Still) (skip : Bool) (names : List String) (c : Cursor) :
    sequence calls skip true names c = sequence calls false true names c := by
  cases names with
  | nil => rfl
  | cons name names => simp only [sequence,elements_tight still skip]

theorem repetition_tight (still : calls.Still) (skip : Bool) (inner : String) (rounds : Nat) (c : Cursor) (items : List Value) :
    repetition calls skip true inner rounds c items = repetition calls false true inner rounds c items := by
  induction rounds generalizing c items with
  | zero => rfl
  | succ rounds ih =>
    simp only [repetition,ih]
    rw [still.gap,still.gap]
    all_goals
      intro spent
      rw [spent]
      rfl

/-- A node that does not clear the flag has no use for separators while it is set. -/
theorem step_tight [Observer σ] (still : calls.Still) (source : Source) {node : Node} (c : Cursor) :
    node.step source calls true c = node.tight.step source calls true c := by
  obtain ⟨name,label,body⟩ := node
  cases body with
  | product fields names skip => simp only [tight,Body.tight,step,sequence_tight still skip]
  | list inner skip => simp only [tight,Body.tight,step,repetition_tight still skip]
  | _ => rfl

/-- Nodes tell of separators only by calls. -/
theorem step_deaf [watch : Observer σ] (source : Source) (calls : Calls σ) (atomic : Bool) (node : Node) (c : Cursor) :
    @step σ watch.deaf source calls atomic node c = node.step source calls atomic c := by
  obtain ⟨name,label,body⟩ := node
  cases body with
  | lookahead inner negative => cases negative <;> rfl
  | _ => rfl

end Node

structure Sweeping where
  begun : Nat
  deriving DecidableEq

instance : Observer Sweeping where
  visit _ _ t := t
  fail _ t := t
  mute
    | .separators,t => ⟨t.begun + 1⟩
    | .negation,t => t
  unmute _ t := t

namespace NodeTable

section Tight
variable {σ : Type} {table : NodeTable} {source : Source}

theorem callsIf_still [Observer σ] (frames : Nat) (active : List Entry) : (table.callsIf source true frames active : Calls σ).Still := by
  cases frames with
  | zero => exact .inr ⟨fun _ => rfl,fun _ _ => rfl⟩
  | succ frames =>
    left
    intro c
    rw [callsIf_skip,Skipping.skip,Bool.or_true,if_pos rfl]

/-- With the flag set a table matches as the one without separators does for an observer not told of any. -/
theorem callsIf_deaf [watch : Observer σ] (inheriting : table.Inheriting) (frames : Nat) (active : List Entry) (name : String) :
    (table.callsIf source true frames active).call true name =
      (@callsIf σ watch.deaf table.tight source true frames active).call true name := by
  -- on the frames: a node calls others with fewer, and whatever flag it sets is set
  induction frames using Nat.strongRecOn generalizing active name with
  | ind frames ih =>
    cases frames with
    | zero => rfl
    | succ frames =>
      ext c
      simp only [callsIf_succ,get?_tight]
      cases found : table.get? name with
      | none => rfl
      | some node =>
        cases frames with
        | zero => rfl
        | succ left =>
          have agrees : node.tight.Agrees (table.callsIf source true left (⟨c.pos,name⟩ :: active))
              (@callsIf σ watch.deaf table.tight source true left (⟨c.pos,name⟩ :: active)) true true := by
            refine ⟨fun _ child _ => ih left (by omega) _ child,fun {flag} set child _ => ?_,fun _ skips => ?_⟩
            · obtain rfl : flag = true := inheriting.flag (List.mem_of_find?_eq_some found) (node.body.flag?_tight ▸ set)
              ext d
              rw [callsIf_within,@callsIf_within σ watch.deaf,ih (left - 1) (by omega)]
            · exact Bool.noConfusion (node.body.skips_tight.symm.trans skips)
          dsimp only [Option.map_some]
          rw [Node.step_tight (callsIf_still left _) source c,Node.step_congr agrees,← Node.step_deaf]
          rfl

theorem call_deaf [watch : Observer σ] (inheriting : table.Inheriting) (source : Source) (frames : Nat)
    (active : List Entry) (name : String) (c : Cursor) :
    (table.calls source frames active).within true name c =
      (@Table.calls Node _ σ watch.deaf table.tight source frames active).within true name c := by
  have loud : ((table.calls source frames active).within true name c : Run σ _) =
      (table.callsIf source true (frames - 1) active).call true name c := by
    rw [← callsIf_true,callsIf_within]
  have quiet : (@Table.calls Node _ σ watch.deaf table.tight source frames active).within true name c =
      (@callsIf σ watch.deaf table.tight source true (frames - 1) active).call true name c := by
    rw [← @callsIf_true σ watch.deaf,@callsIf_within σ watch.deaf]
  rw [loud,quiet,callsIf_deaf inheriting]

end Tight

theorem within_idle {σ : Type} [Observer σ] (visit : ∀ active c (s : σ), Observer.visit active c s = s)
    (fail : ∀ f (s : σ), Observer.fail f s = s) (hush : ∀ why (s : σ), Observer.mute why s = s ∧ Observer.unmute why s = s)
    (table : NodeTable) (source : Source) (frames : Nat) (active : List Entry) (flag : Bool) (name : String) (c : Cursor) (s : σ) :
    ((table.calls source frames active).within flag name c s).2 = s := by
  let course : Course σ := {
    leads := Eq
    refl := fun _ => rfl
    trans := Eq.trans
    visit := fun active c s => (visit active c s).symm
    hushed := by
      rintro why s t rfl
      rw [(hush why s).1,(hush why s).2] }
  have led := calls_lead course (fun f s => (fail f s).symm) (fun _ => trivial) table source frames active flag
  exact (led.within flag name c trivial s).1.symm

/-- In a table in which nothing clears the atomic flag, a call that sets it is the same run as in the table with
no room for separators, told to any observer, and at no point does it try a separator. -/
theorem atomic_tight (table : NodeTable) (inheriting : table.Inheriting) (source : Source) (frames : Nat) (active : List Entry)
    (name : String) (c : Cursor) :
    (∀ {σ : Type} [Observer σ] (s : σ), (table.calls source frames active).within true name c s =
      (table.tight.calls source frames active).within true name c s) ∧
    ∀ t : Sweeping, ((table.calls source frames active).within true name c t).2 = t := by
  constructor
  · intro σ _ s
    have loose := congrFun (call_deaf (σ := σ) inheriting source frames active name c) s
    have tight := congrFun (call_deaf (σ := σ) inheriting.tight source frames active name c) s
    rw [tight_tight] at tight
    exact loose.trans tight.symm
  · intro t
    rw [call_deaf inheriting]
    exact @within_idle Sweeping (Observer.deaf inferInstance) (fun _ _ _ => rfl) (fun _ _ => rfl) (by rintro (_ | _) _ <;> exact ⟨rfl,rfl⟩)
      table.tight source frames active true name c t

def lettered : NodeTable :=
  ⟨[⟨"word","word",.atomic "letters"⟩,⟨"letters","letters",.list "letter" true⟩,⟨"letter","letter",.terminal (.range "a" "z")⟩,
    ⟨"WHITESPACE","WHITESPACE",.terminal (.literal " ")⟩],by decide⟩

theorem lettered_atomic : lettered.Inheriting ∧
    (lettered.calls (.ofString "ab c") 12 []).within true "letters" .start (Tracker.new true) =
      (lettered.tight.calls (.ofString "ab c") 12 []).within true "letters" .start (Tracker.new true) ∧
    ((lettered.calls (.ofString "ab c") 12 []).within true "letters" .start (Tracker.new true)).1 = .matched (⟨2,[]⟩,
      .many "letters" ⟨0,2⟩ [.leaf "letter" ⟨0,1⟩ (some "a"),.leaf "letter" ⟨1,2⟩ (some "b")]) := by
  have inheriting : lettered.Inheriting := by
    have unscoped : ∀ node ∈ lettered.nodes, node.body.flag? ≠ some false := by decide
    intro node member body same
    exact unscoped node member (congrArg Body.flag? same)
  exact ⟨inheriting,(atomic_tight lettered inheriting (.ofString "ab c") 12 [] "letters" .start).1 (Tracker.new true),by decide +kernel⟩

end NodeTable

end TypedPeg
