import TypedPeg.Parser
import TypedPeg.Proofs.Match.Handling
import TypedPeg.Proofs.Match.Known

/-! The failures raised in a run outside every negative lookahead and every skip of separators. Which
these are is read off the nodes at work, whatever is muted; those told while no mute is open are the
same ones, in the same order. -/
namespace TypedPeg

section Unheard
variable {σ α : Type}

/-- Whatever the observer is told in the run is forgotten when it is over. -/
def Run.unheard (r : Run σ α) : Run σ α := fun s => ((r s).1,s)

def Calls.unheard (calls : Calls σ) : Calls σ where
  call atomic name input := (calls.call atomic name input).unheard
  within flag name input := (calls.within flag name input).unheard
  skip atomic input := (calls.skip atomic input).unheard

/-- What the body of a negative lookahead raises is forgotten, and so is what skipping raises. -/
def Handling.raising : Handling σ where
  lent node calls :=
    match node.body with
    | .lookahead _ true => calls.unheard
    | _ => calls
  aside := Run.unheard

theorem Handling.raising_negative {node : Node} {inner : String} (body : node.body = .lookahead inner true) (calls : Calls σ) :
    Handling.raising.lent node calls = calls.unheard := by simp only [raising,body]

theorem Handling.raising_other {node : Node} (other : ∀ inner, node.body ≠ .lookahead inner true) (calls : Calls σ) :
    Handling.raising.lent node calls = calls := by
  unfold raising
  dsimp only
  split
  · rename_i inner body
    exact (other inner body).elim
  · rfl

end Unheard

/-- The failures told while no mute is open, in order. -/
structure Hearing where
  /-- How many mutes are open. -/
  depth : Int
  failures : List Failure

namespace Hearing

instance : Observer Hearing where
  visit _ _ h := h
  fail f h := if h.depth ≤ 0 then { h with failures := h.failures ++ [f] } else h
  mute _ h := { h with depth := h.depth + 1 }
  unmute _ h := { h with depth := h.depth - 1 }

def steady : Course Hearing where
  leads s t := t.depth = s.depth ∧ (0 < s.depth → t.failures = s.failures)
  refl _ := ⟨rfl,fun _ => rfl⟩
  trans := by
    rintro s t u ⟨same,kept⟩ ⟨same',kept'⟩
    exact ⟨same'.trans same,fun muted => (kept' (same ▸ muted)).trans (kept muted)⟩
  visit _ _ _ := ⟨rfl,fun _ => rfl⟩
  hushed := by
    rintro why s t ⟨same,kept⟩
    have same : t.depth = s.depth + 1 := same
    refine ⟨?_,fun muted => kept (Int.lt_add_one_of_le (Int.le_of_lt muted))⟩
    show t.depth - 1 = s.depth
    omega

theorem steady_told (f : Failure) (s : Hearing) : steady.leads s (Observer.fail f s) := by
  show steady.leads s (if s.depth ≤ 0 then { s with failures := s.failures ++ [f] } else s)
  split
  · rename_i opened
    exact ⟨rfl,fun muted => absurd opened (Int.not_le.2 muted)⟩
  · exact steady.refl s

def beyond : Likeness Hearing Overheard :=
  ⟨fun h o => 0 ≤ h.depth ∧ (h.depth = 0 → h.failures = o.failures),Eq,Eq,fun _ => False,fun _ => False⟩

theorem beyond_told (f : Failure) {h : Hearing} {o : Overheard} (states : beyond.states h o) :
    beyond.states (Observer.fail f h) (Observer.fail f o) := by
  obtain ⟨nonneg,same⟩ := states
  show beyond.states (if h.depth ≤ 0 then { h with failures := h.failures ++ [f] } else h) ⟨o.failures ++ [f]⟩
  split
  · exact ⟨nonneg,fun opened => congrArg (· ++ [f]) (same opened)⟩
  · rename_i muted
    exact ⟨nonneg,fun opened => absurd (Int.le_of_eq opened) muted⟩

theorem unmute_eq {h t : Hearing} {why : Hush} (nonneg : 0 ≤ h.depth) (led : steady.leads (Observer.mute why h) t) :
    Observer.unmute why t = h := by
  obtain ⟨depth,kept⟩ := led
  have depth : t.depth = h.depth + 1 := depth
  have kept : t.failures = h.failures := kept (Int.lt_add_one_of_le nonneg)
  show (⟨t.depth - 1,t.failures⟩ : Hearing) = ⟨h.depth,h.failures⟩
  rw [depth,kept,Int.add_sub_cancel]

/-- What is heard of a muted run is what is kept of a forgotten one. -/
theorem hushed_unheard {α β : Type} {post : α → β → Prop} {r : Run Hearing α} {r' : Run Overheard β} {ok : α → Prop}
    {no : Failure → Hearing → Prop} (keeps : r.Keeps steady ok no) (alike : Run.Alike beyond post r r') (why : Hush) :
    Run.Alike beyond post (r.hushed why) r'.unheard := by
  intro h o states
  have muted : beyond.states (Observer.mute why h) o :=
    ⟨Int.le_add_one states.1,fun opened => absurd opened (Int.ne_of_gt (Int.lt_add_one_of_le states.1))⟩
  have back := unmute_eq states.1 (keeps (Observer.mute why h)).1
  have ended := alike _ _ muted
  unfold Run.hushed Run.unheard
  generalize r (Observer.mute why h) = e at back ended ⊢
  generalize r' o = e' at ended ⊢
  obtain ⟨out,t⟩ := e
  dsimp only at back ⊢
  rw [back]
  cases ended with
  | matched results _ => exact .matched results states
  | failed failures _ => exact .failed failures states
  | halted halts _ => exact .halted halts states
  | first excused => exact .first excused
  | second excused => exact .second excused

theorem calls_steady (table : NodeTable) (source : Source) (frames : Nat) (active : List Entry) (atomic : Bool) :
    (table.callsBy source {} frames active).Mannerly (steady.anywhere steady_told fun _ => trivial) (fun _ _ => True) atomic := by
  rw [NodeTable.callsBy_plain]
  exact NodeTable.calls_lead steady steady_told (fun _ => trivial) table source frames active atomic

/-- Nobody who overhears everything minds the mute. -/
theorem attempt_unheard {α : Type} (r : Run Overheard α) (why : Hush) : r.unheard.attempt.hushed why = r.attempt.unheard := by
  funext o
  unfold Run.hushed Run.attempt Run.unheard
  dsimp only
  generalize r o = e
  obtain ⟨out,t⟩ := e
  cases out <;> rfl

section Sites
variable {table : NodeTable} {source : Source} {frames : Nat} {active : List Entry} {atomic : Bool}

theorem negative_raising {node : Node} {inner : String} (body : node.body = .lookahead inner true)
    (alike : Calls.Alike beyond Eq (table.callsBy source {} frames active) (table.callsBy source .raising frames active) atomic atomic)
    (c : Cursor) : Run.Alike beyond (Likeness.Answers Eq) (node.step source (table.callsBy source {} frames active) atomic c)
      (node.step source (table.callsBy source .raising frames active).unheard atomic c) := by
  have called := (calls_steady table source frames active atomic).call inner c trivial
  have keeps : Run.Keeps steady _ _ (fun _ _ => True) := called.attempt
  have tried := hushed_unheard keeps (alike.call inner c c rfl).attempt .negation
  rw [← attempt_unheard] at tried
  unfold Node.step
  rw [body]
  exact tried.tried (fun f f' _ => .pure ⟨rfl,rfl⟩) fun x y _ h o states => .failed rfl (beyond_told _ states)

theorem skip_raising
    (alike : Calls.Alike beyond Eq (table.callsBy source {} frames active) (table.callsBy source .raising frames active) true true)
    (atomic : Bool) (c : Cursor) : Run.Alike beyond Eq
      (Skipping.skip source table.separators ((table.callsBy source {} frames active).within true) atomic c)
      (Skipping.skip source table.separators ((table.callsBy source .raising frames active).within true) atomic c).unheard := by
  have compared : (beyond.pairing Eq).Tallies source source := (Likeness.tallies_eq rfl).pairing source
  have keeps := Skipping.sweeps_mannerly ((calls_steady table source frames active true).within true) table.separators
    (c.ahead source + 2) (c := c) trivial
  have swept := Skipping.sweeps_paired compared (fun name (_ : name ∈ table.separators) {c c'} close => alike.within true name c c' close)
    (c.ahead source + 2) (rfl : c = c)
  unfold Skipping.skip
  split
  · exact .pure rfl
  · exact hushed_unheard keeps swept .separators

end Sites

theorem raising_matching (table : NodeTable) (source : Source) : NodeTable.Matching beyond {} .raising table source where
  failures := rfl
  halts _ := rfl
  told f {_ _} := beyond_told f
  visit _ _ {_ _} := id
  guarded := rfl
  around _ _ {_ _} := id
  step {node frames active atomic} _ alike c := by
    by_cases negative : ∃ inner, node.body = .lookahead inner true
    · obtain ⟨inner,body⟩ := negative
      rw [Handling.raising_negative body]
      exact negative_raising body alike c
    · rw [Handling.raising_other fun inner body => negative ⟨inner,body⟩]
      refine Node.step_alike_of_hushed (Likeness.tallies_eq rfl) ?_ alike (fun inner body => (negative ⟨inner,body⟩).elim) (fun _ => rfl)
        (fun t _ => Terminal.alike_eq rfl source node.label t) rfl
      rintro f _ h o rfl
      exact beyond_told f
  skip {frames active} alike atomic c := skip_raising alike atomic c

end Hearing

namespace Parser

variable (p : Parser Node) (source : Source) (rule : String) (full : Bool)

/-- The run, with all forgotten that is raised in a negative lookahead or in skipping. -/
def raising : Run Overheard (Cursor × Value) := fromStart (NodeTable.callsBy p.table source .raising p.frames []) source rule full

/-- The failures raised outside every negative lookahead and every skip of separators, in order. -/
def raised : List Failure := (p.raising source rule full ⟨[]⟩).2.failures

/-- The failures told while no mute is open, in order. -/
def told : List Failure := (p.run source rule full (⟨0,[]⟩ : Hearing)).2.failures

theorem run_steady : (p.run source rule full).Keeps Hearing.steady (fun _ => True) fun _ _ => True := by
  have calls := NodeTable.calls_lead Hearing.steady Hearing.steady_told (fun _ => trivial) p.table source p.frames [] false
  refine ((calls.call rule .start trivial).mono (fun _ => id) fun _ _ _ => trivial).bind fun x _ => ?_
  dsimp only
  split
  · exact .fail fun s => ⟨Hearing.steady_told _ s,trivial⟩
  · exact .pure trivial

theorem run_beyond : Run.Alike Hearing.beyond Eq (p.run source rule full) (p.raising source rule full) := by
  have calls := (Hearing.raising_matching p.table source).calls p.frames [] false
  rw [NodeTable.callsBy_plain] at calls
  refine (calls.call rule .start .start rfl).answer fun d d' v same => ?_
  cases same
  dsimp only
  split
  · exact fun h o states => .failed rfl (Hearing.beyond_told _ states)
  · exact .pure rfl

/-- What is told while no mute is open is what is raised outside every negative lookahead and every skip, and
to forget the rest does not change how the run ends. -/
theorem told_eq_raised : p.told source rule full = p.raised source rule full ∧
    (p.run source rule full (⟨0,[]⟩ : Hearing)).1 = (p.raising source rule full ⟨[]⟩).1 := by
  obtain ⟨outcome,_,same⟩ := (p.run_beyond source rule full ⟨0,[]⟩ ⟨[]⟩ ⟨Int.le_refl 0,fun _ => rfl⟩).agree rfl rfl
    (fun _ => id) fun _ => id
  exact ⟨same (p.run_steady source rule full ⟨0,[]⟩).1.1,outcome⟩

end Parser

end TypedPeg
