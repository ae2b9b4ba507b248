import TypedPeg.Proofs.Match.Sealing
import TypedPeg.Proofs.Match.Settled

/-! What a call yields, in whatever midst it is made: its outcome, unless it halts. That is one outcome, wherever the
cursor is; and what a node yields is made of what the nodes it refers to yield. -/
namespace TypedPeg

namespace Outcome

variable {α β : Type}

/-- It was not given up. -/
def Ended (o : Outcome α) : Prop := ∀ h, o ≠ .halted h

theorem ended_matched {a : α} : (Outcome.matched a).Ended := fun _ same => nomatch same

theorem ended_failed {f : Failure} : (Outcome.failed f : Outcome α).Ended := fun _ same => nomatch same

def map (f : α → β) : Outcome α → Outcome β
  | .matched a => .matched (f a)
  | .failed failure => .failed failure
  | .halted h => .halted h

end Outcome

namespace Run

variable {σ α β : Type} {r : Run σ α} {s : σ} {o : Outcome β}

theorem bind_ended {next : α → Run σ β} (came : ((r >>= next) s).1 = o) (ended : o.Ended) :
    (∃ f, (r s).1 = .failed f ∧ o = .failed f) ∨ ∃ a t, r s = (.matched a,t) ∧ (next a t).1 = o := by
  rw [bind_apply] at came
  cases ran : r s with
  | mk out t =>
    rw [ran] at came
    cases out with
    | matched a => exact .inr ⟨a,t,rfl,came⟩
    | failed f => exact .inl ⟨f,rfl,came.symm⟩
    | halted h => exact (ended h came.symm).elim

theorem bind_pure_ended {g : α → β} (came : ((r >>= fun a => Pure.pure (g a)) s).1 = o) (ended : o.Ended) :
    (r s).1.Ended ∧ o = (r s).1.map g := by
  rcases bind_ended came ended with ⟨f,failed,rfl⟩ | ⟨a,t,ran,same⟩
  · rw [failed]
    exact ⟨Outcome.ended_failed,rfl⟩
  · rw [ran]
    exact ⟨Outcome.ended_matched,same.symm⟩

theorem tried_ended {next : Except Failure α → Run σ β} (came : ((r.attempt >>= next) s).1 = o) (ended : o.Ended) :
    (∃ f t, r s = (.failed f,t) ∧ (next (.error f) t).1 = o) ∨ ∃ a t, r s = (.matched a,t) ∧ (next (.ok a) t).1 = o := by
  rw [bind_apply,attempt] at came
  cases ran : r s with
  | mk out t =>
    rw [ran] at came
    cases out with
    | matched a => exact .inr ⟨a,t,rfl,came⟩
    | failed f => exact .inl ⟨f,t,rfl,came⟩
    | halted h => exact (ended h came.symm).elim

end Run

namespace NodeTable

variable {σ τ : Type} [Observer σ] [Observer τ] {table : NodeTable} {source : Source}

section Settled

/-- Runs beside runs with more frames and fewer calls in progress, from any cursor. -/
theorem anywhere_agree (table : NodeTable) (source : Source) :
    Regimes.Agree (⟨settling σ τ,Eq,true,true,(· ≤ ·),fun active active' => active' ⊆ active⟩ : Regimes σ τ) table source where
  fits := Likeness.fits_eq ⟨fun _ _ => trivial,fun _ => trivial,fun _ => trivial⟩ rfl
  halts _ := rfl
  terminal _ _ t _ := Terminal.alike_eq rfl source _ t
  visit _ _ _ := trivial
  push _ fewer := List.cons_subset_cons _ fewer
  descend le := Nat.sub_le_sub_right le 1
  shallow _ := .inr trivial
  shallow' le := .inl (Nat.le_zero.1 le)
  refused _ _ _ := .inr trivial
  refused' := by
    rintro active active' name c _ fewer rfl isIn
    rw [Bool.true_and,Entry.isIn_iff] at isIn
    exact .inl (Entry.isIn_iff.2 (fewer isIn))

omit [Observer σ] [Observer τ] in
theorem outcome_of_alike {α : Type} {r : Run σ α} {r' : Run τ α} (alike : Run.Alike (settling σ τ) Eq r r') {s : σ} {o : Outcome α}
    (came : (r s).1 = o) (ended : o.Ended) (t : τ) : (r' t).1 = o := by
  have both := alike s t trivial
  generalize r s = e at both came
  generalize r' t = e' at both ⊢
  subst came
  cases both with
  | matched results states => rw [results]
  | failed failures states => exact congrArg Outcome.failed failures.symm
  | halted halts states => exact (ended _ rfl).elim
  | first excused => exact (ended _ rfl).elim
  | second excused => exact excused.elim

end Settled

/-- The node of that name has that body. -/
def Bears (table : NodeTable) (name : String) (body : Body) : Prop := ∃ label, table.get? name = some ⟨name,label,body⟩

/-- Somewhere the call comes to that outcome. -/
def Yields (table : NodeTable) (source : Source) (atomic : Bool) (name : String) (c : Cursor) (o : Outcome (Cursor × Value)) : Prop :=
  o.Ended ∧ ∃ frames active, ∃ s : Tracker, ((table.calls source frames active).call atomic name c s).1 = o

/-- Somewhere the separators, if they may stand there, are skipped to that cursor. -/
def Passes (table : NodeTable) (source : Source) (allowed atomic : Bool) (c d : Cursor) : Prop :=
  ∃ frames active, ∃ s : Tracker, ((table.calls source frames active).gap allowed atomic c s).1 = .matched d

variable {atomic allowed : Bool} {name : String} {c d : Cursor} {v : Value} {o o' : Outcome (Cursor × Value)}

namespace Yields

theorem settles (yields : table.Yields source atomic name c o) : ∃ frames, ∀ more ≥ frames, ∀ s : σ,
    ((table.calls source more []).call atomic name c s).1 = o := by
  obtain ⟨ended,frames,active,t,came⟩ := yields
  refine ⟨frames,fun more le s => ?_⟩
  rw [← callsIf_true] at came ⊢
  have alike := (anywhere_agree (σ := Tracker) (τ := σ) table source).call le (List.nil_subset active) (.inl (rfl : atomic = atomic)) name
    (rfl : c = c)
  exact outcome_of_alike (alike.mono fun _ _ => Answers.eq) came ended s

theorem unique (yields : table.Yields source atomic name c o) (yields' : table.Yields source atomic name c o') : o = o' := by
  obtain ⟨n,settled⟩ := yields.settles (σ := Unit)
  obtain ⟨n',settled'⟩ := yields'.settles (σ := Unit)
  have first := settled (max n n') (Nat.le_max_left _ _) ()
  have second := settled' (max n n') (Nat.le_max_right _ _) ()
  exact first.symm.trans second

theorem nears (yields : table.Yields source atomic name c (.matched (d,v))) : c.Nears source d := by
  obtain ⟨-,frames,active,s,came⟩ := yields
  exact ((table.calls_nearing source frames active atomic).of_call trivial came).2.1

theorem span (yields : table.Yields source atomic name c (.matched (d,v))) : v.span = c.spanTo d := by
  obtain ⟨-,frames,active,s,came⟩ := yields
  exact ((table.calls_spanning source frames active atomic).of_call trivial came).2.2

end Yields

namespace Passes

theorem unique {d' : Cursor} (passes : table.Passes source allowed atomic c d)
    (passes' : table.Passes source allowed atomic c d') : d = d' := by
  obtain ⟨n,active,s,came⟩ := passes
  obtain ⟨n',active',s',came'⟩ := passes'
  have settled {n : Nat} {active : List Entry} {s : Tracker} {d : Cursor} {more : Nat} (le : n ≤ more)
      (came : ((table.calls source n active).gap allowed atomic c s).1 = .matched d) :
      ((table.calls source more []).gap allowed atomic c ()).1 = .matched d := by
    have agree := (anywhere_agree (σ := Tracker) (τ := Unit) table source).calls le (List.nil_subset active) (.inl (rfl : atomic = atomic))
    have alike := Calls.Paired.gap agree.paired allowed (rfl : c = c)
    rw [← callsIf_true] at came ⊢
    exact outcome_of_alike alike came Outcome.ended_matched ()
  have first := settled (Nat.le_max_left n n') came
  have second := settled (Nat.le_max_right n n') came'
  exact Outcome.matched.inj (first.symm.trans second)

theorem nears (passes : table.Passes source allowed atomic c d) : c.Nears source d := by
  obtain ⟨frames,active,s,came⟩ := passes
  exact (table.calls_nearing source frames active atomic).of_gap trivial came

theorem eq_of_nil (passes : table.Passes source allowed atomic c d) (none : table.separators = []) : d = c := by
  obtain ⟨frames,active,s,came⟩ := passes
  cases allowed with
  | false =>
    cases came
    rfl
  | true => exact skip_of_nil none came

end Passes

theorem yields_of_ended {frames : Nat} {active : List Entry} {s : σ}
    (came : ((table.calls source frames active).call atomic name c s).1 = o)
    (ended : o.Ended) : table.Yields source atomic name c o := by
  refine ⟨ended,frames,active,.new false,?_⟩
  rw [← callsIf_true] at came ⊢
  have alike := (anywhere_agree (σ := σ) (τ := Tracker) table source).call (Nat.le_refl frames) (List.Subset.refl active)
    (.inl (rfl : atomic = atomic)) name (rfl : c = c)
  exact outcome_of_alike (alike.mono fun _ _ => Answers.eq) came ended _

/-- A call that comes to an end once comes to no other end anywhere. -/
theorem finds_of_comes {frames : Nat} {active : List Entry} {o : Option Cursor}
    (comes : ((table.calls source frames active : Calls Tracker).call atomic name c).Comes o) (frames' : Nat) (active' : List Entry) :
    ((table.calls source frames' active' : Calls σ).call atomic name c).Finds (fun _ => True) (o = ·) := by
  intro s
  have end' := comes (.new false)
  generalize came' : ((table.calls source frames active).call atomic name c (Tracker.new false)).1 = o' at end'
  have unique {p : Outcome (Cursor × Value)} (came : ((table.calls source frames' active').call atomic name c s).1 = p)
      (ended : p.Ended) : p = o' := by
    refine (yields_of_ended came ended).unique (yields_of_ended came' ?_)
    rintro h rfl
    exact end'
  generalize came : ((table.calls source frames' active').call atomic name c s).1 = p
  cases p with
  | halted h => exact trivial
  | matched x =>
    obtain rfl := unique came Outcome.ended_matched
    exact end'
  | failed f =>
    obtain rfl := unique came Outcome.ended_failed
    exact end'

section Frames
variable {frames : Nat} {active : List Entry} {s t : Tracker} {x : Cursor × Value}

theorem yields_of_matched (ran : (table.calls source frames active).call atomic name c s = (.matched x,t)) :
    table.Yields source atomic name c (.matched x) :=
  ⟨Outcome.ended_matched,frames,active,s,congrArg Prod.fst ran⟩

theorem yields_of_failed {f : Failure} (ran : (table.calls source frames active).call atomic name c s = (.failed f,t)) :
    table.Yields source atomic name c (.failed f) :=
  ⟨Outcome.ended_failed,frames,active,s,congrArg Prod.fst ran⟩

theorem passes_of_bind {α : Type} {next : Cursor → Run Tracker α} {o : Outcome α} (ended : o.Ended)
    (came : (((table.calls source frames active).gap allowed atomic c >>= next) s).1 = o) :
    ∃ d t, table.Passes source allowed atomic c d ∧ (next d t).1 = o := by
  rcases Run.bind_ended came ended with ⟨f,failed,-⟩ | ⟨d,t,ran,came⟩
  · exact ((table.calls_nearing source frames active atomic).gap_ne_failed trivial failed).elim
  · exact ⟨d,t,⟨frames,active,s,congrArg Prod.fst ran⟩,came⟩

end Frames

/-- What the elements of a sequence yield one after another, with what is passed before each but the first. -/
inductive Elements (table : NodeTable) (source : Source) (skip atomic : Bool) :
    Bool → List String → Cursor → Outcome (Cursor × List Value) → Prop
  | nil {first c} : Elements table source skip atomic first [] c (.matched (c,[]))
  | lost {first name names c d f} (gap : table.Passes source (skip && !first) atomic c d)
      (one : table.Yields source atomic name d (.failed f)) : Elements table source skip atomic first (name :: names) c (.failed f)
  | cons {first name names c d e v o} (gap : table.Passes source (skip && !first) atomic c d)
      (one : table.Yields source atomic name d (.matched (e,v))) (rest : Elements table source skip atomic false names e o) :
      Elements table source skip atomic first (name :: names) c (o.map fun x => (x.1,v :: x.2))

theorem elements_of_run {skip : Bool} {names : List String} {frames : Nat} {active : List Entry} {s : Tracker}
    {o : Outcome (Cursor × List Value)} (ended : o.Ended)
      (came : (Node.elements (table.calls source frames active) skip atomic names c s).1 = o) :
    table.Elements source skip atomic false names c o := by
  induction names generalizing c s o with
  | nil =>
    cases came
    exact .nil
  | cons name names ih =>
    obtain ⟨d,s,gap,came⟩ := passes_of_bind ended came
    have gap : table.Passes source (skip && !false) atomic c d := by rwa [Bool.not_false,Bool.and_true]
    rcases Run.bind_ended came ended with ⟨f,failed,rfl⟩ | ⟨⟨e,v⟩,t,ran,came⟩
    · exact .lost gap ⟨Outcome.ended_failed,frames,active,s,failed⟩
    · obtain ⟨rest,rfl⟩ := Run.bind_pure_ended (g := fun x : Cursor × List Value => (x.1,v :: x.2)) came ended
      exact .cons gap (yields_of_matched ran) (ih rest rfl)

theorem passes_self : table.Passes source false atomic c c := ⟨0,[],.new false,rfl⟩

theorem sequence_of_run {skip : Bool} {names : List String} {frames : Nat} {active : List Entry} {s : Tracker}
    {o : Outcome (Cursor × List Value)} (ended : o.Ended)
      (came : (Node.sequence (table.calls source frames active) skip atomic names c s).1 = o) :
    table.Elements source skip atomic true names c o := by
  cases names with
  | nil =>
    cases came
    exact .nil
  | cons name names =>
    have gap : table.Passes source (skip && !true) atomic c c := by
      rw [Bool.not_true,Bool.and_false]
      exact passes_self
    rcases Run.bind_ended came ended with ⟨f,failed,rfl⟩ | ⟨⟨e,v⟩,t,ran,came⟩
    · exact .lost gap ⟨Outcome.ended_failed,frames,active,s,failed⟩
    · obtain ⟨rest,rfl⟩ := Run.bind_pure_ended (g := fun x : Cursor × List Value => (x.1,v :: x.2)) came ended
      exact .cons gap (yields_of_matched ran) (elements_of_run rest rfl)

/-- How a repetition goes on from a cursor: to where, and with what items. Nothing is passed before the first. -/
inductive Iterates (table : NodeTable) (source : Source) (skip atomic : Bool) (inner : String) :
    Bool → Cursor → Cursor → List Value → Prop
  | stop {first c d o} (gap : table.Passes source (skip && !first) atomic c d) (tried : table.Yields source atomic inner d o)
      (still : ∀ e v, o = .matched (e,v) → e.pos = d.pos) : Iterates table source skip atomic inner first c c []
  | more {first c d e v r vs} (gap : table.Passes source (skip && !first) atomic c d)
    (one : table.Yields source atomic inner d (.matched (e,v)))
      (moved : e.pos ≠ d.pos) (rest : Iterates table source skip atomic inner false e r vs) :
      Iterates table source skip atomic inner first c r (v :: vs)

theorem iterates_of_run {skip : Bool} {inner : String} {rounds frames : Nat} {active : List Entry} {s : Tracker} {items : List Value}
    {o : Outcome (Cursor × List Value)} (enough : c.ahead source < rounds) (ended : o.Ended)
    (came : (Node.repetition (table.calls source frames active) skip atomic inner rounds c items s).1 = o) :
    ∃ r vs, table.Iterates source skip atomic inner items.isEmpty c r vs ∧ o = .matched (r,vs.reverse ++ items) := by
  -- an item leaves less of the text ahead, so there is a round for the attempt after the last
  induction rounds generalizing c s items with
  | zero => exact (Nat.not_lt_zero _ enough).elim
  | succ rounds ih =>
    obtain ⟨d,s,gap,came⟩ := passes_of_bind ended came
    rcases Run.tried_ended came ended with ⟨f,t,failed,came⟩ | ⟨⟨e,v⟩,t,ran,came⟩
    · exact ⟨c,[],.stop gap (yields_of_failed failed) nofun,came.symm⟩
    · have one := yields_of_matched ran
      dsimp only at came
      split at came
      · rename_i still
        refine ⟨c,[],.stop gap one ?_,came.symm⟩
        rintro _ _ ⟨⟩
        exact still
      · rename_i moved
        have less := Nat.lt_of_lt_of_le (one.nears.ahead_lt moved) gap.nears.ahead_le
        obtain ⟨r,vs,rest,same⟩ := ih (Nat.lt_of_lt_of_le less (Nat.lt_succ_iff.1 enough)) came
        exact ⟨r,v :: vs,.more gap one moved rest,by simpa using same⟩

section Bodies
variable {node : Node} {inner : String}

theorem Yields.step (yields : table.Yields source atomic name c o) (found : table.get? name = some node) :
    ∃ frames active, ∃ s : Tracker, (node.step source (table.calls source frames active) atomic c s).1 = o := by
  obtain ⟨ended,frames,active,s,came⟩ := yields
  rw [← callsIf_true] at came
  rcases callsIf_cases true found frames active atomic c (σ := Tracker) with ⟨h,-,halted⟩ | ⟨left,-,worked⟩
  · rw [halted] at came
    exact (ended h came.symm).elim
  · rw [worked,callsIf_true] at came
    exact ⟨left,_,_,came⟩

theorem Yields.terminal {t : Terminal} (yields : table.Yields source atomic name c o) (found : table.get? name = some node)
    (body : node.body = .terminal t) : (∃ f, t.move source node.label c = .error f ∧ o = .failed f) ∨
      ∃ d, t.move source node.label c = .ok d ∧ o = .matched (d,t.leaf source name c d) := by
  obtain ⟨frames,active,s,came⟩ := yields.step found
  obtain rfl := name_of_get? found
  simp only [Node.step,body] at came
  cases moved : t.move source node.label c with
  | error f =>
    rw [moved] at came
    exact .inl ⟨f,rfl,came.symm⟩
  | ok d =>
    rw [moved] at came
    exact .inr ⟨d,rfl,came.symm⟩

theorem Yields.push (yields : table.Yields source atomic name c o) (found : table.get? name = some node) (body : node.body = .push inner) :
    (∃ f, table.Yields source atomic inner c (.failed f) ∧ o = .failed f) ∨
      ∃ d v, table.Yields source atomic inner c (.matched (d,v)) ∧ o = .matched (d.push (c.spanTo d),v) := by
  obtain ⟨frames,active,s,came⟩ := yields.step found
  simp only [Node.step,body] at came
  rcases Run.bind_ended came yields.1 with ⟨f,ran,same⟩ | ⟨x,t,ran,came⟩
  · exact .inl ⟨f,⟨Outcome.ended_failed,frames,active,s,ran⟩,same⟩
  · exact .inr ⟨x.1,x.2,yields_of_matched ran,came.symm⟩

theorem Yields.product {fields names : List String} {skip : Bool} (yields : table.Yields source atomic name c o)
    (found : table.get? name = some node) (body : node.body = .product fields names skip) :
    ∃ o', table.Elements source skip atomic true fields c o' ∧ o = o'.map fun x => (x.1,.product name (c.spanTo x.1) x.2 names) := by
  obtain ⟨frames,active,s,came⟩ := yields.step found
  obtain rfl := name_of_get? found
  simp only [Node.step,body] at came
  obtain ⟨ended,same⟩ := Run.bind_pure_ended came yields.1
  exact ⟨_,sequence_of_run ended rfl,same⟩

theorem Yields.optional (yields : table.Yields source atomic name c o) (found : table.get? name = some node)
    (body : node.body = .optional inner) :
    (∃ f, table.Yields source atomic inner c (.failed f) ∧ o = .matched (c,.absent name (c.spanTo c))) ∨
      ∃ d v, table.Yields source atomic inner c (.matched (d,v)) ∧ o = .matched (d,.present name (c.spanTo d) v) := by
  obtain ⟨frames,active,s,came⟩ := yields.step found
  obtain rfl := name_of_get? found
  simp only [Node.step,body] at came
  rcases Run.tried_ended came yields.1 with ⟨f,t,ran,came⟩ | ⟨x,t,ran,came⟩
  · exact .inl ⟨f,yields_of_failed ran,came.symm⟩
  · exact .inr ⟨x.1,x.2,yields_of_matched ran,came.symm⟩

theorem Yields.list {skip : Bool} (yields : table.Yields source atomic name c o) (found : table.get? name = some node)
    (body : node.body = .list inner skip) :
    ∃ r vs, table.Iterates source skip atomic inner true c r vs ∧ o = .matched (r,.many name (c.spanTo r) vs) := by
  obtain ⟨frames,active,s,came⟩ := yields.step found
  obtain rfl := name_of_get? found
  simp only [Node.step,body] at came
  obtain ⟨ended,same⟩ := Run.bind_pure_ended came yields.1
  obtain ⟨r,vs,iterates,ran⟩ := iterates_of_run (by omega) ended rfl
  rw [ran] at same
  exact ⟨r,vs,iterates,by simpa [Outcome.map] using same⟩

end Bodies

end NodeTable

end TypedPeg
