import TypedPeg.Proofs.Match.Settled

/-! Skipping separators beside the repetition of an ordered choice of them. Skipping tries the
separators in turn and goes on as long as one of them moves; the repetition tries the second
only where the first fails, and ends with a match that does not move. The two may part where
both separators match, and nowhere else. -/
namespace TypedPeg

namespace NodeTable

/-- A table with both separators, and with a repetition of their ordered choice. -/
structure Starred (table : NodeTable) (star either : String) : Prop where
  whitespace : "WHITESPACE" ∈ table.names
  comment : "COMMENT" ∈ table.names
  list : (table.get? star).map Node.body = some (.list either false)
  sum : (table.get? either).map Node.body = some (.sum ["WHITESPACE","COMMENT"])

variable {table : NodeTable} {source : Source} {star either name : String} {c d r : Cursor}

theorem Starred.separators (starred : table.Starred star either) : table.separators = ["WHITESPACE","COMMENT"] := by
  have whitespace := Table.contains_iff.2 starred.whitespace
  have comment := Table.contains_iff.2 starred.comment
  simp only [Table.separators,Table.separatorNames,List.filter_cons,whitespace,comment,if_true,List.filter_nil]

def Moves (table : NodeTable) (source : Source) (name : String) (c d : Cursor) : Prop :=
  table.Tries source name c (some d) ∧ c.pos < d.pos

/-- A failure, or a match that does not move. -/
def Stays (table : NodeTable) (source : Source) (name : String) (c : Cursor) : Prop :=
  ∃ o, table.Tries source name c o ∧ ∀ d, o = some d → ¬c.pos < d.pos

theorem Moves.unique {d' : Cursor} (moves : table.Moves source name c d) (tries : table.Tries source name c (some d'))
    (inside : c.From source 0) : d = d' := Option.some.inj (moves.1.unique tries inside)

theorem Moves.inside (moves : table.Moves source name c d) (inside : c.From source 0) : d.From source 0 :=
  inside.trans (moves.1.from inside)

theorem Stays.not_moves (stays : table.Stays source name c) (inside : c.From source 0) : ¬table.Moves source name c d := by
  intro moves
  obtain ⟨o,tries,still⟩ := stays
  exact still d (tries.unique moves.1 inside) moves.2

section Skipping

def Past (table : NodeTable) (source : Source) (name : String) (c d : Cursor) : Prop :=
  table.Moves source name c d ∨ d = c ∧ table.Stays source name c

theorem Past.inside (past : table.Past source name c d) (inside : c.From source 0) : d.From source 0 := by
  rcases past with moves | ⟨same,_⟩
  · exact moves.inside inside
  · rwa [same]

private theorem sweep_cases {frames : Nat} {rest : List String} (inside : c.From source 0)
    (swept : Skipping.sweep ((table.calls source frames [] : Calls Unit).within true) (name :: rest) c () = (.matched r,())) :
    ∃ d, table.Past source name c d ∧
      Skipping.sweep ((table.calls source frames [] : Calls Unit).within true) rest d () = (.matched r,()) := by
  have within : (table.calls source frames [] : Calls Unit).within true name c =
      (table.calls source (frames - 1) []).call true name c := by
    rw [← callsIf_true,callsIf_within,callsIf_true]
  have tries {o : Option Cursor} (ended : ((table.calls source (frames - 1) [] : Calls Unit).call true name c ()).1.shown = some o) :
      table.Tries source name c o := tries_of_call inside ended
  rw [Skipping.sweep,within,Run.bind_apply,Run.attempt] at swept
  generalize (table.calls source (frames - 1) [] : Calls Unit).call true name c () = e at swept tries
  obtain ⟨out,⟨⟩⟩ := e
  cases out with
  | halted h => cases swept
  | failed f =>
    refine ⟨c,.inr ⟨rfl,none,tries rfl,?_⟩,swept⟩
    intro d same
    cases same
  | matched got =>
    obtain ⟨after,value⟩ := got
    by_cases further : c.pos < after.pos
    · refine ⟨after,.inl ⟨tries rfl,further⟩,?_⟩
      simpa only [if_pos further] using swept
    · refine ⟨c,.inr ⟨rfl,some after,tries rfl,?_⟩,?_⟩
      · intro d same
        cases same
        exact further
      · simpa only [if_neg further] using swept

/-- Skipping ends where neither separator moves, or goes on from behind the two. -/
theorem skips_cases (starred : table.Starred star either) (inside : c.From source 0) (skips : table.Skips source c r) :
    ∃ d e, table.Past source "WHITESPACE" c d ∧ table.Past source "COMMENT" d e ∧
      (e = c ∧ r = c ∨ c.pos < e.pos ∧ table.Skips source e r) := by
  obtain ⟨frames,settled⟩ := skips.settles (σ := Unit) inside
  have ended := settled (frames + 1) (by omega) ()
  have skip (c : Cursor) : ((table.calls source (frames + 1) [] : Calls Unit).skip false c ()).1 =
      (Skipping.sweeps ((table.calls source frames [] : Calls Unit).within true) ["WHITESPACE","COMMENT"]
        (c.ahead source + 2) c ()).1 := by
    rw [← callsIf_true,callsIf_skip,callsIf_true,Skipping.skip,starred.separators]
    rfl
  rw [skip,Skipping.sweeps,Run.bind_apply] at ended
  cases swept : Skipping.sweep ((table.calls source frames [] : Calls Unit).within true) ["WHITESPACE","COMMENT"] c () with
  | mk out t =>
    rw [swept] at ended
    cases out with
    | failed f => cases ended
    | halted h => cases ended
    | matched e =>
      obtain ⟨d,white,rest⟩ := sweep_cases inside swept
      obtain ⟨e',comment,nothing⟩ := sweep_cases (white.inside inside) rest
      cases nothing
      refine ⟨d,e,white,comment,?_⟩
      dsimp only at ended
      by_cases further : c.pos < e.pos
      · right
        rw [if_pos further] at ended
        have onward : (table.calls source frames [] : Calls Unit).Onward source true := onward nested_nil frames true
        have moved := Skipping.sweep_onward onward.within _ inside swept
        have less := Cursor.ahead_lt moved further
        have rounds : Skipping.sweeps ((table.calls source frames [] : Calls Unit).within true) ["WHITESPACE","COMMENT"]
            (c.ahead source + 1) e = Skipping.sweeps ((table.calls source frames []).within true) ["WHITESPACE","COMMENT"]
              (e.ahead source + 2) e := Skipping.sweeps_rounds onward.within _ (inside.trans moved) (by omega) (by omega)
        have goesOn : ((table.calls source (frames + 1) [] : Calls Unit).skip false e ()).1 = .matched r := by
          rw [skip,← ended,rounds]
        exact ⟨further,skips_of_skip (comment.inside (white.inside inside)) goesOn⟩
      · rw [if_neg further] at ended
        left
        have same : e = c := by
          rcases white with moved | ⟨rfl,_⟩
          · rcases comment with moved' | ⟨rfl,_⟩
            · exact (further (Int.lt_trans moved.2 moved'.2)).elim
            · exact (further moved.2).elim
          · rcases comment with moved' | ⟨rfl,_⟩
            · exact (further moved'.2).elim
            · rfl
        cases ended
        exact ⟨same,same⟩

end Skipping

section Repetition

/-- Where the repetition of a node ends, from its first item or in its midst. -/
def Repeats (table : NodeTable) (source : Source) (either : String) (c r : Cursor) : Prop :=
  ∃ frames rounds items, c.ahead source < rounds ∧
    (Node.repetition (table.calls source frames [] : Calls Unit) false true either rounds c items ()).1.shown = some (some r)

private theorem repetition_succ {σ : Type} {calls : Calls σ} {atomic : Bool} (rounds : Nat) (items : List Value) :
    Node.repetition calls false atomic either (rounds + 1) c items = (do
      match ← (calls.call atomic either c).attempt with
      | .error _ => return (c,items)
      | .ok (after,value) =>
        if after.pos = c.pos then return (c,items)
        else Node.repetition calls false atomic either rounds after (value :: items)) := rfl

private theorem shown_bind {σ α β : Type} {run : Run σ (Cursor × α)} {next : Cursor × α → Run σ (Cursor × β)}
    (keeps : ∀ x s, ((next x) s).1.shown = some (some x.1)) (s : σ) : ((run >>= next) s).1.shown = (run s).1.shown := by
  rw [Run.bind_apply]
  cases run s with
  | mk out t =>
    cases out with
    | matched x => exact keeps x t
    | failed f => rfl
    | halted h => rfl

private theorem call_spent {σ : Type} [Observer σ] {node : Node} (found : table.get? name = some node) {active : List Entry}
    (fresh : (⟨c.pos,name⟩ : Entry) ∉ active) (atomic : Bool) :
    ((table.calls source 1 active).call atomic name c : Run σ _) = .halt .tooDeep := by
  rw [← callsIf_true,callsIf_spent true found (Entry.isIn_eq_false fresh)]

private theorem call_shown {σ : Type} [Observer σ] {node : Node} (found : table.get? name = some node) {active : List Entry}
    (fresh : (⟨c.pos,name⟩ : Entry) ∉ active) (frames : Nat) (atomic : Bool) (s : σ) :
    (table.calls source (frames + 2) active).call atomic name c s =
      node.step source (table.calls source frames (⟨c.pos,name⟩ :: active)) atomic c (Observer.visit (⟨c.pos,name⟩ :: active) c s) := by
  rw [← callsIf_true,← callsIf_true,callsIf_call true found (Entry.isIn_eq_false fresh)]
  rfl

private theorem alternatives_shown {σ : Type} [Observer σ] {calls : Calls σ} {atomic : Bool} {label : String} {rest : List String}
    {index : Int} {far : Furthest} {s : σ} {o : Option Cursor}
    (ended : (Node.alternatives calls atomic label c (name :: rest) index far s).1.shown = some o) :
    (∃ d, o = some d ∧ (calls.call atomic name c s).1.shown = some (some d)) ∨
      (calls.call atomic name c s).1.shown = some none ∧
        ∃ index' far' s', (Node.alternatives calls atomic label c rest index' far' s').1.shown = some o := by
  rw [Node.alternatives,Run.bind_apply,Run.attempt] at ended
  generalize calls.call atomic name c s = e at ended
  obtain ⟨out,t⟩ := e
  cases out with
  | halted h => cases ended
  | failed f => exact .inr ⟨rfl,_,_,_,ended⟩
  | matched got =>
    obtain ⟨after,value⟩ := got
    cases ended
    exact .inl ⟨after,rfl,rfl⟩

theorem either_cases (starred : table.Starred star either) (inside : c.From source 0) {o : Option Cursor}
    (tries : table.Tries source either c o) :
    (∃ d, o = some d ∧ table.Tries source "WHITESPACE" c (some d)) ∨
      table.Tries source "WHITESPACE" c none ∧ table.Tries source "COMMENT" c o := by
  obtain ⟨node,found,body⟩ := Option.map_eq_some_iff.1 starred.sum
  obtain ⟨frames,settled⟩ := tries.settles (σ := Unit) inside
  have ended := settled (frames + 2) (by omega) ()
  rw [call_shown found (List.not_mem_nil) frames true,Node.step,body] at ended
  dsimp only at ended
  rw [shown_bind (fun _ _ => rfl)] at ended
  rcases alternatives_shown ended with ⟨d,same,white⟩ | ⟨white,_,_,_,ended⟩
  · exact .inl ⟨d,same,tries_of_call inside white⟩
  · refine .inr ⟨tries_of_call inside white,?_⟩
    rcases alternatives_shown ended with ⟨d,rfl,comment⟩ | ⟨comment,_,_,_,ended⟩
    · exact tries_of_call inside comment
    · cases ended
      exact tries_of_call inside comment

/-- A repetition ends where its item does not move, or goes on from behind it. -/
theorem repeats_cases (inside : c.From source 0) (repeats : table.Repeats source either c r) :
    ∃ o, table.Tries source either c o ∧
      (r = c ∧ (∀ d, o = some d → ¬c.pos < d.pos) ∨ ∃ d, o = some d ∧ c.pos < d.pos ∧ table.Repeats source either d r) := by
  obtain ⟨frames,rounds,items,enough,ended⟩ := repeats
  cases rounds with
  | zero => omega
  | succ rounds =>
    have onward : (table.calls source frames [] : Calls Unit).Onward source true := onward nested_nil frames true
    have tries {o : Option Cursor} (ended : ((table.calls source frames [] : Calls Unit).call true either c ()).1.shown = some o) :
        table.Tries source either c o := tries_of_call inside ended
    rw [repetition_succ,Run.bind_apply,Run.attempt] at ended
    cases called : (table.calls source frames [] : Calls Unit).call true either c () with
    | mk out t =>
      rw [called] at ended tries
      cases out with
      | halted h => cases ended
      | failed f =>
        cases ended
        exact ⟨none,tries rfl,.inl ⟨rfl,nofun⟩⟩
      | matched got =>
        obtain ⟨d,value⟩ := got
        have moved := onward.call inside called
        refine ⟨some d,tries rfl,?_⟩
        dsimp only at ended
        by_cases still : d.pos = c.pos
        · rw [if_pos still] at ended
          cases ended
          left
          refine ⟨rfl,?_⟩
          intro d' same
          cases same
          omega
        · rw [if_neg still] at ended
          have further : c.pos < d.pos := by
            have := moved.1
            omega
          have less := Cursor.ahead_lt moved further
          exact .inr ⟨d,rfl,further,frames,rounds,value :: items,by omega,ended⟩

/-- The items already there make no difference to where a repetition without separators ends. -/
private theorem repetition_items {σ : Type} {calls : Calls σ} {atomic : Bool} (rounds : Nat) (items items' : List Value) (s : σ) :
    (Node.repetition calls false atomic either rounds c items s).1.shown =
      (Node.repetition calls false atomic either rounds c items' s).1.shown := by
  induction rounds generalizing c items items' s with
  | zero => rfl
  | succ rounds ih =>
    rw [repetition_succ,repetition_succ,Run.bind_apply,Run.bind_apply,Run.attempt]
    generalize calls.call atomic either c s = e
    obtain ⟨out,t⟩ := e
    cases out with
    | halted h => rfl
    | failed f => rfl
    | matched got =>
      obtain ⟨d,value⟩ := got
      dsimp only
      split
      · rfl
      · exact ih (value :: items) (value :: items') t

private theorem either_refused {σ : Type} [Observer σ] (starred : table.Starred star either) {active : List Entry}
    (busy : (⟨c.pos,either⟩ : Entry) ∈ active) (source : Source) (frames : Nat) (atomic : Bool) (s : σ) :
    ∃ h t, (table.callsIf source true frames active).call atomic either c s = (.halted h,t) := by
  obtain ⟨node,found,_⟩ := Option.map_eq_some_iff.1 starred.sum
  cases frames with
  | zero => exact ⟨_,_,rfl⟩
  | succ frames =>
    rw [callsIf_refused true found (Entry.isIn_iff.2 busy)]
    exact ⟨_,_,rfl⟩

/-- While the choice is in progress at an offset, the repetition cannot begin there. -/
private theorem star_refused {σ : Type} [Observer σ] (starred : table.Starred star either) {active : List Entry}
    (busy : (⟨c.pos,either⟩ : Entry) ∈ active) (source : Source) (frames : Nat) (atomic : Bool) (s : σ) :
    ∃ h t, (table.callsIf source true frames active).call atomic star c s = (.halted h,t) := by
  obtain ⟨node,found,body⟩ := Option.map_eq_some_iff.1 starred.list
  by_cases known : (⟨c.pos,star⟩ : Entry) ∈ active
  · cases frames with
    | zero => exact ⟨_,_,rfl⟩
    | succ frames =>
      rw [callsIf_refused true found (Entry.isIn_iff.2 known)]
      exact ⟨_,_,rfl⟩
  · rcases frames with _ | _ | left
    · exact ⟨_,_,rfl⟩
    · rw [callsIf_true,call_spent found known]
      exact ⟨_,_,rfl⟩
    · have busy : (⟨c.pos,either⟩ : Entry) ∈ ⟨c.pos,star⟩ :: active := List.mem_cons_of_mem _ busy
      obtain ⟨h,t,halted⟩ := either_refused starred busy source left atomic (Observer.visit (⟨c.pos,star⟩ :: active) c s)
      rw [callsIf_true] at halted ⊢
      rw [call_shown found known,Node.step,body]
      dsimp only
      rw [Run.bind_apply,repetition_succ,Run.bind_apply,Run.attempt,halted]
      exact ⟨h,t,rfl⟩

/-- More calls in progress than in the first run: the repetition at an offset, which matters
neither past that offset nor while the choice is in progress there. -/
private theorem begun_agree {σ τ : Type} [Observer σ] [Observer τ] (starred : table.Starred star either) {floor : Int}
    (nonneg : 0 ≤ floor) (c : Cursor) :
    Regimes.Agree (⟨settling σ τ,beside source floor,true,true,(· ≤ ·),fun active active' =>
      active' ⊆ ⟨c.pos,star⟩ :: active ∧ (c.pos < floor ∨ (⟨c.pos,either⟩ : Entry) ∈ active)⟩ : Regimes σ τ) table source := by
  refine settling_agree nonneg ?_ ?_
  · intro active active' entry nestings
    refine ⟨?_,nestings.2.imp_right (List.mem_cons_of_mem entry)⟩
    intro e member
    rcases List.mem_cons.1 member with rfl | member
    · simp
    · have := nestings.1 member
      simp only [List.mem_cons] at this ⊢
      tauto
  · intro active active' name d nestings inside member
    rcases List.mem_cons.1 (nestings.1 member) with same | member
    · right
      intro n atomic s
      obtain ⟨samePos,rfl⟩ := Entry.mk.inj same
      rcases nestings.2 with past | busy
      · have := inside.1
        omega
      · rw [← samePos] at busy
        obtain ⟨h,t,halted⟩ := star_refused starred busy source n atomic s
        exact ⟨h,t,halted,trivial⟩
    · exact .inl member

private theorem repetition_begun (starred : table.Starred star either) (inside : c.From source 0) (frames : Nat)
    (rounds : Nat) (items : List Value) :
    Run.Alike (settling Unit Unit) (fun x y => x.1 = y.1)
      (Node.repetition (table.calls source frames []) false true either (rounds + 1) c items)
      (Node.repetition (table.calls source frames [⟨c.pos,star⟩]) false true either (rounds + 1) c items) := by
  obtain ⟨node,found,body⟩ := Option.map_eq_some_iff.1 starred.sum
  have first : Run.Alike (settling Unit Unit) (Likeness.Answers (beside source c.pos))
      ((table.calls source frames []).call true either c) ((table.calls source frames [⟨c.pos,star⟩]).call true either c) := by
    rcases frames with _ | _ | frames
    · exact fun _ _ _ => .first trivial
    · rw [call_spent found List.not_mem_nil]
      exact fun _ _ _ => .first trivial
    · have other : (⟨c.pos,either⟩ : Entry) ∉ [(⟨c.pos,star⟩ : Entry)] := by
        intro member
        obtain ⟨listed,foundStar,repeated⟩ := Option.map_eq_some_iff.1 starred.list
        rw [List.mem_singleton,Entry.mk.injEq] at member
        rw [← member.2,found] at foundStar
        cases foundStar
        rw [body] at repeated
        cases repeated
      intro s t _
      rw [call_shown found List.not_mem_nil,call_shown found other]
      have begun : Calls.Alike (settling Unit Unit) (beside source c.pos) (table.callsIf source true frames [⟨c.pos,either⟩])
          (table.callsIf source true frames [⟨c.pos,either⟩,⟨c.pos,star⟩]) true true :=
        (begun_agree starred inside.1 c).calls (Nat.le_refl frames) ⟨by simp,.inr (List.mem_singleton_self _)⟩ (.inl rfl)
      rw [callsIf_true,callsIf_true] at begun
      exact Node.step_alike settling_fits begun (fun _ => rfl) (fun t _ => settling_terminal inside.1 node.label t)
        ⟨rfl,inside.refl⟩ _ _ trivial
  rw [repetition_succ,repetition_succ]
  refine Run.Alike.tried_answer first ?_ ?_
  · intro f f' caught
    exact .pure rfl
  · intro after after' value close
    obtain ⟨rfl,moved⟩ := close
    dsimp only
    split
    · exact .pure rfl
    · rename_i further
      have nonneg : 0 ≤ after.pos := Int.le_trans inside.1 moved.1
      have past : c.pos < after.pos := by
        have ahead : c.pos ≤ after.pos := moved.1
        omega
      have later : Calls.Alike (settling Unit Unit) (beside source after.pos) (table.callsIf source true frames [])
          (table.callsIf source true frames [⟨c.pos,star⟩]) true true :=
        (begun_agree starred nonneg c).calls (Nat.le_refl frames) ⟨by simp,.inl past⟩ (.inl rfl)
      rw [callsIf_true,callsIf_true] at later
      exact (Node.repetition_alike settling_fits later false either rounds ⟨rfl,moved.refl⟩ _).mono fun x y near => near.1.1

theorem star_iff (starred : table.Starred star either) (inside : c.From source 0) :
    table.Tries source star c (some r) ↔ table.Repeats source either c r := by
  obtain ⟨node,found,body⟩ := Option.map_eq_some_iff.1 starred.list
  have called (frames : Nat) : ((table.calls source (frames + 2) [] : Calls Unit).call true star c ()).1.shown =
      (Node.repetition (table.calls source frames [⟨c.pos,star⟩] : Calls Unit) false true either (c.ahead source + 2) c [] ()).1.shown := by
    rw [call_shown found List.not_mem_nil,Node.step,body]
    dsimp only
    rw [shown_bind (fun _ _ => rfl)]
  constructor
  · intro tries
    obtain ⟨frames,settled⟩ := tries.settles (σ := Unit) inside
    have ended := settled (frames + 2) (by omega) ()
    rw [called] at ended
    have fewer : Calls.Alike (settling Unit Unit) (beside source 0) (table.callsIf source true frames [⟨c.pos,star⟩])
        (table.callsIf source true frames []) true true :=
      fewer_agree.calls (Nat.le_refl frames) (List.nil_subset _) (.inl rfl)
    rw [callsIf_true,callsIf_true] at fewer
    have alike := Node.repetition_alike settling_fits fewer false either (c.ahead source + 2) ⟨rfl,inside⟩ []
    exact ⟨frames,_,[],by omega,shown_of_alike (fun _ _ near => near.1.1) alike ended⟩
  · intro repeats
    obtain ⟨frames,rounds,items,enough,ended⟩ := repeats
    rw [repetition_items rounds items [],Node.repetition_rounds (onward nested_nil frames true) false either inside enough
      (by omega : c.ahead source < c.ahead source + 2)] at ended
    have alike := repetition_begun starred inside frames (c.ahead source + 1) []
    have ended := shown_of_alike (fun _ _ same => same) alike (t := ()) ended
    rw [← called] at ended
    exact tries_of_call inside ended

end Repetition

/-- The repetition goes on from behind the first separator that matches, if it moves. -/
theorem star_cases (starred : table.Starred star either) (inside : c.From source 0) (stars : table.Tries source star c (some r)) :
    (∃ d, table.Moves source "WHITESPACE" c d ∧ table.Tries source star d (some r)) ∨
      (∃ d, table.Tries source "WHITESPACE" c (some d) ∧ ¬c.pos < d.pos) ∧ r = c ∨
      table.Tries source "WHITESPACE" c none ∧
        ((∃ d, table.Moves source "COMMENT" c d ∧ table.Tries source star d (some r)) ∨ table.Stays source "COMMENT" c ∧ r = c) := by
  obtain ⟨o,tries,ends⟩ := repeats_cases inside ((star_iff starred inside).1 stars)
  rcases either_cases starred inside tries with ⟨d,rfl,white⟩ | ⟨white,comment⟩
  · rcases ends with ⟨same,still⟩ | ⟨d',same,further,repeats⟩
    · exact .inr (.inl ⟨⟨d,white,still d rfl⟩,same⟩)
    · cases same
      have moves : table.Moves source "WHITESPACE" c d := ⟨white,further⟩
      exact .inl ⟨d,moves,(star_iff starred (moves.inside inside)).2 repeats⟩
  · refine .inr (.inr ⟨white,?_⟩)
    rcases ends with ⟨same,still⟩ | ⟨d,rfl,further,repeats⟩
    · exact .inr ⟨⟨o,comment,still⟩,same⟩
    · have moves : table.Moves source "COMMENT" c d := ⟨comment,further⟩
      exact .inl ⟨d,moves,(star_iff starred (moves.inside inside)).2 repeats⟩

/-- Skipping at a cursor, and the repetition, end at one cursor if both end. -/
def Agrees (table : NodeTable) (source : Source) (star : String) (c : Cursor) : Prop :=
  ∀ r r', table.Skips source c r → table.Tries source star c (some r') → r = r'

/-- The first separator matches without moving, where the second moves. -/
def Stalls (table : NodeTable) (source : Source) (c : Cursor) : Prop :=
  (∃ d, table.Tries source "WHITESPACE" c (some d) ∧ ¬c.pos < d.pos) ∧ ∃ d, table.Moves source "COMMENT" c d

/-- Behind the first separator it matches again, where the second moves. -/
def Forks (table : NodeTable) (source : Source) (c : Cursor) : Prop :=
  ∃ d, table.Moves source "WHITESPACE" c d ∧ (∃ e, table.Tries source "WHITESPACE" d (some e)) ∧
    ∃ e, table.Moves source "COMMENT" d e

theorem Skips.from (inside : c.From source 0) (skips : table.Skips source c r) :
    r.From source c.pos := by
  obtain ⟨frames,settled⟩ := skips.settles (σ := Unit) inside
  cases ended : (table.calls source frames [] : Calls Unit).skip false c () with
  | mk out t =>
    have same := settled frames (Nat.le_refl frames) ()
    rw [ended] at same
    cases same
    exact (onward nested_nil frames false).skip inside ended

/-- At a stall skipping goes on and the repetition does not. -/
theorem Stalls.disagrees {r' : Cursor} (stalls : table.Stalls source c) (starred : table.Starred star either)
    (inside : c.From source 0) (skips : table.Skips source c r) (stars : table.Tries source star c (some r')) : r ≠ r' := by
  obtain ⟨⟨d,white,still⟩,e,comment⟩ := stalls
  have stays : table.Stays source "WHITESPACE" c := by
    refine ⟨some d,white,?_⟩
    intro d' same
    cases same
    exact still
  have stopped : r' = c := by
    rcases star_cases starred inside stars with ⟨d',moves,_⟩ | ⟨_,same⟩ | ⟨fails,_⟩
    · exact (stays.not_moves inside moves).elim
    · exact same
    · cases white.unique fails inside
  obtain ⟨d',e',past,past',ends⟩ := skips_cases starred inside skips
  rcases past with moves | ⟨rfl,_⟩
  · exact (stays.not_moves inside moves).elim
  · rcases ends with ⟨rfl,_⟩ | ⟨further,skips⟩
    · rcases past' with moves | ⟨_,stays⟩
      · exact (Int.lt_irrefl _ moves.2).elim
      · exact (stays.not_moves inside comment).elim
    · have onward := (skips.from (past'.inside inside)).1
      intro same
      rw [same,stopped] at onward
      exact Int.lt_irrefl _ (Int.lt_of_lt_of_le further onward)

/-- Where neither a stall nor a fork is met both go on from the same place. -/
private theorem agrees_of_critical (starred : table.Starred star either)
    (critical : ∀ c, c.From source 0 → table.Stalls source c ∨ table.Forks source c → table.Agrees source star c)
    (inside : c.From source 0) : table.Agrees source star c := by
  induction ahead : c.ahead source using Nat.strongRecOn generalizing c with
  | ind n ih =>
    intro r r' skips stars
    have onwards {d : Cursor} (moved : d.From source c.pos) (further : c.pos < d.pos) : table.Agrees source star d :=
      ih _ (ahead ▸ Cursor.ahead_lt moved further) (inside.trans moved) rfl
    obtain ⟨d,e,past,past',ends⟩ := skips_cases starred inside skips
    rcases past with white | ⟨rfl,stays⟩
    · have inside' := white.inside inside
      have moved := white.1.from inside
      have starsOn : table.Tries source star d (some r') := by
        rcases star_cases starred inside stars with ⟨d',moves,stars⟩ | ⟨⟨d',tries,still⟩,_⟩ | ⟨fails,_⟩
        · rwa [white.unique moves.1 inside]
        · rw [white.unique tries inside] at white
          exact (still white.2).elim
        · cases white.1.unique fails inside
      rcases past' with comment | ⟨rfl,_⟩
      · have goesOn : table.Skips source e r := by
          rcases ends with ⟨rfl,_⟩ | ⟨_,skips⟩
          · exact (Int.lt_asymm white.2 comment.2).elim
          · exact skips
        rcases star_cases starred inside' starsOn with ⟨d',moves,_⟩ | ⟨⟨d',tries,_⟩,_⟩ | ⟨_,⟨e',moves,stars⟩ | ⟨stays,_⟩⟩
        · exact critical c inside (.inr ⟨d,white,⟨d',moves.1⟩,e,comment⟩) r r' skips stars
        · exact critical c inside (.inr ⟨d,white,⟨d',tries⟩,e,comment⟩) r r' skips stars
        · rw [← comment.unique moves.1 inside'] at stars
          exact onwards (moved.trans (comment.1.from inside')) (Int.lt_trans white.2 comment.2) r r' goesOn stars
        · exact (stays.not_moves inside' comment).elim
      · rcases ends with ⟨rfl,_⟩ | ⟨further,skips⟩
        · exact (Int.lt_irrefl _ white.2).elim
        · exact onwards moved further r r' skips starsOn
    · rcases past' with comment | ⟨rfl,stays'⟩
      · have goesOn : table.Skips source e r := by
          rcases ends with ⟨rfl,_⟩ | ⟨_,skips⟩
          · exact (Int.lt_irrefl _ comment.2).elim
          · exact skips
        rcases star_cases starred inside stars with ⟨d',moves,_⟩ | ⟨still,_⟩ | ⟨_,⟨e',moves,stars⟩ | ⟨stays',_⟩⟩
        · exact (stays.not_moves inside moves).elim
        · exact critical d inside (.inl ⟨still,e,comment⟩) r r' skips stars
        · rw [← comment.unique moves.1 inside] at stars
          exact onwards (comment.1.from inside) comment.2 r r' goesOn stars
        · exact (stays'.not_moves inside comment).elim
      · have stopped : r = e := by
          rcases ends with ⟨_,same⟩ | ⟨further,_⟩
          · exact same
          · exact (Int.lt_irrefl _ further).elim
        rcases star_cases starred inside stars with ⟨d',moves,_⟩ | ⟨_,same⟩ | ⟨_,⟨d',moves,_⟩ | ⟨_,same⟩⟩
        · exact (stays.not_moves inside moves).elim
        · rw [stopped,same]
        · exact (stays'.not_moves inside moves).elim
        · rw [stopped,same]

/-- Skipping separators is the repetition of their ordered choice in just those texts where it is so
wherever both match behind a match of the first, and where the first never matches without moving
and lets the second move, unless one of the two does not end. -/
theorem skip_is_star_iff (starred : table.Starred star either) (source : Source) :
    (∀ c, c.From source 0 → table.Agrees source star c) ↔
      ∀ c, c.From source 0 → (table.Forks source c → table.Agrees source star c) ∧
        (table.Stalls source c → ∀ r r', table.Skips source c r → ¬table.Tries source star c (some r')) := by
  constructor
  · intro agrees c inside
    refine ⟨fun _ => agrees c inside,?_⟩
    intro stalls r r' skips stars
    exact stalls.disagrees starred inside skips stars (agrees c inside r r' skips stars)
  · intro critical c inside
    refine agrees_of_critical starred (fun c inside => ?_) inside
    intro met r r' skips stars
    rcases met with stalls | forks
    · exact ((critical c inside).2 stalls r r' skips stars).elim
    · exact (critical c inside).1 forks r r' skips stars

def overlapping : NodeTable :=
  ⟨[⟨"WHITESPACE","WHITESPACE",.terminal (.literal "a")⟩,⟨"COMMENT","COMMENT",.terminal (.literal "ab")⟩,
    ⟨"either","either",.sum ["WHITESPACE","COMMENT"]⟩,⟨"star","star",.list "either" false⟩],by decide⟩

theorem overlapping_starred : overlapping.Starred "star" "either" := ⟨by decide,by decide,by decide,by decide⟩

theorem overlapping_critical : overlapping.Forks (.ofString "aab") .start ∧
    ((∀ c, c.From (.ofString "aab") 0 → overlapping.Agrees (.ofString "aab") "star" c) ↔
      ∀ c, c.From (.ofString "aab") 0 → (overlapping.Forks (.ofString "aab") c → overlapping.Agrees (.ofString "aab") "star" c) ∧
        (overlapping.Stalls (.ofString "aab") c → ∀ r r', overlapping.Skips (.ofString "aab") c r →
          ¬overlapping.Tries (.ofString "aab") "star" c (some r'))) := by
  have tries {name : String} {c : Cursor} {o : Option Cursor}
      (ended : ((overlapping.callsIf (.ofString "aab") true 9 [] : Calls Tracker).call true name c (.new false)).1.shown = some o) :
      overlapping.Tries (.ofString "aab") name c o := by
    rw [callsIf_true] at ended
    exact ⟨9,[],.new false,ended⟩
  refine ⟨⟨⟨1,[]⟩,⟨tries (by decide +kernel),by decide⟩,⟨⟨2,[]⟩,tries (by decide +kernel)⟩,⟨3,[]⟩,tries (by decide +kernel),by decide⟩,?_⟩
  exact skip_is_star_iff overlapping_starred (.ofString "aab")

/-- The first separator, then the second behind it, where the choice would take the first again. -/
theorem overlapping_skip_overruns : overlapping.Starred "star" "either" ∧
    overlapping.Skips (.ofString "aab") .start ⟨3,[]⟩ ∧ overlapping.Tries (.ofString "aab") "star" .start (some ⟨2,[]⟩) ∧
    ¬overlapping.Agrees (.ofString "aab") "star" .start := by
  have skips : overlapping.Skips (.ofString "aab") .start ⟨3,[]⟩ := by
    refine ⟨9,[],.new false,?_⟩
    rw [← callsIf_true]
    decide +kernel
  have stars : overlapping.Tries (.ofString "aab") "star" .start (some ⟨2,[]⟩) := by
    refine ⟨9,[],.new false,?_⟩
    rw [← callsIf_true]
    decide +kernel
  refine ⟨overlapping_starred,skips,stars,?_⟩
  intro agrees
  cases agrees _ _ skips stars

end NodeTable

end TypedPeg
