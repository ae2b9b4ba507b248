import TypedPeg.Proofs.Assembly.Regular
import TypedPeg.Proofs.Match.Furthest
import TypedPeg.Proofs.Match.Guard
import TypedPeg.Proofs.Match.Raised

/-! What a failed parse reports. A tracker has at any time what the failures told so far outside every
mute come to; and in the table of a grammar no call fails at a place beyond that. So the report
is of the furthest of those failures. -/
namespace TypedPeg

namespace Tracker

variable {t : Tracker}

theorem note_heard (on : t.enabled = true) (opened : t.muted ≤ 0) (f : Failure) :
    t.note f = { t with furthest := t.furthest.note f } := by simp [note,on,opened]

theorem note_unheard (closed : t.enabled = true → ¬t.muted ≤ 0) (f : Failure) : t.note f = t := by
  unfold note
  by_cases on : t.enabled = true
  · simp [closed on]
  · simp [on]

theorem note_cases (t : Tracker) (f : Failure) : (t.enabled = true ∧ t.muted ≤ 0) ∧ t.note f = { t with furthest := t.furthest.note f } ∨
    ¬(t.enabled = true ∧ t.muted ≤ 0) ∧ t.note f = t := by
  by_cases heard : t.enabled = true ∧ t.muted ≤ 0
  · exact .inl ⟨heard,note_heard heard.1 heard.2 f⟩
  · exact .inr ⟨heard,note_unheard (fun on opened => heard ⟨on,opened⟩) f⟩

end Tracker

namespace Hearing

structure Beside (enabled : Bool) (h : Hearing) (t : Tracker) : Prop where
  switch : t.enabled = enabled
  muted : t.muted = h.depth
  furthest : t.furthest = if enabled then h.failures.foldl Furthest.note (.start (-1)) else .start (-1)

def likeness (enabled : Bool) : Likeness Hearing Tracker := ⟨Beside enabled,Eq,Eq,fun _ => False,fun _ => False⟩

theorem beside_new (enabled : Bool) : Beside enabled ⟨0,[]⟩ (.new enabled) := ⟨rfl,rfl,by cases enabled <;> rfl⟩

theorem likeness_watched (enabled : Bool) : (likeness enabled).Watched := by
  refine ⟨?_,?_,?_⟩
  · intro f f' h t same beside
    cases (same : f = f')
    obtain ⟨switch,muted,furthest⟩ := (beside : Beside enabled h t)
    have told : Beside enabled (if h.depth ≤ 0 then { h with failures := h.failures ++ [f] } else h) (t.note f) := by
      by_cases opened : h.depth ≤ 0
      · rw [if_pos opened]
        cases enabled with
        | true =>
          rw [Tracker.note_heard switch (muted ▸ opened)]
          refine ⟨switch,muted,?_⟩
          rw [furthest,if_pos rfl,if_pos rfl,List.foldl_append]
          rfl
        | false =>
          rw [Tracker.note_unheard fun on => Bool.noConfusion (switch.symm.trans on)]
          exact ⟨switch,muted,furthest⟩
      · rw [if_neg opened,Tracker.note_unheard fun _ => muted ▸ opened]
        exact ⟨switch,muted,furthest⟩
    exact told
  · intro why h t beside
    obtain ⟨switch,muted,furthest⟩ := (beside : Beside enabled h t)
    exact ⟨switch,congrArg (· + 1) muted,furthest⟩
  · intro why h t beside
    obtain ⟨switch,muted,furthest⟩ := (beside : Beside enabled h t)
    exact ⟨switch,congrArg (· + -1) muted,furthest⟩

theorem agree (enabled : Bool) (table : NodeTable) (source : Source) :
    NodeTable.Regimes.Agree ⟨likeness enabled,Eq,true,true,Eq,Eq⟩ table source :=
  NodeTable.agree_of_watched (likeness_watched enabled) rfl (fun _ => rfl) (fun _ _ => id) table source

end Hearing

def Manner.moving (source : Source) : Manner where
  placed c := c.From source 0
  onward c d := d.From source c.pos
  call _ _ _ _ := True
  refl inside := inside.refl
  trans := .trans
  arrives inside moved := inside.trans moved

namespace Tracker

/-- A failure is not beyond what the tracker has, if it listens. -/
def Covers (t : Tracker) (far : Furthest) : Prop := t.enabled = true → t.muted ≤ 0 → far.Within t.furthest

structure Grows (s t : Tracker) : Prop where
  enabled : t.enabled = s.enabled
  muted : t.muted = s.muted
  furthest : s.furthest.Within t.furthest

variable {s t u : Tracker} {far : Furthest}

theorem Grows.refl (s : Tracker) : s.Grows s := ⟨rfl,rfl,.refl _⟩

theorem Grows.trans (first : s.Grows t) (second : t.Grows u) : s.Grows u :=
  ⟨second.enabled.trans first.enabled,second.muted.trans first.muted,first.furthest.trans second.furthest⟩

theorem Grows.unmuted (grows : (s.mute 1).Grows t) : s.Grows (t.mute (-1)) := by
  refine ⟨grows.enabled,?_,grows.furthest⟩
  have muted := grows.muted
  simp only [mute] at muted ⊢
  omega

theorem Covers.grows (covers : s.Covers far) (grows : s.Grows t) : t.Covers far := by
  intro on opened
  rw [grows.enabled] at on
  rw [grows.muted] at opened
  exact (covers on opened).trans grows.furthest

theorem note_grows (t : Tracker) (f : Failure) : t.Grows (t.note f) ∧ (t.note f).Covers (.ofFailure f) := by
  rcases t.note_cases f with ⟨_,same⟩ | ⟨unheard,same⟩
  · rw [same]
    exact ⟨⟨rfl,rfl,Furthest.within_note _ f⟩,fun _ _ => Furthest.ofFailure_within_note _ f⟩
  · rw [same]
    exact ⟨.refl t,fun on opened => (unheard ⟨on,opened⟩).elim⟩

def account (source : Source) : Account Tracker (Manner.moving source) where
  leads := Grows
  refl := .refl
  trans := .trans
  visit _ _ := .refl
  hushed := .unmuted
  failed c f t := c.pos ≤ f.pos ∧ t.Covers (.ofFailure f)
  lasting failed grows := ⟨failed.1,failed.2.grows grows⟩
  told _ _ msg t := ⟨(t.note_grows _).1,Int.le_refl _,(t.note_grows _).2⟩
  behind moved failed := ⟨Int.le_trans moved.1 failed.1,failed.2⟩
  relabelled {c f t} msg failed := by
    obtain ⟨ahead,covers⟩ := failed
    refine ⟨Int.le_refl _,fun on opened => ?_⟩
    have within := covers on opened
    -- at the start of the call the labels count only if the failure they come from is there too
    refine ⟨Int.le_trans ahead within.1,fun there => within.2 ?_⟩
    exact Int.le_antisymm within.1 (Int.le_trans (Int.le_of_eq there.symm) ahead)
  begun {c f t} label failed := by
    obtain ⟨ahead,covers⟩ := failed
    refine ⟨(Furthest.within_note (.start c.pos) f).1,fun on opened => ?_⟩
    have within := covers on opened
    exact Furthest.note_within (Furthest.start_within (Int.le_trans ahead within.1)) within
  noted {c far f t} label known failed :=
    ⟨Int.le_trans known.1 (Furthest.within_note far f).1,fun on opened => Furthest.note_within (known.2 on opened) (failed.2 on opened)⟩

end Tracker

section Calls
variable {σ : Type} [Observer σ] {table : NodeTable} {source : Source} {account : Account σ (Manner.moving source)}

theorem NodeTable.calls_moving (empty : ∀ {node c}, node ∈ table.nodes → c.From source 0 → node.body = .sum [] →
      ∀ s, account.failed c ((Furthest.start c.pos).ofChoice node.label) s)
    (permitted : ∀ node ∈ table.nodes, node.Permitted source account) (unknown : ∀ name, account.tells .undefinedRule [name])
    (frames : Nat) (active : List Entry) (atomic : Bool) :
    (table.calls source frames active).Mannerly account (fun _ _ => True) atomic := by
  rw [← callsAround_nothing]
  refine callsAround_mannerly { made := ?_,empty := empty,permitted := permitted } (fun _ _ _ _ keeps => keeps)
    (fun _ _ _ _ _ _ _ => trivial) frames active atomic fun name _ => .inl (unknown name)
  intro name node c d v found placed made
  have moved : (Manner.moving source).onward c d :=
    made.onward (fun _ one => one.2.1) (fun skipped => skipped.2.1) (fun _ => Terminal.move_from placed) (fun _ moved => moved) placed
  exact ⟨moved,trivial⟩

end Calls

namespace Parser

variable {p : Parser Node}

theorem run_moving {σ : Type} [Observer σ] {source : Source} {account : Account σ (Manner.moving source)}
    (empty : ∀ {node c}, node ∈ p.table.nodes → c.From source 0 → node.body = .sum [] →
      ∀ s, account.failed c ((Furthest.start c.pos).ofChoice node.label) s)
    (permitted : ∀ node ∈ p.table.nodes, node.Permitted source account)
    (unknown : ∀ name, account.tells .undefinedRule [name]) (left : account.tells .unconsumed ["EOI"]) (rule : String) (full : Bool) :
    (p.run source rule full).Keeps account.toCourse (fun _ => True) (account.failed .start) := by
  have inside : Cursor.start.From source 0 := Cursor.from_start
  have called := (NodeTable.calls_moving empty permitted unknown p.frames [] false).call rule .start inside
  refine called.bind fun x one => ?_
  obtain ⟨after,value⟩ := x
  have placed := (Manner.moving source).arrives inside one.2.1
  dsimp only
  split
  · refine Run.Keeps.fail fun s => ?_
    obtain ⟨leads,failed⟩ := account.told placed left "unconsumed input" s
    exact ⟨leads,account.behind one.2.1 failed⟩
  · exact .pure trivial

theorem run_covered (regular : ∀ node ∈ p.table.nodes, node.body.Regular) (source : Source) (rule : String) (full : Bool) :
    (p.run source rule full).Keeps (Tracker.account source).toCourse (fun _ => True) ((Tracker.account source).failed .start) :=
  run_moving (fun member _ none => absurd none (regular _ member).ne_sum_nil) (fun _ _ => {}) (fun _ => trivial) trivial rule full

theorem run_beside (p : Parser Node) (source : Source) (rule : String) (full enabled : Bool) :
    Run.Alike (Hearing.likeness enabled) Eq (p.run source rule full) (p.run source rule full) := by
  have called : Run.Alike (Hearing.likeness enabled) Eq ((p.table.calls source p.frames []).call false rule .start)
      ((p.table.calls source p.frames []).call false rule .start) := by
    rw [← NodeTable.callsIf_true,← NodeTable.callsIf_true]
    exact ((Hearing.agree enabled p.table source).call rfl rfl (.inl rfl) rule rfl).mono fun _ _ => NodeTable.Answers.eq
  refine called.bind fun x y same => ?_
  cases same
  dsimp only
  split
  · exact .fail (Hearing.likeness_watched enabled) rfl
  · exact .pure rfl

theorem run_told (p : Parser Node) (source : Source) (rule : String) (full enabled : Bool) :
    Hearing.Beside enabled (p.run source rule full ⟨0,[]⟩).2 (p.run source rule full (Tracker.new enabled)).2 ∧
      (p.run source rule full (⟨0,[]⟩ : Hearing)).1 = (p.run source rule full (Tracker.new enabled)).1 := by
  have ended := run_beside p source rule full enabled _ _ (Hearing.beside_new enabled)
  exact (ended.agree rfl rfl (fun _ => id) fun _ => id).symm

theorem report_ok {source : Source} {f : Failure} {far : Furthest} {shown : ParseReport} (reported : report source f far = .ok shown) :
    (⟨shown.pos,shown.expected⟩ : Furthest) = if f.pos ≤ far.pos then far else .ofFailure f := by
  unfold report at reported
  dsimp only at reported
  cases located : (LineTable.ofSource source).locate (if f.pos ≤ far.pos then far else ⟨f.pos,f.expected⟩ : Furthest).pos with
  | error outside =>
    rw [located] at reported
    cases reported
  | ok place =>
    rw [located] at reported
    cases reported
    rfl

theorem attempt_unmatched {source : Source} {rule : String} {full : Bool} {shown : ParseReport} {cause : Failure}
    (failed : (p.attempt source rule full).value = .error (.unmatched shown cause)) :
    (p.run source rule full (Tracker.new p.tracked)).1 = .failed cause ∧
      report source cause (p.run source rule full (Tracker.new p.tracked)).2.furthest = .ok shown := by
  unfold attempt at failed
  split at failed
  · cases failed
  · split at failed
    · cases failed
    · generalize p.run source rule full (Tracker.new p.tracked) = e at failed ⊢
      obtain ⟨o,t⟩ := e
      cases o with
      | matched x => cases failed
      | halted h => cases h <;> cases failed
      | failed f =>
        unfold answer at failed
        dsimp only at failed
        split at failed
        · cases failed
        · rename_i reported
          cases failed
          exact ⟨rfl,reported⟩

/-- Matching a rule against all of a text, or without `full` at its start, ends with a report. -/
def Fails (p : Parser Node) (rule text : String) (full : Bool) (shown : ParseReport) (cause : Failure) : Prop :=
  match full with
  | true => (p.parse rule text).value = .error (.unmatched shown cause)
  | false => (p.parsePrefix rule text).value = .error (.unmatched shown cause)

theorem fails_iff {rule text : String} {full : Bool} {shown : ParseReport} {cause : Failure} : p.Fails rule text full shown cause ↔
    (p.attempt (.ofString text) rule full).value = .error (.unmatched shown cause) := by
  have kept {α β : Type} (f : α → β) (x : Except ParseFault α) :
      x.map f = .error (.unmatched shown cause) ↔ x = .error (.unmatched shown cause) := by
    cases x <;> simp [Except.map]
  cases full with
  | true => exact kept _ _
  | false => exact kept _ _

end Parser

/-- The report is of the furthest of the failures raised, and not behind what caused it. -/
structure ParseReport.OfFurthest (shown : ParseReport) (raised : List Failure) (cause : Failure) : Prop where
  reached : ∃ f ∈ raised, f.pos = shown.pos
  greatest : ∀ f ∈ raised, f.pos ≤ shown.pos
  labels : shown.expected = ((raised.filter fun f => f.pos = shown.pos).flatMap (·.expected)).eraseDups
  behind : cause.pos ≤ shown.pos
  caused : cause.pos = shown.pos → ∀ label ∈ cause.expected, label ∈ shown.expected

theorem Furthest.Sums.ofFurthest {far : Furthest} {raised : List Failure} {shown : ParseReport} {cause : Failure}
    (sums : far.Sums (-1) raised) (place : (⟨shown.pos,shown.expected⟩ : Furthest) = far) (within : (ofFailure cause).Within far)
    (nonneg : 0 ≤ cause.pos) : shown.OfFurthest raised cause := by
  subst place
  have above : -1 < shown.pos := Int.lt_of_lt_of_le (by decide) (Int.le_trans nonneg within.1)
  exact ⟨sums.attained above,sums.upper,sums.labels,within.1,fun there label member => within.2 there member⟩

namespace Parser

variable {p : Parser Node}

/-- The report of a failed parse by the table of a grammar, valid or not, is of the furthest of the
failures raised in the run outside every negative lookahead and every skip of separators. Without
tracking it is of the failure that ended the run. -/
theorem reports_furthest {rules : List Rule} {strict : Bool} (built : (NodeTable.ofRules rules strict).value = .ok p.table)
    {rule text : String} {full : Bool} {shown : ParseReport} {cause : Failure} (fails : p.Fails rule text full shown cause) :
    (p.raising (.ofString text) rule full ⟨[]⟩).1 = .failed cause ∧
      (p.tracked = true → shown.OfFurthest (p.raised (.ofString text) rule full) cause) ∧
      (p.tracked = false → shown.pos = cause.pos ∧ shown.expected = cause.expected) := by
  obtain ⟨ended,reported⟩ := attempt_unmatched (fails_iff.1 fails)
  have covered := run_covered (fun node member => NodeTable.regular_of_ofRules built member) (.ofString text) rule full (.new p.tracked)
  obtain ⟨⟨switch,muted,furthest⟩,same⟩ := run_told p (.ofString text) rule full p.tracked
  have place := report_ok reported
  obtain ⟨grows,failed⟩ := covered
  rw [ended] at failed
  obtain ⟨inText,covers⟩ := failed
  obtain ⟨told,outcome⟩ := p.told_eq_raised (.ofString text) rule full
  refine ⟨outcome.symm.trans (same.trans ended),fun tracked => ?_,fun untracked => ?_⟩
  · have within := covers (switch.trans tracked) (Int.le_of_eq grows.muted)
    have reached : cause.pos ≤ _ := within.1
    rw [if_pos reached] at place
    have seen := furthest.trans (if_pos tracked)
    have sums := (Furthest.sums_start (-1)).foldl (p.told (.ofString text) rule full)
    rw [← told]
    exact sums.ofFurthest (place.trans seen) (seen ▸ within) inText
  · have seen := furthest.trans (if_neg (Bool.not_eq_true _ ▸ untracked))
    have ahead : ¬cause.pos ≤ (Furthest.start (-1)).pos := Int.not_le.2 (Int.lt_of_lt_of_le (by decide) inText)
    rw [seen,if_neg ahead] at place
    exact ⟨congrArg Furthest.pos place,congrArg Furthest.expected place⟩

def tailed : List Rule :=
  [⟨"tailed",.normal,.seq (.notFollowedBy (.seq (.literal "a") (.seq (.literal "b") (.seq (.literal "x") (.literal "y")))))
    (.seq (.literal "a") (.opt (.seq (.literal "b") (.literal "c"))))⟩]

def tailedParser : Parser Node := ⟨(NodeTable.ofRules tailed true).value.toOption.getD .empty,true,defaultLimit⟩

theorem tailed_reports : (NodeTable.ofRules tailed true).value = .ok tailedParser.table ∧ ∃ shown : ParseReport, shown.pos = 2 ∧
    tailedParser.Fails "tailed" "abx" true shown (incomplete 1) ∧
    shown.OfFurthest (tailedParser.raised (.ofString "abx") "tailed" true) (incomplete 1) := by
  have built : (NodeTable.ofRules tailed true).value = .ok tailedParser.table := NodeTable.ofRules_of_isOk (by decide +kernel)
  have known : tailedParser.table.contains "tailed" = true := by decide +kernel
  have ran : tailedParser.run (.ofString "abx") "tailed" true (Tracker.new true) =
      (.failed (incomplete 1),⟨true,0,⟨2,["\"c\""]⟩⟩) := by decide +kernel
  have reported : report (.ofString "abx") (incomplete 1) ⟨2,["\"c\""]⟩ = .ok ⟨"expected \"c\"",2,1,3,["\"c\""]⟩ := rfl
  have fails : tailedParser.Fails "tailed" "abx" true ⟨"expected \"c\"",2,1,3,["\"c\""]⟩ (incomplete 1) := by
    rw [fails_iff,attempt,known,if_neg (by decide),if_neg (by decide)]
    show (answer _ _ (tailedParser.run (.ofString "abx") "tailed" true (Tracker.new true))).value = _
    rw [ran,answer,reported]
  exact ⟨built,_,rfl,fails,(reports_furthest built fails).2.1 rfl⟩

end Parser

end TypedPeg
