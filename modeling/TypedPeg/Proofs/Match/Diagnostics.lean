import TypedPeg.Proofs.Match.Known
import TypedPeg.Proofs.Match.Report

/-! What an observer is told never comes back into the run. Two runs differ in what they tell, if at all, by
the state in which their observers begin; so a parse comes to the same with failures tracked and
without, and a tracker that is muted when a call begins has learned nothing when it ends. -/
namespace TypedPeg

section Outcome
variable {σ τ : Type} [Observer σ] [Observer τ]

def unobserved (σ τ : Type) : Likeness σ τ := ⟨fun _ _ => True,Eq,Eq,fun _ => False,fun _ => False⟩

theorem unobserved_watched : (unobserved σ τ).Watched := ⟨fun _ _ => trivial,fun _ => trivial,fun _ => trivial⟩

omit [Observer σ] [Observer τ] in
theorem Run.outcome_eq {α : Type} {r : Run σ α} {r' : Run τ α} (alike : Run.Alike (unobserved σ τ) Eq r r') (s : σ) (t : τ) :
    (r s).1 = (r' t).1 :=
  ((alike s t trivial).agree rfl rfl (fun _ => id) fun _ => id).1

theorem NodeTable.calls_unobserved (table : NodeTable) (source : Source) (frames : Nat) (active : List Entry) (atomic : Bool) :
    Calls.Alike (unobserved σ τ) Eq (table.calls source frames active) (table.calls source frames active) atomic atomic := by
  have agree : Regimes.Agree (⟨unobserved σ τ,Eq,true,true,Eq,Eq⟩ : Regimes σ τ) table source :=
    agree_of_watched unobserved_watched rfl (fun _ => rfl) (fun _ _ => id) table source
  rw [← callsIf_true,← callsIf_true]
  exact Regimes.Agree.calls agree rfl rfl (.inl rfl)

theorem Parser.run_unobserved (p : Parser Node) (source : Source) (rule : String) (full : Bool) (s : σ) (t : τ) :
    (p.run source rule full s).1 = (p.run source rule full t).1 := by
  have called := (NodeTable.calls_unobserved (σ := σ) (τ := τ) p.table source p.frames [] false).call rule .start .start rfl
  refine Run.outcome_eq (called.answer fun after after' value close => ?_) s t
  cases close
  dsimp only
  split
  · exact .fail unobserved_watched rfl
  · exact .pure rfl

end Outcome

namespace Tracker

/-- A tracker is muted afterwards as it was before, and while it is muted it keeps what it has. -/
def steady : Course Tracker where
  leads s t := t.enabled = s.enabled ∧ t.muted = s.muted ∧ (0 < s.muted → t.furthest = s.furthest)
  refl _ := ⟨rfl,rfl,fun _ => rfl⟩
  trans := by
    rintro s t u ⟨on,muted,kept⟩ ⟨on',muted',kept'⟩
    refine ⟨on'.trans on,muted'.trans muted,fun closed => (kept' ?_).trans (kept closed)⟩
    rwa [muted]
  visit _ _ _ := ⟨rfl,rfl,fun _ => rfl⟩
  hushed := by
    rintro why s t ⟨on,muted,kept⟩
    have muted : t.muted = s.muted + 1 := muted
    refine ⟨on,?_,fun closed => kept (Int.lt_add_one_of_le (Int.le_of_lt closed))⟩
    show t.muted + -1 = s.muted
    omega

theorem steady_told (f : Failure) (t : Tracker) : steady.leads t (Observer.fail f t) := by
  show steady.leads t (t.note f)
  rcases t.note_cases f with ⟨⟨_,opened⟩,same⟩ | ⟨_,same⟩
  · rw [same]
    exact ⟨rfl,rfl,fun closed => absurd opened (Int.not_le.2 closed)⟩
  · rw [same]
    exact steady.refl t

theorem calls_steady (table : NodeTable) (source : Source) (frames : Nat) (active : List Entry) (atomic : Bool) :
    (table.calls source frames active).Mannerly (steady.anywhere steady_told fun _ => trivial) (fun _ _ => True) atomic :=
  NodeTable.calls_lead steady steady_told (fun _ => trivial) table source frames active atomic

def inText (source : Source) : Account Tracker (Manner.moving source) where
  leads s t := s.furthest.pos ≤ source.length → t.furthest.pos ≤ source.length
  refl _ := id
  trans first second := second ∘ first
  visit _ _ _ := id
  hushed led := led
  failed c f _ := c.pos ≤ f.pos ∧ f.pos ≤ source.length
  lasting failed _ := failed
  told {c kind labels} placed _ msg t := by
    refine ⟨fun inside => ?_,Int.le_refl _,placed.2⟩
    show (t.note _).furthest.pos ≤ source.length
    rcases t.note_cases ⟨kind,msg,c.pos,labels⟩ with ⟨_,same⟩ | ⟨_,same⟩
    · rw [same]
      exact (Furthest.pos_note_between (Int.le_refl _) inside placed.2).2
    · rw [same]
      exact inside
  behind moved failed := ⟨Int.le_trans moved.1 failed.1,failed.2⟩
  relabelled _ failed := ⟨Int.le_refl _,Int.le_trans failed.1 failed.2⟩
  begun _ failed := Furthest.pos_note_between (Int.le_refl _) (Int.le_trans failed.1 failed.2) failed.2
  noted _ known failed := Furthest.pos_note_between known.1 known.2 failed.2

end Tracker

/-- The same end, except that the first report may be of a place further on. -/
inductive ParseFault.Further {α : Type} : Except ParseFault α → Except ParseFault α → Prop
  | same {ended} (unreported : ∀ shown cause, ended ≠ .error (.unmatched shown cause)) : Further ended ended
  | report {shown shown' : ParseReport} {cause} (ahead : shown'.pos ≤ shown.pos) :
      Further (.error (.unmatched shown cause)) (.error (.unmatched shown' cause))

theorem ParseFault.Further.map {α β : Type} {ended ended' : Except ParseFault α} (further : Further ended ended') (f : α → β) :
    Further (ended.map f) (ended'.map f) := by
  cases further with
  | report ahead => exact .report ahead
  | same unreported =>
    refine .same fun shown cause same => unreported shown cause ?_
    cases ended with
    | ok a => cases same
    | error fault =>
      cases same
      rfl

namespace Parser

theorem report_isOk {source : Source} {f : Failure} {far : Furthest} (nonneg : 0 ≤ f.pos) (inside : f.pos ≤ source.length)
    (inside' : far.pos ≤ source.length) : ∃ shown, report source f far = .ok shown := by
  have placed : ¬((if f.pos ≤ far.pos then far else ⟨f.pos,f.expected⟩ : Furthest).pos < 0 ∨
      ((LineTable.ofSource source).length : Int) < (if f.pos ≤ far.pos then far else ⟨f.pos,f.expected⟩ : Furthest).pos) := by
    split <;> simp only [LineTable.ofSource] <;> omega
  unfold report
  dsimp only
  rw [LineTable.locate,if_neg placed]
  exact ⟨_,rfl⟩

theorem report_pos {source : Source} {f : Failure} {far : Furthest} {shown : ParseReport} (reported : report source f far = .ok shown) :
    shown.pos = max far.pos f.pos := by
  have place : shown.pos = (if f.pos ≤ far.pos then far else .ofFailure f : Furthest).pos := congrArg Furthest.pos (report_ok reported)
  rw [place]
  split
  · rename_i reached
    exact (Int.max_eq_left reached).symm
  · rename_i behind
    exact (Int.max_eq_right (Int.le_of_lt (Int.not_le.1 behind))).symm

theorem run_inText (p : Parser Node) (source : Source) (rule : String) (full : Bool) :
    (p.run source rule full).Keeps (Tracker.inText source).toCourse (fun _ => True) ((Tracker.inText source).failed .start) :=
  have empty {node : Node} {c : Cursor} (_ : node ∈ p.table.nodes) (placed : c.From source 0) (_ : node.body = .sum []) :
      ∀ t, (Tracker.inText source).failed c ((Furthest.start c.pos).ofChoice node.label) t := fun _ => ⟨Int.le_refl _,placed.2⟩
  run_moving empty (fun _ _ => {}) (fun _ => trivial) trivial rule full

/-- A tracker that is off has nothing to report in place of the failure. -/
theorem run_untracked (p : Parser Node) (source : Source) (rule : String) (full : Bool) :
    (p.run source rule full (Tracker.new false)).2.furthest = .start (-1) :=
  (run_told p source rule full false).1.furthest

theorem attempt_further (table : NodeTable) (limit : Int) (source : Source) (rule : String) (full : Bool) :
    ParseFault.Further ((⟨table,true,limit⟩ : Parser Node).attempt source rule full).value
      ((⟨table,false,limit⟩ : Parser Node).attempt source rule full).value := by
  let p : Parser Node := ⟨table,true,limit⟩
  show ParseFault.Further (p.attempt source rule full).value ((⟨table,false,limit⟩ : Parser Node).attempt source rule full).value
  unfold attempt
  by_cases absent : (!table.contains rule) = true
  · rw [if_pos absent,if_pos absent]
    exact .same nofun
  rw [if_neg absent,if_neg absent]
  by_cases large : greatestLimit < limit
  · rw [if_pos large,if_pos large]
    exact .same nofun
  rw [if_neg large,if_neg large]
  -- neither the frames nor the table of a parser depend on whether failures are tracked
  show ParseFault.Further (answer source rule (p.run source rule full (.new true))).value
    (answer source rule (p.run source rule full (.new false))).value
  have outcome := p.run_unobserved source rule full (Tracker.new true) (Tracker.new false)
  have off := p.run_untracked source rule full
  obtain ⟨led,ended⟩ := p.run_inText source rule full (.new true)
  have low : (Furthest.start (-1)).pos ≤ source.length := Int.le_trans (by decide) (Int.natCast_nonneg _)
  have inside := led low
  generalize p.run source rule full (Tracker.new true) = e at outcome inside ended ⊢
  generalize p.run source rule full (Tracker.new false) = e' at outcome off ⊢
  obtain ⟨o,t⟩ := e
  obtain ⟨o',t'⟩ := e'
  cases (outcome : o = o')
  cases o with
  | matched x => exact .same nofun
  | halted h => cases h <;> exact .same nofun
  | failed f =>
    obtain ⟨nonneg,inText⟩ := ended
    have behind : t'.furthest.pos < f.pos := by
      rw [off]
      exact Int.lt_of_lt_of_le (by decide) nonneg
    obtain ⟨shown,reported⟩ := report_isOk nonneg inText inside
    obtain ⟨shown',reported'⟩ : ∃ shown', report source f t'.furthest = .ok shown' := report_isOk nonneg inText (off ▸ low)
    rw [answer,answer,reported,reported']
    refine .report ?_
    rw [report_pos reported,report_pos reported',Int.max_eq_right (Int.le_of_lt behind)]
    exact Int.le_max_right t.furthest.pos f.pos

/-- Whatever state a tracker is in when a call begins, the call ends in the same way, and a muted tracker
keeps its place and labels. So a parse comes to the same value, rest, fault or failure with failures tracked
and without, and the report of a tracked parse is not of a place before that of the other. -/
theorem diagnostics_inert (table : NodeTable) :
    (∀ (source : Source) (frames : Nat) (active : List Entry) (atomic : Bool) (name : String) (c : Cursor) (t t' : Tracker),
      ((table.calls source frames active).call atomic name c t).1 = ((table.calls source frames active).call atomic name c t').1 ∧
      (0 < t.muted → ((table.calls source frames active).call atomic name c t).2.furthest = t.furthest)) ∧
    ∀ (limit : Int) (rule text : String),
      ParseFault.Further ((⟨table,true,limit⟩ : Parser Node).parse rule text).value
        ((⟨table,false,limit⟩ : Parser Node).parse rule text).value ∧
      ParseFault.Further ((⟨table,true,limit⟩ : Parser Node).parsePrefix rule text).value
        ((⟨table,false,limit⟩ : Parser Node).parsePrefix rule text).value := by
  constructor
  · intro source frames active atomic name c t t'
    have alike : Calls.Alike (unobserved Tracker Tracker) Eq _ _ atomic atomic :=
      NodeTable.calls_unobserved table source frames active atomic
    have called := (alike.call name c c rfl).mono fun _ _ => NodeTable.Answers.eq
    exact ⟨Run.outcome_eq called t t',((Tracker.calls_steady table source frames active atomic).call name c trivial t).1.2.2⟩
  · intro limit rule text
    exact ⟨(attempt_further table limit _ rule true).map _,(attempt_further table limit _ rule false).map _⟩

def lone : NodeTable := ⟨[⟨"letter","letter",.terminal (.literal "a")⟩],by decide⟩

theorem lone_inert : (0 : Int) < 1 ∧
    ((lone.calls (.ofString "b") 9 []).call false "letter" .start (⟨true,1,.start (-1)⟩ : Tracker)).2.furthest = .start (-1) ∧
    ParseFault.Further ((⟨lone,true,defaultLimit⟩ : Parser Node).parse "letter" "b").value
      ((⟨lone,false,defaultLimit⟩ : Parser Node).parse "letter" "b").value :=
  ⟨by decide,((diagnostics_inert lone).1 (.ofString "b") 9 [] false "letter" .start ⟨true,1,.start (-1)⟩ (.new true)).2 (by decide),
    ((diagnostics_inert lone).2 defaultLimit "letter" "b").1⟩

end Parser

end TypedPeg
