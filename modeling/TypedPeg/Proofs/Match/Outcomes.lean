import TypedPeg.Proofs.Match.Report
import TypedPeg.Proofs.Run.Ends

/-! What a parse can end in. A failure has a place in the text and labels, each once; merging and
relabelling failures keeps this, and the tracker has nothing else to merge. So whatever cannot be
shown with line, column and labels is a fault of the grammar. -/
namespace TypedPeg

namespace FirstSeen

theorem addAll_ne_nil {α : Type} [DecidableEq α] {seen new : List α} (some : seen ≠ [] ∨ new ≠ []) : addAll seen new ≠ [] := by
  rcases some with some | some
  · obtain ⟨a,member⟩ := List.exists_mem_of_ne_nil _ some
    exact List.ne_nil_of_mem (mem_addAll.2 (.inl member))
  · obtain ⟨a,member⟩ := List.exists_mem_of_ne_nil _ some
    exact List.ne_nil_of_mem (mem_addAll.2 (.inr member))

end FirstSeen

namespace Furthest

/-- A place not beyond the text, with labels, each once; before the text nothing need be expected. -/
structure Showable (far : Furthest) (source : Source) : Prop where
  inside : far.pos ≤ source.length
  labelled : 0 ≤ far.pos → far.expected ≠ []
  nodup : far.expected.Nodup

variable {far : Furthest} {f : Failure} {source : Source} {base : Int}

theorem showable_start : (start (-1)).Showable source where
  inside := Int.le_trans (by decide) (Int.natCast_nonneg _)
  labelled inText := absurd inText (by decide)
  nodup := List.nodup_nil

theorem Showable.ofList (failed : (ofFailure f).Showable source) : (⟨f.pos,FirstSeen.ofList f.expected⟩ : Furthest).Showable source :=
  ⟨failed.inside,fun inText => FirstSeen.addAll_ne_nil (.inr (failed.labelled inText)),FirstSeen.nodup_addAll List.nodup_nil _⟩

theorem Showable.note (showable : far.Showable source) (failed : (ofFailure f).Showable source) : (far.note f).Showable source := by
  rcases Int.lt_trichotomy far.pos f.pos with further | same | behind
  · rw [Furthest.note,if_pos further]
    exact failed.ofList
  · rw [note_of_eq same.symm]
    exact ⟨showable.inside,fun inText => FirstSeen.addAll_ne_nil (.inl (showable.labelled inText)),FirstSeen.nodup_addAll showable.nodup _⟩
  · rw [note_of_gt behind]
    exact showable

/-- Nothing is expected where noting begins, but the first failure noted is there or further on. -/
theorem showable_begun (ahead : base ≤ f.pos) (failed : (ofFailure f).Showable source) : ((start base).note f).Showable source := by
  rcases Int.lt_or_eq_of_le ahead with further | same
  · rw [Furthest.note,if_pos (show (start base).pos < f.pos from further)]
    exact failed.ofList
  · subst same
    rw [note_of_eq rfl]
    exact failed.ofList

end Furthest

def Tracker.showing (source : Source) : Account Tracker (Manner.moving source) where
  leads s t := s.furthest.Showable source → t.furthest.Showable source
  refl _ := id
  trans first second := second ∘ first
  visit _ _ _ := id
  hushed led := led
  halts := Halt.CutShort
  failed c f _ := c.pos ≤ f.pos ∧ (Furthest.ofFailure f).Showable source
  lasting failed _ := failed
  tells _ labels := ∃ label, labels = [label]
  told {c kind labels} placed tells msg t := by
    obtain ⟨label,rfl⟩ := tells
    have failed : (Furthest.ofFailure ⟨kind,msg,c.pos,[label]⟩).Showable source :=
      ⟨placed.2,fun _ => List.cons_ne_nil _ _,List.nodup_cons.2 ⟨List.not_mem_nil,List.nodup_nil⟩⟩
    refine ⟨fun showable => ?_,Int.le_refl _,failed⟩
    show (t.note _).furthest.Showable source
    rcases t.note_cases ⟨kind,msg,c.pos,[label]⟩ with ⟨_,same⟩ | ⟨_,same⟩
    · rw [same]
      exact showable.note failed
    · rw [same]
      exact showable
  behind moved failed := ⟨Int.le_trans moved.1 failed.1,failed.2⟩
  relabelled msg failed :=
    ⟨Int.le_refl _,Int.le_trans failed.1 failed.2.inside,fun inText => failed.2.labelled (Int.le_trans inText failed.1),failed.2.nodup⟩
  begun {c f t} label failed := ⟨(Furthest.within_note (.start c.pos) f).1,Furthest.showable_begun failed.1 failed.2⟩
  noted {c far f t} label known failed := ⟨Int.le_trans known.1 (Furthest.within_note far f).1,Furthest.Showable.note known.2 failed.2⟩

theorem Node.permitted_showing {node : Node} (regular : node.body.Regular) (source : Source) :
    node.Permitted source (Tracker.showing source) where
  terminal _ failed := by
    obtain ⟨kind,msg,shown,rfl,-⟩ := Terminal.move_error failed
    exact ⟨shown,rfl⟩
  negative _ := ⟨_,rfl⟩
  declared body := by
    rw [body] at regular
    exact regular.elim

theorem expectation_ne {labels : List String} (some : labels ≠ []) : expectation labels ≠ "unexpected input" := by
  have worded : ∃ more, expectation labels = "expected " ++ more := by
    cases labels with
    | nil => exact (some rfl).elim
    | cons first rest =>
      cases rest with
      | nil => exact ⟨first,rfl⟩
      | cons second rest => exact ⟨_,by rw [expectation,String.append_assoc,String.append_assoc]⟩
  obtain ⟨more,same⟩ := worded
  rw [same]
  intro unexpected
  have heads := congrArg (fun s => s.toList.head?) unexpected
  rw [String.toList_append] at heads
  cases heads

/-- The report tells a place in the text, with its line and column, and what was expected there. -/
structure ParseReport.WellFormed (shown : ParseReport) (source : Source) : Prop where
  nonneg : 0 ≤ shown.pos
  inside : shown.pos ≤ source.length
  located : ∃ place, (LineTable.ofSource source).locate shown.pos = .ok place ∧ shown.line = place.line ∧ shown.column = place.column
  labelled : shown.expected ≠ []
  nodup : shown.expected.Nodup
  worded : shown.msg = expectation shown.expected
  definite : shown.msg ≠ "unexpected input"

/-- The grammar is at fault: the rule is not there, or matching it calls itself without end or too deeply. -/
def ParseFault.OfGrammar : ParseFault → Prop
  | .noRule _ | .leftRecursion _ _ | .nestedTooDeeply _ => True
  | _ => False

/-- A value, a fault of the grammar, or a report that is well formed. -/
def ParseFault.Documented {α : Type} (source : Source) : Except ParseFault α → Prop
  | .ok _ => True
  | .error (.unmatched shown _) => shown.WellFormed source
  | .error fault => fault.OfGrammar

theorem ParseFault.documented_map {α β : Type} {source : Source} {ended : Except ParseFault α} (f : α → β) :
    Documented source (ended.map f) ↔ Documented source ended := by
  cases ended with
  | ok a => exact Iff.rfl
  | error fault => cases fault <;> exact Iff.rfl

namespace Parser

theorem report_wellFormed {source : Source} {f : Failure} {far : Furthest} (failed : (Furthest.ofFailure f).Showable source)
    (inText : 0 ≤ f.pos) (showable : far.Showable source) : ∃ shown, report source f far = .ok shown ∧ shown.WellFormed source := by
  have seen : ∃ seen : Furthest, (if f.pos ≤ far.pos then far else ⟨f.pos,f.expected⟩) = seen ∧ seen.Showable source ∧ 0 ≤ seen.pos := by
    split
    · rename_i reached
      exact ⟨far,rfl,showable,Int.le_trans inText reached⟩
    · exact ⟨.ofFailure f,rfl,failed,inText⟩
  obtain ⟨seen,chosen,showable,nonneg⟩ := seen
  have located : ∃ place, (LineTable.ofSource source).locate seen.pos = .ok place := by
    have inside : ¬(seen.pos < 0 ∨ ((LineTable.ofSource source).length : Int) < seen.pos) := by
      have := showable.inside
      simp only [LineTable.ofSource]
      omega
    rw [LineTable.locate,if_neg inside]
    exact ⟨_,rfl⟩
  obtain ⟨place,located⟩ := located
  refine ⟨⟨expectation seen.expected,seen.pos,place.line,place.column,seen.expected⟩,?_,?_⟩
  · unfold report
    dsimp only
    rw [chosen,located]
    rfl
  · exact ⟨nonneg,showable.inside,⟨place,located,rfl,rfl⟩,showable.labelled nonneg,showable.nodup,rfl,
      expectation_ne (showable.labelled nonneg)⟩

variable {p : Parser Node}

theorem run_showing (regular : ∀ node ∈ p.table.nodes, node.body.Regular) (source : Source) (rule : String) (full : Bool) :
    (p.run source rule full).Keeps (Tracker.showing source).toCourse (fun _ => True) ((Tracker.showing source).failed .start) :=
  run_moving (fun member _ none => absurd none (regular _ member).ne_sum_nil)
    (fun node member => Node.permitted_showing (regular node member) source) (fun _ => ⟨_,rfl⟩) ⟨_,rfl⟩ rule full

theorem attempt_documented (regular : ∀ node ∈ p.table.nodes, node.body.Regular) (source : Source) (rule : String) (full : Bool)
    (usable : p.limit ≤ greatestLimit ∨ p.table.contains rule = false) :
    ParseFault.Documented source (p.attempt source rule full).value := by
  unfold attempt
  split
  · exact trivial
  · rename_i known
    split
    · rename_i large
      rcases usable with small | unknown
      · exact absurd large (Int.not_lt.2 small)
      · rw [unknown] at known
        exact (known rfl).elim
    · obtain ⟨showable,ended⟩ := run_showing regular source rule full (.new p.tracked)
      generalize p.run source rule full (Tracker.new p.tracked) = e at showable ended ⊢
      obtain ⟨o,t⟩ := e
      cases o with
      | matched x => exact trivial
      | halted h =>
        cases h with
        | leftRecursion name pos => exact trivial
        | tooDeep => exact trivial
        | notRunnable => exact ended.elim
        | misfit m => exact ended.elim
      | failed f =>
        obtain ⟨shown,reported,formed⟩ := report_wellFormed ended.2 ended.1 (showable Furthest.showable_start)
        show ParseFault.Documented source (answer source rule (.failed f,t)).value
        rw [answer,reported]
        exact formed

theorem attempt_oversized {rule : String} (large : greatestLimit < p.limit) (known : p.table.contains rule = true) (source : Source)
    (full : Bool) : (p.attempt source rule full).value = .error .limitTooLarge := by
  rw [attempt,known,if_neg (by decide),if_pos large]

theorem attempt_usable {rule : String} (usable : p.limit ≤ greatestLimit) (known : p.table.contains rule = true) (source : Source)
    (full : Bool) : p.attempt source rule full = answer source rule (p.run source rule full (.new p.tracked)) := by
  rw [attempt,known,if_neg (by decide),if_neg (Int.not_lt.2 usable)]

/-- A parse by the table of a grammar, valid or not, tracked or not, ends in a value, in a fault of the grammar
or in a well-formed report, unless a rule it has is to be matched with more frames than there can
be: then it does not begin. -/
theorem parses_documented {rules : List Rule} {strict : Bool} (built : (NodeTable.ofRules rules strict).value = .ok p.table)
    (rule text : String) :
    (p.limit ≤ greatestLimit ∨ p.table.contains rule = false →
      ParseFault.Documented (.ofString text) (p.parse rule text).value ∧
        ParseFault.Documented (.ofString text) (p.parsePrefix rule text).value) ∧
    (greatestLimit < p.limit ∧ p.table.contains rule = true →
      (p.parse rule text).value = .error .limitTooLarge ∧ (p.parsePrefix rule text).value = .error .limitTooLarge) := by
  have regular (node : Node) (member : node ∈ p.table.nodes) : node.body.Regular := NodeTable.regular_of_ofRules built member
  constructor
  · intro usable
    have ended (full : Bool) := attempt_documented regular (.ofString text) rule full usable
    exact ⟨(ParseFault.documented_map _).2 (ended true),(ParseFault.documented_map _).2 (ended false)⟩
  · intro oversized
    have ended (full : Bool) := attempt_oversized oversized.1 oversized.2 (.ofString text) full
    exact ⟨by rw [parse,ended true]; rfl,by rw [parsePrefix,ended false]; rfl⟩

def letter : List Rule := [⟨"letter",.normal,.literal "a"⟩]

def letterTable : NodeTable := (NodeTable.ofRules letter true).value.toOption.getD .empty

def letterParser (limit : Int) : Parser Node := ⟨letterTable,true,limit⟩

theorem letter_documented : (NodeTable.ofRules letter true).value = .ok letterTable ∧
    (∃ shown cause, ((letterParser defaultLimit).parse "letter" "b").value = .error (.unmatched shown cause) ∧
      shown.WellFormed (.ofString "b")) ∧
    ((letterParser (greatestLimit + 1)).parse "letter" "a").value = .error .limitTooLarge := by
  have built : (NodeTable.ofRules letter true).value = .ok letterTable := NodeTable.ofRules_of_isOk (by decide +kernel)
  have known : letterTable.contains "letter" = true := by decide +kernel
  have ran : (letterParser defaultLimit).run (.ofString "b") "letter" true (Tracker.new true) =
      (.failed ⟨.literal,"literal mismatch",0,["\"a\""]⟩,⟨true,0,⟨0,["\"a\""]⟩⟩) := by decide +kernel
  have failed : ((letterParser defaultLimit).parse "letter" "b").value =
      .error (.unmatched ⟨"expected \"a\"",0,1,1,["\"a\""]⟩ ⟨.literal,"literal mismatch",0,["\"a\""]⟩) := by
    rw [parse,attempt,letterParser,known,if_neg (by decide),if_neg (by decide)]
    show Except.map _ (answer _ _ ((letterParser defaultLimit).run (.ofString "b") "letter" true (Tracker.new true))).value = _
    rw [ran]
    rfl
  have documented := ((parses_documented (p := letterParser defaultLimit) built "letter" "b").1 (.inl (by decide))).1
  rw [failed] at documented
  have oversized := ((parses_documented (p := letterParser (greatestLimit + 1)) built "letter" "a").2 ⟨by decide,known⟩).1
  exact ⟨built,⟨_,_,failed,documented⟩,oversized⟩

/-- With one frame more than there can be a parse of the text that the rule stands for ends otherwise. -/
theorem letter_oversized : (NodeTable.ofRules letter true).value = .ok letterTable ∧
    ¬ParseFault.Documented (.ofString "a") ((letterParser (greatestLimit + 1)).parse "letter" "a").value := by
  have known : letterTable.contains "letter" = true := by decide +kernel
  refine ⟨NodeTable.ofRules_of_isOk (by decide +kernel),?_⟩
  rw [parse,attempt_oversized (by decide) known]
  exact id

end Parser

end TypedPeg
