import TypedPeg.Proofs.Match.Diagnostics
import TypedPeg.Proofs.Match.Sealing

/-! Parsing all of a text is matching at its start and then one more step, which fails unless the end has
been reached. So the two agree: in the value if nothing is left, and in every fault of the first; and if
text is left the second fails where the value ends, or its report is of a place further on. -/
namespace TypedPeg

theorem Source.slice_all (text : String) : (ofString text).slice 0 (ofString text).length = text := by
  have whole : (ofString text).sliceChars 0 (ofString text).length = text.toList := by
    rw [sliceChars,clip_inside (Int.le_refl 0) (Int.natCast_nonneg _),clip_inside (Int.natCast_nonneg _) (Int.le_refl _)]
    simp [ofString,length]
  rw [slice,whole,String.ofList_toList]

namespace Cursor

variable {source : Source} {c : Cursor}

theorem rest_eq_empty (inside : c.From source 0) : c.rest source = "" ↔ c.atEnd source = true := by
  have size := Source.length_sliceChars inside.1 inside.2 inside.2
  rw [Int.toNat_natCast,Nat.min_self] at size
  rw [rest,Source.slice,String.ofList_eq_empty_iff,← List.length_eq_zero_iff,size,atEnd,decide_eq_true_eq]
  have nonneg := inside.1
  omega

/-- What is behind the cursor and what is ahead of it make up the text. -/
theorem text_append_rest {text : String} {span : Span} (inside : c.From (.ofString text) 0) (covered : span = start.spanTo c) :
    span.text (.ofString text) ++ c.rest (.ofString text) = text := by
  rw [covered]
  exact (Source.slice_append (Int.le_refl 0) inside.1 inside.2).trans (Source.slice_all text)

end Cursor

namespace Parser

section Run
variable {σ : Type} [Observer σ] (p : Parser Node) (source : Source) (rule : String)

theorem run_first : (p.run source rule false : Run σ _) = (p.table.calls source p.frames []).call false rule .start := by
  funext s
  unfold run fromStart
  rw [Run.bind_apply]
  generalize (p.table.calls source p.frames []).call false rule .start s = e
  obtain ⟨_ | _ | _,t⟩ := e <;> rfl

/-- Matching against all of a text is matching at its start, and a failure if text is left. -/
theorem run_whole : (p.run source rule true : Run σ _) = p.run source rule false >>= fun x =>
    if x.1.atEnd source then pure x else .fail (incomplete x.1.pos) := by
  rw [run_first]
  funext s
  unfold run fromStart
  rw [Run.bind_apply,Run.bind_apply]
  generalize (p.table.calls source p.frames []).call false rule .start s = e
  obtain ⟨⟨after,v⟩ | _ | _,t⟩ := e
  · cases reached : after.atEnd source <;> simp [reached]
  · rfl
  · rfl

variable {p source rule}

/-- The value of a match is of the text from the start to where the match ends. -/
theorem run_matched {s : σ} {after : Cursor} {v : Value} (matched : (p.run source rule false s).1 = .matched (after,v)) :
    after.From source 0 ∧ v.span = Cursor.start.spanTo after := by
  rw [run_first] at matched
  have nears := ((NodeTable.calls_nearing p.table source p.frames [] false).of_call trivial matched).2.1
  exact ⟨nears.from Cursor.from_start.2,((NodeTable.calls_spanning p.table source p.frames [] false).of_call trivial matched).2.2⟩

end Run

variable {p : Parser Node} {source : Source} {rule : String}

/-- A failure that the tracker has not passed over is behind the report of it, or its labels are there. -/
theorem report_within {f : Failure} {far : Furthest} {shown : ParseReport} (reported : report source f far = .ok shown)
    (within : f.pos ≤ far.pos → (Furthest.ofFailure f).Within far) : (Furthest.ofFailure f).Within ⟨shown.pos,shown.expected⟩ := by
  rw [report_ok reported]
  split
  · rename_i reached
    exact within reached
  · exact .refl _

/-- Where text is left the report is of what is left, or of a place further on. -/
theorem report_incomplete {after : Cursor} {v : Value} {t : Tracker}
    (ran : p.run source rule false (.new p.tracked) = (.matched (after,v),t)) :
    ∃ shown, report source (incomplete after.pos) (t.note (incomplete after.pos)).furthest = .ok shown ∧
      (Furthest.ofFailure (incomplete after.pos)).Within ⟨shown.pos,shown.expected⟩ := by
  obtain ⟨⟨nonneg,inText⟩,-⟩ := run_matched (congrArg Prod.fst ran)
  have low : t.furthest.pos ≤ source.length := by
    have led := (p.run_inText source rule false (.new p.tracked)).1
    rw [ran] at led
    exact led (Int.le_trans (by decide : (-1 : Int) ≤ 0) (Int.natCast_nonneg _))
  rcases t.note_cases (incomplete after.pos) with ⟨-,same⟩ | ⟨unheard,same⟩
  · rw [same]
    obtain ⟨shown,reported⟩ := report_isOk (f := incomplete after.pos) nonneg inText
      (Furthest.pos_note_between (f := incomplete after.pos) (Int.le_refl _) low inText).2
    exact ⟨shown,reported,report_within reported fun _ => Furthest.ofFailure_within_note _ _⟩
  · rw [same]
    -- the mutes have all been undone, so the tracker is off
    have untracked : p.tracked = false := by
      have led := ((Tracker.calls_steady p.table source p.frames [] false).call rule .start trivial (.new p.tracked)).1
      rw [← run_first,ran] at led
      rw [← Bool.not_eq_true]
      exact fun on => unheard ⟨led.1.trans on,Int.le_of_eq led.2.1⟩
    have off : t.furthest = .start (-1) := by
      have untold := p.run_untracked source rule false
      rw [untracked] at ran
      rwa [ran] at untold
    obtain ⟨shown,reported⟩ := report_isOk (f := incomplete after.pos) nonneg inText low
    refine ⟨shown,reported,report_within reported fun reached => ?_⟩
    rw [off] at reached
    exact absurd (Int.le_trans nonneg reached) (by decide)

/-- What a parse of all of a text comes to, by what the match at its start does. -/
inductive Finishes (source : Source) : Logged (Except ParseFault (Cursor × Value)) → Logged (Except ParseFault (Cursor × Value)) → Prop
  | fault {e log} : Finishes source ⟨.error e,log⟩ ⟨.error e,log⟩
  | reached {after v log} (inside : after.From source 0) (span : v.span = Cursor.start.spanTo after) (done : after.atEnd source = true) :
      Finishes source ⟨.ok (after,v),log⟩ ⟨.ok (after,v),log⟩
  | short {after v log log'} {shown : ParseReport} (inside : after.From source 0) (span : v.span = Cursor.start.spanTo after)
      (more : after.atEnd source = false) (within : (Furthest.ofFailure (incomplete after.pos)).Within ⟨shown.pos,shown.expected⟩) :
      Finishes source ⟨.ok (after,v),log⟩ ⟨.error (.unmatched shown (incomplete after.pos)),log'⟩

theorem answer_finishes (p : Parser Node) (source : Source) (rule : String) :
    Finishes source (answer source rule (p.run source rule false (.new p.tracked)))
      (answer source rule (p.run source rule true (.new p.tracked))) := by
  rw [run_whole,Run.bind_apply]
  rcases ran : p.run source rule false (Tracker.new p.tracked) with ⟨⟨after,v⟩ | f | h,t⟩
  · obtain ⟨inside,span⟩ := run_matched (congrArg Prod.fst ran)
    dsimp only
    split
    · rename_i done
      exact .reached inside span done
    · rename_i more
      obtain ⟨shown,reported,within⟩ := report_incomplete ran
      show Finishes source ⟨.ok (after,v),[]⟩ (answer source rule (.failed (incomplete after.pos),t.note (incomplete after.pos)))
      simp only [answer,reported]
      exact .short inside span (Bool.not_eq_true _ ▸ more) within
  · simp only [answer]
    split <;> exact .fault
  · cases h <;> exact .fault

theorem attempt_finishes (p : Parser Node) (source : Source) (rule : String) :
    Finishes source (p.attempt source rule false) (p.attempt source rule true) := by
  unfold attempt
  split
  · exact .fault
  · split
    · exact .fault
    · exact p.answer_finishes source rule

/-- A rule matches all of a text just when matching it at the start leaves nothing, and then with the same value. The value
of a match at the start is of the text up to what is left. If text is left, parsing all of it fails there, and the
report is of that place, with the end of input among what was expected, or of one further on. Any other fault is
the same in both. -/
theorem whole_agrees (p : Parser Node) (rule text : String) :
    (∀ v, (p.parse rule text).value = .ok v ↔ (p.parsePrefix rule text).value = .ok ("",v)) ∧
    (∀ rest v, (p.parsePrefix rule text).value = .ok (rest,v) → v.span.start = 0 ∧ v.span.text (.ofString text) ++ rest = text ∧
      (rest ≠ "" → ∃ shown, (p.parse rule text).value = .error (.unmatched shown (incomplete v.span.stop)) ∧ v.span.stop ≤ shown.pos ∧
        (shown.pos = v.span.stop → "EOI" ∈ shown.expected))) ∧
    ∀ fault, (p.parsePrefix rule text).value = .error fault → (p.parse rule text).value = .error fault := by
  unfold parse parsePrefix
  dsimp only
  have finishes := p.attempt_finishes (.ofString text) rule
  generalize p.attempt (.ofString text) rule false = first at finishes ⊢
  generalize p.attempt (.ofString text) rule true = whole at finishes ⊢
  cases finishes with
  | fault =>
    refine ⟨fun v => ⟨nofun,nofun⟩,nofun,fun fault same => ?_⟩
    cases same
    rfl
  | @reached after v log inside span done =>
    have nothing : after.rest (.ofString text) = "" := (Cursor.rest_eq_empty inside).2 done
    refine ⟨fun w => ?_,?_,nofun⟩
    · show Except.ok v = .ok w ↔ Except.ok (after.rest _,v) = .ok ("",w)
      rw [nothing,Except.ok.injEq,Except.ok.injEq,Prod.mk.injEq,eq_self,true_and]
    · intro rest w same
      cases same
      exact ⟨congrArg Span.start span,Cursor.text_append_rest inside span,fun left => absurd nothing left⟩
  | @short after v log log' shown inside span more within =>
    have left : after.rest (.ofString text) ≠ "" := by
      rw [Ne,Cursor.rest_eq_empty inside,more]
      exact Bool.false_ne_true
    have stop : v.span.stop = after.pos := congrArg Span.stop span
    refine ⟨fun w => ⟨nofun,fun same => absurd (Prod.mk.inj (Except.ok.inj same)).1 left⟩,?_,nofun⟩
    · intro rest w same
      cases same
      refine ⟨congrArg Span.start span,Cursor.text_append_rest inside span,fun _ => ?_⟩
      rw [stop]
      exact ⟨shown,rfl,within.1,fun there => within.2 there.symm List.mem_cons_self⟩

theorem lone_agrees : (("b" : String) ≠ "") ∧ ∃ shown, ((⟨lone,true,defaultLimit⟩ : Parser Node).parse "letter" "ab").value =
    .error (.unmatched shown (incomplete 1)) ∧ 1 ≤ shown.pos := by
  have first : ((⟨lone,true,defaultLimit⟩ : Parser Node).parsePrefix "letter" "ab").value = .ok ("b",.leaf "letter" ⟨0,1⟩ (some "a")) := by
    have ran : (⟨lone,true,defaultLimit⟩ : Parser Node).run (.ofString "ab") "letter" false (Tracker.new true) =
        (.matched (⟨1,[]⟩,.leaf "letter" ⟨0,1⟩ (some "a")),.new true) := by decide +kernel
    have known : lone.contains "letter" = true := by decide +kernel
    rw [parsePrefix,attempt,known,if_neg (by decide),if_neg (by decide),ran]
    rfl
  have left : ("b" : String) ≠ "" := by decide
  obtain ⟨-,-,unconsumed⟩ := (whole_agrees ⟨lone,true,defaultLimit⟩ "letter" "ab").2.1 "b" _ first
  obtain ⟨shown,fails,reached,-⟩ := unconsumed left
  exact ⟨left,shown,fails,reached⟩

end Parser

end TypedPeg
