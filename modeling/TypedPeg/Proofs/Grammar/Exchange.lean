import TypedPeg.Proofs.Grammar.Declared

/-! Grammars written as records and read back. What is written of an expression or a rule is read as just that. A
record whose fields hold what they are declared to hold is read if nothing is missing from it or from the records
below it, and is written as it was except for what is not declared. -/
namespace TypedPeg

theorem exists_forall₂_iff {α β : Type} {R : α → β → Prop} {l : List α} :
    (∃ results, List.Forall₂ R l results) ↔ ∀ a ∈ l, ∃ b, R a b := by
  induction l with
  | nil => exact iff_of_true ⟨[],.nil⟩ nofun
  | cons a rest ih =>
    rw [List.forall_mem_cons,← ih]
    constructor
    · rintro ⟨results,all⟩
      obtain ⟨b,others,one,tail,-⟩ := List.forall₂_cons_left_iff.1 all
      exact ⟨⟨b,one⟩,others,tail⟩
    · rintro ⟨⟨b,one⟩,results,others⟩
      exact ⟨b :: results,.cons one others⟩

namespace Fields

variable {fields : Fields} {form : Form} {parts : List Draft}

/-- Reading comes to a draft of some sort, just if nothing is missing; it is written as the record, as far as that is declared. -/
structure Faithful (fields : Fields) (sort : Draft → Prop) : Prop where
  sound : ∀ x, Draft.read (.object fields) = .ok x → sort x ∧ x.toDatum.Alike (Datum.object fields).declared
  reads : (∃ x, Draft.read (.object fields) = .ok x) ↔ fields.Complete

theorem ofPart_plain {content : Content} {d : Datum} (admitted : content.admits d = true) (record : content ≠ .record)
    (word : content ≠ .word) : Draft.ofPart d = .ok (.plain d) := by
  cases d with
  | object fields =>
    cases content with
    | record => exact (record rfl).elim
    | word => exact (word rfl).elim
    | text | int | limit | texts => cases admitted
  | null | bool | int | float | text | list => rfl

theorem object_of_record {d : Datum} (admitted : Content.record.admits d = true) : ∃ part, d = .object part := by
  cases d with
  | object part => exact ⟨part,rfl⟩
  | null | bool | int | float | text | list => cases admitted

section Step
variable (typed : fields.Typed) (known : fields.type? = some (.expr form)) (below : ∀ part ∈ fields.parts, part.Faithful Draft.IsExpr)

include typed known below

theorem reads_of_get (got : List.Forall₂ (fun p part => fields.get p.1 = .ok part) (RecordType.contents (.expr form)) parts) :
    Draft.Reads fields (RecordType.contents (.expr form)) parts := by
  have among := (List.forall₂_and_left (p := (· ∈ RecordType.contents (.expr form))) _ _).2 ⟨fun _ => id,got⟩
  refine among.imp fun p part ⟨member,here⟩ => ?_
  obtain ⟨d,found,came⟩ := get_eq_ok.1 here
  have member' : p ∈ fields.contents := (contents_eq known).symm ▸ member
  have admitted := typed p member' d found
  refine ⟨d,found,admitted,fun simple => ?_,fun record => ?_⟩
  · rw [ofPart_plain admitted simple (contents_exprs form p member)] at came
    exact (Except.ok.inj came).symm
  · obtain ⟨field,content⟩ := p
    cases record
    obtain ⟨inner,rfl⟩ := object_of_record admitted
    exact (below inner (mem_parts.2 ⟨field,member',found⟩)).sound part came

theorem get_of_complete (complete : fields.Complete) {p : String × Content} (member : p ∈ RecordType.contents (.expr form)) :
    ∃ part, fields.get p.1 = .ok part := by
  obtain ⟨filled,complete⟩ := complete_iff.1 complete
  have member' : p ∈ fields.contents := (contents_eq known).symm ▸ member
  obtain ⟨d,found⟩ := Option.ne_none_iff_exists'.1 (filled.present p member')
  have admitted := typed p member' d found
  obtain ⟨field,content⟩ := p
  by_cases record : content = .record
  · subst record
    obtain ⟨inner,rfl⟩ := object_of_record admitted
    have inside := mem_parts.2 ⟨field,member',found⟩
    obtain ⟨x,came⟩ := (below inner inside).reads.2 (complete inner inside)
    exact ⟨x,get_eq_ok.2 ⟨_,found,came⟩⟩
  · exact ⟨_,get_eq_ok.2 ⟨d,found,ofPart_plain admitted record (contents_exprs form _ member)⟩⟩

end Step

theorem bounded_iff (known : fields.type? = some (.expr form)) (reads : Draft.Reads fields (RecordType.contents (.expr form)) parts) :
    Draft.checkBounds form parts = .ok () ↔ (fields.type? = some (.expr .range) →
      ∀ field ∈ Form.range.fields, ∀ t, fields.lookup field = some (.text t) → t.length = 1) := by
  by_cases range : form = .range
  · subst range
    obtain ⟨lo,hi,rfl,first,last⟩ := Draft.Reads.bounds reads
    rw [Draft.checkBounds_range]
    constructor
    · rintro ⟨low,high⟩ - field member t found
      rcases List.mem_pair.1 member with rfl | rfl
      · cases first.symm.trans found
        exact low
      · cases last.symm.trans found
        exact high
    · intro single
      exact ⟨single known "lo" (by decide) lo first,single known "hi" (by decide) hi last⟩
  · refine iff_of_true ?_ fun same => (range ?_).elim
    · cases form with
      | range => exact (range rfl).elim
      | _ => rfl
    · rw [known] at same
      cases same
      rfl

theorem faithful_of_parts (typed : fields.Typed) (known : fields.type? = some (.expr form))
    (below : ∀ part ∈ fields.parts, part.Faithful Draft.IsExpr) : fields.Faithful Draft.IsExpr where
  sound x came := by
    obtain ⟨parts,got,bounded,rfl⟩ := (read_expr_iff known).1 came
    have reads := reads_of_get typed known below got
    exact ⟨reads.expr bounded,expr_alike known reads⟩
  reads := by
    constructor
    · rintro ⟨x,came⟩
      obtain ⟨parts,got,bounded,rfl⟩ := (read_expr_iff known).1 came
      have reads := reads_of_get typed known below got
      have each : ∀ p ∈ fields.contents, ∃ part, fields.get p.1 = .ok part := by
        rw [contents_eq known]
        exact exists_forall₂_iff.1 ⟨parts,got⟩
      refine complete_iff.2 ⟨⟨?_,?_,(bounded_iff known reads).1 bounded⟩,fun part member => (below part member).reads.1 ?_⟩
      · rw [known]
        nofun
      · intro p member
        obtain ⟨part,here⟩ := each p member
        obtain ⟨d,found,-⟩ := get_eq_ok.1 here
        rw [found]
        nofun
      · obtain ⟨field,declared,found⟩ := mem_parts.1 member
        obtain ⟨x,here⟩ := each _ declared
        obtain ⟨d,found',came⟩ := get_eq_ok.1 here
        cases found.symm.trans found'
        exact ⟨x,came⟩
    · intro complete
      obtain ⟨parts,got⟩ := exists_forall₂_iff.2 fun p => get_of_complete typed known below complete
      have bounded := (bounded_iff known (reads_of_get typed known below got)).2 (complete fields .refl).single
      exact ⟨_,(read_expr_iff known).2 ⟨parts,got,bounded,rfl⟩⟩

theorem faithful_of_unknown (unknown : fields.type? = none) (sort : Draft → Prop) : fields.Faithful sort where
  sound x came := (read_unknown unknown x came).elim
  reads := iff_of_false (fun ⟨x,came⟩ => read_unknown unknown x came) fun complete => (complete fields .refl).known unknown

/-- The record of an expression is read, and what is read written, as it should be. -/
theorem Expressive.faithful {fields : Fields} (expressive : fields.Expressive) : fields.Faithful Draft.IsExpr := by
  obtain ⟨⟨typed,expr⟩,below⟩ := expressive_iff.1 expressive
  have parts : ∀ part ∈ fields.parts, part.Faithful Draft.IsExpr := fun part member =>
    have := sizeOf_part member
    (below part member).faithful
  cases known : fields.type? with
  | none => exact faithful_of_unknown known _
  | some type => cases type with
    | rule => exact (expr known).elim
    | expr form => exact faithful_of_parts typed known parts
termination_by sizeOf fields

theorem body_of_rule (typed : fields.Typed) (known : fields.type? = some .rule) {d : Datum} (found : fields.lookup "expr" = some d) :
    ∃ part, d = .object part ∧ part ∈ fields.parts := by
  have declared : ("expr",Content.record) ∈ fields.contents := by
    rw [contents_eq known]
    decide
  obtain ⟨part,rfl⟩ := object_of_record (typed _ declared d found)
  exact ⟨part,rfl,mem_parts.2 ⟨"expr",declared,found⟩⟩

theorem filled_rule_iff (known : fields.type? = some .rule) : fields.Filled ↔
    ∃ d name kind, fields.lookup "expr" = some d ∧ fields.lookup "name" = some name ∧ fields.lookup "kind" = some kind := by
  constructor
  · intro filled
    have present := filled.present
    rw [contents_eq known] at present
    obtain ⟨d,expr⟩ := Option.ne_none_iff_exists'.1 (present ("expr",.record) (by decide))
    obtain ⟨name,named⟩ := Option.ne_none_iff_exists'.1 (present ("name",.word) (by decide))
    obtain ⟨kind,kinded⟩ := Option.ne_none_iff_exists'.1 (present ("kind",.word) (by decide))
    exact ⟨d,name,kind,expr,named,kinded⟩
  · rintro ⟨d,name,kind,expr,named,kinded⟩
    refine ⟨?_,?_,?_⟩
    · rw [known]
      nofun
    · rw [contents_eq known]
      have there {field : String} {d : Datum} (found : fields.lookup field = some d) : fields.lookup field ≠ none := by
        rw [found]
        nofun
      exact List.forall_mem_cons.2 ⟨there expr,List.forall_mem_cons.2 ⟨there named,List.forall_mem_singleton.2 (there kinded)⟩⟩
    · rw [known]
      nofun

theorem faithful_of_body (typed : fields.Typed) (known : fields.type? = some .rule)
    (below : ∀ part ∈ fields.parts, part.Faithful Draft.IsExpr) : fields.Faithful Draft.IsRule where
  sound x came := by
    obtain ⟨d,body,name,kind,⟨expr,read⟩,named,kinded,rfl⟩ := (read_rule_iff known).1 came
    obtain ⟨part,rfl,member⟩ := body_of_rule typed known expr
    obtain ⟨⟨e,rfl⟩,alike⟩ := (below part member).sound body read
    exact ⟨⟨⟨name.word,.ofWord kind.word,e⟩,rfl⟩,rule_alike known expr alike named kinded⟩
  reads := by
    rw [complete_iff,filled_rule_iff known]
    constructor
    · rintro ⟨x,came⟩
      obtain ⟨d,body,name,kind,⟨expr,read⟩,named,kinded,rfl⟩ := (read_rule_iff known).1 came
      refine ⟨⟨d,name,kind,expr,named,kinded⟩,fun part member => (below part member).reads.1 ?_⟩
      -- the expression is the only part
      obtain ⟨field,declared,found⟩ := mem_parts.1 member
      rw [contents_eq known] at declared
      obtain rfl : field = "expr" := by simpa [RecordType.contents] using declared
      cases expr.symm.trans found
      exact ⟨body,read⟩
    · rintro ⟨⟨d,name,kind,expr,named,kinded⟩,complete⟩
      obtain ⟨part,rfl,member⟩ := body_of_rule typed known expr
      obtain ⟨x,read⟩ := (below part member).reads.2 (complete part member)
      exact ⟨_,(read_rule_iff known).2 ⟨_,x,name,kind,⟨expr,read⟩,named,kinded,rfl⟩⟩

theorem Proper.faithful {fields : Fields} (proper : fields.Proper) : fields.Faithful fun x => x.IsExpr ∨ x.IsRule := by
  have below : ∀ part ∈ fields.parts, part.Faithful Draft.IsExpr := fun part member => (proper.parts part member).faithful
  cases known : fields.type? with
  | none => exact faithful_of_unknown known _
  | some type => cases type with
    | rule =>
      have faithful := faithful_of_body proper.typed known below
      exact ⟨fun x came => (faithful.sound x came).imp_left .inr,faithful.reads⟩
    | expr form =>
      have faithful := faithful_of_parts proper.typed known below
      exact ⟨fun x came => (faithful.sound x came).imp_left .inl,faithful.reads⟩

end Fields

namespace Draft

/-- No rule is left in the record of an expression, so that it is all that is in it. -/
theorem toDatum?_partRecord (e : Expr) : e.toDraft.partRecord.toDatum? = some e.toDraft.toDatum := by
  induction e with
  | peek start stop => cases stop <;> rfl
  | seq lhs rhs left right | choice lhs rhs left right =>
    simp [Expr.toDraft,partRecord,partRecords,Form.fields,Record.toDatum?,fieldData?,toDatum,named,left,right]
  | opt inner ih | rep inner ih | followedBy inner ih | notFollowedBy inner ih | restore inner ih | push inner ih | tag inner name ih =>
    simp [Expr.toDraft,partRecord,partRecords,Form.fields,Record.toDatum?,fieldData?,toDatum,named,ih]
  | _ => rfl

theorem toRecord_toDraft (e : Expr) : e.toDraft.toRecord = .ok e.toDraft.partRecord := by
  cases e with
  | peek start stop => cases stop <;> rfl
  | _ => rfl

/-- Something is written that is plain data, and these are read as what was written. -/
def Survives (x : Draft) : Prop := ∃ r, x.toRecord = .ok r ∧ r.toDatum? = some x.toDatum ∧ read x.toDatum = .ok x

theorem IsExpr.survives {x : Draft} (expr : x.IsExpr) : x.Survives := by
  obtain ⟨e,rfl⟩ := expr
  exact ⟨_,toRecord_toDraft e,toDatum?_partRecord e,e.read_written⟩

theorem IsRule.survives {x : Draft} (rule : x.IsRule) : x.Survives := by
  obtain ⟨rule,rfl⟩ := rule
  refine ⟨.object [(typeField,.plain (.text ruleType)),("name",.plain (.text rule.name)),("kind",.plain (.text rule.kind.word)),
    ("expr",rule.expr.toDraft.partRecord)],?_,?_,rule.read_written⟩
  · rw [Rule.toDraft,toRecord,toRecord_toDraft]
    rfl
  · simp [Record.toDatum?,fieldData?,toDatum?_partRecord,Rule.toDraft,toDatum]

/-- What is written of an expression or a rule is read as just that. A record whose fields hold what they are declared
to hold, with no rule below it, is read just if every type in it is known, every field declared there and every bound
of a range one character. What is then written is the record without the fields that are not declared, in whatever
order, and is read as the same. -/
theorem records_survive :
    (∀ e : Expr, ∃ r d, e.toDraft.toRecord = .ok r ∧ r.toDatum? = some d ∧ read d = .ok e.toDraft) ∧
    (∀ rule : Rule, ∃ r d, rule.toDraft.toRecord = .ok r ∧ r.toDatum? = some d ∧ read d = .ok rule.toDraft) ∧
    ∀ fields : Fields, fields.Proper →
      (∀ x, read (.object fields) = .ok x → (x.IsExpr ∨ x.IsRule) ∧
        ∃ r d, x.toRecord = .ok r ∧ r.toDatum? = some d ∧ d.Alike (Datum.object fields).declared ∧ read d = .ok x) ∧
      ((∃ x, read (.object fields) = .ok x) ↔ fields.Complete) := by
  refine ⟨fun e => ?_,fun rule => ?_,fun fields proper => ?_⟩
  · obtain ⟨r,written⟩ := IsExpr.survives ⟨e,rfl⟩
    exact ⟨r,_,written⟩
  · obtain ⟨r,written⟩ := IsRule.survives ⟨rule,rfl⟩
    exact ⟨r,_,written⟩
  · have faithful := proper.faithful
    refine ⟨fun x came => ?_,faithful.reads⟩
    obtain ⟨sort,alike⟩ := faithful.sound x came
    obtain ⟨r,written,plain,read⟩ := sort.elim IsExpr.survives IsRule.survives
    exact ⟨sort,r,x.toDatum,written,plain,alike,read⟩

def digit : Fields := [("hi",.text "9"),("lo",.text "0"),("note",.list []),("_type",.text "Range")]

def digits : Fields := [("inner",.object digit),("_type",.text "Rep"),("text",.text "")]

def digitsRule : Fields := [("kind",.null),("expr",.object digits),("_type",.text "Rule"),("line",.float (7 / 2)),("name",.bool true)]

theorem digits_survive :
    let rule : Rule := ⟨"True",.ofWord "None",.rep (.range '0' '9')⟩
    digitsRule.Proper ∧ digitsRule.Complete ∧ read (.object digitsRule) = .ok rule.toDraft ∧
      ∃ r d, rule.toDraft.toRecord = .ok r ∧ r.toDatum? = some d ∧ d.Alike (Datum.object digitsRule).declared ∧
        read d = .ok rule.toDraft := by
  intro rule
  have innermost : digit.Expressive := Fields.expressive_iff.2 ⟨by decide,nofun⟩
  have inner : digits.Expressive := Fields.expressive_iff.2 ⟨by decide,List.forall_mem_singleton.2 innermost⟩
  have proper : digitsRule.Proper := ⟨by decide,List.forall_mem_singleton.2 inner⟩
  have came : read (.object digitsRule) = .ok rule.toDraft := rfl
  obtain ⟨found,complete⟩ := records_survive.2.2 digitsRule proper
  exact ⟨proper,complete.1 ⟨_,came⟩,came,(found _ came).2⟩

end Draft

end TypedPeg
