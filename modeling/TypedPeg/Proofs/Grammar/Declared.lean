import Mathlib.Data.Option.Basic
import TypedPeg.Proofs.Grammar.Written

/-! What is written of a record that was read: the record without the fields that are not declared. The fields may
come in another order. -/
namespace TypedPeg

namespace Datum

mutual
/-- A record without the fields that are not declared, nor those of the records below. -/
def declared : Datum → Datum
  | .object fields => .object (declaredFields (Fields.contents fields) fields)
  | d => d

def declaredFields (contents : List (String × Content)) : Fields → Fields
  | [] => []
  | (field,d) :: rest =>
    let others := declaredFields contents rest
    if field = Draft.typeField then (field,d) :: others
    else match contents.lookup field with
      | none => others
      | some .record => (field,d.declared) :: others
      | some .word => (field,.text d.word) :: others
      | some _ => (field,d) :: others
end

/-- Two data are alike if they are the same up to the order of fields. -/
inductive Alike : Datum → Datum → Prop
  | refl {d} : Alike d d
  | object {fields fields' : Fields} (each : ∀ field, Option.Rel Alike (fields.lookup field) (fields'.lookup field)) :
      Alike (.object fields) (.object fields')

end Datum

def Draft.IsExpr (x : Draft) : Prop := ∃ e : Expr, x = e.toDraft

def Draft.IsRule (x : Draft) : Prop := ∃ rule : Rule, x = rule.toDraft

theorem Draft.eq_of_texts {items : List Datum} {strings : List String} (read : Draft.texts items = some strings) :
    items = strings.map .text := by
  induction items generalizing strings with
  | nil =>
    cases read
    rfl
  | cons d rest ih =>
    cases d with
    | text t =>
      obtain ⟨others,found,rfl⟩ := Option.map_eq_some_iff.1 read
      rw [List.map_cons,ih found]
    | null | bool | int | float | list | object => cases read

namespace Content

def declared : Content → Datum → Datum
  | .record,d => d.declared
  | .word,d => .text d.word
  | _,d => d

structure Taken (content : Content) (d : Datum) (part : Draft) : Prop where
  admitted : content.admits d = true
  plain : content ≠ .record → part = .plain d
  record : content = .record → part.IsExpr ∧ part.toDatum.Alike d.declared

namespace Taken

variable {d : Datum} {part : Draft}

theorem text (taken : Content.text.Taken d part) : ∃ t, d = .text t ∧ part = .plain (.text t) := by
  have admitted := taken.admitted
  cases d with
  | text t => exact ⟨t,rfl,taken.plain nofun⟩
  | null | bool | int | float | list | object => cases admitted

theorem int (taken : Content.int.Taken d part) : ∃ i, part = .plain (.int i) := by
  have admitted := taken.admitted
  cases d with
  | int i => exact ⟨i,taken.plain nofun⟩
  | null | bool | float | text | list | object => cases admitted

theorem limit (taken : Content.limit.Taken d part) : part = .plain .null ∨ ∃ i, part = .plain (.int i) := by
  have admitted := taken.admitted
  cases d with
  | null => exact .inl (taken.plain nofun)
  | int i => exact .inr ⟨i,taken.plain nofun⟩
  | bool | float | text | list | object => cases admitted

theorem texts (taken : Content.texts.Taken d part) : ∃ strings : List String, part = .plain (.list (strings.map .text)) := by
  have admitted := taken.admitted
  cases d with
  | list items =>
    obtain ⟨strings,read⟩ := Option.isSome_iff_exists.1 admitted
    exact ⟨strings,Draft.eq_of_texts read ▸ taken.plain nofun⟩
  | null | bool | int | float | text | object => cases admitted

/-- What is written of it is what the field holds, as far as that is declared. -/
theorem alike {content : Content} (taken : content.Taken d part) (expr : content ≠ .word) : part.toDatum.Alike (content.declared d) := by
  cases content with
  | record => exact (taken.record rfl).2
  | word => exact (expr rfl).elim
  | text | int | limit | texts =>
    rw [taken.plain nofun]
    exact .refl

end Taken

end Content

namespace Draft

def Reads (fields : Fields) (contents : List (String × Content)) (parts : List Draft) : Prop :=
  List.Forall₂ (fun p part => ∃ d, fields.lookup p.1 = some d ∧ p.2.Taken d part) contents parts

variable {fields : Fields} {form : Form} {parts : List Draft} {field field' : String} {content content' : Content}

theorem Reads.one (reads : Reads fields [(field,content)] parts) :
    ∃ d part, parts = [part] ∧ fields.lookup field = some d ∧ content.Taken d part := by
  obtain ⟨part,_,⟨d,found,taken⟩,rest,rfl⟩ := List.forall₂_cons_left_iff.1 reads
  rw [List.forall₂_nil_left_iff.1 rest]
  exact ⟨d,part,rfl,found,taken⟩

theorem Reads.two (reads : Reads fields [(field,content),(field',content')] parts) :
    ∃ d part d' part', parts = [part,part'] ∧ (fields.lookup field = some d ∧ content.Taken d part) ∧
      fields.lookup field' = some d' ∧ content'.Taken d' part' := by
  obtain ⟨part,_,⟨d,found,taken⟩,rest,rfl⟩ := List.forall₂_cons_left_iff.1 reads
  obtain ⟨d',part',rfl,others⟩ := Reads.one rest
  exact ⟨d,part,d',part',rfl,⟨found,taken⟩,others⟩

theorem Reads.text (reads : Reads fields [(field,.text)] parts) : ∃ t, parts = [.plain (.text t)] := by
  obtain ⟨d,part,rfl,-,taken⟩ := reads.one
  obtain ⟨t,-,rfl⟩ := taken.text
  exact ⟨t,rfl⟩

theorem Reads.record (reads : Reads fields [(field,.record)] parts) : ∃ e : Expr, parts = [e.toDraft] := by
  obtain ⟨d,part,rfl,-,taken⟩ := reads.one
  obtain ⟨⟨e,rfl⟩,-⟩ := taken.record rfl
  exact ⟨e,rfl⟩

theorem Reads.records (reads : Reads fields [(field,.record),(field',.record)] parts) :
    ∃ lhs rhs : Expr, parts = [lhs.toDraft,rhs.toDraft] := by
  obtain ⟨d,part,d',part',rfl,⟨-,taken⟩,-,taken'⟩ := reads.two
  obtain ⟨⟨lhs,rfl⟩,-⟩ := taken.record rfl
  obtain ⟨⟨rhs,rfl⟩,-⟩ := taken'.record rfl
  exact ⟨lhs,rhs,rfl⟩

/-- The bounds of a range are texts, and pass if each is one character. -/
theorem Reads.bounds (reads : Reads fields (RecordType.contents (.expr .range)) parts) :
    ∃ lo hi, parts = [.plain (.text lo),.plain (.text hi)] ∧
    fields.lookup "lo" = some (.text lo) ∧ fields.lookup "hi" = some (.text hi) := by
  obtain ⟨d,part,d',part',rfl,⟨first,taken⟩,last,taken'⟩ := Reads.two reads
  obtain ⟨lo,rfl,rfl⟩ := taken.text
  obtain ⟨hi,rfl,rfl⟩ := taken'.text
  exact ⟨lo,hi,rfl,first,last⟩

theorem eq_singleton {t : String} (single : t.length = 1) : ∃ c, t = .singleton c := by
  rw [← String.length_toList] at single
  obtain ⟨c,only⟩ := List.length_eq_one_iff.1 single
  exact ⟨c,String.toList_injective (by rw [only,String.toList_singleton])⟩

/-- Parts that are what they are declared to be make an expression, if the bounds of a range are single. -/
theorem Reads.expr (reads : Reads fields (RecordType.contents (.expr form)) parts) (bounded : checkBounds form parts = .ok ()) :
    IsExpr (.expr form parts) := by
  cases form with
  | literal =>
    obtain ⟨t,rfl⟩ := Reads.text reads
    exact ⟨.literal t,rfl⟩
  | caseless =>
    obtain ⟨t,rfl⟩ := Reads.text reads
    exact ⟨.caseless t,rfl⟩
  | ref =>
    obtain ⟨t,rfl⟩ := Reads.text reads
    exact ⟨.ref t,rfl⟩
  | opt =>
    obtain ⟨inner,rfl⟩ := Reads.record reads
    exact ⟨.opt inner,rfl⟩
  | rep =>
    obtain ⟨inner,rfl⟩ := Reads.record reads
    exact ⟨.rep inner,rfl⟩
  | followedBy =>
    obtain ⟨inner,rfl⟩ := Reads.record reads
    exact ⟨.followedBy inner,rfl⟩
  | notFollowedBy =>
    obtain ⟨inner,rfl⟩ := Reads.record reads
    exact ⟨.notFollowedBy inner,rfl⟩
  | restore =>
    obtain ⟨inner,rfl⟩ := Reads.record reads
    exact ⟨.restore inner,rfl⟩
  | push =>
    obtain ⟨inner,rfl⟩ := Reads.record reads
    exact ⟨.push inner,rfl⟩
  | range =>
    obtain ⟨lo,hi,rfl,-⟩ := Reads.bounds reads
    obtain ⟨first,last⟩ := checkBounds_range.1 bounded
    obtain ⟨lo,rfl⟩ := eq_singleton first
    obtain ⟨hi,rfl⟩ := eq_singleton last
    exact ⟨.range lo hi,rfl⟩
  | seq =>
    obtain ⟨lhs,rhs,rfl⟩ := Reads.records reads
    exact ⟨.seq lhs rhs,rfl⟩
  | choice =>
    obtain ⟨lhs,rhs,rfl⟩ := Reads.records reads
    exact ⟨.choice lhs rhs,rfl⟩
  | peek =>
    obtain ⟨d,part,d',part',rfl,⟨-,taken⟩,-,taken'⟩ := Reads.two reads
    obtain ⟨start,rfl⟩ := taken.int
    rcases taken'.limit with rfl | ⟨stop,rfl⟩
    · exact ⟨.peek start none,rfl⟩
    · exact ⟨.peek start (some stop),rfl⟩
  | drop =>
    obtain ⟨d,part,rfl,-,taken⟩ := Reads.one reads
    obtain ⟨count,rfl⟩ := taken.int
    exact ⟨.drop count,rfl⟩
  | skipUntil =>
    obtain ⟨d,part,rfl,-,taken⟩ := Reads.one reads
    obtain ⟨strings,rfl⟩ := taken.texts
    exact ⟨.skipUntil strings,rfl⟩
  | tag =>
    obtain ⟨d,part,d',part',rfl,⟨-,taken⟩,-,taken'⟩ := Reads.two reads
    obtain ⟨⟨inner,rfl⟩,-⟩ := taken.record rfl
    obtain ⟨name,-,rfl⟩ := taken'.text
    exact ⟨.tag inner name,rfl⟩

end Draft

namespace Fields

variable {fields : Fields} {form : Form} {parts : List Draft}

theorem contents_lookup {type : RecordType} {p : String × Content} (member : p ∈ type.contents) : type.contents.lookup p.1 = some p.2 := by
  revert p
  cases type with
  | rule => decide
  | expr form => cases form <;> decide

theorem contents_exprs (form : Form) : ∀ p ∈ RecordType.contents (.expr form), p.2 ≠ .word := by cases form <;> decide

def keep (contents : List (String × Content)) (field : String) (d : Datum) : Option Datum :=
  if field = Draft.typeField then some d else (contents.lookup field).map fun content => content.declared d

theorem keep_none {contents : List (String × Content)} {field : String} {d d' : Datum} (dropped : keep contents field d = none) :
    keep contents field d' = none := by
  unfold keep at dropped ⊢
  split at dropped
  · cases dropped
  · rename_i other
    rw [if_neg other]
    rw [Option.map_eq_none_iff] at dropped ⊢
    exact dropped

theorem declaredFields_cons (contents : List (String × Content)) (field : String) (d : Datum) (rest : Fields) :
    Datum.declaredFields contents ((field,d) :: rest) =
      ((keep contents field d).map fun kept => (field,kept)).toList ++ Datum.declaredFields contents rest := by
  rw [Datum.declaredFields,keep]
  by_cases type : field = Draft.typeField
  · rw [if_pos type,if_pos type]
    rfl
  · rw [if_neg type,if_neg type]
    cases contents.lookup field with
    | none => rfl
    | some content => cases content <;> rfl

theorem lookup_declaredFields (contents : List (String × Content)) (fields : Fields) (field : String) :
    (Datum.declaredFields contents fields).lookup field = (fields.lookup field).bind (keep contents field) := by
  induction fields with
  | nil => rfl
  | cons first rest ih =>
    obtain ⟨name,d⟩ := first
    rw [declaredFields_cons,List.lookup_append,ih,List.lookup_cons]
    cases same : field == name with
    | true =>
      rw [beq_iff_eq] at same
      subst same
      cases kept : keep contents field d with
      | none =>
        -- it is not declared, whatever a later field of the name holds
        have none : keep contents field = fun _ => none := funext fun _ => keep_none kept
        simp [none]
      | some value => simp [kept]
    | false =>
      cases keep contents name d with
      | none => rfl
      | some value => simp [List.lookup_cons,same]

/-- What is written of the parts of an expression is what their record holds, as far as that is declared. -/
theorem named_alike {contents : List (String × Content)} (reads : Draft.Reads fields contents parts) (exprs : ∀ p ∈ contents, p.2 ≠ .word)
    {field : String} {found : Option Datum} (there : ∀ p ∈ contents, p.1 = field → found = (fields.lookup p.1).map p.2.declared)
    (undeclared : field ∉ contents.map Prod.fst → found = none) :
    Option.Rel Datum.Alike ((Draft.named (contents.map Prod.fst) parts).lookup field) found := by
  induction reads with
  | nil =>
    rw [undeclared List.not_mem_nil]
    exact .none
  | @cons p part rest parts one others ih =>
    obtain ⟨d,held,taken⟩ := one
    obtain ⟨expr,exprs⟩ := List.forall_mem_cons.1 exprs
    obtain ⟨here,there⟩ := List.forall_mem_cons.1 there
    rw [List.map_cons,Draft.named]
    by_cases same : p.1 = field
    · subst same
      rw [List.lookup_cons_self,here rfl,held]
      exact .some (taken.alike expr)
    · rw [List.lookup_cons,beq_false_of_ne (Ne.symm same)]
      exact ih exprs there fun absent => undeclared (by simpa [Ne.symm same] using absent)

theorem expr_alike (known : fields.type? = some (.expr form)) (reads : Draft.Reads fields (RecordType.contents (.expr form)) parts) :
    (Draft.expr form parts).toDatum.Alike (Datum.object fields).declared := by
  rw [Draft.toDatum,Datum.declared,contents_eq known,← RecordType.contents_fields]
  refine .object fun field => ?_
  rw [lookup_declaredFields]
  by_cases type : field = Draft.typeField
  · rw [type,List.lookup_cons_self,lookup_type known]
    exact .some .refl
  · rw [List.lookup_cons,beq_false_of_ne type]
    refine named_alike reads (contents_exprs form) ?_ fun undeclared => ?_
    · rintro p member rfl
      cases fields.lookup p.1 with
      | none => rfl
      | some d =>
        rw [Option.bind_some,keep,if_neg type,contents_lookup member]
        rfl
    · have unknown : (RecordType.contents (.expr form)).lookup field = none := by
        rw [List.lookup_eq_none_iff]
        intro p member
        exact bne_iff_ne.2 fun same => undeclared (same ▸ List.mem_map_of_mem member)
      cases fields.lookup field with
      | none => rfl
      | some d =>
        rw [Option.bind_some,keep,if_neg type,unknown]
        rfl

theorem rule_alike (known : fields.type? = some .rule) {d name kind : Datum} {body : Draft} (expr : fields.lookup "expr" = some d)
    (alike : body.toDatum.Alike d.declared) (named : fields.lookup "name" = some name) (kinded : fields.lookup "kind" = some kind) :
    (Draft.rule name.word (.ofWord kind.word) body).toDatum.Alike (Datum.object fields).declared := by
  rw [Draft.toDatum,Datum.declared,contents_eq known,Kind.word_ofWord]
  refine .object fun field => ?_
  rw [lookup_declaredFields]
  by_cases type : field = Draft.typeField
  · subst type
    rw [lookup_type known]
    exact .some .refl
  by_cases first : field = "name"
  · subst first
    rw [named]
    exact .some .refl
  by_cases second : field = "kind"
  · subst second
    rw [kinded]
    exact .some .refl
  by_cases third : field = "expr"
  · subst third
    rw [expr]
    exact .some alike
  have unwritten : List.lookup field [(Draft.typeField,Datum.text Draft.ruleType),("name",.text name.word),("kind",.text kind.word),
      ("expr",body.toDatum)] = none := by
    simp [type,first,second,third]
  have undeclared : RecordType.rule.contents.lookup field = none := by
    simp [RecordType.contents,first,second,third]
  rw [unwritten]
  cases fields.lookup field with
  | none => exact .none
  | some d =>
    rw [Option.bind_some,keep,if_neg type,undeclared]
    exact .none

end Fields

end TypedPeg
