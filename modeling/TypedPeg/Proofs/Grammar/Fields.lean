import Mathlib.Data.List.Forall2
import Mathlib.Logic.Relation
import TypedPeg.Grammar.Draft.Sound

/-! Records by their fields. For each type it is declared what fields there are and what they hold. A record is read field
by field; what else there is in it does not matter. -/
namespace TypedPeg

inductive Content where
  | text
  | int
  /-- A number, or nothing. -/
  | limit
  | texts
  /-- The record of an expression. -/
  | record
  /-- Whatever it is, it is taken as a word. -/
  | word
  deriving DecidableEq

def Content.admits : Content → Datum → Bool
  | .text,.text _ | .int,.int _ | .limit,.int _ | .limit,.null | .record,.object _ | .word,_ => true
  | .texts,.list items => (Draft.texts items).isSome
  | _,_ => false

inductive RecordType where
  | rule
  | expr (form : Form)
  deriving DecidableEq

namespace RecordType

def word : RecordType → String
  | .rule => Draft.ruleType
  | .expr form => form.name

def contents : RecordType → List (String × Content)
  | .rule => [("expr",.record),("name",.word),("kind",.word)]
  | .expr .literal | .expr .caseless => [("text",.text)]
  | .expr .range => [("lo",.text),("hi",.text)]
  | .expr .ref => [("name",.text)]
  | .expr .seq | .expr .choice => [("lhs",.record),("rhs",.record)]
  | .expr .opt | .expr .rep | .expr .followedBy | .expr .notFollowedBy | .expr .restore | .expr .push => [("inner",.record)]
  | .expr .peek => [("start",.int),("end",.limit)]
  | .expr .drop => [("count",.int)]
  | .expr .skipUntil => [("strings",.texts)]
  | .expr .tag => [("inner",.record),("tag",.text)]

theorem contents_fields (form : Form) : (contents (.expr form)).map Prod.fst = form.fields := by cases form <;> rfl

end RecordType

abbrev Fields := List (String × Datum)

def Datum.fields? : Datum → Option Fields
  | .object fields => some fields
  | _ => none

namespace Fields

def type? (fields : Fields) : Option RecordType :=
  match fields.lookup Draft.typeField with
  | some (.text type) => if type = Draft.ruleType then some .rule else (Form.ofName? type).map .expr
  | _ => none

def contents (fields : Fields) : List (String × Content) := fields.type?.elim [] RecordType.contents

/-- The records in the expression fields of a record. -/
def parts (fields : Fields) : List Fields :=
  fields.contents.filterMap fun (field,content) => if content = .record then (fields.lookup field).bind Datum.fields? else none

/-- A record itself, or one in an expression field of a record that is. -/
def Reaches : Fields → Fields → Prop := Relation.ReflTransGen fun whole part => part ∈ whole.parts

/-- What is there of the declared fields is what it is declared to be. -/
def Typed (fields : Fields) : Prop :=
  ∀ p ∈ fields.contents, ∀ d ∈ fields.lookup p.1, p.2.admits d = true

instance (fields : Fields) : Decidable fields.Typed :=
  inferInstanceAs (Decidable (∀ p ∈ fields.contents, ∀ d ∈ fields.lookup p.1, p.2.admits d = true))

/-- The record of an expression, and no rule below it. -/
def Expressive (fields : Fields) : Prop := ∀ part, fields.Reaches part → part.Typed ∧ part.type? ≠ some .rule

/-- The record of an expression or a rule, and no rule below it. -/
structure Proper (fields : Fields) : Prop where
  typed : fields.Typed
  parts : ∀ part ∈ fields.parts, part.Expressive

structure Filled (fields : Fields) : Prop where
  known : fields.type? ≠ none
  present : ∀ p ∈ fields.contents, fields.lookup p.1 ≠ none
  single : fields.type? = some (.expr .range) → ∀ field ∈ Form.range.fields, ∀ t, fields.lookup field = some (.text t) → t.length = 1

def Complete (fields : Fields) : Prop := ∀ part, fields.Reaches part → part.Filled

end Fields

namespace Draft

def ofPart : Datum → Except RecordError Draft
  | .object fields => read (.object fields)
  | d => .ok (.plain d)

end Draft

namespace Fields

variable {fields part : Fields} {field : String} {form : Form}

def get (fields : Fields) (field : String) : Except RecordError Draft :=
  (fields.lookup field).elim (.error (.missing field)) Draft.ofPart

theorem lookup_readFields (fields : Fields) (field : String) :
    (Draft.readFields fields).lookup field = (fields.lookup field).map fun d => ⟨d,Draft.read d⟩ := by
  induction fields with
  | nil => rfl
  | cons first rest ih =>
    obtain ⟨name,d⟩ := first
    rw [Draft.readFields,List.lookup_cons,List.lookup_cons,ih]
    cases field == name <;> rfl

theorem lookup_type {type : RecordType} (known : fields.type? = some type) : fields.lookup Draft.typeField = some (.text type.word) := by
  unfold type? at known
  split at known
  · rename_i word here
    rw [here]
    split at known
    · rename_i same
      cases known
      rw [same,RecordType.word]
    · obtain ⟨form,found,same⟩ := Option.map_eq_some_iff.1 known
      cases same
      have named : form.name = word := by simpa using List.find?_some found
      rw [← named,RecordType.word]
  · cases known

theorem contents_eq {type : RecordType} (known : fields.type? = some type) : fields.contents = type.contents := by
  rw [contents,known]
  rfl

theorem read_expr (known : fields.type? = some (.expr form)) : Draft.read (.object fields) = (do
    let parts ← form.fields.mapM fields.get
    Draft.checkBounds form parts
    return .expr form parts) := by
  have part (field : String) : (Draft.get (Draft.readFields fields) field >>= Draft.Found.part) = fields.get field := by
    rw [Draft.get,lookup_readFields,get]
    cases fields.lookup field with
    | none => rfl
    | some d => cases d <;> rfl
  have other : form.name ≠ Draft.ruleType := by cases form <;> decide
  rw [Draft.read,Draft.ofFields,lookup_readFields,lookup_type known,RecordType.word]
  simp only [Option.map_some,Option.elim_some,if_neg other,Form.ofName?_name,part]

theorem read_rule (known : fields.type? = some .rule) : Draft.read (.object fields) = (do
    let body ← (fields.lookup "expr").elim (.error (.missing "expr")) Draft.read
    let name ← (fields.lookup "name").elim (.error (.missing "name")) .ok
    let kind ← (fields.lookup "kind").elim (.error (.missing "kind")) .ok
    return .rule name.word (.ofWord kind.word) body) := by
  rw [Draft.read,Draft.ofFields,lookup_readFields,lookup_type known,RecordType.word]
  simp only [Option.map_some,Option.elim_some,if_pos,Draft.get,lookup_readFields]
  cases fields.lookup "expr" with
  | none => rfl
  | some body =>
    cases fields.lookup "name" with
    | none => rfl
    | some name => cases fields.lookup "kind" <;> rfl

theorem read_unknown (unknown : fields.type? = none) (x : Draft) : Draft.read (.object fields) ≠ .ok x := by
  rw [Draft.read,Draft.ofFields,lookup_readFields]
  unfold type? at unknown
  split at unknown
  · rename_i type here
    split at unknown
    · cases unknown
    · rename_i other
      rw [Option.map_eq_none_iff] at unknown
      simp [here,other,unknown]
  · rename_i other
    cases here : fields.lookup Draft.typeField with
    | none => nofun
    | some d => cases d with
      | text type => exact (other type here).elim
      | null | bool | int | float | list | object => nofun

theorem reaches_iff {P : Fields → Prop} :
    (∀ part, fields.Reaches part → P part) ↔ P fields ∧ ∀ part ∈ fields.parts, ∀ last, part.Reaches last → P last := by
  constructor
  · intro all
    exact ⟨all fields .refl,fun part member last reaches => all last (.head member reaches)⟩
  · rintro ⟨here,below⟩ last reaches
    rcases Relation.ReflTransGen.cases_head_iff.1 reaches with rfl | ⟨part,member,reaches⟩
    · exact here
    · exact below part member last reaches

theorem expressive_iff : fields.Expressive ↔ (fields.Typed ∧ fields.type? ≠ some .rule) ∧ ∀ part ∈ fields.parts, part.Expressive :=
  reaches_iff

theorem complete_iff : fields.Complete ↔ fields.Filled ∧ ∀ part ∈ fields.parts, part.Complete := reaches_iff

theorem mem_parts : part ∈ fields.parts ↔ ∃ field, (field,.record) ∈ fields.contents ∧ fields.lookup field = some (.object part) := by
  rw [parts,List.mem_filterMap]
  constructor
  · rintro ⟨⟨field,content⟩,member,found⟩
    dsimp only at found
    split at found
    · rename_i record
      obtain ⟨d,here,object⟩ := Option.bind_eq_some_iff.1 found
      cases d with
      | object inner =>
        cases object
        exact ⟨field,record ▸ member,here⟩
      | null | bool | int | float | text | list => cases object
    · cases found
  · rintro ⟨field,member,here⟩
    exact ⟨(field,.record),member,by simp [here,Datum.fields?]⟩

theorem mem_of_lookup {d : Datum} (found : fields.lookup field = some d) : (field,d) ∈ fields := by
  obtain ⟨before,after,split,-⟩ := List.lookup_eq_some_iff.1 found
  rw [split]
  exact List.mem_append_right _ List.mem_cons_self

theorem sizeOf_part (member : part ∈ fields.parts) : sizeOf part < sizeOf fields := by
  obtain ⟨field,-,found⟩ := mem_parts.1 member
  have inside := List.sizeOf_lt_of_mem (mem_of_lookup found)
  rw [Prod.mk.sizeOf_spec,Datum.object.sizeOf_spec] at inside
  omega

end Fields

theorem bind_eq_ok {α β ε : Type} {read : Except ε α} {next : α → Except ε β} {b : β} :
    (read >>= next) = .ok b ↔ ∃ a, read = .ok a ∧ next a = .ok b := by
  cases read with
  | error e => exact iff_of_false nofun fun ⟨_,same,_⟩ => nomatch same
  | ok a =>
    constructor
    · exact fun came => ⟨a,rfl,came⟩
    · rintro ⟨_,⟨⟩,came⟩
      exact came

theorem elim_eq_ok {α β ε : Type} {o : Option α} {e : ε} {f : α → Except ε β} {b : β} :
    o.elim (.error e) f = .ok b ↔ ∃ a, o = some a ∧ f a = .ok b := by cases o <;> simp

/-- A list of things each of which may fail is read if all of them are. -/
theorem mapM_eq_ok {α β ε : Type} {f : α → Except ε β} {l : List α} {results : List β} :
    l.mapM f = .ok results ↔ List.Forall₂ (fun a b => f a = .ok b) l results := by
  induction l generalizing results with
  | nil =>
    rw [List.mapM_nil,List.forall₂_nil_left_iff]
    exact ⟨fun same => (Except.ok.inj same).symm,fun same => congrArg Except.ok same.symm⟩
  | cons a rest ih =>
    rw [List.mapM_cons,List.forall₂_cons_left_iff]
    simp only [bind_eq_ok,ih]
    constructor
    · rintro ⟨b,first,others,tail,same⟩
      exact ⟨b,others,first,tail,(Except.ok.inj same).symm⟩
    · rintro ⟨b,others,first,tail,rfl⟩
      exact ⟨b,first,others,tail,rfl⟩

namespace Fields

variable {fields : Fields} {field : String} {form : Form} {x : Draft}

theorem get_eq_ok {field : String} {part : Draft} :
    fields.get field = .ok part ↔ ∃ d, fields.lookup field = some d ∧ Draft.ofPart d = .ok part := elim_eq_ok

theorem read_expr_iff (known : fields.type? = some (.expr form)) : Draft.read (.object fields) = .ok x ↔
    ∃ parts, List.Forall₂ (fun p part => fields.get p.1 = .ok part) (RecordType.contents (.expr form)) parts ∧
      Draft.checkBounds form parts = .ok () ∧ x = .expr form parts := by
  have each {parts : List Draft} : form.fields.mapM fields.get = .ok parts ↔
      List.Forall₂ (fun p part => fields.get p.1 = .ok part) (RecordType.contents (.expr form)) parts := by
    rw [mapM_eq_ok,← RecordType.contents_fields,List.forall₂_map_left_iff]
  simp only [← each]
  rw [read_expr known]
  rw [bind_eq_ok]
  refine exists_congr fun parts => and_congr_right fun _ => ?_
  rw [bind_eq_ok]
  constructor
  · rintro ⟨done,bounded,same⟩
    exact ⟨bounded,(Except.ok.inj same).symm⟩
  · rintro ⟨bounded,rfl⟩
    exact ⟨(),bounded,rfl⟩

theorem read_rule_iff (known : fields.type? = some .rule) : Draft.read (.object fields) = .ok x ↔ ∃ d body name kind,
    (fields.lookup "expr" = some d ∧ Draft.read d = .ok body) ∧ fields.lookup "name" = some name ∧ fields.lookup "kind" = some kind ∧
      x = .rule name.word (.ofWord kind.word) body := by
  rw [read_rule known]
  simp only [bind_eq_ok,elim_eq_ok]
  constructor
  · rintro ⟨body,⟨d,expr,read⟩,name,⟨_,named,⟨⟩⟩,kind,⟨_,kinded,⟨⟩⟩,same⟩
    exact ⟨d,body,name,kind,⟨expr,read⟩,named,kinded,(Except.ok.inj same).symm⟩
  · rintro ⟨d,body,name,kind,⟨expr,read⟩,named,kinded,rfl⟩
    exact ⟨body,⟨d,expr,read⟩,name,⟨name,named,rfl⟩,kind,⟨kind,kinded,rfl⟩,rfl⟩

end Fields

end TypedPeg
