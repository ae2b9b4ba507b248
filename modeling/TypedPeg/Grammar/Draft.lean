import TypedPeg.Datum
import TypedPeg.Grammar.Expr

/-! Grammars as plain data. Every expression and rule is a record that carries its
type's name under `_type` and its parts under the names of the fields. A draft is a
record as it is read: all its parts are there, but they may be of the wrong sort, a
rule where an expression belongs or a number where a text does. -/
namespace TypedPeg

inductive Form where
  | literal
  | caseless
  | range
  | ref
  | seq
  | choice
  | opt
  | rep
  | followedBy
  | notFollowedBy
  | restore
  | push
  | peek
  | drop
  | skipUntil
  | tag
  deriving DecidableEq

namespace Form

def all : List Form :=
  [literal,caseless,range,ref,seq,choice,opt,rep,followedBy,notFollowedBy,restore,push,peek,drop,
    skipUntil,tag]

def name : Form → String
  | literal => "Str"
  | caseless => "Insens"
  | range => "Range"
  | ref => "Ident"
  | seq => "Seq"
  | choice => "Choice"
  | opt => "Opt"
  | rep => "Rep"
  | followedBy => "PosPred"
  | notFollowedBy => "NegPred"
  | restore => "RestoreOnErr"
  | push => "Push"
  | peek => "PeekSlice"
  | drop => "StackSkip"
  | skipUntil => "SkipUntil"
  | tag => "NodeTag"

/-- The fields of a type, in the order in which they are read. -/
def fields : Form → List String
  | literal | caseless => ["text"]
  | range => ["lo","hi"]
  | ref => ["name"]
  | seq | choice => ["lhs","rhs"]
  | opt | rep | followedBy | notFollowedBy | restore | push => ["inner"]
  | peek => ["start","end"]
  | drop => ["count"]
  | skipUntil => ["strings"]
  | tag => ["inner","tag"]

def ofName? (name : String) : Option Form := all.find? (fun form => form.name = name)

theorem ofName?_name (form : Form) : ofName? form.name = some form := by
  cases form <;> decide

end Form

def Connective.form : Connective → Form
  | .seq => .seq
  | .choice => .choice

inductive Draft where
  | expr (form : Form) (parts : List Draft)
  | rule (name : String) (kind : Kind) (body : Draft)
  /-- A part that is no record. -/
  | plain (d : Datum)
  deriving Inhabited

inductive RecordError where
  | unknownType (tag : Datum)
  | missing (field : String)
  | wideBounds
  | misfit (m : Misfit)
  | notARecord (type : String)

def RecordError.message : RecordError → String
  | .unknownType tag => "unknown expression type: " ++ tag.literal
  | .missing field => Text.Literal.quote field
  | .wideBounds => "range bounds must be single characters"
  | .misfit m => m.message
  | .notARecord type => "'" ++ type ++ "' object has no attribute 'get'"

namespace Draft

def typeField : String := "_type"

def ruleType : String := "Rule"

/-- What messages call the type of a draft. A list among the parts is fixed from then on. -/
def typeName : Draft → String
  | .expr form _ => form.name
  | .rule _ _ _ => ruleType
  | .plain (.list _) => Misfit.fixedList
  | .plain d => d.typeName

/-! Reading and writing. -/

/-- A field as found: its value, and the draft that value would be. -/
structure Found where
  value : Datum
  draft : Except RecordError Draft

/-- Objects are drafts themselves, all else is plain. -/
def Found.part (found : Found) : Except RecordError Draft :=
  match found.value with
  | .object _ => found.draft
  | d => .ok (.plain d)

def get (fields : List (String × Found)) (field : String) : Except RecordError Found :=
  match fields.lookup field with
  | some found => .ok found
  | none => .error (.missing field)

def length : Draft → Except Misfit Nat
  | .plain (.text t) => .ok t.length
  | .plain (.list items) => .ok items.length
  | d => .error (.unsized d.typeName)

def checkBounds : Form → List Draft → Except RecordError Unit
  | .range,[lo,hi] => do
    unless (← lo.length.mapError RecordError.misfit) = 1 do throw .wideBounds
    unless (← hi.length.mapError RecordError.misfit) = 1 do throw .wideBounds
  | _,_ => .ok ()

def ofFields (fields : List (String × Found)) : Except RecordError Draft :=
  let tag := (fields.lookup typeField).elim .null (·.value)
  match tag with
  | .text type =>
    if type = ruleType then do
      let body ← (← get fields "expr").draft
      let name ← get fields "name"
      let kind ← get fields "kind"
      return .rule name.value.word (.ofWord kind.value.word) body
    else
      match Form.ofName? type with
      | some form => do
        let parts ← form.fields.mapM fun field => do (← get fields field).part
        checkBounds form parts
        return .expr form parts
      | none => .error (.unknownType tag)
  | _ => .error (.unknownType tag)

mutual
def read : Datum → Except RecordError Draft
  | .object fields => ofFields (readFields fields)
  | d => .error (.notARecord d.typeName)

def readFields : List (String × Datum) → List (String × Found)
  | [] => []
  | (field,d) :: rest => (field,⟨d,read d⟩) :: readFields rest
end

mutual
/-- All that is in a draft, rules and what is below them too. -/
def toDatum : Draft → Datum
  | .expr form parts => .object ((typeField,.text form.name) :: named form.fields parts)
  | .rule name kind body =>
    .object [(typeField,.text ruleType),("name",.text name),("kind",.text kind.word),("expr",body.toDatum)]
  | .plain d => d

def named : List String → List Draft → List (String × Datum)
  | field :: fields, part :: parts => (field,part.toDatum) :: named fields parts
  | _,_ => []
end

/-- What an expression or a rule is written as. A rule in the place of an expression is left as it is. -/
inductive Record where
  | plain (d : Datum)
  | object (fields : List (String × Record))
  | rule (name : String) (kind : Kind) (body : Draft)

mutual
def Record.toDatum? : Record → Option Datum
  | .plain d => some d
  | .object fields => (fieldData? fields).map .object
  | .rule _ _ _ => none

def fieldData? : List (String × Record) → Option (List (String × Datum))
  | [] => some []
  | (field,part) :: rest => return (field,← part.toDatum?) :: (← fieldData? rest)
end

mutual
def partRecord : Draft → Record
  | .expr form parts => .object ((typeField,.plain (.text form.name)) :: partRecords form.fields parts)
  | .rule name kind body => .rule name kind body
  | .plain d => .plain d

def partRecords : List String → List Draft → List (String × Record)
  | field :: fields, part :: parts => (field,part.partRecord) :: partRecords fields parts
  | _,_ => []
end

def toRecord : Draft → Except Misfit Record
  | .expr form parts => .ok (expr form parts).partRecord
  | .rule name kind body => do
    return .object [(typeField,.plain (.text ruleType)),("name",.plain (.text name)),("kind",.plain (.text kind.word)),
      ("expr",← body.toRecord)]
  | .plain _ => .error .notARecord

def same (a b : Draft) : Bool := decide (a.toDatum.numeric = b.toDatum.numeric)

mutual
def literal : Draft → String
  | .expr form parts => form.name ++ "(" ++ ", ".intercalate (partLiterals form.fields parts) ++ ")"
  | .rule name kind body =>
    ruleType ++ "(name=" ++ Text.Literal.quote name ++ ", kind=" ++ Text.Literal.quote kind.word
      ++ ", expr=" ++ body.literal ++ ")"
  | .plain (.list [only]) => "(" ++ only.literal ++ ",)"
  | .plain (.list items) => "(" ++ ", ".intercalate (Datum.itemLiterals items) ++ ")"
  | .plain d => d.literal

def partLiterals : List String → List Draft → List String
  | field :: fields, part :: parts => (field ++ "=" ++ part.literal) :: partLiterals fields parts
  | _,_ => []
end

def word : Draft → String
  | .plain (.text t) => t
  | d => d.literal

mutual
/-- The type of the first part that cannot be looked up by its value. -/
def unhashable? : Draft → Option String
  | .expr _ parts => unhashablePart? parts
  | .rule _ _ body => body.unhashable?
  | .plain (.list items) => (items.find? Datum.isCompound).map Datum.typeName
  | .plain _ => none

def unhashablePart? : List Draft → Option String
  | [] => none
  | part :: rest => part.unhashable?.or (unhashablePart? rest)
end

/-! References and chains. -/

mutual
/-- The names referred to, left to right. A rule inside an expression is not looked into. -/
def idents : Draft → List Draft
  | .expr .ref [name] => [name]
  | .expr _ parts => identsAll parts
  | .rule _ _ _ | .plain _ => []

def identsAll : List Draft → List Draft
  | [] => []
  | part :: rest => part.idents ++ identsAll rest
end

/-- The names a draft refers to; those of a rule are the ones in its body. -/
def refs : Draft → List Draft
  | .rule _ _ body => FirstSeen.ofListBy same body.idents
  | d => FirstSeen.ofListBy same d.idents

def elements (link : Connective) : Draft → List Draft
  | .expr form [lhs,rhs] => if form = link.form then lhs :: rhs.elements link else [.expr form [lhs,rhs]]
  | d => [d]

def ofElements (link : Connective) : List Draft → Except Connective.ChainError Draft :=
  link.chain fun lhs rhs => .expr link.form [lhs,rhs]

end Draft

end TypedPeg
