import TypedPeg.Misfit
import TypedPeg.Text.Decimal
import TypedPeg.Text.Literal

/-! Plain structured data: the form in which grammars are stored and exchanged. -/
namespace TypedPeg

inductive Datum where
  | null
  | bool (b : Bool)
  | int (i : Int)
  /-- A number with a decimal point, even if nothing stands behind it. -/
  | float (q : Rat)
  | text (t : String)
  | list (items : List Datum)
  | object (fields : List (String × Datum))
  deriving Inhabited

namespace Datum

def texts (l : List String) : Datum := .list (l.map .text)

mutual
def same : Datum → Datum → Bool
  | .null,.null => true
  | .bool b,.bool b' => b = b'
  | .int i,.int i' => i = i'
  | .float q,.float q' => q = q'
  | .text t,.text t' => t = t'
  | .list items,.list items' => sameItems items items'
  | .object fields,.object fields' => sameFields fields fields'
  | _,_ => false

def sameItems : List Datum → List Datum → Bool
  | [],[] => true
  | d :: rest,d' :: rest' => same d d' && sameItems rest rest'
  | _,_ => false

def sameFields : List (String × Datum) → List (String × Datum) → Bool
  | [],[] => true
  | (name,d) :: rest,(name',d') :: rest' => name = name' && same d d' && sameFields rest rest'
  | _,_ => false
end

mutual
theorem same_iff : (a b : Datum) → (same a b = true ↔ a = b)
  | .null,b => by cases b <;> simp [same]
  | .bool _,b => by cases b <;> simp [same]
  | .int _,b => by cases b <;> simp [same]
  | .float _,b => by cases b <;> simp [same]
  | .text _,b => by cases b <;> simp [same]
  | .list items,b => by cases b <;> simp [same,sameItems_iff items]
  | .object fields,b => by cases b <;> simp [same,sameFields_iff fields]

theorem sameItems_iff : (a b : List Datum) → (sameItems a b = true ↔ a = b)
  | [],b => by cases b <;> simp [sameItems]
  | d :: rest,b => by cases b <;> simp [sameItems,same_iff d,sameItems_iff rest]

theorem sameFields_iff : (a b : List (String × Datum)) → (sameFields a b = true ↔ a = b)
  | [],b => by cases b <;> simp [sameFields]
  | (_,d) :: rest,b => by
    cases b with
    | nil => simp [sameFields]
    | cons _ _ => simp [sameFields,same_iff d,sameFields_iff rest,Prod.ext_iff]
end

instance : DecidableEq Datum := fun a b => decidable_of_iff _ (same_iff a b)

def typeName : Datum → String
  | .null => "NoneType"
  | .bool _ => "bool"
  | .int _ => "int"
  | .float _ => "float"
  | .text _ => "str"
  | .list _ => "list"
  | .object _ => "dict"

def isCompound : Datum → Bool
  | .list _ | .object _ => true
  | _ => false

mutual
def literal : Datum → String
  | .null => "None"
  | .bool true => "True"
  | .bool false => "False"
  | .int i => toString i
  | .float q => Text.Decimal.write q
  | .text t => Text.Literal.quote t
  | .list items => "[" ++ ", ".intercalate (itemLiterals items) ++ "]"
  | .object fields => "\x7b" ++ ", ".intercalate (fieldLiterals fields) ++ "\x7d"

def itemLiterals : List Datum → List String
  | [] => []
  | d :: rest => d.literal :: itemLiterals rest

def fieldLiterals : List (String × Datum) → List String
  | [] => []
  | (name,d) :: rest => (Text.Literal.quote name ++ ": " ++ d.literal) :: fieldLiterals rest
end

/-- A datum used as a word: a text stands for itself. -/
def word : Datum → String
  | .text t => t
  | d => d.literal

mutual
/-- The datum with whole numbers for truth values and for numbers with nothing behind the point, which compare as such. -/
def numeric : Datum → Datum
  | .bool b => .int (if b then 1 else 0)
  | .float q => if q.den = 1 then .int q.num else .float q
  | .list items => .list (numericItems items)
  | .object fields => .object (numericFields fields)
  | d => d

def numericItems : List Datum → List Datum
  | [] => []
  | d :: rest => d.numeric :: numericItems rest

def numericFields : List (String × Datum) → List (String × Datum)
  | [] => []
  | (name,d) :: rest => (name,d.numeric) :: numericFields rest
end

def char : Datum → Except Misfit Char
  | .text t =>
    match t.toList with
    | [c] => .ok c
    | cs => .error (.notOneCharacter cs.length)
  | d => .error (.notACharacter d.typeName)

/-- The characters of a text, or of a list or an object's names each of which is one. -/
def chars : Datum → Except Misfit (List Char)
  | .text t => .ok t.toList
  | .list items => items.mapM char
  | .object fields => fields.mapM fun (name,_) => (text name).char
  | d => .error (.notIterable d.typeName)

end Datum

end TypedPeg
