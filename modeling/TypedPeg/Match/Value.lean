import TypedPeg.Source.Basic
import TypedPeg.Text.Literal

/-! What a match yields. Every value carries the name of the node that made it and
the span it covers. -/
namespace TypedPeg

inductive Value where
  /-- A leaf shows its text; one that never consumes input has none. -/
  | leaf (name : String) (span : Span) (content : Option String)
  /-- One value to each element of a sequence, with the names of the fields. -/
  | product (name : String) (span : Span) (fields : List Value) (names : List String)
  /-- The value of the alternative at `index`. -/
  | variant (name : String) (span : Span) (index : Int) (value : Value)
  | absent (name : String) (span : Span)
  | present (name : String) (span : Span) (value : Value)
  | many (name : String) (span : Span) (items : List Value)
  /-- A value of no shape. -/
  | bare (name : String) (span : Span)
  deriving Inhabited

namespace Value

def name : Value → String
  | leaf n _ _ | product n _ _ _ | variant n _ _ _ | absent n _ | present n _ _ | many n _ _ | bare n _ => n

def span : Value → Span
  | leaf _ s _ | product _ s _ _ | variant _ s _ _ | absent _ s | present _ s _ | many _ s _ | bare _ s => s

mutual
def same : Value → Value → Bool
  | leaf n s c, leaf n' s' c' => n = n' && s = s' && c = c'
  | product n s fs ns, product n' s' fs' ns' => n = n' && s = s' && sameList fs fs' && ns = ns'
  | variant n s i v, variant n' s' i' v' => n = n' && s = s' && i = i' && same v v'
  | absent n s, absent n' s' => n = n' && s = s'
  | present n s v, present n' s' v' => n = n' && s = s' && same v v'
  | many n s vs, many n' s' vs' => n = n' && s = s' && sameList vs vs'
  | bare n s, bare n' s' => n = n' && s = s'
  | _, _ => false

def sameList : List Value → List Value → Bool
  | [], [] => true
  | v :: vs, v' :: vs' => same v v' && sameList vs vs'
  | _, _ => false
end

mutual
theorem same_iff : (a b : Value) → (same a b = true ↔ a = b)
  | leaf _ _ _, b => by cases b <;> simp [same,and_assoc]
  | product _ _ fields _, b => by cases b <;> simp [same,sameList_iff fields,and_assoc]
  | variant _ _ _ v, b => by cases b <;> simp [same,same_iff v,and_assoc]
  | absent _ _, b => by cases b <;> simp [same]
  | present _ _ v, b => by cases b <;> simp [same,same_iff v,and_assoc]
  | many _ _ items, b => by cases b <;> simp [same,sameList_iff items,and_assoc]
  | bare _ _, b => by cases b <;> simp [same]

theorem sameList_iff : (a b : List Value) → (sameList a b = true ↔ a = b)
  | [], b => by cases b <;> simp [sameList]
  | v :: rest, b => by cases b <;> simp [sameList,same_iff v,sameList_iff rest]
end

instance : DecidableEq Value := fun a b => decidable_of_iff _ (same_iff a b)

def typeName : Value → String
  | leaf _ _ _ => "Leaf"
  | product _ _ _ _ => "Product"
  | variant _ _ _ _ => "Variant"
  | absent _ _ | present _ _ _ => "Maybe"
  | many _ _ _ => "Many"
  | bare _ _ => "Value"

inductive FieldError where
  | notAProduct (type : String)
  | unnamed (name : String)
  /-- The name has a position, but no value stands there. -/
  | unfilled

def FieldError.message : FieldError → String
  | .notAProduct type => "'" ++ type ++ "' object has no attribute 'field'"
  | .unnamed name => Text.Literal.quote name
  | .unfilled => "list index out of range"

def fieldAt : List String → List Value → String → Except FieldError Value
  | [], _, wanted => .error (.unnamed wanted)
  | name :: names, fields, wanted =>
    if name = wanted then
      match fields with
      | [] => .error .unfilled
      | v :: _ => .ok v
    else fieldAt names fields.tail wanted

def field (v : Value) (wanted : String) : Except FieldError Value :=
  match v with
  | product _ _ fields names => fieldAt names fields wanted
  | _ => .error (.notAProduct v.typeName)

end Value

inductive Plain where
  | none
  | text (t : String)
  | list (items : List Plain)
  | tuple (fields : List Plain)

namespace Value

inductive PlainError where
  | bareValue

def PlainError.message : PlainError → String
  | .bareValue => "unhandled value type: Value"

mutual
def plain : Value → Except PlainError Plain
  | leaf _ _ none => .ok .none
  | leaf _ _ (some t) => .ok (.text t)
  | product _ _ fields _ => return .tuple (← plains fields)
  | variant _ _ _ v => plain v
  | absent _ _ => .ok .none
  | present _ _ v => plain v
  | many _ _ items => return .list (← plains items)
  | bare _ _ => .error .bareValue

def plains : List Value → Except PlainError (List Plain)
  | [] => .ok []
  | v :: rest => return (← plain v) :: (← plains rest)
end

end Value

end TypedPeg
