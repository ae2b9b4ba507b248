import TypedPeg.Event
import TypedPeg.FirstSeen
import TypedPeg.Node.Basic

/-! Tables: definitions under distinct names, in the order of their insertion. The
first definition of a name stays. A node table is a table of nodes. -/
namespace TypedPeg

class Definition (ν : Type) where
  name : ν → String
  typeName : ν → String
  /-- Whether two definitions say the same. -/
  same : ν → ν → Bool
  ofNode : Node → ν

instance : Definition Node where
  name := Node.name
  typeName n := n.body.typeName
  same n m := decide (n = m)
  ofNode n := n

@[simp] theorem Node.definition_name (n : Node) : Definition.name n = n.name := rfl

@[simp] theorem Node.definition_same (n m : Node) : Definition.same n m = decide (n = m) := rfl

structure Table (ν : Type) [Definition ν] where
  nodes : List ν
  distinct : (nodes.map Definition.name).Nodup

abbrev NodeTable := Table Node

namespace Table

variable {ν : Type} [Definition ν]

def empty : Table ν := ⟨[],List.nodup_nil⟩

def names (t : Table ν) : List String := t.nodes.map Definition.name

def size (t : Table ν) : Nat := t.nodes.length

def get? (t : Table ν) (name : String) : Option ν := t.nodes.find? (fun n => Definition.name n = name)

def contains (t : Table ν) (name : String) : Bool := (t.get? name).isSome

theorem get?_eq_none_iff {t : Table ν} {name : String} : t.get? name = none ↔ name ∉ t.names := by
  simp [get?,names]

theorem contains_iff {t : Table ν} {name : String} : t.contains name = true ↔ name ∈ t.names := by
  rw [contains,← Decidable.not_iff_not,← get?_eq_none_iff]
  simp

private theorem distinct_append {t : Table ν} {n : ν} (fresh : Definition.name n ∉ t.names) :
    ((t.nodes ++ [n]).map Definition.name).Nodup := by
  rw [List.map_append]
  exact List.nodup_append.2 ⟨t.distinct,by simp,fun x hx y hy same => by
    rw [List.map_cons,List.map_nil,List.mem_singleton] at hy
    exact fresh (hy ▸ same ▸ hx)⟩

def insert (t : Table ν) (n : ν) : Table ν :=
  if fresh : Definition.name n ∉ t.names then ⟨t.nodes ++ [n],distinct_append fresh⟩ else t

theorem nodes_insert (t : Table ν) (n : ν) :
    (t.insert n).nodes = if Definition.name n ∈ t.names then t.nodes else t.nodes ++ [n] := by
  unfold insert
  by_cases taken : Definition.name n ∈ t.names <;> simp [taken]

def stored (t : Table ν) (n : ν) : ν := (t.get? (Definition.name n)).getD n

def clashes (t : Table ν) (n : ν) : Bool :=
  match t.get? (Definition.name n) with
  | none => false
  | some kept => !Definition.same kept n

/-- An insertion that would change a definition is reported and has no effect. -/
def insertEvents (t : Table ν) (n : ν) : List Event :=
  match t.get? (Definition.name n) with
  | none => []
  | some kept =>
    if Definition.same kept n then []
    else [.redefinition (Definition.name n) (Definition.typeName kept) (Definition.typeName n)]

def insertAll (t : Table ν) : List ν → Logged (Table ν)
  | [] => ⟨t,[]⟩
  | n :: rest =>
    let after := (t.insert n).insertAll rest
    ⟨after.value,t.insertEvents n ++ after.log⟩

/-- Adds the nodes of a list, and tells the names whose definition differs from the one kept. -/
def mergeNodes (t : Table ν) : List ν → Table ν × List String
  | [] => (t,[])
  | n :: rest =>
    if t.clashes n then
      let (after,conflicts) := t.mergeNodes rest
      (after,Definition.name n :: conflicts)
    else (t.insert n).mergeNodes rest

def merge (t other : Table ν) : Table ν × List String := t.mergeNodes other.nodes

end Table

def NodeTable.undefined (t : NodeTable) : List String :=
  FirstSeen.ofList ((t.nodes.flatMap (·.body.children)).filter (fun child => !t.contains child))

namespace Table

variable {ν : Type} [Definition ν]

def separatorNames : List String := ["WHITESPACE","COMMENT"]

def separators (t : Table ν) : List String := separatorNames.filter t.contains

end Table

def builtins : List Node :=
  [⟨"ANY","ANY",.terminal .any⟩,⟨"SOI","SOI",.terminal .startOfInput⟩,
    ⟨"EOI","EOI",.terminal .endOfInput⟩,⟨"NEWLINE","NEWLINE",.terminal .newline⟩]

def builtinNames : List String := builtins.map Node.name

def Table.addBuiltins {ν : Type} [Definition ν] (t : Table ν) : Logged (Table ν) :=
  t.insertAll (builtins.map Definition.ofNode)

end TypedPeg
