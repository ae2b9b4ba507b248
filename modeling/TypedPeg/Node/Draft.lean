import TypedPeg.Grammar.Draft.Printer
import TypedPeg.Node.Lowering

/-! Nodes of drafts. Most are nodes like any other; a leaf with a part of the wrong sort
keeps that part, and its label need not be a text. -/
namespace TypedPeg

inductive DraftBody where
  | sound (b : Body)
  | stray (s : Stray)

structure DraftNode where
  name : String
  label : Draft
  body : DraftBody

namespace Stray

/-- The body that a leaf of this form has when its parts are of the right sort. -/
def model : Stray → Body
  | .literal _ => .terminal (.literal "")
  | .caseless _ => .terminal (.caseless "")
  | .ref _ => .alias ""
  | .peek _ _ => .terminal (.peek 0 none)
  | .drop _ => .terminal (.drop 0)
  | .skipUntil _ => .terminal (.skipUntil [])

def fields : Stray → List (String × Datum)
  | .literal text | .caseless text => [("text",text.toDatum)]
  | .ref name => [("target",name.toDatum)]
  | .peek start stop => [("start",start.toDatum),("end",stop.toDatum)]
  | .drop count => [("count",count.toDatum)]
  | .skipUntil strings => [("strings",strings.toDatum)]

def children : Stray → List Draft
  | .ref name => [name]
  | _ => []

def toBody? : Stray → Option Body
  | .literal (.plain (.text t)) => some (.terminal (.literal t))
  | .caseless (.plain (.text t)) => some (.terminal (.caseless t))
  | .ref (.plain (.text name)) => some (.alias name)
  | .peek (.plain (.int start)) (.plain .null) => some (.terminal (.peek start none))
  | .peek (.plain (.int start)) (.plain (.int stop)) => some (.terminal (.peek start (some stop)))
  | .drop (.plain (.int count)) => some (.terminal (.drop count))
  | .skipUntil (.plain (.list items)) => (Draft.texts items).map fun strings => .terminal (.skipUntil strings)
  | _ => none

end Stray

namespace DraftBody

def typeName : DraftBody → String
  | .sound b => b.typeName
  | .stray s => s.model.typeName

def shape : DraftBody → Shape
  | .sound b => b.shape
  | .stray s => s.model.shape

def fields : DraftBody → List (String × Datum)
  | .sound b => b.fields
  | .stray s => s.fields

def children : DraftBody → List Draft
  | .sound b => b.children.map fun name => .plain (.text name)
  | .stray s => s.children

def ofStray (s : Stray) : DraftBody :=
  match s.toBody? with
  | some b => .sound b
  | none => .stray s

end DraftBody

namespace DraftNode

def ofNode (n : Node) : DraftNode := ⟨n.name,.plain (.text n.label),.sound n.body⟩

def toNode? : DraftNode → Option Node
  | ⟨name,.plain (.text label),.sound b⟩ => some ⟨name,label,b⟩
  | _ => none

theorem name_of_toNode? {d : DraftNode} {n : Node} (h : d.toNode? = some n) : n.name = d.name := by
  unfold toNode? at h
  split at h <;> simp at h
  rw [← h]

def same (n m : DraftNode) : Bool :=
  n.body.typeName = m.body.typeName && n.name = m.name && n.label.same m.label
    && (Datum.object n.body.fields).numeric = (Datum.object m.body.fields).numeric

instance : Definition DraftNode where
  name := DraftNode.name
  typeName n := n.body.typeName
  same := DraftNode.same
  ofNode := ofNode

/-- Puts leaves back in the place of the aliases that stand for them. Every reference becomes one
alias, left to right. -/
def putBack : List Node → List Stray → List DraftNode
  | [], _ => []
  | ⟨name,label,.alias _⟩ :: rest, s :: strays =>
    ⟨name,.plain (.text label),.ofStray s⟩ :: putBack rest strays
  | n :: rest, strays => ofNode n :: putBack rest strays

end DraftNode

abbrev DraftTable := Table DraftNode

theorem names_of_toNode? {drafts : List DraftNode} {nodes : List Node}
    (h : drafts.mapM DraftNode.toNode? = some nodes) : nodes.map Node.name = drafts.map DraftNode.name := by
  induction drafts generalizing nodes with
  | nil => simp at h; subst h; rfl
  | cons d rest ih =>
    simp only [List.mapM_cons,Option.bind_eq_bind,Option.bind_eq_some_iff] at h
    obtain ⟨n,first,after,others,same⟩ := h
    simp at same
    subst same
    simp [DraftNode.name_of_toNode? first,ih others]

namespace DraftTable

def ofTable (t : NodeTable) : DraftTable :=
  ⟨t.nodes.map .ofNode,by simpa [Definition.name,DraftNode.ofNode,Function.comp_def] using t.distinct⟩

def toTable? (t : DraftTable) : Option NodeTable :=
  match sound : t.nodes.mapM DraftNode.toNode? with
  | some nodes => some ⟨nodes,by
      have distinct := t.distinct
      simp only [Definition.name] at distinct ⊢
      rw [names_of_toNode? sound]
      exact distinct⟩
  | none => none

def defines (t : DraftTable) : Draft → Bool
  | .plain (.text name) => t.contains name
  | _ => false

def undefined (t : DraftTable) : Except Misfit (List Draft) :=
  match t.toTable? with
  | some sound => .ok (sound.undefined.map fun name => .plain (.text name))
  | none =>
    let children := t.nodes.flatMap (·.body.children)
    match children.findSome? Draft.unhashable? with
    | some type => .error (.unhashable type)
    | none => .ok (FirstSeen.ofListBy Draft.same (children.filter (!t.defines ·)))

end DraftTable

namespace Draft

def untagged : Draft → Draft
  | .expr .tag [inner,_] => inner.untagged
  | d => d

def compile (skip : Bool) (name : String) (d : Draft) : Except Misfit (List DraftNode × String) :=
  match d.toExpr? with
  | some e =>
    let compiled := e.compile skip (.own name)
    .ok (compiled.nodes.map .ofNode,compiled.names)
  | none => do
    match ← d.untagged.write with
    | .text s =>
      let compiled := s.expr.compile skip (.own name)
      return (DraftNode.putBack compiled.nodes s.refs,compiled.names)
    | .bare ref =>
      let node : DraftNode := ⟨name,ref,.stray (.ref ref)⟩
      return ([node],node.name)

def lowerRule (name : String) (kind : Kind) (body : Draft) : Except Misfit (List DraftNode) :=
  match body.toExpr? with
  | some e => .ok ((Rule.lower ⟨name,kind,e⟩).map .ofNode)
  | none => do
    match ← body.write with
    | .text s => return DraftNode.putBack (Rule.lower ⟨name,kind,s.expr⟩) s.refs
    | .bare ref =>
      let nodes := DraftNode.putBack (Rule.lower ⟨name,kind,.ref ""⟩) [.ref ref]
      return nodes.map fun n => { n with label := ref }

end Draft

def DraftTable.addDraft (t : DraftTable) (d : Draft) (name : String) (skip : Bool) : Except Misfit (Added DraftTable) := do
  let (nodes,root) ← d.compile skip name
  return ⟨t.insertAll nodes,root⟩

end TypedPeg
