import TypedPeg.Assembly
import TypedPeg.Node.Draft

/-! Grammars given as drafts. A grammar all of whose drafts are sound rules is assembled as
such. In any other, what is wrong comes to light in the order in which the drafts are used. -/
namespace TypedPeg

inductive DraftFault where
  | assembly (fault : AssemblyFault)
  | render (error : RenderError)
  | misfit (m : Misfit)
  /-- The draft is no rule, and so lacks something that a rule has. -/
  | notARule (type lacking : String)

namespace DraftFault

def message : DraftFault → String
  | .assembly fault => fault.report.message
  | .render error => error.message
  | .misfit m => m.message
  | .notARule type lacking => "'" ++ type ++ "' object has no attribute '" ++ lacking ++ "'"

end DraftFault

namespace Draft

/-! Printing. -/

/-- A rule in grammar notation. Its kind is looked at before its body. -/
def renderRule : Draft → Except DraftFault String
  | .rule name kind body => do
    let modifier ← kind.modifier.mapError DraftFault.render
    match ← body.render.mapError DraftFault.misfit with
    | .plain (.text form) => return Rule.form name modifier form
    | bare => throw (.misfit (.notAppended bare.typeName))
  | d => .error (.notARule d.typeName "kind")

def renderRules (drafts : List Draft) : Except DraftFault String :=
  match drafts.mapM toRule? with
  | some rules => (TypedPeg.renderRules rules).mapError DraftFault.render
  | none => do
    let lines ← drafts.mapM renderRule
    return String.join (lines.map (· ++ "\n"))

/-! Validation. -/

/-- The rules before the first draft that is none, with the names they refer to, and that draft. -/
def headings : List Draft → List (Heading × List Draft) × Option Draft
  | [] => ([],none)
  | .rule name kind body :: rest =>
    let (found,odd) := headings rest
    ((⟨name,kind⟩,body.refs) :: found,odd)
  | d :: _ => ([],some d)

def refFault? (defined : List String) (rule : String) (ref : Draft) : Option DraftFault :=
  match ref.unhashable?,ref with
  | some type,_ => some (.misfit (.unhashable type))
  | none,.plain (.text name) =>
    if name ∈ defined then none else some (.assembly (.undefinedReference name rule))
  | none,ref => some (.misfit (.notAppended ref.typeName))

def validateRefs (defined : List String) : List (Heading × List Draft) → Except DraftFault Unit
  | [] => .ok ()
  | (heading,refs) :: rest =>
    match refs.findSome? (refFault? defined heading.name) with
    | some fault => .error fault
    | none => validateRefs defined rest

def validate (drafts : List Draft) : Except DraftFault Unit :=
  match drafts.mapM toRule? with
  | some rules => (TypedPeg.validate rules).mapError DraftFault.assembly
  | none => do
    let (found,odd) := headings drafts
    (validateNames [] (found.map (·.1))).mapError DraftFault.assembly
    match odd with
    | some d => throw (.notARule d.typeName "kind")
    | none => validateRefs (found.map (·.1.name) ++ builtinNames) found

/-! Assembly. -/

def contribution : Draft → Except DraftFault (Contribution DraftNode)
  | .rule name kind body => do
    let nodes ← (lowerRule name kind body).mapError DraftFault.misfit
    return ⟨⟨name,kind⟩,Table.empty.insertAll nodes⟩
  | d => .error (.notARule d.typeName "expr")

/-- What the drafts before the first that cannot be lowered contribute, and that one with what is
wrong with it. -/
def contributions : List Draft → List (Contribution DraftNode) × Option (Draft × DraftFault)
  | [] => ([],none)
  | d :: rest =>
    match d.contribution with
    | .error fault => ([],some (d,fault))
    | .ok first =>
      let (rules,odd) := contributions rest
      (first :: rules,odd)

/-- What ends an assembly that has come as far as this draft. -/
def faultAt (strict : Bool) (table : DraftTable) (d : Draft) (fault : DraftFault) : DraftFault :=
  match d with
  | .rule name _ _ => if strict && table.contains name then .assembly (.ruleNameTaken name) else fault
  | _ => fault

/-- The table of a grammar some draft of which is not sound, as far as it can be assembled. -/
def assembleEach (drafts : List Draft) (strict : Bool) : Logged (Except DraftFault DraftTable) :=
  match contributions drafts with
  | (rules,none) =>
    let built := Table.ofContributions strict rules
    ⟨built.value.mapError DraftFault.assembly,built.log⟩
  | (rules,some (odd,fault)) =>
    let start := (Table.empty : DraftTable).addBuiltins
    let built := start.value.addRules strict rules
    match built.value with
    | .error fault => ⟨.error (.assembly fault),start.log ++ built.log⟩
    | .ok table => ⟨.error (faultAt strict table odd fault),start.log ++ built.log⟩

def assemble (drafts : List Draft) (strict : Bool) : Logged (Except DraftFault DraftTable) :=
  match drafts.mapM toRule? with
  | some rules =>
    let built := NodeTable.ofRules rules strict
    ⟨(built.value.map DraftTable.ofTable).mapError DraftFault.assembly,built.log⟩
  | none =>
    match if strict then validate drafts else .ok () with
    | .error fault => ⟨.error fault,[]⟩
    | .ok () => assembleEach drafts strict

end Draft

end TypedPeg
