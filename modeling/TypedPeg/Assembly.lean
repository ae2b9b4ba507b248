import TypedPeg.Node.Lowering

/-! Whole grammars as node tables. With validation a grammar must have known kinds,
unique names, references that resolve, and nodes that do not collide. -/
namespace TypedPeg

structure AssemblyReport where
  msg : String
  rule : Option String

def AssemblyReport.message (report : AssemblyReport) : String :=
  match report.rule with
  | none => report.msg
  | some rule => report.msg ++ " in rule '" ++ rule ++ "'"

inductive AssemblyFault where
  | unknownKind (word rule : String)
  | reservedName (rule : String)
  | duplicateRule (rule : String)
  | undefinedReference (name rule : String)
  /-- The rule's name is that of a node that another rule has brought in. -/
  | ruleNameTaken (rule : String)
  | nodeNamesTaken (names : List String) (rule : String)
  deriving DecidableEq

namespace AssemblyFault

def msg : AssemblyFault → String
  | .unknownKind word _ => "unknown rule type " ++ Text.Literal.quote word
  | .reservedName _ => "rule name is reserved for a builtin"
  | .duplicateRule _ => "duplicate rule"
  | .undefinedReference name _ => "reference to undefined rule '" ++ name ++ "'"
  | .ruleNameTaken _ => "rule name collides with a generated node"
  | .nodeNamesTaken names _ => "generated node names collide: " ++ ", ".intercalate names

def rule : AssemblyFault → String
  | .unknownKind _ rule | .reservedName rule | .duplicateRule rule => rule
  | .undefinedReference _ rule | .ruleNameTaken rule | .nodeNamesTaken _ rule => rule

def report (fault : AssemblyFault) : AssemblyReport := ⟨fault.msg,some fault.rule⟩

end AssemblyFault

structure Heading where
  name : String
  kind : Kind

def Rule.heading (rule : Rule) : Heading := ⟨rule.name,rule.kind⟩

/-- Each rule has a known kind and a name that is neither reserved nor defined before it. -/
def validateNames (defined : List String) : List Heading → Except AssemblyFault Unit
  | [] => .ok ()
  | rule :: rest =>
    if rule.kind.isKnown = false then .error (.unknownKind rule.kind.word rule.name)
    else if rule.name ∈ builtinNames then .error (.reservedName rule.name)
    else if rule.name ∈ defined then .error (.duplicateRule rule.name)
    else validateNames (rule.name :: defined) rest

def validateRefs (defined : List String) : List Rule → Except AssemblyFault Unit
  | [] => .ok ()
  | rule :: rest =>
    match rule.expr.refs.find? (fun name => name ∉ defined) with
    | some name => .error (.undefinedReference name rule.name)
    | none => validateRefs defined rest

def validate (rules : List Rule) : Except AssemblyFault Unit := do
  validateNames [] (rules.map Rule.heading)
  validateRefs (rules.map Rule.name ++ builtinNames) rules

structure Contribution (ν : Type) [Definition ν] where
  rule : Heading
  own : Logged (Table ν)

def Rule.contribution (rule : Rule) : Contribution Node := ⟨rule.heading,rule.table⟩

namespace Table

variable {ν : Type} [Definition ν]

/-- Adds what each rule contributes in turn. With `strict`, a name that is taken ends the assembly;
without, the definitions that came first stay. -/
def addRules (strict : Bool) (t : Table ν) : List (Contribution ν) → Logged (Except AssemblyFault (Table ν))
  | [] => ⟨.ok t,[]⟩
  | ⟨rule,own⟩ :: rest =>
    if strict && t.contains rule.name then ⟨.error (.ruleNameTaken rule.name),[]⟩
    else
      let (merged,conflicts) := t.merge own.value
      if strict && !conflicts.isEmpty then ⟨.error (.nodeNamesTaken conflicts rule.name),own.log⟩
      else
        let kept := if conflicts.isEmpty then [] else [Event.conflictsKept rule.name conflicts]
        let after := merged.addRules strict rest
        ⟨after.value,
          own.log ++ kept ++ .ruleAdded rule.name rule.kind.word own.value.size :: after.log⟩

def ofContributions (strict : Bool) (rules : List (Contribution ν)) : Logged (Except AssemblyFault (Table ν)) :=
  let start := (empty : Table ν).addBuiltins
  let built := start.value.addRules strict rules
  match built.value with
  | .error fault => ⟨.error fault,start.log ++ built.log⟩
  | .ok table => ⟨.ok table,start.log ++ built.log ++ [.assembled rules.length table.size]⟩

end Table

/-- The table of a grammar. With `strict`, only a valid grammar has one. -/
def NodeTable.ofRules (rules : List Rule) (strict : Bool) : Logged (Except AssemblyFault NodeTable) :=
  match if strict then validate rules else .ok () with
  | .error fault => ⟨.error fault,[]⟩
  | .ok () => Table.ofContributions strict (rules.map Rule.contribution)

end TypedPeg
