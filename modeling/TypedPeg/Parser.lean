import TypedPeg.Assembly
import TypedPeg.Match.Call
import TypedPeg.Source.Lines

/-! Parsing a text from a named rule. Failures are reported at the furthest place the
parse reached, with line and column. -/
namespace TypedPeg

structure ParseReport where
  msg : String
  pos : Int
  line : Int
  column : Int
  expected : List String

def ParseReport.message (report : ParseReport) : String :=
  report.msg ++ " at line " ++ toString report.line ++ " col " ++ toString report.column

inductive ParseFault where
  | noRule (name : String)
  /-- The limit on frames is beyond the greatest there can be. -/
  | limitTooLarge
  | leftRecursion (name : String) (pos : Int)
  | nestedTooDeeply (rule : String)
  | notRunnable
  /-- A node with a part of the wrong sort was reached. -/
  | misfit (m : Misfit)
  /-- The text did not match; `cause` is the failure that ended the parse. -/
  | unmatched (report : ParseReport) (cause : Failure)
  /-- A failure at an offset that the text does not have. -/
  | misplaced (error : OffsetError)

def ParseFault.message : ParseFault → String
  | .noRule name => "no rule named '" ++ name ++ "'"
  | .limitTooLarge => "Python int too large to convert to C int"
  | .leftRecursion name pos => Halt.leftRecursionMessage name pos
  | .nestedTooDeeply rule => "input nested too deeply for rule '" ++ rule ++ "'"
  | .notRunnable => ""
  | .misfit m => m.message
  | .unmatched report _ => report.message
  | .misplaced error => error.message

structure Parser (ν : Type) [Definition ν] where
  table : Table ν
  tracked : Bool
  limit : Int

namespace Parser

variable {ν : Type} [Runnable ν]

def defaultLimit : Int := 20000

def greatestLimit : Int := 0x7fffffff

/-- The frames a parse may use. A limit below the least is raised to it. -/
def frames (p : Parser ν) : Nat := max 1000 p.limit.toNat

def incomplete (pos : Int) : Failure := ⟨.unconsumed,"unconsumed input",pos,["EOI"]⟩

/-- Calls a rule at the start of the text; with `full` the match has to reach its end. -/
def fromStart {σ : Type} [Observer σ] (calls : Calls σ) (source : Source) (rule : String) (full : Bool) :
    Run σ (Cursor × Value) := do
  let (after,value) ← calls.call false rule .start
  if full && !after.atEnd source then .fail (incomplete after.pos) else return (after,value)

def run {σ : Type} [Observer σ] (p : Parser ν) (source : Source) (rule : String) (full : Bool) :
    Run σ (Cursor × Value) := fromStart (p.table.calls source p.frames []) source rule full

/-- The report of a failure. What the tracker saw stands in for the failure unless the failure
is further on. -/
def report (source : Source) (f : Failure) (far : Furthest) : Except OffsetError ParseReport := do
  let seen : Furthest := if f.pos ≤ far.pos then far else ⟨f.pos,f.expected⟩
  let place ← (LineTable.ofSource source).locate seen.pos
  return ⟨expectation seen.expected,seen.pos,place.line,place.column,seen.expected⟩

def answer (source : Source) (rule : String) :
    Outcome (Cursor × Value) × Tracker → Logged (Except ParseFault (Cursor × Value))
  | (.matched result,_) => ⟨.ok result,[]⟩
  | (.halted (.leftRecursion name pos),_) => ⟨.error (.leftRecursion name pos),[]⟩
  | (.halted .tooDeep,_) => ⟨.error (.nestedTooDeeply rule),[]⟩
  | (.halted .notRunnable,_) => ⟨.error .notRunnable,[]⟩
  | (.halted (.misfit m),_) => ⟨.error (.misfit m),[]⟩
  | (.failed f,tracker) =>
    match report source f tracker.furthest with
    | .error outside => ⟨.error (.misplaced outside),[]⟩
    | .ok shown => ⟨.error (.unmatched shown f),[.parseFailed f shown.pos]⟩

def attempt (p : Parser ν) (source : Source) (rule : String) (full : Bool) :
    Logged (Except ParseFault (Cursor × Value)) :=
  if !p.table.contains rule then ⟨.error (.noRule rule),[]⟩
  else if greatestLimit < p.limit then ⟨.error .limitTooLarge,[]⟩
  else answer source rule (p.run source rule full (.new p.tracked))

def parsePrefix (p : Parser ν) (rule text : String) : Logged (Except ParseFault (String × Value)) :=
  let source := Source.ofString text
  let result := p.attempt source rule false
  ⟨result.value.map fun (after,value) => (after.rest source,value),result.log⟩

def parse (p : Parser ν) (rule text : String) : Logged (Except ParseFault Value) :=
  let result := p.attempt (.ofString text) rule true
  ⟨result.value.map (·.2),result.log⟩

end Parser

def Parser.ofRules (rules : List Rule) : Logged (Except AssemblyFault (Parser Node)) :=
  let built := NodeTable.ofRules rules true
  ⟨built.value.map fun table => ⟨table,true,Parser.defaultLimit⟩,built.log⟩

end TypedPeg
