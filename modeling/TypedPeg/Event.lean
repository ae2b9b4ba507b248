import TypedPeg.Match.Failure

/-! What is worth a line in a log. -/
namespace TypedPeg

inductive Level where
  | debug
  | info
  | warning
  deriving DecidableEq

def Level.name : Level → String
  | .debug => "DEBUG"
  | .info => "INFO"
  | .warning => "WARNING"

inductive Channel where
  | table
  | assembly
  | parser
  deriving DecidableEq

inductive Event where
  /-- A second definition under a name that is taken was not stored. The types of the two. -/
  | redefinition (name kept ignored : String)
  | ruleAdded (rule kind : String) (nodes : Nat)
  | conflictsKept (rule : String) (names : List String)
  | assembled (rules nodes : Nat)
  | parseFailed (f : Failure) (pos : Int)
  deriving DecidableEq

namespace Event

def level : Event → Level
  | .redefinition _ _ _ | .conflictsKept _ _ => .warning
  | .ruleAdded _ _ _ | .parseFailed _ _ => .debug
  | .assembled _ _ => .info

def channel : Event → Channel
  | .redefinition _ _ _ => .table
  | .ruleAdded _ _ _ | .conflictsKept _ _ | .assembled _ _ => .assembly
  | .parseFailed _ _ => .parser

def message : Event → String
  | .redefinition name kept ignored =>
    "ignoring redefinition of node " ++ name ++ " (" ++ kept ++ ") as " ++ ignored
  | .ruleAdded rule kind nodes => "rule " ++ rule ++ " (" ++ kind ++ "): " ++ toString nodes ++ " nodes"
  | .conflictsKept rule names =>
    "rule " ++ rule ++ ": kept earlier definitions of " ++ ", ".intercalate names
  | .assembled rules nodes =>
    "assembled " ++ toString rules ++ " rules into " ++ toString nodes ++ " nodes"
  | .parseFailed f pos => "parse failed at offset " ++ toString pos ++ ": " ++ f.msg

end Event

structure Logged (α : Type) where
  value : α
  log : List Event

end TypedPeg
