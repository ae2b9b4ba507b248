/-! What goes wrong when a part is used that is not of the sort which its use wants. -/
namespace TypedPeg

inductive Misfit where
  | notAnExpr (type : String)
  /-- Neither an expression nor a rule, and so without a written record. -/
  | notARecord
  | notIterable (type : String)
  | notACharacter (type : String)
  | notOneCharacter (length : Nat)
  /-- Among texts that are joined. -/
  | notJoined (index : Nat) (type : String)
  /-- Put behind a text. -/
  | notAppended (type : String)
  /-- A text put behind it. -/
  | notExtended (type : String)
  | notOrdered (relation left right : String)
  /-- A number with a point, for an entry of a list. -/
  | notAnIndex
  /-- Looked for in a text. -/
  | notSearched (type : String)
  /-- Tried as the start of a text. -/
  | notAStart (type : String)
  /-- One of those tried as the start of a text. -/
  | notOneStart (type : String)
  | unsized (type : String)
  /-- Compared up to case. -/
  | noFolding (type : String)
  /-- Looked up by its value. -/
  | unhashable (type : String)
  deriving DecidableEq

def Misfit.fixedList : String := "tuple"

def Misfit.message : Misfit → String
  | .notAnExpr type => "unhandled expression type: " ++ type
  | .notARecord => "must be called with a dataclass type or instance"
  | .notIterable type => "'" ++ type ++ "' object is not iterable"
  | .notACharacter type => "ord() expected string of length 1, but " ++ type ++ " found"
  | .notOneCharacter length =>
    "ord() expected a character, but string of length " ++ toString length ++ " found"
  | .notJoined index type =>
    "sequence item " ++ toString index ++ ": expected str instance, " ++ type ++ " found"
  | .notAppended type => "can only concatenate str (not \"" ++ type ++ "\") to str"
  | .notExtended type =>
    if type = fixedList then "can only concatenate tuple (not \"str\") to tuple"
    else "unsupported operand type(s) for +: '" ++ type ++ "' and 'str'"
  | .notOrdered relation left right =>
    "'" ++ relation ++ "' not supported between instances of '" ++ left ++ "' and '" ++ right ++ "'"
  | .notAnIndex => "slice indices must be integers or None or have an __index__ method"
  | .notSearched type => "must be str, not " ++ type
  | .notAStart type => "startswith first arg must be str or a tuple of str, not " ++ type
  | .notOneStart type => "tuple for startswith must only contain str, not " ++ type
  | .unsized type => "object of type '" ++ type ++ "' has no len()"
  | .noFolding type => "'" ++ type ++ "' object has no attribute 'casefold'"
  | .unhashable type => "unhashable type: '" ++ type ++ "'"

end TypedPeg
