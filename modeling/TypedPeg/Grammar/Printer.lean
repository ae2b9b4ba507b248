import TypedPeg.Grammar.Expr
import TypedPeg.Text.Literal
import TypedPeg.Text.Quoted

/-! Grammar notation. The written form of an expression is also the label under
which failures mention it. -/
namespace TypedPeg

/-- How tightly a form binds; a form in a tighter place is parenthesised. -/
def Expr.choiceLevel : Nat := 1
def Expr.seqLevel : Nat := 2
def Expr.prefixLevel : Nat := 3
def Expr.postfixLevel : Nat := 4

namespace Expr

def wrap (level place : Nat) (text : String) : String :=
  if level < place then "(" ++ text ++ ")" else text

def peekBounds (start : Int) (stop : Option Int) : String :=
  (if start = 0 then "" else toString start) ++ ".." ++ (match stop with
    | none => ""
    | some i => toString i)

def oneOf (forms : List String) : String :=
  let joined := " | ".intercalate forms
  if 1 < forms.length then "(" ++ joined ++ ")" else joined

def skipForm (alternatives : List String) : String := "(!" ++ oneOf alternatives ++ " ~ ANY)*"

/-- The form of an expression in a place that wants at least the level `place`. The right
operand of a link stands at the link's own level, so a chain is written without parentheses. -/
def renderAt : Nat → Expr → String
  | _, .literal text => Text.Quoted.text text
  | _, .caseless text => "^" ++ Text.Quoted.text text
  | _, .range lo hi => Text.Quoted.char lo ++ ".." ++ Text.Quoted.char hi
  | _, .ref name => name
  | place, .seq lhs rhs =>
    wrap seqLevel place (renderAt (seqLevel + 1) lhs ++ " ~ " ++ renderAt seqLevel rhs)
  | place, .choice lhs rhs =>
    wrap choiceLevel place (renderAt (choiceLevel + 1) lhs ++ " | " ++ renderAt choiceLevel rhs)
  | place, .opt inner => wrap postfixLevel place (renderAt postfixLevel inner ++ "?")
  | place, .rep inner => wrap postfixLevel place (renderAt postfixLevel inner ++ "*")
  | place, .followedBy inner => wrap prefixLevel place ("&" ++ renderAt prefixLevel inner)
  | place, .notFollowedBy inner => wrap prefixLevel place ("!" ++ renderAt prefixLevel inner)
  | _, .restore inner => "RESTORE(" ++ renderAt 0 inner ++ ")"
  | _, .push inner => "PUSH(" ++ renderAt 0 inner ++ ")"
  | _, .peek start stop => "PEEK[" ++ peekBounds start stop ++ "]"
  | _, .drop count => if count = 1 then "DROP" else "DROP(" ++ toString count ++ ")"
  | place, .skipUntil strings => wrap postfixLevel place (skipForm (strings.map Text.Quoted.text))
  | place, .tag inner name =>
    wrap prefixLevel place ("#" ++ name ++ " = " ++ renderAt prefixLevel inner)

def render (e : Expr) : String := renderAt 0 e

end Expr

inductive RenderError where
  | unknownKind (word : String)

def RenderError.message : RenderError → String
  | .unknownKind word => "unknown rule type: " ++ Text.Literal.quote word

def Kind.modifier : Kind → Except RenderError String
  | .normal => .ok ""
  | .silent => .ok "_"
  | .atomic => .ok "@"
  | .compoundAtomic => .ok "$"
  | .nonAtomic => .ok "!"
  | .unknown word _ => .error (.unknownKind word)

def Rule.form (name modifier body : String) : String :=
  name ++ " = " ++ modifier ++ "\x7b " ++ body ++ " \x7d"

def Rule.render (rule : Rule) : Except RenderError String := do
  return Rule.form rule.name (← rule.kind.modifier) rule.expr.render

def renderRules (rules : List Rule) : Except RenderError String := do
  let lines ← rules.mapM Rule.render
  return String.join (lines.map (· ++ "\n"))

end TypedPeg
