import TypedPeg.Grammar.Draft

/-! Sound drafts: those whose parts are all of the right sort. They are the drafts of
expressions and rules. -/
namespace TypedPeg

namespace Draft

def texts : List Datum → Option (List String)
  | [] => some []
  | .text t :: rest => (texts rest).map (t :: ·)
  | _ => none

def leafExpr (form : Form) (parts : List Draft) : Option Expr :=
  match form,parts with
  | .literal,[.plain (.text t)] => some (.literal t)
  | .caseless,[.plain (.text t)] => some (.caseless t)
  | .range,[.plain (.text lo),.plain (.text hi)] =>
    match lo.toList,hi.toList with
    | [lo],[hi] => some (.range lo hi)
    | _,_ => none
  | .ref,[.plain (.text name)] => some (.ref name)
  | .peek,[.plain (.int start),.plain .null] => some (.peek start none)
  | .peek,[.plain (.int start),.plain (.int stop)] => some (.peek start (some stop))
  | .drop,[.plain (.int count)] => some (.drop count)
  | .skipUntil,[.plain (.list items)] => (texts items).map .skipUntil
  | _,_ => none

def toExpr? : Draft → Option Expr
  | .expr .seq [lhs,rhs] => return .seq (← lhs.toExpr?) (← rhs.toExpr?)
  | .expr .choice [lhs,rhs] => return .choice (← lhs.toExpr?) (← rhs.toExpr?)
  | .expr .opt [inner] => return .opt (← inner.toExpr?)
  | .expr .rep [inner] => return .rep (← inner.toExpr?)
  | .expr .followedBy [inner] => return .followedBy (← inner.toExpr?)
  | .expr .notFollowedBy [inner] => return .notFollowedBy (← inner.toExpr?)
  | .expr .restore [inner] => return .restore (← inner.toExpr?)
  | .expr .push [inner] => return .push (← inner.toExpr?)
  | .expr .tag [inner,.plain (.text name)] => return .tag (← inner.toExpr?) name
  | .expr form parts => leafExpr form parts
  | .rule _ _ _ | .plain _ => none

def toRule? : Draft → Option Rule
  | .rule name kind body => body.toExpr?.map fun e => ⟨name,kind,e⟩
  | _ => none

end Draft

namespace Expr

def toDraft : Expr → Draft
  | .literal text => .expr .literal [.plain (.text text)]
  | .caseless text => .expr .caseless [.plain (.text text)]
  | .range lo hi => .expr .range [.plain (.text (.singleton lo)),.plain (.text (.singleton hi))]
  | .ref name => .expr .ref [.plain (.text name)]
  | .seq lhs rhs => .expr .seq [lhs.toDraft,rhs.toDraft]
  | .choice lhs rhs => .expr .choice [lhs.toDraft,rhs.toDraft]
  | .opt inner => .expr .opt [inner.toDraft]
  | .rep inner => .expr .rep [inner.toDraft]
  | .followedBy inner => .expr .followedBy [inner.toDraft]
  | .notFollowedBy inner => .expr .notFollowedBy [inner.toDraft]
  | .restore inner => .expr .restore [inner.toDraft]
  | .push inner => .expr .push [inner.toDraft]
  | .peek start none => .expr .peek [.plain (.int start),.plain .null]
  | .peek start (some stop) => .expr .peek [.plain (.int start),.plain (.int stop)]
  | .drop count => .expr .drop [.plain (.int count)]
  | .skipUntil strings => .expr .skipUntil [.plain (.list (strings.map .text))]
  | .tag inner name => .expr .tag [inner.toDraft,.plain (.text name)]

end Expr

def Rule.toDraft (rule : Rule) : Draft := .rule rule.name rule.kind rule.expr.toDraft

end TypedPeg
