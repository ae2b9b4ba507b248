import TypedPeg.FirstSeen

/-! Grammar expressions and rules. Sequences and choices are binary; a chain of one
of them leans right, and its elements are read off along the right spine. -/
namespace TypedPeg

inductive Connective where
  | seq
  | choice
  deriving DecidableEq

def Connective.name : Connective → String
  | .seq => "Seq"
  | .choice => "Choice"

inductive Expr where
  | literal (text : String)
  /-- A literal compared up to case. -/
  | caseless (text : String)
  /-- One character, both bounds included. -/
  | range (lo hi : Char)
  /-- The rule or builtin of that name. -/
  | ref (name : String)
  | seq (lhs rhs : Expr)
  /-- Ordered choice: the first alternative that matches. -/
  | choice (lhs rhs : Expr)
  | opt (inner : Expr)
  | rep (inner : Expr)
  | followedBy (inner : Expr)
  | notFollowedBy (inner : Expr)
  /-- Undoes the stack effects of `inner` when it fails. -/
  | restore (inner : Expr)
  /-- Puts the span of `inner` on the stack. -/
  | push (inner : Expr)
  /-- The texts of a range of stack entries, bottom to top. -/
  | peek (start : Int) (stop : Option Int)
  /-- Takes the top entries off the stack. -/
  | drop (count : Int)
  /-- Everything before the first occurrence of any of the strings. -/
  | skipUntil (strings : List String)
  /-- Names the field that `inner` fills. -/
  | tag (inner : Expr) (name : String)
  deriving DecidableEq

namespace Connective

inductive ChainError where
  | noElements (link : Connective)

def ChainError.message : ChainError → String
  | .noElements link => link.name ++ " needs at least one expression"

/-- Joins elements into a chain that leans right. -/
def chain {α : Type} (link : Connective) (join : α → α → α) : List α → Except ChainError α
  | [] => .error (.noElements link)
  | [only] => .ok only
  | first :: rest => (link.chain join rest).map (join first)

end Connective

namespace Expr

def join : Connective → Expr → Expr → Expr
  | .seq => seq
  | .choice => choice

def ofElements (link : Connective) : List Expr → Except Connective.ChainError Expr := link.chain (join link)

/-- The elements of a chain. A chain on the left of its link is one element. -/
def elements : Connective → Expr → List Expr
  | .seq, .seq lhs rhs => lhs :: rhs.elements .seq
  | .choice, .choice lhs rhs => lhs :: rhs.elements .choice
  | _, e => [e]

def idents : Expr → List String
  | .ref name => [name]
  | .seq lhs rhs | .choice lhs rhs => lhs.idents ++ rhs.idents
  | .opt inner | .rep inner | .followedBy inner | .notFollowedBy inner => inner.idents
  | .restore inner | .push inner | .tag inner _ => inner.idents
  | .literal _ | .caseless _ | .range _ _ | .peek _ _ | .drop _ | .skipUntil _ => []

def refs (e : Expr) : List String := FirstSeen.ofList e.idents

end Expr

inductive Kind where
  | normal
  | silent
  | atomic
  | compoundAtomic
  | nonAtomic
  /-- A word that names none of the kinds above. -/
  | unknown (word : String)
    (strange : word ∉ ["normal","silent","atomic","compound_atomic","non_atomic"])
  deriving DecidableEq

namespace Kind

def word : Kind → String
  | .normal => "normal"
  | .silent => "silent"
  | .atomic => "atomic"
  | .compoundAtomic => "compound_atomic"
  | .nonAtomic => "non_atomic"
  | .unknown word _ => word

def ofWord (word : String) : Kind :=
  if strange : word ∉ ["normal","silent","atomic","compound_atomic","non_atomic"] then .unknown word strange
  else if word = "normal" then .normal
  else if word = "silent" then .silent
  else if word = "atomic" then .atomic
  else if word = "compound_atomic" then .compoundAtomic
  else .nonAtomic

@[simp] theorem ofWord_word (k : Kind) : ofWord k.word = k := by
  cases k with
  | unknown word strange => exact dif_pos strange
  | _ => decide

@[simp] theorem word_ofWord (w : String) : (ofWord w).word = w := by
  unfold ofWord
  split
  · rfl
  · rename_i known
    simp only [Decidable.not_not,List.mem_cons,List.not_mem_nil,or_false] at known
    rcases known with rfl | rfl | rfl | rfl | rfl <;> decide

def isKnown : Kind → Bool
  | .unknown _ _ => false
  | _ => true

end Kind

structure Rule where
  name : String
  kind : Kind
  expr : Expr
  deriving DecidableEq

end TypedPeg
