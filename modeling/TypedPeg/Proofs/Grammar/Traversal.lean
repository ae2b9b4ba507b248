import Mathlib.Algebra.Ring.Nat
import TypedPeg.Grammar.Expr
import TypedPeg.Proofs.Match.Furthest

/-! The sub-expressions of an expression, left to right, and which of them are lowered to nodes of their
own. The names referred to are also found by a walk with a stack, which takes an expression off the top
and puts its parts in its place. -/
namespace TypedPeg.Expr

def children : Expr → List Expr
  | .seq lhs rhs | .choice lhs rhs => [lhs,rhs]
  | .opt inner | .rep inner | .followedBy inner | .notFollowedBy inner => [inner]
  | .restore inner | .push inner | .tag inner _ => [inner]
  | .literal _ | .caseless _ | .range _ _ | .ref _ | .peek _ _ | .drop _ | .skipUntil _ => []

def ident? : Expr → Option String
  | .ref name => some name
  | _ => none

def link? : Expr → Option Connective
  | .seq _ _ => some .seq
  | .choice _ _ => some .choice
  | _ => none

/-- A sub-expression where it stands: `within` is the connective whose right side it is. -/
structure Occurrence where
  expr : Expr
  within : Option Connective

def occurrences (within : Option Connective) : Expr → List Occurrence
  | .seq lhs rhs => lhs.occurrences none ++ rhs.occurrences (some .seq) ++ [⟨.seq lhs rhs,within⟩]
  | .choice lhs rhs => lhs.occurrences none ++ rhs.occurrences (some .choice) ++ [⟨.choice lhs rhs,within⟩]
  | .opt inner => inner.occurrences none ++ [⟨.opt inner,within⟩]
  | .rep inner => inner.occurrences none ++ [⟨.rep inner,within⟩]
  | .followedBy inner => inner.occurrences none ++ [⟨.followedBy inner,within⟩]
  | .notFollowedBy inner => inner.occurrences none ++ [⟨.notFollowedBy inner,within⟩]
  | .restore inner => inner.occurrences none ++ [⟨.restore inner,within⟩]
  | .push inner => inner.occurrences none ++ [⟨.push inner,within⟩]
  | .tag inner name => inner.occurrences none ++ [⟨.tag inner name,within⟩]
  | .literal text => [⟨.literal text,within⟩]
  | .caseless text => [⟨.caseless text,within⟩]
  | .range lo hi => [⟨.range lo hi,within⟩]
  | .ref name => [⟨.ref name,within⟩]
  | .peek start stop => [⟨.peek start stop,within⟩]
  | .drop count => [⟨.drop count,within⟩]
  | .skipUntil strings => [⟨.skipUntil strings,within⟩]

namespace Occurrence

def continues (o : Occurrence) : Bool := o.within.isSome && o.expr.link? = o.within

/-- The expression, if a node is made of it: of a tag there is none, nor of a link inside a chain. -/
def whole? (o : Occurrence) : Option Expr :=
  match o.expr with
  | .tag _ _ => none
  | e => if o.continues then none else some e

theorem whole?_plain {e : Expr} {within : Option Connective} (unlinked : e.link? = none) (untagged : ∀ inner name, e ≠ .tag inner name) :
    whole? ⟨e,within⟩ = some e := by
  have apart : continues ⟨e,within⟩ = false := by
    rw [continues,unlinked]
    cases within <;> rfl
  unfold whole?
  split
  · rename_i inner name same
    exact (untagged inner name same).elim
  · rw [apart]
    rfl

end Occurrence

def wholes (within : Option Connective) (e : Expr) : List Expr := (e.occurrences within).filterMap (·.whole?)

section Wholes
variable {within : Option Connective} {e inner : Expr}

theorem wholes_tag (name : String) : (inner.tag name).wholes within = inner.wholes none := by
  simp [wholes,occurrences,Occurrence.whole?]

/-- A link on the right of its own connective goes on with the chain. -/
theorem wholes_link (link : Connective) (lhs rhs : Expr) :
    (join link lhs rhs).wholes (some link) = lhs.wholes none ++ rhs.wholes (some link) := by
  cases link <;> simp [wholes,join,occurrences,Occurrence.whole?,Occurrence.continues,link?]

theorem wholes_chain {link : Connective} (lhs rhs : Expr) (apart : within ≠ some link) :
    (join link lhs rhs).wholes within = lhs.wholes none ++ rhs.wholes (some link) ++ [join link lhs rhs] := by
  have begins : Occurrence.whole? ⟨join link lhs rhs,within⟩ = some (join link lhs rhs) := by
    rcases within with _ | _ | _ <;> cases link <;> first | rfl | exact (apart rfl).elim
  have last : [(⟨join link lhs rhs,within⟩ : Occurrence)].filterMap (·.whole?) = [join link lhs rhs] := List.filterMap_cons_some begins
  rw [← last]
  cases link <;> simp [wholes,join,occurrences]

theorem wholes_inner (only : e.children = [inner]) (untagged : ∀ inner name, e ≠ .tag inner name) :
    e.wholes within = inner.wholes none ++ [e] := by
  cases e with
  | opt | rep | followedBy | notFollowedBy | restore | push =>
    cases only
    simp [wholes,occurrences,Occurrence.whole?_plain rfl untagged]
  | tag inner name => exact (untagged inner name rfl).elim
  | _ => cases only

theorem wholes_leaf (none : e.children = []) : e.wholes within = [e] := by
  have untagged : ∀ inner name, e ≠ .tag inner name := by
    rintro inner name rfl
    cases none
  cases e with
  | literal | caseless | range | ref | peek | drop | skipUntil => simp [wholes,occurrences,Occurrence.whole?_plain rfl untagged]
  | _ => cases none

end Wholes

theorem idents_eq_occurrences (within : Option Connective) (e : Expr) :
    e.idents = (e.occurrences within).filterMap fun o => o.expr.ident? := by
  induction e generalizing within with
  | seq lhs rhs first others | choice lhs rhs first others =>
    rw [idents,occurrences,List.filterMap_append,List.filterMap_append,← first,← others]
    simp [ident?]
  | opt inner ih | rep inner ih | followedBy inner ih | notFollowedBy inner ih | restore inner ih | push inner ih | tag inner name ih =>
    rw [idents,occurrences,List.filterMap_append,← ih]
    simp [ident?]
  | _ => rfl

theorem refs_eq_eraseDups (e : Expr) : e.refs = ((e.occurrences none).filterMap fun o => o.expr.ident?).eraseDups := by
  rw [refs,FirstSeen.ofList_eq_eraseDups,← idents_eq_occurrences]

theorem sum_children (e : Expr) : (e.children.map sizeOf).sum < sizeOf e := by
  cases e with
  | literal | caseless | range | ref | peek | drop | skipUntil =>
    simp only [children,List.map_nil,List.sum_nil,literal.sizeOf_spec,caseless.sizeOf_spec,range.sizeOf_spec,ref.sizeOf_spec,
      peek.sizeOf_spec,drop.sizeOf_spec,skipUntil.sizeOf_spec]
    omega
  | _ =>
    simp only [children,List.map_cons,List.map_nil,List.sum_cons,List.sum_nil,seq.sizeOf_spec,choice.sizeOf_spec,opt.sizeOf_spec,
      rep.sizeOf_spec,followedBy.sizeOf_spec,notFollowedBy.sizeOf_spec,restore.sizeOf_spec,push.sizeOf_spec,tag.sizeOf_spec]
    omega

/-- Adds to the names found those that the expressions on a stack refer to. -/
def walk (found : List String) : List Expr → List String
  | [] => found
  | .ref name :: stack => walk (FirstSeen.add found name) stack
  | e :: stack => walk found (e.children ++ stack)
termination_by stack => (stack.map sizeOf).sum
decreasing_by
  · simp only [List.map_cons,List.sum_cons,Expr.ref.sizeOf_spec]
    omega
  · have := sum_children e
    simp only [List.map_append,List.sum_append,List.map_cons,List.sum_cons]
    omega

theorem idents_eq_children {e : Expr} (inner : ∀ name, e ≠ .ref name) : e.idents = e.children.flatMap idents := by
  cases e with
  | ref name => exact (inner name rfl).elim
  | _ => simp [idents,children]

theorem walk_eq_addAll (found : List String) (stack : List Expr) : walk found stack = FirstSeen.addAll found (stack.flatMap idents) := by
  fun_induction walk found stack with
  | case1 found => rfl
  | case2 found name stack ih => exact ih
  | case3 found e stack inner ih =>
    rw [ih,List.flatMap_append,← idents_eq_children inner]
    rfl

theorem walk_eq_refs (e : Expr) : walk [] [e] = e.refs := by
  rw [walk_eq_addAll,List.flatMap_singleton]
  rfl

end TypedPeg.Expr
