import Mathlib.Data.List.Nodup
import TypedPeg.Node.Lowering
import TypedPeg.Proofs.Source.Bounds

/-! What a grammar means: a relation between a piece of it, the cursor where it is to match, and
the cursor after the match, or none where it fails. It reads the expressions of the rules, and
knows neither nodes nor their names. -/
namespace TypedPeg

namespace Terminal

def reach (source : Source) (c : Cursor) (t : Terminal) : Option Cursor := (t.move source "" c).toOption

theorem toOption_move (t : Terminal) (source : Source) (label : String) (c : Cursor) :
    (t.move source label c).toOption = t.reach source c := by
  cases t <;> simp only [reach,move] <;> repeat' split
  all_goals rfl

end Terminal

def Expr.terminal? : Expr → Option Terminal
  | .literal text => some (.literal text)
  | .caseless text => some (.caseless text)
  | .range lo hi => some (.range lo.toString hi.toString)
  | .peek start stop => some (.peek start stop)
  | .drop count => some (.drop count)
  | .skipUntil strings => some (.skipUntil strings)
  | _ => none

def builtinTerminal? (name : String) : Option Terminal :=
  if name = "ANY" then some .any
  else if name = "SOI" then some .startOfInput
  else if name = "EOI" then some .endOfInput
  else if name = "NEWLINE" then some .newline
  else none

def Kind.flag (atomic : Bool) : Kind → Bool
  | .atomic | .compoundAtomic => true
  | .nonAtomic => false
  | .normal | .silent | .unknown _ _ => atomic

/-- Behind a separator that ends there, if that is further on. -/
def Cursor.past (c : Cursor) : Option Cursor → Cursor
  | some d => if c.pos < d.pos then d else c
  | none => c

theorem Cursor.From.past {c : Cursor} {source : Source} {r : Option Cursor} (inside : c.From source 0)
    (onward : ∀ d, r = some d → d.From source c.pos) : (c.past r).From source c.pos := by
  cases r with
  | none => exact inside.refl
  | some d =>
    unfold Cursor.past
    dsimp only
    split
    · exact onward d rfl
    · exact inside.refl

/-- A piece of a grammar. With `skip`, separators may stand between the parts of an expression. -/
inductive Phrase where
  | expr (skip : Bool) (e : Expr)
  /-- What is left of a sequence. -/
  | items (skip : Bool) (es : List Expr)
  /-- What is left of a choice. -/
  | choices (skip : Bool) (es : List Expr)
  /-- What is left of a repetition. -/
  | rounds (skip : Bool) (e : Expr) (first : Bool)
  | gap (allowed : Bool)
  /-- Each separator in turn, until a whole turn moves nothing. -/
  | turns
  | turn (names : List String)
  | call (name : String)

/-- The piece, under the atomic flag, matches from the first cursor to the second, or fails. -/
inductive Means (rules : List Rule) (source : Source) : Bool → Phrase → Cursor → Option Cursor → Prop
  | leaf {atomic skip e t c} (leaf : e.terminal? = some t) : Means rules source atomic (.expr skip e) c (t.reach source c)
  | ref {atomic skip name c r} (called : Means rules source atomic (.call name) c r) :
      Means rules source atomic (.expr skip (.ref name)) c r
  | tag {atomic skip e name c r} (inner : Means rules source atomic (.expr skip e) c r) :
      Means rules source atomic (.expr skip (.tag e name)) c r
  | seqFails {atomic skip lhs rhs c} (first : Means rules source atomic (.expr skip lhs) c none) :
      Means rules source atomic (.expr skip (.seq lhs rhs)) c none
  | seq {atomic skip lhs rhs c d r} (first : Means rules source atomic (.expr skip lhs) c (some d))
      (rest : Means rules source atomic (.items skip (rhs.elements .seq)) d r) :
      Means rules source atomic (.expr skip (.seq lhs rhs)) c r
  | choice {atomic skip lhs rhs c r} (any : Means rules source atomic (.choices skip ((Expr.choice lhs rhs).elements .choice)) c r) :
      Means rules source atomic (.expr skip (.choice lhs rhs)) c r
  | opt {atomic skip e c r} (inner : Means rules source atomic (.expr skip e) c r) :
      Means rules source atomic (.expr skip (.opt e)) c (some (r.getD c))
  | rep {atomic skip e c r} (all : Means rules source atomic (.rounds skip e true) c r) :
      Means rules source atomic (.expr skip (.rep e)) c r
  | followedBy {atomic skip e c r} (inner : Means rules source atomic (.expr skip e) c r) :
      Means rules source atomic (.expr skip (.followedBy e)) c (r.map fun _ => c)
  | notFollowedBy {atomic skip e c r} (inner : Means rules source atomic (.expr skip e) c r) :
      Means rules source atomic (.expr skip (.notFollowedBy e)) c (if r.isSome then none else some c)
  | restore {atomic skip e c r} (inner : Means rules source atomic (.expr skip e) c r) :
      Means rules source atomic (.expr skip (.restore e)) c r
  | push {atomic skip e c r} (inner : Means rules source atomic (.expr skip e) c r) :
      Means rules source atomic (.expr skip (.push e)) c (r.map fun d => d.push (c.spanTo d))
  | itemsEnd {atomic skip c} : Means rules source atomic (.items skip []) c (some c)
  | itemsFail {atomic skip e rest c d} (gap : Means rules source atomic (.gap skip) c (some d))
      (first : Means rules source atomic (.expr skip e) d none) : Means rules source atomic (.items skip (e :: rest)) c none
  | items {atomic skip e rest c d d' r} (gap : Means rules source atomic (.gap skip) c (some d))
      (first : Means rules source atomic (.expr skip e) d (some d')) (others : Means rules source atomic (.items skip rest) d' r) :
      Means rules source atomic (.items skip (e :: rest)) c r
  | choicesEnd {atomic skip c} : Means rules source atomic (.choices skip []) c none
  | choicesFirst {atomic skip e rest c d} (first : Means rules source atomic (.expr skip e) c (some d)) :
      Means rules source atomic (.choices skip (e :: rest)) c (some d)
  | choices {atomic skip e rest c r} (first : Means rules source atomic (.expr skip e) c none)
      (others : Means rules source atomic (.choices skip rest) c r) : Means rules source atomic (.choices skip (e :: rest)) c r
  /-- The separators before an attempt that comes to nothing are given back. -/
  | roundsEnd {atomic skip e first c d r} (gap : Means rules source atomic (.gap (skip && !first)) c (some d))
      (attempt : Means rules source atomic (.expr skip e) d r) (still : ∀ d', r = some d' → d'.pos = d.pos) :
      Means rules source atomic (.rounds skip e first) c (some c)
  | rounds {atomic skip e first c d d' r} (gap : Means rules source atomic (.gap (skip && !first)) c (some d))
      (attempt : Means rules source atomic (.expr skip e) d (some d')) (further : d'.pos ≠ d.pos)
      (others : Means rules source atomic (.rounds skip e false) d' r) : Means rules source atomic (.rounds skip e first) c r
  | noGap {atomic allowed c} (closed : (allowed && !atomic) = false) : Means rules source atomic (.gap allowed) c (some c)
  | gap {atomic allowed c r} (opened : (allowed && !atomic) = true) (turns : Means rules source atomic .turns c r) :
      Means rules source atomic (.gap allowed) c r
  | turnsEnd {atomic c d} (turn : Means rules source atomic (.turn (Table.separatorNames.filter (· ∈ rules.map Rule.name))) c (some d))
      (still : ¬c.pos < d.pos) : Means rules source atomic .turns c (some d)
  | turns {atomic c d r} (turn : Means rules source atomic (.turn (Table.separatorNames.filter (· ∈ rules.map Rule.name))) c (some d))
      (further : c.pos < d.pos) (others : Means rules source atomic .turns d r) : Means rules source atomic .turns c r
  | turnEnd {atomic c} : Means rules source atomic (.turn []) c (some c)
  | turn {atomic name rest c r r'} (separator : Means rules source true (.call name) c r)
      (others : Means rules source atomic (.turn rest) (c.past r) r') : Means rules source atomic (.turn (name :: rest)) c r'
  | rule {atomic name rule c r} (member : rule ∈ rules) (same : rule.name = name)
      (body : Means rules source (rule.kind.flag atomic) (.expr rule.skips rule.expr) c r) : Means rules source atomic (.call name) c r
  | builtin {atomic name t c} (builtin : builtinTerminal? name = some t) : Means rules source atomic (.call name) c (t.reach source c)

namespace Means

variable {rules : List Rule} {source : Source} {atomic : Bool} {phrase : Phrase} {c : Cursor} {r r' : Option Cursor}

structure Definite (rules : List Rule) : Prop where
  distinct : (rules.map Rule.name).Nodup
  unreserved : ∀ rule ∈ rules, builtinTerminal? rule.name = none

theorem Definite.unique (definite : Definite rules) {rule rule' : Rule} (member : rule ∈ rules) (member' : rule' ∈ rules)
    (same : rule.name = rule'.name) : rule = rule' := List.inj_on_of_nodup_map definite.distinct member member' same

/-- A piece of a definite grammar means one thing at a cursor. -/
theorem unique (definite : Definite rules) (means : Means rules source atomic phrase c r)
    (means' : Means rules source atomic phrase c r') : r = r' := by
  induction means generalizing r' with
  | @leaf _ _ e t c leaf =>
    cases means' with
    | leaf leaf' =>
      rw [leaf] at leaf'
      cases leaf'
      rfl
    | _ => cases leaf
  | ref _ ih =>
    cases means' with
    | leaf leaf => cases leaf
    | ref called => exact ih called
  | tag _ ih =>
    cases means' with
    | leaf leaf => cases leaf
    | tag inner => exact ih inner
  | seqFails _ ih =>
    cases means' with
    | leaf leaf => cases leaf
    | seqFails _ => rfl
    | seq first _ => cases ih first
  | seq _ _ ih ih' =>
    cases means' with
    | leaf leaf => cases leaf
    | seqFails first => cases ih first
    | seq first rest =>
      cases ih first
      exact ih' rest
  | choice _ ih =>
    cases means' with
    | leaf leaf => cases leaf
    | choice any => exact ih any
  | opt _ ih =>
    cases means' with
    | leaf leaf => cases leaf
    | opt inner => rw [ih inner]
  | rep _ ih =>
    cases means' with
    | leaf leaf => cases leaf
    | rep all => exact ih all
  | followedBy _ ih =>
    cases means' with
    | leaf leaf => cases leaf
    | followedBy inner => rw [ih inner]
  | notFollowedBy _ ih =>
    cases means' with
    | leaf leaf => cases leaf
    | notFollowedBy inner => rw [ih inner]
  | restore _ ih =>
    cases means' with
    | leaf leaf => cases leaf
    | restore inner => exact ih inner
  | push _ ih =>
    cases means' with
    | leaf leaf => cases leaf
    | push inner => rw [ih inner]
  | itemsEnd =>
    cases means'
    rfl
  | itemsFail _ _ ih ih' =>
    cases means' with
    | itemsFail _ _ => rfl
    | items gap first _ =>
      cases ih gap
      cases ih' first
  | items _ _ _ ih ih' ih'' =>
    cases means' with
    | itemsFail gap first =>
      cases ih gap
      cases ih' first
    | items gap first others =>
      cases ih gap
      cases ih' first
      exact ih'' others
  | choicesEnd =>
    cases means'
    rfl
  | choicesFirst _ ih =>
    cases means' with
    | choicesFirst first => exact ih first
    | choices first _ => cases ih first
  | choices _ _ ih ih' =>
    cases means' with
    | choicesFirst first => cases ih first
    | choices _ others => exact ih' others
  | roundsEnd _ _ still ih ih' =>
    cases means' with
    | roundsEnd _ _ _ => rfl
    | rounds gap attempt further _ =>
      cases ih gap
      cases ih' attempt
      exact (further (still _ rfl)).elim
  | rounds _ _ further _ ih ih' ih'' =>
    cases means' with
    | roundsEnd gap attempt still =>
      cases ih gap
      cases ih' attempt
      exact (further (still _ rfl)).elim
    | rounds gap attempt _ others =>
      cases ih gap
      cases ih' attempt
      exact ih'' others
  | noGap closed =>
    cases means' with
    | noGap _ => rfl
    | gap opened _ =>
      rw [closed] at opened
      cases opened
  | gap opened _ ih =>
    cases means' with
    | noGap closed =>
      rw [closed] at opened
      cases opened
    | gap _ turns => exact ih turns
  | turnsEnd _ still ih =>
    cases means' with
    | turnsEnd turn _ => exact ih turn
    | turns turn further _ =>
      cases ih turn
      exact (still further).elim
  | turns _ further _ ih ih' =>
    cases means' with
    | turnsEnd turn still =>
      cases ih turn
      exact (still further).elim
    | turns turn _ others =>
      cases ih turn
      exact ih' others
  | turnEnd =>
    cases means'
    rfl
  | turn _ _ ih ih' =>
    cases means' with
    | turn separator others =>
      cases ih separator
      exact ih' others
  | rule member same _ ih =>
    cases means' with
    | rule member' same' body =>
      cases definite.unique member member' (same.trans same'.symm)
      exact ih body
    | builtin builtin =>
      rw [← same,definite.unreserved _ member] at builtin
      cases builtin
  | builtin builtin =>
    cases means' with
    | rule member same _ =>
      rw [← same,definite.unreserved _ member] at builtin
      cases builtin
    | builtin builtin' =>
      rw [builtin] at builtin'
      cases builtin'
      rfl

theorem onward (means : Means rules source atomic phrase c r) (inside : c.From source 0) {d : Cursor} (ends : r = some d) :
    d.From source c.pos := by
  have reaches {t : Terminal} {c d : Cursor} (inside : c.From source 0) (ends : t.reach source c = some d) : d.From source c.pos := by
    unfold Terminal.reach at ends
    cases moved : t.move source "" c with
    | ok after =>
      rw [moved] at ends
      cases ends
      exact Terminal.move_from inside moved
    | error f =>
      rw [moved] at ends
      cases ends
  induction means generalizing d with
  | leaf => exact reaches inside ends
  | builtin => exact reaches inside ends
  | ref _ ih | tag _ ih | choice _ ih | rep _ ih | restore _ ih | gap _ _ ih | rule _ _ _ ih => exact ih inside ends
  | seqFails | itemsFail | choicesEnd => cases ends
  | itemsEnd | noGap | turnEnd | roundsEnd =>
    cases ends
    exact inside.refl
  | choicesFirst _ ih | turnsEnd _ _ ih => exact ih inside ends
  | choices _ _ _ ih => exact ih inside ends
  | seq _ _ ih ih' =>
    have first := ih inside rfl
    exact first.trans (ih' (inside.trans first) ends)
  | turns _ _ _ ih ih' =>
    have first := ih inside rfl
    exact first.trans (ih' (inside.trans first) ends)
  | items _ _ _ ih ih' ih'' =>
    have gap := ih inside rfl
    have first := ih' (inside.trans gap) rfl
    exact gap.trans (first.trans (ih'' ((inside.trans gap).trans first) ends))
  | rounds _ _ _ _ ih ih' ih'' =>
    have gap := ih inside rfl
    have first := ih' (inside.trans gap) rfl
    exact gap.trans (first.trans (ih'' ((inside.trans gap).trans first) ends))
  | @opt _ _ _ c r _ ih =>
    cases ends
    cases r with
    | none => exact inside.refl
    | some d => exact ih inside rfl
  | @followedBy _ _ _ c r _ _ =>
    cases r with
    | none => cases ends
    | some _ =>
      cases ends
      exact inside.refl
  | @notFollowedBy _ _ _ c r _ _ =>
    cases r with
    | none =>
      cases ends
      exact inside.refl
    | some _ => cases ends
  | @push _ _ _ c r _ ih =>
    cases r with
    | none => cases ends
    | some d =>
      have moved : d.From source c.pos := ih inside rfl
      cases ends
      exact moved
  | turn _ _ ih ih' =>
    have past := inside.past fun d ends => ih inside ends
    exact past.trans (ih' (inside.trans past) ends)

end Means

end TypedPeg
