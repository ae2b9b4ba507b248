import TypedPeg.Proofs.Assembly.Complete
import TypedPeg.Proofs.Grammar.Mirror
import TypedPeg.Proofs.Match.Diagnostics
import TypedPeg.Proofs.Match.Outcomes

/-! Grammars that are written in different ways. How chains are nested decides which nodes there are, and tags
and restores name them, but read as expressions such grammars are one; so what is matched, and where a
parse fails, does not depend on it. -/
namespace TypedPeg

/-- The expressions differ at most in how chains are nested, and in tags and restores. -/
inductive Expr.Kin : Expr → Expr → Prop
  | refl (e : Expr) : Kin e e
  | symm {e e' : Expr} (kin : Kin e e') : Kin e' e
  | trans {e e' e'' : Expr} (kin : Kin e e') (kin' : Kin e' e'') : Kin e e''
  | seqNesting (a b c : Expr) : Kin (.seq (.seq a b) c) (.seq a (.seq b c))
  | choiceNesting (a b c : Expr) : Kin (.choice (.choice a b) c) (.choice a (.choice b c))
  | tag (e : Expr) (name : String) : Kin (.tag e name) e
  | restore (e : Expr) : Kin (.restore e) e
  | seq {lhs lhs' rhs rhs' : Expr} (left : Kin lhs lhs') (right : Kin rhs rhs') : Kin (.seq lhs rhs) (.seq lhs' rhs')
  | choice {lhs lhs' rhs rhs' : Expr} (left : Kin lhs lhs') (right : Kin rhs rhs') : Kin (.choice lhs rhs) (.choice lhs' rhs')
  | opt {e e' : Expr} (kin : Kin e e') : Kin (.opt e) (.opt e')
  | rep {e e' : Expr} (kin : Kin e e') : Kin (.rep e) (.rep e')
  | followedBy {e e' : Expr} (kin : Kin e e') : Kin (.followedBy e) (.followedBy e')
  | notFollowedBy {e e' : Expr} (kin : Kin e e') : Kin (.notFollowedBy e) (.notFollowedBy e')
  | push {e e' : Expr} (kin : Kin e e') : Kin (.push e) (.push e')

structure Rule.Kin (rule rule' : Rule) : Prop where
  name : rule.name = rule'.name
  kind : rule.kind = rule'.kind
  expr : rule.expr.Kin rule'.expr

structure KinRules (rules rules' : List Rule) : Prop where
  forth : ∀ rule ∈ rules, ∃ rule' ∈ rules', rule.Kin rule'
  back : ∀ rule' ∈ rules', ∃ rule ∈ rules, rule.Kin rule'

section Reading
variable {σ : Type} [Observer σ] (source : Source)

/-- Kin expressions are read the same way. -/
theorem Expr.Kin.read {e e' : Expr} (kin : e.Kin e') (reading : Reading σ) (skip atomic : Bool) :
    e.read source reading skip atomic = e'.read source reading skip atomic := by
  induction kin with
  | refl e => rfl
  | symm _ ih => exact ih.symm
  | trans _ _ ih ih' => exact ih.trans ih'
  | seqNesting a b c =>
    funext d
    simp only [Expr.read,bind_assoc]
  | choiceNesting a b c =>
    funext d
    simp only [Expr.read]
    rw [Run.anyOf_anyOf (Int.le_refl _)]
    refine Run.anyOf_congr _ fun further reached => ?_
    rw [Run.anyOf_anyOf reached,List.append_nil]
    rfl
  | tag e name => rfl
  | restore e => rfl
  | seq _ _ ih ih' | choice _ _ ih ih' =>
    funext d
    simp only [Expr.read,ih,ih']
  | opt _ ih | rep _ ih | followedBy _ ih | notFollowedBy _ ih | push _ ih =>
    funext d
    simp only [Expr.read,ih]

variable {rules rules' : List Rule}

theorem KinRules.named (kin : KinRules rules rules') (name : String) : name ∈ rules.map Rule.name ↔ name ∈ rules'.map Rule.name := by
  constructor
  · intro named
    obtain ⟨rule,member,rfl⟩ := List.mem_map.1 named
    obtain ⟨rule',member',like⟩ := kin.forth rule member
    exact List.mem_map.2 ⟨rule',member',like.name.symm⟩
  · intro named
    obtain ⟨rule',member',rfl⟩ := List.mem_map.1 named
    obtain ⟨rule,member,like⟩ := kin.back rule' member'
    exact List.mem_map.2 ⟨rule,member,like.name⟩

theorem KinRules.reading (kin : KinRules rules rules') (distinct : (rules.map Rule.name).Nodup) (distinct' : (rules'.map Rule.name).Nodup)
    (depth : Nat) : (Reading.ofRules source rules depth : Reading σ) = .ofRules source rules' depth := by
  induction depth with
  | zero => rfl
  | succ depth ih =>
    have names : Table.separatorNames.filter (· ∈ rules.map Rule.name) = Table.separatorNames.filter (· ∈ rules'.map Rule.name) :=
      List.filter_congr fun name _ => decide_eq_decide.2 (kin.named name)
    simp only [Reading.ofRules,names,ih,Reading.mk.injEq,and_true]
    funext atomic name c
    by_cases named : name ∈ rules.map Rule.name
    · obtain ⟨rule,member,rfl⟩ := List.mem_map.1 named
      obtain ⟨rule',member',like⟩ := kin.forth rule member
      have first' := Rule.find?_of_mem distinct' member'
      rw [← like.name] at first'
      rw [Rule.find?_of_mem distinct member,first']
      dsimp only
      have skips : rule.skips = rule'.skips := by rw [Rule.skips,Rule.skips,like.name,like.kind]
      rw [like.expr.read,like.kind,skips]
    · have absent {rules : List Rule} (absent : name ∉ rules.map Rule.name) : rules.find? (fun rule => rule.name = name) = none :=
        List.find?_eq_none.2 fun rule member same => absent (List.mem_map.2 ⟨rule,member,of_decide_eq_true same⟩)
      rw [absent named,absent fun named' => named ((kin.named name).2 named')]

end Reading

/-- Not ended by a fault of the grammar. -/
def ParseFault.Settles {α : Type} : Except ParseFault α → Prop
  | .ok _ => True
  | .error fault => ¬fault.OfGrammar

instance : DecidablePred ParseFault.OfGrammar
  | .noRule _ | .leftRecursion _ _ | .nestedTooDeeply _ => isTrue trivial
  | .limitTooLarge | .notRunnable | .misfit _ | .unmatched _ _ | .misplaced _ => isFalse id

instance {α : Type} : DecidablePred (ParseFault.Settles (α := α))
  | .ok _ => isTrue trivial
  | .error fault => inferInstanceAs (Decidable ¬fault.OfGrammar)

/-- Both match up to one cursor, or both fail, for causes at one offset and with reports of one offset; or neither
runs at all for its limit. -/
inductive ParseFault.Tallies : Except ParseFault (Cursor × Value) → Except ParseFault (Cursor × Value) → Prop
  | matched {after v v'} : Tallies (.ok (after,v)) (.ok (after,v'))
  | unmatched {shown shown' cause cause'} (causes : cause.pos = cause'.pos) (reports : shown.pos = shown'.pos) :
      Tallies (.error (.unmatched shown cause)) (.error (.unmatched shown' cause'))
  | refused : Tallies (.error .limitTooLarge) (.error .limitTooLarge)

namespace Parser

variable {rules rules' : List Rule} {source : Source}

def reading (rules : List Rule) (source : Source) (depth : Nat) (rule : String) (full : Bool) : Run Tracker Cursor := do
  let after ← (Reading.ofRules source rules depth).call false rule .start
  if full && !after.atEnd source then .fail (incomplete after.pos) else return after

theorem run_mirrors {p : Parser Node} (compiled : NodeTable.Compiled p.table rules) {rule : String} (named : rule ∈ rules.map Rule.name)
    (source : Source) (full : Bool) : (p.run source rule full).Mirrors (reading rules source p.frames rule full) := by
  have called : ((p.table.calls source p.frames []).call false rule .start).Mirrors
      ((Reading.ofRules source rules p.frames).call false rule .start) := by
    rw [← NodeTable.callsIf_true]
    exact (mirroring compiled source p.frames).call (Nat.le_refl _) (List.mem_append_left _ named) .start
  refine called.bind fun after value => ?_
  dsimp only
  split
  · exact .fail mirrored_watched rfl
  · exact .pure rfl

theorem not_settles {rule : String} {h : Halt} (cut : h.CutShort) (t : Tracker) :
    ¬ParseFault.Settles (answer source rule (.halted h,t)).value := by
  cases h with
  | leftRecursion _ _ | tooDeep => exact fun settles => settles trivial
  | notRunnable | misfit _ => exact cut.elim

/-- Two runs that mirror one reading tally. -/
theorem answer_tallies {e e' : Outcome (Cursor × Value) × Tracker} {read : Outcome Cursor × Tracker} {rule rule' : String}
    (ends : mirrored.Ends (fun x d => x.1 = d) e read) (ends' : mirrored.Ends (fun x d => x.1 = d) e' read)
    (inside : ∀ f, e.1 = .failed f → 0 ≤ f.pos ∧ f.pos ≤ source.length) (far : e.2.furthest.pos ≤ source.length)
    (settles : ParseFault.Settles (answer source rule e).value) (settles' : ParseFault.Settles (answer source rule' e').value) :
    ParseFault.Tallies (answer source rule e).value (answer source rule' e').value := by
  cases ends with
  | first excused => exact absurd settles (not_settles excused _)
  | second excused => exact excused.elim
  | halted halts _ => exact halts.elim
  | @matched x d _ _ same _ =>
    cases ends' with
    | first excused => exact absurd settles' (not_settles excused _)
    | @matched x' _ _ _ same' _ =>
      obtain ⟨after,v⟩ := x
      obtain ⟨after',v'⟩ := x'
      cases same
      cases same'
      exact .matched
  | @failed f g t u same states =>
    cases ends' with
    | first excused => exact absurd settles' (not_settles excused _)
    | @failed f' _ t' _ same' states' =>
      have same : f.pos = f'.pos := Eq.trans same (Eq.symm same')
      have reached : t.furthest.pos = t'.furthest.pos := states.2.2.trans states'.2.2.symm
      obtain ⟨nonneg,bounded⟩ := inside f rfl
      obtain ⟨shown,reported⟩ := report_isOk nonneg bounded far
      obtain ⟨shown',reported'⟩ : ∃ shown', report source f' t'.furthest = .ok shown' :=
        report_isOk (same ▸ nonneg) (same ▸ bounded) (reached ▸ far)
      rw [answer,answer,reported,reported']
      refine .unmatched same ?_
      rw [report_pos reported,report_pos reported',same,reached]

/-- Grammars whose rules are kin parse alike from each rule, however their chains are nested and wherever they
have tags and restores, as long as neither parse ends in a fault of the grammar. -/
theorem kin_tally {table table' : NodeTable} (accepted : (NodeTable.ofRules rules true).value = .ok table)
    (accepted' : (NodeTable.ofRules rules' true).value = .ok table') (kin : KinRules rules rules') {rule : String}
    (named : rule ∈ rules.map Rule.name) (tracked : Bool) (limit : Int) (source : Source) (full : Bool)
    (settles : ParseFault.Settles ((⟨table,tracked,limit⟩ : Parser Node).attempt source rule full).value)
    (settles' : ParseFault.Settles ((⟨table',tracked,limit⟩ : Parser Node).attempt source rule full).value) :
    ParseFault.Tallies ((⟨table,tracked,limit⟩ : Parser Node).attempt source rule full).value
      ((⟨table',tracked,limit⟩ : Parser Node).attempt source rule full).value := by
  have compiled := NodeTable.compiled_of_ofRules accepted
  have compiled' := NodeTable.compiled_of_ofRules accepted'
  let p : Parser Node := ⟨table,tracked,limit⟩
  let p' : Parser Node := ⟨table',tracked,limit⟩
  have mirrors := run_mirrors (p := p) compiled named source full
  have mirrors' := run_mirrors (p := p') compiled' ((kin.named rule).1 named) source full
  have same : reading rules' source p'.frames rule full = reading rules source p.frames rule full := by
    rw [reading,reading,kin.reading source compiled.distinct compiled'.distinct]
    rfl
  rw [same] at mirrors'
  have known : table.contains rule = true := compiled.contains_defined (List.mem_append_left _ named)
  have known' : table'.contains rule = true := compiled'.contains_defined (List.mem_append_left _ ((kin.named rule).1 named))
  by_cases large : greatestLimit < limit
  · rw [attempt_oversized large known,attempt_oversized large known']
    exact .refused
  rw [attempt_usable (Int.not_lt.1 large) known] at settles ⊢
  rw [attempt_usable (Int.not_lt.1 large) known'] at settles' ⊢
  -- both begin with one tracker, and so does the reading that they mirror
  have start : mirrored.states (Tracker.new tracked) (Tracker.new tracked) := ⟨rfl,rfl,rfl⟩
  obtain ⟨led,ended⟩ := p.run_inText source rule full (Tracker.new tracked)
  refine answer_tallies (mirrors _ _ start) (mirrors' _ _ start) (fun f failed => ?_) (led ?_) settles settles'
  · rw [failed] at ended
    exact ended
  · show (-1 : Int) ≤ source.length
    omega

def sums : List Rule :=
  [⟨"WHITESPACE",.silent,.literal " "⟩,⟨"digit",.atomic,.choice (.choice (.literal "0") (.literal "1")) (.literal "2")⟩,
    ⟨"sum",.normal,.seq (.seq (.ref "digit") (.literal "+")) (.ref "digit")⟩]

def namedSums : List Rule :=
  [⟨"WHITESPACE",.silent,.literal " "⟩,⟨"digit",.atomic,.choice (.literal "0") (.choice (.literal "1") (.literal "2"))⟩,
    ⟨"sum",.normal,.seq (.tag (.ref "digit") "left") (.seq (.literal "+") (.tag (.restore (.ref "digit")) "right"))⟩]

theorem sums_kin : KinRules sums namedSums := by
  have space : (⟨"WHITESPACE",.silent,.literal " "⟩ : Rule).Kin ⟨"WHITESPACE",.silent,.literal " "⟩ := ⟨rfl,rfl,.refl _⟩
  have digit : (⟨"digit",.atomic,.choice (.choice (.literal "0") (.literal "1")) (.literal "2")⟩ : Rule).Kin
      ⟨"digit",.atomic,.choice (.literal "0") (.choice (.literal "1") (.literal "2"))⟩ := ⟨rfl,rfl,.choiceNesting _ _ _⟩
  have sum : (⟨"sum",.normal,.seq (.seq (.ref "digit") (.literal "+")) (.ref "digit")⟩ : Rule).Kin
      ⟨"sum",.normal,.seq (.tag (.ref "digit") "left") (.seq (.literal "+") (.tag (.restore (.ref "digit")) "right"))⟩ := by
    refine ⟨rfl,rfl,.trans (.seqNesting _ _ _) (.seq (.symm (.tag _ _)) (.seq (.refl _) (.symm ?_)))⟩
    exact .trans (.tag _ _) (.restore _)
  constructor <;> simp [sums,namedSums,space,digit,sum]

def sumsTable : NodeTable := (NodeTable.ofRules sums true).value.toOption.getD .empty

def namedSumsTable : NodeTable := (NodeTable.ofRules namedSums true).value.toOption.getD .empty

def sumsParser : Parser Node := ⟨sumsTable,true,defaultLimit⟩

def namedSumsParser : Parser Node := ⟨namedSumsTable,true,defaultLimit⟩

theorem sums_tally : (NodeTable.ofRules sums true).value = .ok sumsTable ∧ (NodeTable.ofRules namedSums true).value = .ok namedSumsTable ∧
    ParseFault.Settles (sumsParser.attempt (.ofString "1 +x") "sum" true).value ∧
    ParseFault.Settles (namedSumsParser.attempt (.ofString "1 +x") "sum" true).value ∧
    ParseFault.Tallies (sumsParser.attempt (.ofString "1 +x") "sum" true).value
      (namedSumsParser.attempt (.ofString "1 +x") "sum" true).value := by
  have accepted : (NodeTable.ofRules sums true).value = .ok sumsTable := NodeTable.ofRules_of_isOk (by decide +kernel)
  have accepted' : (NodeTable.ofRules namedSums true).value = .ok namedSumsTable := NodeTable.ofRules_of_isOk (by decide +kernel)
  have settles : ParseFault.Settles (sumsParser.attempt (.ofString "1 +x") "sum" true).value := by decide +kernel
  have settles' : ParseFault.Settles (namedSumsParser.attempt (.ofString "1 +x") "sum" true).value := by decide +kernel
  exact ⟨accepted,accepted',settles,settles',
    kin_tally accepted accepted' sums_kin (by decide) true defaultLimit (.ofString "1 +x") true settles settles'⟩

end Parser

end TypedPeg
