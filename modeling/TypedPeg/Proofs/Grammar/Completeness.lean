import Mathlib.Order.Filter.AtTopBot.Basic
import TypedPeg.Proofs.Grammar.Soundness

/-! What a grammar means is what its nodes come to, given frames enough, where no call is refused
for being in progress. The frames that it takes depend on the derivation alone. -/
namespace TypedPeg

open Filter

variable {σ : Type} [Observer σ] {table : NodeTable} {rules : List Rule} {source : Source} {skip atomic : Bool} {c : Cursor}
  {r : Option Cursor}

def Phrase.Comes (table : NodeTable) (rules : List Rule) (source : Source) (calls : Calls σ) (atomic : Bool) (c : Cursor)
    (r : Option Cursor) : Phrase → Prop
  | .expr skip e => ∀ name, Lowered table rules skip name e → (calls.call atomic name c).Comes r
  | .items skip es => ∀ names, List.Forall₂ (Lowered table rules skip) names es →
      (Node.elements calls skip atomic names c).Comes r
  | .choices skip es => ∀ names, List.Forall₂ (Lowered table rules skip) names es → ∀ label index far,
      (Node.alternatives calls atomic label c names index far).Comes r
  | .rounds skip e first => ∀ name, Lowered table rules skip name e → ∀ rounds items, items.isEmpty = first →
      c.ahead source < rounds → (Node.repetition calls skip atomic name rounds c items).Comes r
  | .gap allowed => (calls.gap allowed atomic c).Stops r
  | .turns => ∀ rounds, c.ahead source < rounds →
      (Skipping.sweeps (calls.within true) (Table.separatorNames.filter (· ∈ rules.map Rule.name)) rounds c).Stops r
  | .turn names => (Skipping.sweep (calls.within true) names c).Stops r
  | .call name => (calls.call atomic name c).Comes r

def Phrase.Arrives (σ : Type) [Observer σ] (table : NodeTable) (rules : List Rule) (source : Source) (atomic : Bool) (phrase : Phrase)
    (c : Cursor) (r : Option Cursor) : Prop :=
  ∀ᶠ frames in atTop, ∀ active, phrase.Comes table rules source (table.callsIf source false frames active : Calls σ) atomic c r

/-- A call takes two frames more than the node at work. -/
theorem call_comes {names : String → Prop} (steps : ∀ᶠ frames in atTop, ∀ active name, names name → ∃ node, table.get? name = some node ∧
      (node.step source (table.callsIf source false frames active : Calls σ) atomic c).Comes r) :
    ∀ᶠ frames in atTop, ∀ active name, names name →
      ((table.callsIf source false frames active : Calls σ).call atomic name c).Comes r := by
  filter_upwards [(tendsto_sub_atTop_nat 2).eventually steps,eventually_ge_atTop 2] with frames steps two active name named
  obtain ⟨left,rfl⟩ := Nat.exists_eq_add_of_le' two
  obtain ⟨node,found,comes⟩ := steps (⟨c.pos,name⟩ :: active) name named
  rw [NodeTable.callsIf_call false found rfl]
  exact comes.visiting _ _

theorem named_comes {node : Node} {name : String} (found : table.get? name = some node) (steps : ∀ᶠ frames in atTop, ∀ active,
      (node.step source (table.callsIf source false frames active : Calls σ) atomic c).Comes r) :
    ∀ᶠ frames in atTop, ∀ active, ((table.callsIf source false frames active : Calls σ).call atomic name c).Comes r := by
  have calls : ∀ᶠ frames in atTop, ∀ active other, other = name →
      ((table.callsIf source false frames active : Calls σ).call atomic other c).Comes r := by
    refine call_comes ?_
    filter_upwards [steps] with frames comes active other same
    subst same
    exact ⟨node,found,comes active⟩
  filter_upwards [calls] with frames comes active
  exact comes active name rfl

theorem within_comes {name : String} (calls : ∀ᶠ frames in atTop, ∀ active,
      ((table.callsIf source false frames active : Calls σ).call atomic name c).Comes r) :
    ∀ᶠ frames in atTop, ∀ active, ((table.callsIf source false frames active : Calls σ).within atomic name c).Comes r := by
  filter_upwards [(tendsto_sub_atTop_nat 1).eventually calls] with frames comes active
  rw [NodeTable.callsIf_within]
  exact comes active

omit [Observer σ] in
theorem Skipping.sweeps_nil {separator : String → Cursor → Run σ (Cursor × Value)} (rounds : Nat) :
    sweeps separator [] rounds c = pure c := by
  cases rounds with
  | zero => rfl
  | succ rounds =>
    show (if c.pos < c.pos then _ else pure c) = (pure c : Run σ Cursor)
    rw [if_neg (Int.lt_irrefl _)]

theorem skip_stops (compiled : table.Compiled rules) (turns : Phrase.Arrives σ table rules source false .turns c r) :
    ∀ᶠ frames in atTop, ∀ active, ((table.callsIf source false frames active : Calls σ).skip false c).Stops r := by
  filter_upwards [(tendsto_sub_atTop_nat 1).eventually turns,eventually_ge_atTop 1] with frames turns one active
  obtain ⟨left,rfl⟩ := Nat.exists_eq_add_of_le' one
  have stops := turns active (c.ahead source + 2) (by omega)
  rw [Nat.add_sub_cancel] at stops
  rw [NodeTable.callsIf_skip,compiled.separators,Skipping.skip]
  split
  · rename_i closed
    have none : Table.separatorNames.filter (· ∈ rules.map Rule.name) = [] := by simpa using closed
    rw [none,Skipping.sweeps_nil] at stops
    exact stops
  · exact stops.hushed _

theorem Means.arrives (compiled : table.Compiled rules) {phrase : Phrase} (means : Means rules source atomic phrase c r)
    (inside : c.From source 0) : phrase.Arrives σ table rules source atomic c r := by
  unfold Phrase.Arrives
  induction means with
  | leaf leaf =>
    exact call_comes (.of_forall fun frames active name lowered => ⟨_,lowered.terminal leaf,terminal_finds rfl _⟩)
  | ref called ih =>
    refine call_comes ?_
    filter_upwards [ih inside] with frames comes active name lowered
    exact ⟨_,lowered.ref.1,comes active⟩
  | tag inner ih =>
    filter_upwards [ih inside] with frames comes active name lowered
    exact comes active name lowered.tag
  | seqFails first ih =>
    refine call_comes ?_
    filter_upwards [ih inside] with frames first active name lowered
    obtain ⟨found,head,tail⟩ := lowered.seq
    exact ⟨_,found,.keeps ((first active _ head).fails rfl) fun _ _ => .pure⟩
  | seq first rest ih ih' =>
    refine call_comes ?_
    filter_upwards [ih inside,ih' (inside.trans (first.onward inside rfl))] with frames first rest active name lowered
    obtain ⟨found,head,tail⟩ := lowered.seq
    refine ⟨_,found,.keeps ((first active _ head).bind fun value => ?_) fun _ _ => .pure⟩
    exact (rest active _ tail).keeps fun _ _ => .pure
  | choice any ih =>
    refine call_comes ?_
    filter_upwards [ih inside] with frames any active name lowered
    obtain ⟨found,parts⟩ := lowered.choice
    exact ⟨_,found,(any active _ parts _ _ _).keeps fun _ _ => .pure⟩
  | @opt _ _ _ c r inner ih =>
    refine call_comes ?_
    filter_upwards [ih inside] with frames comes active name lowered
    obtain ⟨found,part⟩ := lowered.opt
    refine ⟨_,found,?_⟩
    cases r with
    | none => exact (comes active _ part).caught fun _ => .pure rfl
    | some d => exact (comes active _ part).tried fun _ => .pure rfl
  | rep all ih =>
    refine call_comes ?_
    filter_upwards [ih inside] with frames all active name lowered
    obtain ⟨found,part⟩ := lowered.rep
    exact ⟨_,found,(all active _ part _ _ rfl (by omega)).keeps fun _ _ => .pure⟩
  | @followedBy _ _ _ c r inner ih =>
    refine call_comes ?_
    filter_upwards [ih inside] with frames comes active name lowered
    obtain ⟨found,part⟩ := lowered.followedBy
    refine ⟨_,found,?_⟩
    cases r with
    | none => exact (comes active _ part).caught fun _ => .raise rfl
    | some d => exact (comes active _ part).tried fun _ => .pure rfl
  | notFollowedBy inner ih =>
    refine call_comes ?_
    filter_upwards [ih inside] with frames comes active name lowered
    obtain ⟨found,part⟩ := lowered.notFollowedBy
    refine ⟨_,found,Run.Gives.bind ((Run.Gives.attempt (comes active _ part)).hushed _) fun got same => ?_⟩
    cases got with
    | ok x =>
      cases same
      exact .fail rfl
    | error f =>
      cases same
      exact .pure rfl
  | restore inner ih =>
    refine call_comes ?_
    filter_upwards [ih inside] with frames comes active name lowered
    obtain ⟨found,part⟩ := lowered.restore
    exact ⟨_,found,comes active _ part⟩
  | @push _ _ _ c r inner ih =>
    refine call_comes ?_
    filter_upwards [ih inside] with frames comes active name lowered
    obtain ⟨found,part⟩ := lowered.push
    refine ⟨_,found,?_⟩
    cases r with
    | none => exact (comes active _ part).fails rfl
    | some d => exact (comes active _ part).bind fun _ => .pure rfl
  | itemsEnd =>
    refine .of_forall fun frames active names lowered => ?_
    cases lowered
    exact .pure
  | itemsFail gap first ih ih' =>
    filter_upwards [ih inside,ih' (inside.trans (gap.onward inside rfl))] with frames gap first active names lowered
    cases lowered with
    | cons head tail => exact (gap active).bind ((first active _ head).fails rfl)
  | items gap first others ih ih' ih'' =>
    have inside' := inside.trans (gap.onward inside rfl)
    filter_upwards [ih inside,ih' inside',ih'' (inside'.trans (first.onward inside' rfl))] with frames gap first others active names lowered
    cases lowered with
    | cons head tail =>
      refine (gap active).bind ((first active _ head).bind fun value => ?_)
      exact (others active _ tail).keeps fun _ _ => .pure
  | choicesEnd =>
    refine .of_forall fun frames active names lowered label index far => ?_
    cases lowered
    exact fun _ => rfl
  | choicesFirst first ih =>
    filter_upwards [ih inside] with frames first active names lowered label index far
    cases lowered with
    | cons head tail => exact (first active _ head).tried fun _ => .pure rfl
  | choices first others ih ih' =>
    filter_upwards [ih inside,ih' inside] with frames first others active names lowered label index far
    cases lowered with
    | cons head tail => exact (first active _ head).caught fun _ => others active _ tail _ _ _
  | @roundsEnd _ _ _ _ c d r gap attempt still ih ih' =>
    filter_upwards [ih inside,ih' (inside.trans (gap.onward inside rfl))] with frames gap attempt active name lowered rounds
      items begun enough
    obtain ⟨left,rfl⟩ := Nat.exists_eq_succ_of_ne_zero (Nat.ne_zero_of_lt enough)
    subst begun
    refine (gap active).bind ?_
    cases r with
    | none => exact (attempt active _ lowered).caught fun _ => .pure rfl
    | some d' =>
      refine (attempt active _ lowered).tried fun value => ?_
      dsimp only
      rw [if_pos (still _ rfl)]
      exact .pure rfl
  | rounds gap attempt further others ih ih' ih'' =>
    have before := gap.onward inside rfl
    have moved := attempt.onward (inside.trans before) rfl
    filter_upwards [ih inside,ih' (inside.trans before),ih'' ((inside.trans before).trans moved)]
      with frames gap attempt others active name lowered rounds items begun enough
    obtain ⟨left,rfl⟩ := Nat.exists_eq_succ_of_ne_zero (Nat.ne_zero_of_lt enough)
    subst begun
    refine (gap active).bind ((attempt active _ lowered).tried fun value => ?_)
    dsimp only
    rw [if_neg further]
    have less := Cursor.ahead_lt (before.trans moved) (lt_of_le_of_lt before.1 (lt_of_le_of_ne moved.1 (Ne.symm further)))
    exact others active _ lowered _ _ rfl (by omega)
  | @noGap atomic allowed c closed =>
    filter_upwards [eventually_ge_atTop 1] with frames one active
    obtain ⟨left,rfl⟩ := Nat.exists_eq_add_of_le' one
    cases allowed with
    | false => exact fun _ => rfl
    | true =>
      cases atomic with
      | false => cases closed
      | true =>
        show ((table.callsIf source false (left + 1) active).skip true c).Stops _
        rw [NodeTable.callsIf_skip,Skipping.skip,Bool.or_true,if_pos rfl]
        exact fun _ => rfl
  | @gap atomic allowed c r opened turns ih =>
    cases allowed with
    | false => cases opened
    | true =>
      cases atomic with
      | true => cases opened
      | false => exact skip_stops compiled (ih inside)
  | turnsEnd turn still ih =>
    filter_upwards [ih inside] with frames turn active rounds enough
    obtain ⟨left,rfl⟩ := Nat.exists_eq_succ_of_ne_zero (Nat.ne_zero_of_lt enough)
    refine (turn active).bind ?_
    rw [if_neg still]
    exact .pure rfl
  | turns turn further others ih ih' =>
    have moved := turn.onward inside rfl
    filter_upwards [ih inside,ih' (inside.trans moved)] with frames turn others active rounds enough
    obtain ⟨left,rfl⟩ := Nat.exists_eq_succ_of_ne_zero (Nat.ne_zero_of_lt enough)
    have less := Cursor.ahead_lt moved further
    refine (turn active).bind ?_
    rw [if_pos further]
    exact others active _ (by omega)
  | turnEnd => exact .of_forall fun frames active => fun _ => rfl
  | @turn _ name _ c r _ separator others ih ih' =>
    have past := inside.trans (inside.past fun d ends => separator.onward inside ends)
    filter_upwards [within_comes (ih inside),ih' past] with frames separator others active
    cases r with
    | none => exact (separator active).caught fun _ => others active
    | some d => exact (separator active).tried fun _ => others active
  | @rule atomic name rule c r member same body ih =>
    subst same
    rcases rule.lowered compiled member with ⟨inherits,lowered⟩ | ⟨node,flag,found,wraps,sets,lowered⟩
    · rw [inherits] at ih
      filter_upwards [ih inside] with frames comes active
      exact comes active _ lowered
    · rw [sets] at ih
      have part : ∀ᶠ frames in atTop, ∀ active, ((table.callsIf source false frames active : Calls σ).call flag
          (NodeName.ruleBody rule.name) c).Comes r := by
        filter_upwards [ih inside] with frames comes active
        exact comes active _ lowered
      refine named_comes found ?_
      filter_upwards [within_comes part] with frames comes active
      exact wraps.step_finds (comes active)
  | @builtin _ name t c builtin =>
    by_cases known : name ∈ builtinNames
    · obtain ⟨node,t',found,body,terminal⟩ := compiled.terminal known
      rw [builtin] at terminal
      cases terminal
      exact named_comes found (.of_forall fun frames active => terminal_finds body _)
    · rw [builtinTerminal?_eq_none known] at builtin
      cases builtin

end TypedPeg
