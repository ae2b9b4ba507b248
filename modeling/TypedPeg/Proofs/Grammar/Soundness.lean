import TypedPeg.Proofs.Grammar.Lowered
import TypedPeg.Proofs.Grammar.Semantics
import TypedPeg.Proofs.Match.Termination
import TypedPeg.Proofs.Run.Ends

/-! The nodes of a grammar match what the grammar means. Whatever a call of a node comes to,
short of running out of frames or into left recursion, is what the piece of grammar means from
which the node was made. -/
namespace TypedPeg

variable {table : NodeTable} {rules : List Rule} {source : Source} {skip atomic : Bool} {name : String} {c : Cursor}

/-- Calls that come to what the pieces mean from which the nodes were made. -/
structure Calls.Faithful {σ : Type} (calls : Calls σ) (table : NodeTable) (rules : List Rule) (source : Source) (atomic : Bool) : Prop where
  call : ∀ {name c}, name ∈ rules.map Rule.name ++ builtinNames → c.From source 0 →
    (calls.call atomic name c).Finds Halt.CutShort (Means rules source atomic (.call name) c)
  part : ∀ {skip name e c}, Lowered table rules skip name e → c.From source 0 →
    (calls.call atomic name c).Finds Halt.CutShort (Means rules source atomic (.expr skip e) c)
  gap : ∀ {c} allowed, c.From source 0 →
    (calls.gap allowed atomic c).Gives Halt.CutShort (fun d => Means rules source atomic (.gap allowed) c (some d)) False

namespace Node

variable {σ : Type} {calls : Calls σ}

theorem elements_finds (faithful : calls.Faithful table rules source atomic) {names : List String} {es : List Expr}
    (lowered : List.Forall₂ (Lowered table rules skip) names es) (inside : c.From source 0) :
    (elements calls skip atomic names c).Finds Halt.CutShort (Means rules source atomic (.items skip es) c) := by
  induction lowered generalizing c with
  | nil => exact .pure .itemsEnd
  | @cons name e names es lowered _ ih =>
    refine ((faithful.gap skip inside).mono (fun _ => id) False.elim).bind fun d gap => ?_
    have inside' := inside.trans (gap.onward inside rfl)
    refine (faithful.part lowered inside').bind (Means.itemsFail gap) fun x first => ?_
    have inside'' := inside'.trans (first.onward inside' rfl)
    exact (ih inside'').bind (Means.items gap first) fun y others => .pure (.items gap first others)

theorem sequence_finds (faithful : calls.Faithful table rules source atomic) {first : String} {names : List String} {lhs rhs : Expr}
    (lowered : Lowered table rules skip first lhs) (others : List.Forall₂ (Lowered table rules skip) names (rhs.elements .seq))
    (inside : c.From source 0) :
    (sequence calls skip atomic (first :: names) c).Finds Halt.CutShort (Means rules source atomic (.expr skip (.seq lhs rhs)) c) := by
  refine (faithful.part lowered inside).bind Means.seqFails fun x first => ?_
  have inside' := inside.trans (first.onward inside rfl)
  exact (elements_finds faithful others inside').bind (Means.seq first) fun y rest => .pure (.seq first rest)

theorem repetition_finds (faithful : calls.Faithful table rules source atomic) {e : Expr} (lowered : Lowered table rules skip name e)
    {rounds : Nat} (inside : c.From source 0) (enough : c.ahead source < rounds) (items : List Value) :
    (repetition calls skip atomic name rounds c items).Finds Halt.CutShort
      (Means rules source atomic (.rounds skip e items.isEmpty) c) := by
  induction rounds generalizing c items with
  | zero => omega
  | succ rounds ih =>
    refine ((faithful.gap (skip && !items.isEmpty) inside).mono (fun _ => id) False.elim).bind fun d gap => ?_
    have before := gap.onward inside rfl
    have inside' := inside.trans before
    refine (faithful.part lowered inside').attempt.bind fun got attempt => ?_
    cases got with
    | error f => exact .pure (.roundsEnd gap attempt nofun)
    | ok got =>
      obtain ⟨after,value⟩ := got
      dsimp only at attempt ⊢
      have moved := attempt.onward inside' rfl
      split
      · rename_i still
        refine .pure (.roundsEnd gap attempt ?_)
        intro d' same
        cases same
        exact still
      · rename_i further
        have less : after.ahead source < c.ahead source := by
          refine Cursor.ahead_lt (before.trans moved) ?_
          have := moved.1
          have := before.1
          omega
        exact (ih (inside'.trans moved) (by omega) (value :: items)).mono fun o others => .rounds gap attempt further others

theorem alternatives_finds (faithful : calls.Faithful table rules source atomic) {label : String} {names : List String} {es : List Expr}
    (lowered : List.Forall₂ (Lowered table rules skip) names es) (inside : c.From source 0) (index : Int) (far : Furthest) :
    (alternatives calls atomic label c names index far).Finds Halt.CutShort (Means rules source atomic (.choices skip es) c) := by
  induction lowered generalizing index far with
  | nil => exact .raise .choicesEnd
  | cons lowered _ ih =>
    refine (faithful.part lowered inside).attempt.bind fun got first => ?_
    cases got with
    | ok got => exact .pure (.choicesFirst first)
    | error f => exact (ih (index + 1) (far.note f)).mono fun o others => .choices first others

end Node

namespace Skipping

variable {σ : Type} {separator : String → Cursor → Run σ (Cursor × Value)}

theorem sweep_gives (atomic : Bool) {names : List String}
    (finds : ∀ name ∈ names, ∀ c, c.From source 0 → (separator name c).Finds Halt.CutShort (Means rules source true (.call name) c))
    (inside : c.From source 0) :
    (sweep separator names c).Gives Halt.CutShort (fun d => Means rules source atomic (.turn names) c (some d)) False := by
  induction names generalizing c with
  | nil => exact .pure .turnEnd
  | cons name rest ih =>
    have others {c : Cursor} (inside : c.From source 0) := ih (fun name member => finds name (List.mem_cons_of_mem _ member)) inside
    refine (finds name List.mem_cons_self c inside).attempt.bind fun got tried => ?_
    cases got with
    | error f => exact (others inside).mono (fun d rest => .turn tried rest) id
    | ok got =>
      obtain ⟨after,value⟩ := got
      dsimp only at tried ⊢
      have past : Cursor.From source 0 (if c.pos < after.pos then after else c) := by
        split
        · exact inside.trans (tried.onward inside rfl)
        · exact inside
      exact (others past).mono (fun d rest => .turn tried rest) id

theorem sweeps_gives
    (finds : ∀ name ∈ Table.separatorNames.filter (· ∈ rules.map Rule.name), ∀ c, c.From source 0 →
      (separator name c).Finds Halt.CutShort (Means rules source true (.call name) c))
    {rounds : Nat} (inside : c.From source 0) (enough : c.ahead source < rounds) :
    (sweeps separator (Table.separatorNames.filter (· ∈ rules.map Rule.name)) rounds c).Gives Halt.CutShort
      (fun d => Means rules source atomic .turns c (some d)) False := by
  induction rounds generalizing c with
  | zero => omega
  | succ rounds ih =>
    refine (sweep_gives atomic finds inside).bind fun d turn => ?_
    split
    · rename_i further
      have moved := Means.onward turn inside rfl
      have less := Cursor.ahead_lt moved further
      exact (ih (inside.trans moved) (by omega)).mono (fun _ others => .turns turn further others) id
    · rename_i still
      exact .pure (.turnsEnd turn still)

end Skipping

section Calls
variable {σ : Type} [Observer σ] {guarded : Bool} {active : List Entry}

structure Callable (σ : Type) [Observer σ] (table : NodeTable) (rules : List Rule) (source : Source) (guarded : Bool) (frames : Nat)
    (active : List Entry) : Prop where
  call : ∀ {atomic name c}, name ∈ rules.map Rule.name ++ builtinNames → c.From source 0 →
    ((table.callsIf source guarded frames active : Calls σ).call atomic name c).Finds Halt.CutShort
      (Means rules source atomic (.call name) c)
  part : ∀ {atomic skip name e c}, Lowered table rules skip name e → c.From source 0 →
    ((table.callsIf source guarded frames active : Calls σ).call atomic name c).Finds Halt.CutShort
      (Means rules source atomic (.expr skip e) c)

theorem Callable.faithful (compiled : table.Compiled rules) {frames : Nat}
    (callable : ∀ left ≤ frames, Callable σ table rules source guarded left active) :
    (table.callsIf source guarded frames active : Calls σ).Faithful table rules source atomic := by
  refine ⟨(callable frames (Nat.le_refl frames)).call,(callable frames (Nat.le_refl frames)).part,?_⟩
  intro c allowed inside
  cases allowed with
  | false => exact .pure (.noGap rfl)
  | true =>
    cases frames with
    | zero => exact .halt trivial
    | succ frames =>
      show ((table.callsIf source guarded (frames + 1) active).skip atomic c).Gives Halt.CutShort _ _
      rw [NodeTable.callsIf_skip,compiled.separators,Skipping.skip]
      have sweeps : (Skipping.sweeps ((table.callsIf source guarded frames active : Calls σ).within true)
          (Table.separatorNames.filter (· ∈ rules.map Rule.name)) (c.ahead source + 2) c).Gives Halt.CutShort
            (fun d => Means rules source atomic .turns c (some d)) False := by
        refine Skipping.sweeps_gives (fun name separator c inside => ?_) inside (by omega)
        rw [NodeTable.callsIf_within]
        have named : name ∈ rules.map Rule.name := by simpa using (List.mem_filter.1 separator).2
        exact (callable (frames - 1) (by omega)).call (List.mem_append_left _ named) inside
      split
      · rename_i closed
        cases atomic with
        | true => exact .pure (.noGap rfl)
        | false =>
          -- no separators: a turn of none of them moves nothing
          have none : Table.separatorNames.filter (· ∈ rules.map Rule.name) = [] := by simpa using closed
          refine .pure (.gap rfl (.turnsEnd ?_ (Int.lt_irrefl _)))
          rw [none]
          exact .turnEnd
      · rename_i opened
        cases atomic with
        | true => simp at opened
        | false => exact (sweeps.mono (fun _ turns => .gap rfl turns) id).hushed _

theorem call_gives (guarded : Bool) {node : Node} (found : table.get? name = some node) {frames : Nat} {ok : Cursor × Value → Prop}
    {no : Prop} (body : ∀ left, left + 2 ≤ frames →
      (node.step source (table.callsIf source guarded left (⟨c.pos,name⟩ :: active) : Calls σ) atomic c).Gives Halt.CutShort ok no) :
    ((table.callsIf source guarded frames active : Calls σ).call atomic name c).Gives Halt.CutShort ok no := by
  rcases NodeTable.callsIf_cases (σ := σ) guarded found frames active atomic c with ⟨h,cut,halted⟩ | ⟨left,less,ran⟩
  · rw [halted]
    exact .halt cut
  · rw [ran]
    exact (body left less).visiting _ c

theorem terminal_finds {halts : Halt → Prop} {node : Node} {t : Terminal} (body : node.body = .terminal t) (calls : Calls σ) :
    (node.step source calls atomic c).Finds halts fun o => t.reach source c = o := by
  have reach := t.toOption_move source node.label c
  unfold Node.step
  rw [body]
  dsimp only
  cases moved : t.move source node.label c with
  | ok after =>
    rw [moved] at reach
    exact .pure reach.symm
  | error f =>
    rw [moved] at reach
    exact .fail reach.symm

theorem Node.Wraps.step_finds {halts : Halt → Prop} {node : Node} {flag : Bool} {part : String}
    (wraps : node.Wraps flag part) {calls : Calls σ}
    {ends : Option Cursor → Prop} (finds : (calls.within flag part c).Finds halts ends) :
    (node.step source calls atomic c).Finds halts ends := by
  unfold Node.step
  rcases wraps with body | ⟨body,rfl⟩
  · rw [body]
    exact finds
  · rw [body]
    exact finds.bind id fun x matched => .pure matched

theorem step_finds (source : Source) {e : Expr} (lowered : Lowered table rules skip name e)
    (untagged : ∀ inner field, e ≠ .tag inner field) :
    ∃ node, table.get? name = some node ∧ ∀ {calls : Calls σ} {atomic : Bool} {c : Cursor}, calls.Faithful table rules source atomic →
      c.From source 0 → (node.step source calls atomic c).Finds Halt.CutShort (Means rules source atomic (.expr skip e) c) := by
  cases e with
  | tag inner field => exact (untagged inner field rfl).elim
  | literal _ | caseless _ | range _ _ | peek _ _ | drop _ | skipUntil _ =>
    refine ⟨_,lowered.terminal rfl,fun _ _ => (terminal_finds rfl _).mono ?_⟩
    intro o reached
    rw [← reached]
    exact .leaf rfl
  | ref target =>
    obtain ⟨found,defined⟩ := lowered.ref
    refine ⟨_,found,fun faithful inside => ?_⟩
    exact (faithful.call defined inside).mono fun o called => .ref called
  | seq lhs rhs =>
    obtain ⟨found,first,others⟩ := lowered.seq
    refine ⟨_,found,fun faithful inside => ?_⟩
    exact (Node.sequence_finds faithful first others inside).bind id fun x matched => .pure matched
  | choice lhs rhs =>
    obtain ⟨found,parts⟩ := lowered.choice
    refine ⟨_,found,fun faithful inside => ?_⟩
    exact (Node.alternatives_finds faithful parts inside _ _).bind Means.choice fun x any => .pure (.choice any)
  | opt inner =>
    obtain ⟨found,part⟩ := lowered.opt
    refine ⟨_,found,fun faithful inside => (faithful.part part inside).attempt.bind fun got means => ?_⟩
    cases got with
    | ok got => exact .pure (.opt means)
    | error f => exact .pure (.opt means)
  | rep inner =>
    obtain ⟨found,part⟩ := lowered.rep
    refine ⟨_,found,fun faithful inside => ?_⟩
    exact (Node.repetition_finds faithful part inside (by omega) []).bind Means.rep fun x all => .pure (.rep all)
  | followedBy inner =>
    obtain ⟨found,part⟩ := lowered.followedBy
    refine ⟨_,found,fun faithful inside => (faithful.part part inside).attempt.bind fun got means => ?_⟩
    cases got with
    | ok got => exact .pure (.followedBy means)
    | error f => exact .raise (.followedBy means)
  | notFollowedBy inner =>
    obtain ⟨found,part⟩ := lowered.notFollowedBy
    refine ⟨_,found,fun faithful inside => ((faithful.part part inside).attempt.hushed _).bind fun got means => ?_⟩
    cases got with
    | ok got => exact .fail (.notFollowedBy means)
    | error f => exact .pure (.notFollowedBy means)
  | restore inner =>
    obtain ⟨found,part⟩ := lowered.restore
    exact ⟨_,found,fun faithful inside => (faithful.part part inside).mono fun o means => .restore means⟩
  | push inner =>
    obtain ⟨found,part⟩ := lowered.push
    exact ⟨_,found,fun faithful inside => (faithful.part part inside).bind Means.push fun x means => .pure (.push means)⟩

theorem callable (compiled : table.Compiled rules) (guarded : Bool) (frames : Nat) (active : List Entry) :
    Callable σ table rules source guarded frames active := by
  induction frames using Nat.strongRecOn generalizing active with
  | ind frames ih =>
  have faithful {atomic : Bool} {left : Nat} (less : left + 2 ≤ frames) (active : List Entry) :
      (table.callsIf source guarded left active : Calls σ).Faithful table rules source atomic :=
    Callable.faithful compiled fun left' le => ih left' (by omega) active
  have part {atomic skip : Bool} {name : String} {e : Expr} {c : Cursor} (lowered : Lowered table rules skip name e)
      (inside : c.From source 0) : ((table.callsIf source guarded frames active : Calls σ).call atomic name c).Finds Halt.CutShort
        (Means rules source atomic (.expr skip e) c) := by
    induction e with
    | tag inner field again => exact (again ⟨lowered.found,lowered.defined⟩).mono fun o means => .tag means
    | _ =>
      obtain ⟨node,found,finds⟩ := step_finds (σ := σ) source lowered nofun
      exact call_gives guarded found fun left less => finds (faithful less _) inside
  refine ⟨?_,part⟩
  intro atomic name c defined inside
  rcases List.mem_append.1 defined with named | builtin
  · obtain ⟨rule,member,rfl⟩ := List.mem_map.1 named
    have means {o : Option Cursor} (body : Means rules source (rule.kind.flag atomic) (.expr rule.skips rule.expr) c o) :
        Means rules source atomic (.call rule.name) c o := .rule member rfl body
    rcases rule.lowered compiled member with ⟨inherits,lowered⟩ | ⟨node,flag,found,wraps,sets,lowered⟩
    · rw [inherits] at means
      exact (part lowered inside).mono fun o => means
    · rw [sets] at means
      refine call_gives guarded found fun left less => wraps.step_finds ?_
      rw [NodeTable.callsIf_within]
      exact ((ih (left - 1) (by omega) _).part lowered inside).mono fun o => means
  · obtain ⟨node,t,found,body,terminal⟩ := compiled.terminal builtin
    refine call_gives guarded found fun left less => (terminal_finds body _).mono ?_
    intro o reached
    rw [← reached]
    exact .builtin terminal

end Calls

end TypedPeg
