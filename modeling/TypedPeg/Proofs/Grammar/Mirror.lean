import TypedPeg.Proofs.Grammar.Lowered
import TypedPeg.Proofs.Grammar.DirectMatching
import TypedPeg.Proofs.Match.Furthest
import TypedPeg.Proofs.Match.Guard
import TypedPeg.Proofs.Run.Ends

/-! The nodes of a grammar match as its expressions are read. Unless a call of a node runs out of frames or into
left recursion, the reading ends at the same cursor or fails at the same offset, and with trackers that have
come as far. -/
namespace TypedPeg

/-- The labels are left out of account, of failures and of what trackers have of them. -/
def mirrored : Likeness Tracker Tracker where
  states t u := t.enabled = u.enabled ∧ t.muted = u.muted ∧ t.furthest.pos = u.furthest.pos
  failures f g := f.pos = g.pos
  halts _ _ := False
  firstExcused := Halt.CutShort
  secondExcused _ := False

theorem mirrored_watched : mirrored.Watched where
  fail := by
    rintro f g t u same ⟨enabled,muted,pos⟩
    have same : f.pos = g.pos := same
    have noted : (t.furthest.note f).pos = (u.furthest.note g).pos := by rw [Furthest.pos_note,Furthest.pos_note,pos,same]
    show mirrored.states (t.note f) (u.note g)
    unfold Tracker.note
    rw [enabled,muted]
    split
    · exact ⟨rfl,rfl,noted⟩
    · exact ⟨enabled,muted,pos⟩
  mute := by
    rintro why t u ⟨enabled,muted,pos⟩
    exact ⟨enabled,congrArg (· + 1) muted,pos⟩
  unmute := by
    rintro why t u ⟨enabled,muted,pos⟩
    exact ⟨enabled,congrArg (· + -1) muted,pos⟩

def Run.Mirrors {α : Type} (r : Run Tracker (Cursor × α)) (reading : Run Tracker Cursor) : Prop :=
  Run.Alike mirrored (fun x d => x.1 = d) r reading

namespace Run.Mirrors

variable {α β : Type} {post : β → Cursor → Prop} {r : Run Tracker (Cursor × α)} {reading : Run Tracker Cursor}

theorem bind {next : Cursor × α → Run Tracker β} {next' : Cursor → Run Tracker Cursor} (mirrors : r.Mirrors reading)
    (rest : ∀ d v, Run.Alike mirrored post (next (d,v)) (next' d)) : Run.Alike mirrored post (r >>= next) (reading >>= next') := by
  refine Run.Alike.bind mirrors fun x d same => ?_
  obtain ⟨d',v⟩ := x
  cases same
  exact rest d' v

theorem tried {next : Except Failure (Cursor × α) → Run Tracker β} {next' : Except Failure Cursor → Run Tracker Cursor}
    (mirrors : r.Mirrors reading)
    (fails : ∀ f g, f.pos = g.pos → Run.Alike mirrored post (next (.error f)) (next' (.error g)))
    (rest : ∀ d v, Run.Alike mirrored post (next (.ok (d,v))) (next' (.ok d))) :
    Run.Alike mirrored post (r.attempt >>= next) (reading.attempt >>= next') := by
  refine (Run.Alike.attempt mirrors).tried fails fun x d same => ?_
  obtain ⟨d',v⟩ := x
  cases same
  exact rest d' v

/-- What is done with the result does not move. -/
theorem keeps {next : Cursor × α → Run Tracker (Cursor × β)} (mirrors : r.Mirrors reading)
    (rest : ∀ d v, (next (d,v)).Mirrors (Pure.pure d)) :
    (r >>= next).Mirrors reading := by
  rw [← bind_pure reading]
  exact mirrors.bind rest

theorem spent {h : Halt} (cut : h.CutShort) : (Run.halt h : Run Tracker (Cursor × α)).Mirrors reading := fun _ _ _ => .first cut

end Run.Mirrors

variable {table : NodeTable} {rules : List Rule} {source : Source} {skip atomic : Bool} {name : String} {c : Cursor}

structure Calls.Mirrors (calls : Calls Tracker) (reading : Reading Tracker) (table : NodeTable) (rules : List Rule) (source : Source)
    (atomic : Bool) : Prop where
  call : ∀ {name}, name ∈ rules.map Rule.name ++ builtinNames → ∀ c, (calls.call atomic name c).Mirrors (reading.call atomic name c)
  part : ∀ {skip name e}, Lowered table rules skip name e → ∀ c,
    (calls.call atomic name c).Mirrors (e.read source reading skip atomic c)
  gap : ∀ allowed c, Run.Alike mirrored Eq (calls.gap allowed atomic c) (reading.gap allowed atomic c)

namespace Node

variable {calls : Calls Tracker} {reading : Reading Tracker}

theorem elements_mirrors (mirrors : calls.Mirrors reading table rules source atomic) {names : List String} {es : List Expr}
    (lowered : List.Forall₂ (Lowered table rules skip) names es) (c : Cursor) :
    (elements calls skip atomic names c).Mirrors (Expr.readItems source reading skip atomic es c) := by
  induction lowered generalizing c with
  | nil => exact .pure rfl
  | cons lowered _ ih =>
    refine (mirrors.gap skip c).bind fun d d' same => ?_
    cases same
    exact (mirrors.part lowered d).bind fun d' v => (ih d').keeps fun d'' vs => .pure rfl

theorem sequence_mirrors (mirrors : calls.Mirrors reading table rules source atomic) {first : String} {names : List String} {e : Expr}
    {es : List Expr} (lowered : Lowered table rules skip first e) (others : List.Forall₂ (Lowered table rules skip) names es) (c : Cursor) :
    (sequence calls skip atomic (first :: names) c).Mirrors
      (e.read source reading skip atomic c >>= Expr.readItems source reading skip atomic es) :=
  (mirrors.part lowered c).bind fun d _ => (elements_mirrors mirrors others d).keeps fun _ _ => .pure rfl

theorem alternatives_mirrors (mirrors : calls.Mirrors reading table rules source atomic) {label : String}
    {names : List String} {es : List Expr}
    (lowered : List.Forall₂ (Lowered table rules skip) names es) (c : Cursor) (index : Int) (far : Furthest) :
    (alternatives calls atomic label c names index far).Mirrors (.anyOf far.pos (es.map fun e => e.read source reading skip atomic c)) := by
  induction lowered generalizing index far with
  | nil => exact Run.Alike.raise rfl
  | cons lowered _ ih =>
    refine (mirrors.part lowered c).tried (fun f g same => ?_) fun d v => .pure rfl
    dsimp only
    rw [← same,← Furthest.pos_note]
    exact ih (index + 1) (far.note f)

theorem repetition_mirrors (mirrors : calls.Mirrors reading table rules source atomic) {e : Expr}
    (lowered : Lowered table rules skip name e)
    (rounds : Nat) (c : Cursor) (items : List Value) : (repetition calls skip atomic name rounds c items).Mirrors
      (reading.rounds skip atomic (e.read source reading skip atomic) rounds items.isEmpty c) := by
  induction rounds generalizing c items with
  | zero => exact .pure rfl
  | succ rounds ih =>
    refine (mirrors.gap (skip && !items.isEmpty) c).bind fun d d' same => ?_
    cases same
    refine (mirrors.part lowered d).tried (fun f g same => .pure rfl) fun d' v => ?_
    dsimp only
    split
    · exact .pure rfl
    · exact ih d' (v :: items)

theorem terminal_mirrors {node : Node} {t : Terminal} (body : node.body = .terminal t) (calls : Calls Tracker) (c : Cursor) :
    (node.step source calls atomic c).Mirrors (t.read source c) := by
  have reach := t.toOption_move source node.label c
  unfold Node.step Terminal.read
  rw [body,← reach]
  dsimp only
  cases moved : t.move source node.label c with
  | ok after => exact .pure rfl
  | error f => exact Run.Alike.fail mirrored_watched (Terminal.pos_of_move_error moved)

theorem Wraps.step_mirrors {node : Node} {flag : Bool} {part : String} (wraps : node.Wraps flag part) {read : Run Tracker Cursor}
    (mirrors : (calls.within flag part c).Mirrors read) : (node.step source calls atomic c).Mirrors read := by
  unfold Node.step
  rcases wraps with body | ⟨body,rfl⟩
  · rw [body]
    exact mirrors
  · rw [body]
    exact mirrors.keeps fun d v => .pure rfl

end Node

/-- The node of an expression mirrors its reading, if what it calls does. -/
theorem step_mirrors (source : Source) {e : Expr} (lowered : Lowered table rules skip name e)
    (untagged : ∀ inner field, e ≠ .tag inner field) :
    ∃ node, table.get? name = some node ∧ ∀ {calls : Calls Tracker} {reading : Reading Tracker} {atomic : Bool},
      calls.Mirrors reading table rules source atomic → ∀ c,
        (node.step source calls atomic c).Mirrors (e.read source reading skip atomic c) := by
  cases e with
  | tag inner field => exact (untagged inner field rfl).elim
  | literal _ | caseless _ | range _ _ | peek _ _ | drop _ | skipUntil _ =>
    exact ⟨_,lowered.terminal rfl,fun _ c => Node.terminal_mirrors rfl _ c⟩
  | ref target =>
    obtain ⟨found,defined⟩ := lowered.ref
    exact ⟨_,found,fun mirrors c => mirrors.call defined c⟩
  | seq lhs rhs =>
    obtain ⟨found,first,others⟩ := lowered.seq
    refine ⟨_,found,fun mirrors c => ?_⟩
    rw [Expr.read_seq]
    exact (Node.sequence_mirrors mirrors first others c).keeps fun d v => .pure rfl
  | choice lhs rhs =>
    obtain ⟨found,parts⟩ := lowered.choice
    refine ⟨_,found,fun mirrors c => ?_⟩
    rw [Expr.read_choice]
    exact (Node.alternatives_mirrors mirrors parts c _ _).keeps fun d v => .pure rfl
  | opt inner =>
    obtain ⟨found,part⟩ := lowered.opt
    exact ⟨_,found,fun mirrors c => (mirrors.part part c).tried (fun f g same => .pure rfl) fun d v => .pure rfl⟩
  | rep inner =>
    obtain ⟨found,part⟩ := lowered.rep
    exact ⟨_,found,fun mirrors c => (Node.repetition_mirrors mirrors part _ c []).keeps fun d v => .pure rfl⟩
  | followedBy inner =>
    obtain ⟨found,part⟩ := lowered.followedBy
    exact ⟨_,found,fun mirrors c => (mirrors.part part c).tried (fun f g same => Run.Alike.raise rfl) fun d v => .pure rfl⟩
  | notFollowedBy inner =>
    obtain ⟨found,part⟩ := lowered.notFollowedBy
    refine ⟨_,found,fun mirrors c => ?_⟩
    refine Run.Alike.tried (Run.Alike.hushed mirrored_watched (Run.Alike.attempt (mirrors.part part c)) .negation)
      (fun f g same => .pure rfl) fun _ _ _ => ?_
    exact Run.Alike.fail mirrored_watched rfl
  | restore inner =>
    obtain ⟨found,part⟩ := lowered.restore
    exact ⟨_,found,fun mirrors c => mirrors.part part c⟩
  | push inner =>
    obtain ⟨found,part⟩ := lowered.push
    exact ⟨_,found,fun mirrors c => (mirrors.part part c).bind fun d v => .pure rfl⟩

section Skipping
variable {separator : String → Cursor → Run Tracker (Cursor × Value)} {read : String → Cursor → Run Tracker Cursor}

theorem sweep_mirrors {names : List String} (mirrors : ∀ name ∈ names, ∀ c, (separator name c).Mirrors (read name c)) (c : Cursor) :
    Run.Alike mirrored Eq (Skipping.sweep separator names c) (Reading.turn read names c) := by
  induction names generalizing c with
  | nil => exact .pure rfl
  | cons name rest ih =>
    have others := ih fun name member => mirrors name (List.mem_cons_of_mem _ member)
    exact (mirrors name List.mem_cons_self c).tried (fun f g same => others c) fun d v => others _

theorem sweeps_mirrors {names : List String} (mirrors : ∀ name ∈ names, ∀ c, (separator name c).Mirrors (read name c))
    (rounds : Nat) (c : Cursor) :
    Run.Alike mirrored Eq (Skipping.sweeps separator names rounds c) (Reading.turns read names rounds c) := by
  induction rounds generalizing c with
  | zero => exact .pure rfl
  | succ rounds ih =>
    refine (sweep_mirrors mirrors c).bind fun d d' same => ?_
    cases same
    split
    · exact ih d
    · exact .pure rfl

theorem skip_mirrors {names : List String} (mirrors : ∀ name ∈ names, ∀ c, (separator name c).Mirrors (read name c))
    (atomic : Bool) (c : Cursor) :
    Run.Alike mirrored Eq (Skipping.skip source names separator atomic c) (Reading.skipping source read names atomic c) := by
  unfold Skipping.skip Reading.skipping
  split
  · exact .pure rfl
  · exact (sweeps_mirrors mirrors _ c).hushed mirrored_watched _

end Skipping

/-- A call mirrors a reading if, once there are frames for it, its node at work does. -/
theorem call_mirrors {node : Node} (found : table.get? name = some node) {frames : Nat} {active : List Entry} {read : Run Tracker Cursor}
    (body : ∀ left, left + 2 ≤ frames →
      (node.step source (table.callsIf source true left (⟨c.pos,name⟩ :: active)) atomic c).Mirrors read) :
    ((table.callsIf source true frames active).call atomic name c).Mirrors read := by
  rcases NodeTable.callsIf_cases (σ := Tracker) true found frames active atomic c with ⟨h,cut,halted⟩ | ⟨left,less,ran⟩
  · rw [halted]
    exact .spent cut
  · rw [ran]
    exact body left less

/-- With so many frames calls mirror a reading to that depth, and those of parts one that is less deep. -/
structure Mirroring (table : NodeTable) (rules : List Rule) (source : Source) (frames : Nat) : Prop where
  call : ∀ {depth}, frames ≤ depth → ∀ {active atomic name}, name ∈ rules.map Rule.name ++ builtinNames → ∀ c,
    ((table.callsIf source true frames active).call atomic name c).Mirrors ((Reading.ofRules source rules depth).call atomic name c)
  part : ∀ {depth}, frames ≤ depth + 1 → ∀ {active atomic skip name e}, Lowered table rules skip name e → ∀ c,
    ((table.callsIf source true frames active).call atomic name c).Mirrors (e.read source (.ofRules source rules depth) skip atomic c)

theorem Mirroring.calls (compiled : table.Compiled rules) {frames depth : Nat} (enough : frames ≤ depth)
    (mirroring : ∀ left ≤ frames, Mirroring table rules source left) (active : List Entry) :
    (table.callsIf source true frames active).Mirrors (.ofRules source rules depth) table rules source atomic := by
  have here := mirroring frames (Nat.le_refl frames)
  refine ⟨here.call enough,here.part (by omega),fun allowed c => ?_⟩
  cases allowed with
  | false => exact .pure rfl
  | true =>
    cases frames with
    | zero => exact fun _ _ _ => .first trivial
    | succ frames =>
      obtain ⟨depth,rfl⟩ : ∃ less, depth = less + 1 := ⟨depth - 1,by omega⟩
      show Run.Alike mirrored Eq ((table.callsIf source true (frames + 1) active).skip atomic c) _
      rw [NodeTable.callsIf_skip,compiled.separators]
      refine skip_mirrors (fun name separator c => ?_) atomic c
      have named : name ∈ rules.map Rule.name := by simpa using (List.mem_filter.1 separator).2
      rw [NodeTable.callsIf_within]
      exact (mirroring (frames - 1) (by omega)).call (by omega) (List.mem_append_left _ named) c

theorem mirroring (compiled : table.Compiled rules) (source : Source) (frames : Nat) : Mirroring table rules source frames := by
  -- on the frames, whatever the depth: a rule is a reading deeper than its expression, and its node spends frames to get there
  induction frames using Nat.strongRecOn with
  | ind frames ih =>
  have calls {left depth : Nat} (less : left + 2 ≤ frames) (enough : left ≤ depth) (active : List Entry) (atomic : Bool) :
      (table.callsIf source true left active).Mirrors (.ofRules source rules depth) table rules source atomic :=
    Mirroring.calls compiled enough (fun left' le => ih left' (by omega)) active
  have part {depth : Nat} (enough : frames ≤ depth + 1) {active : List Entry} {atomic skip : Bool} {name : String} {e : Expr}
      (lowered : Lowered table rules skip name e) (c : Cursor) : ((table.callsIf source true frames active).call atomic name c).Mirrors
        (e.read source (.ofRules source rules depth) skip atomic c) := by
    induction e with
    | tag inner field again => exact again lowered.tag
    | _ =>
      obtain ⟨node,found,mirrors⟩ := step_mirrors source lowered nofun
      exact call_mirrors found fun left less => mirrors (calls less (by omega) _ atomic) c
  refine ⟨?_,part⟩
  intro depth enough active atomic name defined c
  rcases depth with _ | depth
  · obtain rfl : frames = 0 := by omega
    exact .spent trivial
  rcases List.mem_append.1 defined with named | builtin
  · obtain ⟨rule,member,rfl⟩ := List.mem_map.1 named
    simp only [Reading.ofRules,Rule.find?_of_mem compiled.distinct member]
    rcases rule.lowered compiled member with ⟨inherits,lowered⟩ | ⟨node,flag,found,wraps,sets,lowered⟩
    · rw [inherits]
      exact part enough lowered c
    · rw [sets]
      refine call_mirrors found fun left less => wraps.step_mirrors ?_
      rw [NodeTable.callsIf_within]
      exact (ih (left - 1) (by omega)).part (by omega) lowered c
  · have none : rules.find? (fun rule => rule.name = name) = none := by
      refine List.find?_eq_none.2 fun rule member named => compiled.unreserved rule member ?_
      rwa [of_decide_eq_true named]
    obtain ⟨node,t,found,body,terminal⟩ := compiled.terminal builtin
    simp only [Reading.ofRules,none,terminal]
    exact call_mirrors found fun left less => Node.terminal_mirrors body _ c

end TypedPeg
