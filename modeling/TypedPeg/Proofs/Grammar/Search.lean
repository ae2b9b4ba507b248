import TypedPeg.Proofs.Grammar.Soundness
import TypedPeg.Proofs.Grammar.Unambiguous
import TypedPeg.Proofs.Match.Yields
import TypedPeg.Proofs.Source.Occurrence

/-! A search and what it abbreviates. The repetition tries all the strings at every place in turn and goes on by one
character; so it stops at the first place, from where it begins, at which one of them stands, or at the end of the text,
and that is where the search stops. -/
namespace TypedPeg

namespace Expr

theorem elements_anyText (text : String) (texts : List String) : (anyText text texts).elements .choice = (text :: texts).map literal := by
  induction texts generalizing text with
  | nil => rfl
  | cons next texts ih => exact congrArg (Expr.literal text :: ·) (ih next)

theorem idents_anyText (text : String) (texts : List String) : (anyText text texts).idents = [] := by
  induction texts generalizing text with
  | nil => rfl
  | cons next texts ih => exact ih next

end Expr

/-- How far above the texts the nodes of a search stand. Each calls lower ones only. -/
def Body.height : Body → Nat
  | .alias _ | .sum _ => 1
  | .lookahead _ _ => 2
  | .product _ _ _ => 3
  | .list _ _ => 4
  | .declared | .terminal _ | .atomic _ | .scope _ _ | .restore _ | .push _ | .optional _ => 0

namespace Node

variable {σ : Type} [Observer σ] {source : Source} {calls : Calls σ} {atomic : Bool} {c : Cursor} {strings : List String}

omit [Observer σ] in
theorem alternatives_gives {label : String} {names : List String} (each : List.Forall₂ (fun name text =>
    (calls.call atomic name c).Gives (fun _ => False) (fun _ => c.startsWith source text.toList = true)
      (c.startsWith source text.toList = false))
      names strings) (index : Int) (far : Furthest) :
    (alternatives calls atomic label c names index far).Gives (fun _ => False) (fun _ => ∃ s ∈ strings, c.startsWith source s.toList = true)
      (∀ s ∈ strings, c.startsWith source s.toList = false) := by
  induction each generalizing index far with
  | nil => exact .raise nofun
  | cons first _ ih =>
    refine first.attempt.bind fun got tried => ?_
    cases got with
    | ok got => exact .pure ⟨_,List.mem_cons_self,tried⟩
    | error f =>
      refine (ih (index + 1) (far.note f)).mono ?_ fun others => List.forall_mem_cons.2 ⟨tried,others⟩
      rintro a ⟨s,member,stands⟩
      exact ⟨s,List.mem_cons_of_mem _ member,stands⟩

omit [Observer σ] in
/-- As long as a round moves by one character where none of the strings stands, and fails where one of them does or the
text is over, the rounds come to where the search ends. -/
theorem repetition_gives {inner : String} (round : ∀ c : Cursor, c.From source 0 → (calls.call atomic inner c).Gives (fun _ => False)
    (fun x => x.1 = c.advance 1 ∧ ¬source.Occurs strings (source.clip c.pos) ∧ c.pos < source.length)
    (source.Occurs strings (source.clip c.pos) ∨ source.length ≤ c.pos))
    {rounds : Nat} (inside : c.From source 0) (enough : c.ahead source < rounds) (items : List Value) :
    (repetition calls false atomic inner rounds c items).Gives (fun _ => False)
      (fun x => x.1 = ⟨source.firstOf strings c.pos,c.stack⟩) False := by
  induction rounds generalizing c items with
  | zero => exact (Nat.not_lt_zero _ enough).elim
  | succ rounds ih =>
    obtain ⟨pos,stack⟩ := c
    obtain ⟨i,rfl⟩ := Int.eq_ofNat_of_zero_le inside.1
    have within : i ≤ source.length := Int.ofNat_le.1 inside.2
    have here : source.clip i = i := Source.clip_inside (Int.natCast_nonneg i) inside.2
    refine (round _ inside).attempt.bind fun got tried => ?_
    cases got with
    | error f =>
      refine .pure ?_
      have ends : i = source.length ∨ source.Occurs strings i := by
        rcases tried with stands | spent
        · rw [here] at stands
          exact .inr stands
        · exact .inl (Nat.le_antisymm within (Int.ofNat_le.1 spent))
      show (⟨(i : Int),stack⟩ : Cursor) = _
      rw [Source.firstOf_here within ends]
    | ok got =>
      obtain ⟨after,value⟩ := got
      obtain ⟨rfl,lost,more⟩ := tried
      rw [here] at lost
      have more : i < source.length := Int.ofNat_lt.1 more
      have moved : Cursor.Nears source ⟨i,stack⟩ (Cursor.advance ⟨i,stack⟩ 1) := by
        unfold Cursor.Nears Cursor.advance
        dsimp only
        omega
      have further : (Cursor.advance ⟨i,stack⟩ 1).pos ≠ i := by
        show (i : Int) + 1 ≠ i
        omega
      dsimp only
      rw [if_neg further]
      have less := moved.ahead_lt further
      refine (ih (inside.trans (moved.from inside.2)) (by omega) (value :: items)).mono (fun x same => ?_) id
      rw [same]
      show (⟨source.firstOf strings ((i : Int) + 1),stack⟩ : Cursor) = _
      rw [Source.firstOf_next more lost]

end Node

namespace NodeTable

variable {σ : Type} [Observer σ] {table : NodeTable} {source : Source} {atomic : Bool} {name : String} {node : Node} {c : Cursor}
  {strings : List String}

def Above (table : NodeTable) (height : Nat) (active : List Entry) : Prop :=
  ∀ e ∈ active, ∃ node, table.get? e.name = some node ∧ height < node.body.height

/-- With frames enough, and nothing in progress that could be called again, the call gives that. -/
def Certain (σ : Type) [Observer σ] (table : NodeTable) (source : Source) (atomic : Bool) (height : Nat) (name : String) (c : Cursor)
    (ok : Cursor → Prop) (no : Prop) : Prop :=
  ∀ frames active, 2 * (height + 1) ≤ frames → table.Above height active →
    ((table.calls source frames active : Calls σ).call atomic name c).Gives (fun _ => False) (fun x => ok x.1) no

theorem Above.lower {height lower : Nat} {active : List Entry} (above : table.Above height active) (le : lower ≤ height) :
    table.Above lower active := by
  intro e member
  obtain ⟨node,found,less⟩ := above e member
  exact ⟨node,found,Nat.lt_of_le_of_lt le less⟩

section Certain
variable {height : Nat} {ok : Cursor → Prop} {no : Prop}

theorem Certain.mono {higher : Nat} {ok' : Cursor → Prop} {no' : Prop} (certain : Certain σ table source atomic height name c ok no)
    (le : height ≤ higher) (match' : ∀ d, ok d → ok' d) (fail' : no → no') : Certain σ table source atomic higher name c ok' no' :=
  fun frames active enough above => (certain frames active (by omega) (above.lower le)).mono (fun x => match' x.1) fail'

theorem certain_of_step (found : table.get? name = some node) (stands : node.body.height = height)
    (steps : ∀ frames active, 2 * height ≤ frames → (∀ lower < height, table.Above lower active) →
      (node.step source (table.calls source frames active : Calls σ) atomic c).Gives (fun _ => False) (fun x => ok x.1) no) :
    Certain σ table source atomic height name c ok no := by
  intro frames active enough above
  obtain ⟨left,rfl⟩ := Nat.exists_eq_add_of_le' (show 2 ≤ frames by omega)
  -- what is in progress stands higher than the node, and with the node itself still higher than its parts
  have fresh : (⟨c.pos,name⟩ : Entry) ∉ active := by
    intro busy
    obtain ⟨other,same,less⟩ := above _ busy
    cases found.symm.trans same
    exact Nat.ne_of_lt less stands.symm
  have free : (true && Entry.isIn ⟨c.pos,name⟩ active) = false := by rw [Bool.true_and,Entry.isIn_eq_false fresh]
  rw [← callsIf_true,callsIf_call true found free,callsIf_true]
  refine (steps left _ (by omega) fun lower less => ?_).visiting _ _
  exact List.forall_mem_cons.2 ⟨⟨node,found,by rwa [stands]⟩,above.lower (Nat.le_of_lt less)⟩

end Certain

theorem terminal_certain {t : Terminal} (found : table.get? name = some node) (body : node.body = .terminal t) :
    Certain σ table source atomic 0 name c (fun d => t.reach source c = some d) (t.reach source c = none) :=
  certain_of_step found (by rw [body,Body.height]) fun _ _ _ _ => terminal_finds body _

section Parts
variable {rules : List Rule} {skip : Bool}

theorem literal_certain {text : String} (lowered : Lowered table rules skip name (.literal text)) :
    Certain σ table source atomic 0 name c (fun _ => c.startsWith source text.toList = true) (c.startsWith source text.toList = false) := by
  have reach : (Terminal.literal text).reach source c = if c.startsWith source text.toList then some (c.advance text.length) else none := by
    simp only [Terminal.reach,Terminal.move]
    split <;> rfl
  refine (terminal_certain (lowered.terminal rfl) rfl).mono (Nat.le_refl 0) ?_ ?_
  · intro d reached
    rw [reach] at reached
    exact (Option.ite_none_right_eq_some.1 reached).1
  · intro lost
    rw [reach] at lost
    simpa using lost

theorem anyText_certain {text : String} {texts : List String} (lowered : Lowered table rules skip name (Expr.anyText text texts))
    (inside : c.pos ≤ source.length) : Certain σ table source atomic 1 name c (fun _ => source.Occurs (text :: texts) (source.clip c.pos))
      ¬source.Occurs (text :: texts) (source.clip c.pos) := by
  have begins (s : String) : c.startsWith source s.toList = source.standsAt s.toList (source.clip c.pos) := Cursor.startsWith_eq inside
  have lost (none : ∀ s ∈ text :: texts, c.startsWith source s.toList = false) : ¬source.Occurs (text :: texts) (source.clip c.pos) := by
    rintro ⟨s,member,stands⟩
    rw [← begins,none s member] at stands
    cases stands
  cases texts with
  | nil =>
    refine (literal_certain lowered).mono (Nat.zero_le 1) (fun _ stands => ?_) fun none => lost (List.forall_mem_singleton.2 none)
    rw [begins] at stands
    exact ⟨text,List.mem_cons_self,stands⟩
  | cons next texts =>
    obtain ⟨found,parts⟩ := Lowered.choice lowered
    have elements : (Expr.choice (.literal text) (Expr.anyText next texts)).elements .choice = (text :: next :: texts).map Expr.literal :=
      Expr.elements_anyText text (next :: texts)
    rw [elements,List.forall₂_map_right_iff] at parts
    refine certain_of_step found rfl fun frames active enough above => ?_
    have each : List.Forall₂ (fun part text => ((table.calls source frames active : Calls σ).call atomic part c).Gives (fun _ => False)
        (fun _ => c.startsWith source text.toList = true) (c.startsWith source text.toList = false)) _ (text :: next :: texts) :=
      parts.imp fun _ _ lowered => literal_certain lowered frames active enough (above 0 Nat.one_pos)
    refine ((Node.alternatives_gives each 0 (.start c.pos)).mono (fun a => ?_) lost).bind fun a stands => .pure stands
    rintro ⟨s,member,stands⟩
    exact ⟨s,member,by rwa [← begins]⟩

theorem lookahead_certain {e : Expr} {no : Prop} (lowered : Lowered table rules skip name (.notFollowedBy e))
    (part : Certain σ table source atomic 1 (NodeName.only name) c (fun _ => no) ¬no) :
    Certain σ table source atomic 2 name c (fun d => d = c ∧ ¬no) no := by
  refine certain_of_step lowered.notFollowedBy.1 rfl fun frames active enough above => ?_
  have inner := part frames active enough (above 1 Nat.one_lt_two)
  refine (inner.attempt.hushed .negation).bind fun got tried => ?_
  cases got with
  | ok got => exact .fail tried
  | error f => exact .pure ⟨rfl,tried⟩

theorem any_certain (builtin : ∀ node ∈ builtins, table.get? node.name = some node) (lowered : Lowered table rules skip name (.ref "ANY")) :
    Certain σ table source atomic 1 name c (fun d => d = c.advance 1 ∧ c.pos < source.length) (source.length ≤ c.pos) := by
  have found := builtin ⟨"ANY","ANY",.terminal .any⟩ List.mem_cons_self
  have reach : Terminal.any.reach source c = if (source.length : Int) ≤ c.pos then none else some (c.advance 1) := by
    simp only [Terminal.reach,Terminal.move,Cursor.atEnd,decide_eq_true_eq]
    split <;> rfl
  refine certain_of_step lowered.ref.1 rfl fun frames active enough above => ?_
  refine (terminal_certain found rfl frames active enough (above 0 Nat.one_pos)).mono ?_ ?_
  · intro x reached
    rw [reach] at reached
    obtain ⟨more,same⟩ := Option.ite_none_left_eq_some.1 reached
    exact ⟨(Option.some.inj same).symm,Int.not_le.1 more⟩
  · intro spent
    rw [reach] at spent
    simpa using spent

theorem round_certain {e : Expr} {no : Prop} (builtin : ∀ node ∈ builtins, table.get? node.name = some node)
    (lowered : Lowered table rules false name (.seq (.notFollowedBy e) (.ref "ANY")))
    (part : ∀ name, Lowered table rules false name e → Certain σ table source atomic 1 name c (fun _ => no) ¬no) :
    Certain σ table source atomic 3 name c (fun d => d = c.advance 1 ∧ ¬no ∧ c.pos < source.length) (no ∨ source.length ≤ c.pos) := by
  obtain ⟨found,first,others⟩ := lowered.seq
  obtain _ | ⟨second,-⟩ := others
  refine certain_of_step found rfl fun frames active enough above => ?_
  have assertion := lookahead_certain first (part _ first.notFollowedBy.2) frames active enough (above 2 (by decide))
  have rest : (Node.elements (table.calls source frames active : Calls σ) false atomic
      [NodeName.element name (0 + 1)] c).Gives (fun _ => False)
      (fun x => x.1 = c.advance 1 ∧ c.pos < source.length) (source.length ≤ c.pos) :=
    (any_certain builtin second frames active (by omega) (above 1 (by decide))).bind fun x moved => .pure moved
  have both : (Node.sequence (table.calls source frames active : Calls σ) false atomic
      [NodeName.element name 0,NodeName.element name (0 + 1)]
      c).Gives (fun _ => False) (fun x => x.1 = c.advance 1 ∧ ¬no ∧ c.pos < source.length) (no ∨ source.length ≤ c.pos) := by
    refine (assertion.mono (fun _ => id) .inl).bind fun x held => ?_
    obtain ⟨d,value⟩ := x
    obtain ⟨rfl,lost⟩ := held
    exact (rest.mono (fun _ => id) .inr).bind fun x moved => .pure ⟨moved.1,lost,moved.2⟩
  exact both.bind fun x ended => .pure ended

theorem searched_certain (filled : strings ≠ []) (builtin : ∀ node ∈ builtins, table.get? node.name = some node)
    (compiled : ∀ node ∈ (Expr.searched strings).lower false (.own name), table.get? node.name = some node) (inside : c.From source 0) :
    Certain σ table source atomic 4 name c (fun d => d = ⟨source.firstOf strings c.pos,c.stack⟩) False := by
  obtain ⟨text,texts,rfl⟩ := List.exists_cons_of_ne_nil filled
  rw [Expr.searched_cons] at compiled
  have lowered : Lowered table [] false name (.rep (.seq (.notFollowedBy (Expr.anyText text texts)) (.ref "ANY"))) := by
    refine ⟨compiled,fun ref inside => ?_⟩
    simp only [Expr.idents,Expr.idents_anyText,List.nil_append,List.mem_singleton] at inside
    subst inside
    decide
  obtain ⟨found,body⟩ := lowered.rep
  refine certain_of_step found rfl fun frames active enough above => ?_
  have round (d : Cursor) (inside : d.From source 0) : Certain σ table source atomic 3 (NodeName.repetitionBody name) d _ _ :=
    round_certain builtin body fun name lowered => anyText_certain lowered inside.2
  have called (d : Cursor) (inside : d.From source 0) := round d inside frames active enough (above 3 (by decide))
  exact (Node.repetition_gives called inside (by omega) []).bind fun x ended => .pure ended

end Parts

/-- A search for strings never fails. It ends, with the stack as it was, where the repetition ends that it abbreviates: called
with frames enough that comes to its end, and in whatever midst it is called it comes to no other. -/
theorem search_exact (atomic : Bool) (filled : strings ≠ []) (builtin : ∀ node ∈ builtins, table.get? node.name = some node)
    (compiled : ∀ node ∈ (Expr.searched strings).lower false (.own name), table.get? node.name = some node) (inside : c.From source 0) :
    ∃ after : Cursor, after.stack = c.stack ∧
      (∀ fast : Node, fast.body = .terminal (.skipUntil strings) →
        ∀ calls : Calls σ, (fast.step source calls atomic c).Comes (some after)) ∧
      (∀ frames ≥ 10, ((table.calls source frames [] : Calls σ).call atomic name c).Comes (some after)) ∧
      ∀ frames active, ((table.calls source frames active : Calls σ).call atomic name c).Finds (fun _ => True) (some after = ·) := by
  have comes {τ : Type} [Observer τ] (frames : Nat) (enough : 10 ≤ frames) :
      ((table.calls source frames [] : Calls τ).call atomic name c).Comes (some ⟨source.firstOf strings c.pos,c.stack⟩) := by
    refine (searched_certain (σ := τ) filled builtin compiled inside frames [] enough nofun).mono (fun x same => ?_) False.elim
    exact congrArg some same.symm
  refine ⟨⟨source.firstOf strings c.pos,c.stack⟩,rfl,fun fast body calls => ?_,comes,fun frames active s => ?_⟩
  · exact (terminal_finds body calls).mono fun o reached => reached
  · exact finds_of_comes (comes (τ := Tracker) 10 (Nat.le_refl 10)) frames active s

def laughter : NodeTable := (start.addExpr (Expr.searched ["ah","ha","ah"]) "before" false).value

theorem laughter_exact :
    let c : Cursor := ⟨1,[⟨0,1⟩]⟩
    let text := Source.ofString "oh haha"
    ["ah","ha","ah"] ≠ [] ∧ (∀ node ∈ builtins, laughter.get? node.name = some node) ∧
      (∀ node ∈ (Expr.searched ["ah","ha","ah"]).lower false (.own "before"), laughter.get? node.name = some node) ∧ c.From text 0 ∧
      ∃ after : Cursor, after = ⟨3,c.stack⟩ ∧ after.stack = c.stack ∧
        (∀ fast : Node, fast.body = .terminal (.skipUntil ["ah","ha","ah"]) → ∀ calls : Calls Tracker,
          (fast.step text calls false c).Comes (some after)) ∧
        (∀ frames ≥ 10, ((laughter.calls text frames [] : Calls Tracker).call false "before" c).Comes (some after)) ∧
        ∀ frames active, ((laughter.calls text frames active : Calls Tracker).call false "before" c).Finds (fun _ => True)
          (some after = ·) := by
  intro c text
  have filled : ["ah","ha","ah"] ≠ [] := nofun
  obtain ⟨extends',compiled⟩ : start.Extends laughter ∧
      ∀ node ∈ (Expr.searched ["ah","ha","ah"]).lower false (.own "before"), laughter.get? node.name = some node :=
    insertAll_spec (by decide +kernel)
  have builtin : ∀ node ∈ builtins, laughter.get? node.name = some node := by
    intro node member
    rw [← nodes_start] at member
    exact get?_of_mem (extends' node member)
  have inside : c.From text 0 := ⟨by decide,by decide⟩
  obtain ⟨after,stack,fast,slow⟩ := search_exact (σ := Tracker) false filled builtin compiled inside
  have reached : after = ⟨3,c.stack⟩ := by
    have came := fast ⟨"fast","",.terminal (.skipUntil ["ah","ha","ah"])⟩ rfl (laughter.calls text 0 []) (.new true)
    have first : some after = some ⟨3,c.stack⟩ := came.trans (by decide +kernel)
    exact Option.some.inj first
  exact ⟨filled,builtin,compiled,inside,after,reached,stack,fast,slow⟩

end NodeTable

end TypedPeg
