import TypedPeg.Proofs.Grammar.ReadBack

/-! Grammar text has one reading. What is written for a form is read as the form itself, but that a search for one of
some strings is read as the repetition it abbreviates; so two grammars are written alike just when they are the same up
to that abbreviation. -/
namespace TypedPeg

namespace Expr

def anyText (text : String) : List String → Expr
  | [] => .literal text
  | next :: rest => .choice (.literal text) (anyText next rest)

/-- What a search for one of the strings abbreviates. One that has nothing to search for abbreviates nothing. -/
def searched (strings : List String) : Expr :=
  match ofElements .choice (strings.map literal) with
  | .ok wanted => .rep (.seq (.notFollowedBy wanted) (.ref "ANY"))
  | .error _ => .skipUntil strings

def spelledOut : Expr → Expr
  | .skipUntil strings => searched strings
  | .seq lhs rhs => .seq lhs.spelledOut rhs.spelledOut
  | .choice lhs rhs => .choice lhs.spelledOut rhs.spelledOut
  | .opt inner => .opt inner.spelledOut
  | .rep inner => .rep inner.spelledOut
  | .followedBy inner => .followedBy inner.spelledOut
  | .notFollowedBy inner => .notFollowedBy inner.spelledOut
  | .restore inner => .restore inner.spelledOut
  | .push inner => .push inner.spelledOut
  | .tag inner name => .tag inner.spelledOut name
  | .literal text => .literal text
  | .caseless text => .caseless text
  | .range lo hi => .range lo hi
  | .ref name => .ref name
  | .peek start stop => .peek start stop
  | .drop count => .drop count

/-- All names are words, and none of them is written as an operation is. -/
def Legible : Expr → Prop
  | .ref name => Reader.IsWord name ∧ name ≠ "DROP"
  | .tag inner name => Reader.IsWord name ∧ inner.Legible
  | .seq lhs rhs | .choice lhs rhs => lhs.Legible ∧ rhs.Legible
  | .opt inner | .rep inner | .followedBy inner | .notFollowedBy inner | .restore inner | .push inner => inner.Legible
  | .literal _ | .caseless _ | .range _ _ | .peek _ _ | .drop _ | .skipUntil _ => True

theorem renderAt_zero (e : Expr) : renderAt 0 e = renderAt 1 e := by cases e <;> rfl

/-- In every place the text of the first form reads as the second. -/
def ReadsAs (e a : Expr) : Prop := ∀ place, 1 ≤ place → place ≤ 4 → Reader.Reads place (renderAt place e).toList a

namespace ReadsAs
open Reader (Reads IsWord)

variable {l r e a b : Expr}

theorem of_primary (same : ∀ place, renderAt place e = renderAt 0 e) (reads : Reads 4 (renderAt 0 e).toList a) : e.ReadsAs a := by
  intro place pos bound
  rw [same]
  exact reads.descend bound pos (Nat.le_refl 4)

theorem literal (text : String) : ReadsAs (.literal text) (.literal text) := of_primary (fun _ => rfl) (.literal text)

theorem caseless (text : String) : ReadsAs (.caseless text) (.caseless text) := by
  refine of_primary (fun _ => rfl) ?_
  rw [renderAt,String.toList_append]
  exact .caseless text

theorem range (lo hi : Char) : ReadsAs (.range lo hi) (.range lo hi) := by
  refine of_primary (fun _ => rfl) ?_
  rw [renderAt,String.toList_append,String.toList_append]
  exact .range lo hi

theorem ref {name : String} (isWord : IsWord name) (other : name ≠ "DROP") : ReadsAs (.ref name) (.ref name) :=
  of_primary (fun _ => rfl) (.ref isWord other)

theorem peek (start : Int) (stop : Option Int) : ReadsAs (.peek start stop) (.peek start stop) :=
  of_primary (fun _ => rfl) (.peek start stop)

theorem drop (count : Int) : ReadsAs (.drop count) (.drop count) := of_primary (fun _ => rfl) (.drop count)

theorem restore (reads : e.ReadsAs a) : ReadsAs (.restore e) (.restore a) := by
  refine of_primary (fun _ => rfl) ?_
  rw [renderAt,renderAt_zero,String.toList_append,String.toList_append]
  exact (reads 1 (by decide) (by decide)).restore

theorem push (reads : e.ReadsAs a) : ReadsAs (.push e) (.push a) := by
  refine of_primary (fun _ => rfl) ?_
  rw [renderAt,renderAt_zero,String.toList_append,String.toList_append]
  exact (reads 1 (by decide) (by decide)).push

/-- A form that is put in parentheses where its own level will not do. -/
theorem of_level {level : Nat} {text : String} (same : ∀ place, renderAt place e = wrap level place text) (pos : 1 ≤ level)
    (bound : level ≤ 4)
    (reads : Reads level text.toList a) : e.ReadsAs a := by
  intro place pos' bound'
  rw [same]
  exact reads.wrap pos' bound' pos bound

theorem seq (first : l.ReadsAs a) (second : r.ReadsAs b) : ReadsAs (.seq l r) (.seq a b) := by
  refine of_level (fun _ => rfl) (by decide) (by decide) ?_
  rw [String.toList_append,String.toList_append]
  exact (first 3 (by decide) (by decide)).seq (second 2 (by decide) (by decide))

theorem choice (first : l.ReadsAs a) (second : r.ReadsAs b) : ReadsAs (.choice l r) (.choice a b) := by
  refine of_level (fun _ => rfl) (by decide) (by decide) ?_
  rw [String.toList_append,String.toList_append]
  exact (first 2 (by decide) (by decide)).choice (second 1 (by decide) (by decide))

theorem opt (reads : e.ReadsAs a) : ReadsAs (.opt e) (.opt a) := by
  refine of_level (fun _ => rfl) (by decide) (by decide) ?_
  rw [String.toList_append]
  exact (reads 4 (by decide) (by decide)).opt

theorem rep (reads : e.ReadsAs a) : ReadsAs (.rep e) (.rep a) := by
  refine of_level (fun _ => rfl) (by decide) (by decide) ?_
  rw [String.toList_append]
  exact (reads 4 (by decide) (by decide)).rep

theorem followedBy (reads : e.ReadsAs a) : ReadsAs (.followedBy e) (.followedBy a) := by
  refine of_level (fun _ => rfl) (by decide) (by decide) ?_
  rw [String.toList_append]
  exact (reads 3 (by decide) (by decide)).followedBy

theorem notFollowedBy (reads : e.ReadsAs a) : ReadsAs (.notFollowedBy e) (.notFollowedBy a) := by
  refine of_level (fun _ => rfl) (by decide) (by decide) ?_
  rw [String.toList_append]
  exact (reads 3 (by decide) (by decide)).notFollowedBy

theorem tag {name : String} (isWord : IsWord name) (reads : e.ReadsAs a) : ReadsAs (.tag e name) (.tag a name) := by
  refine of_level (fun _ => rfl) (by decide) (by decide) ?_
  simp only [String.toList_append]
  exact (reads 3 (by decide) (by decide)).tag isWord

end ReadsAs

theorem ofElements_literal (text : String) (texts : List String) :
    ofElements .choice ((text :: texts).map literal) = .ok (anyText text texts) := by
  induction texts generalizing text with
  | nil => rfl
  | cons next texts ih => exact congrArg (Except.map (Expr.choice (.literal text))) (ih next)

theorem searched_cons (text : String) (texts : List String) :
    searched (text :: texts) = .rep (.seq (.notFollowedBy (anyText text texts)) (.ref "ANY")) := by
  rw [searched,ofElements_literal]

theorem anyText_readsAs (text : String) (texts : List String) : (anyText text texts).ReadsAs (anyText text texts) := by
  induction texts generalizing text with
  | nil => exact .literal text
  | cons next texts ih => exact .choice (.literal text) (ih next)

theorem renderAt_anyText (text : String) (texts : List String) :
    renderAt 1 (anyText text texts) = " | ".intercalate ((text :: texts).map Text.Quoted.text) := by
  induction texts generalizing text with
  | nil => rfl
  | cons next texts ih =>
    -- the rest of the choice stands on the right, where it has no parentheses of its own
    show renderAt 2 (.literal text) ++ " | " ++ renderAt 1 (anyText next texts) = _
    simp only [ih,List.map_cons,String.intercalate_cons_cons]
    rfl

theorem renderAt_anyText_oneOf (text : String) (texts : List String) :
    renderAt 3 (anyText text texts) = oneOf ((text :: texts).map Text.Quoted.text) := by
  cases texts with
  | nil => rfl
  | cons next texts =>
    rw [oneOf,if_pos (by simp),← renderAt_anyText]
    rfl

theorem renderAt_searched (place : Nat) (strings : List String) :
    renderAt place (searched strings) = renderAt place (.skipUntil strings) := by
  cases strings with
  | nil => rfl
  | cons text texts =>
    have form : renderAt 4 (.seq (.notFollowedBy (anyText text texts)) (.ref "ANY")) ++ "*" =
        skipForm ((text :: texts).map Text.Quoted.text) := by
      show "(" ++ ("!" ++ renderAt 3 (anyText text texts) ++ " ~ " ++ "ANY") ++ ")" ++ "*" = _
      rw [renderAt_anyText_oneOf,skipForm,← String.toList_inj]
      simp only [String.toList_append,List.append_assoc]
      rfl
    rw [searched_cons]
    exact congrArg (wrap postfixLevel place) form

theorem renderAt_spelledOut (place : Nat) (e : Expr) : renderAt place e.spelledOut = renderAt place e := by
  induction e generalizing place with
  | skipUntil strings => exact renderAt_searched place strings
  | seq lhs rhs ihl ihr | choice lhs rhs ihl ihr => rw [spelledOut,renderAt,renderAt,ihl,ihr]
  | opt inner ih | rep inner ih | followedBy inner ih | notFollowedBy inner ih | restore inner ih | push inner ih | tag inner name ih =>
    rw [spelledOut,renderAt,renderAt,ih]
  | _ => rfl

theorem readsAs_searched (strings : List String) : ReadsAs (.skipUntil strings) (searched strings) := by
  cases strings with
  | nil => exact .of_level (fun _ => rfl) (by decide) (by decide) .never
  | cons text texts =>
    have spelled : ReadsAs (searched (text :: texts)) (searched (text :: texts)) := by
      rw [searched_cons]
      exact ((anyText_readsAs text texts).notFollowedBy.seq (.ref ⟨by decide,by decide⟩ (by decide))).rep
    intro place pos bound
    rw [← renderAt_searched]
    exact spelled place pos bound

/-- A form is read as what it is once its searches are spelled out. -/
theorem Legible.readsAs {e : Expr} (legible : e.Legible) : e.ReadsAs e.spelledOut := by
  induction e with
  | literal text => exact .literal text
  | caseless text => exact .caseless text
  | range lo hi => exact .range lo hi
  | ref name => exact .ref legible.1 legible.2
  | seq lhs rhs ihl ihr => exact (ihl legible.1).seq (ihr legible.2)
  | choice lhs rhs ihl ihr => exact (ihl legible.1).choice (ihr legible.2)
  | opt inner ih => exact (ih legible).opt
  | rep inner ih => exact (ih legible).rep
  | followedBy inner ih => exact (ih legible).followedBy
  | notFollowedBy inner ih => exact (ih legible).notFollowedBy
  | restore inner ih => exact (ih legible).restore
  | push inner ih => exact (ih legible).push
  | peek start stop => exact .peek start stop
  | drop count => exact .drop count
  | skipUntil strings => exact readsAs_searched strings
  | tag inner name ih => exact (ih legible.2).tag legible.1

end Expr

theorem Kind.modifier_reads {k : Kind} (known : k.isKnown = true) :
    ∃ mark, k.modifier = .ok mark ∧ ∀ rest, Reader.kind (mark.toList ++ '\x7b' :: rest) = (k,'\x7b' :: rest) := by
  cases k with
  | unknown word strange => exact absurd known Bool.false_ne_true
  | _ => exact ⟨_,rfl,fun _ => rfl⟩

namespace Rule

def spelledOut (r : Rule) : Rule := { r with expr := r.expr.spelledOut }

structure Legible (r : Rule) : Prop where
  known : r.kind.isKnown = true
  name : Reader.IsWord r.name
  expr : r.expr.Legible

theorem render_spelledOut (r : Rule) : r.spelledOut.render = r.render := by
  rw [render,render,spelledOut,Expr.render,Expr.renderAt_spelledOut]
  rfl

theorem Legible.reads {r : Rule} (legible : r.Legible) :
    ∃ line, r.render = .ok line ∧ ∀ rest, Reader.rule ((line ++ "\n").toList ++ rest) = some (r.spelledOut,rest) := by
  obtain ⟨mark,marked,kind⟩ := Kind.modifier_reads legible.known
  refine ⟨form r.name mark r.expr.render,by rw [render,marked]; rfl,fun rest => ?_⟩
  let body := r.expr.render.toList ++ (" \x7d\n".toList ++ rest)
  have parts : (form r.name mark r.expr.render ++ "\n").toList ++ rest =
      r.name.toList ++ (" = ".toList ++ (mark.toList ++ '\x7b' :: ' ' :: body)) := by
    simp only [form,String.toList_append,List.append_assoc]
    rfl
  have named := Reader.word_append (y := " = ".toList ++ (mark.toList ++ '\x7b' :: ' ' :: body)) legible.name (Reader.stop_cons rfl)
  have opened := Reader.dropPrefix?_append "\x7b " body
  have ends : Reader.Ends 1 (" \x7d\n".toList ++ rest) := ⟨fun c first => .inl (by cases first; decide),fun _ => rfl,fun _ => rfl⟩
  have read : Reader.expr (4 * body.length + 4) 1 body = some (r.expr.spelledOut," \x7d\n".toList ++ rest) := by
    have reads := legible.expr.readsAs 1 (by decide) (by decide)
    rw [← Expr.renderAt_zero] at reads
    exact (reads _ _ ends (Nat.le_refl _)).trans (congrArg some (ends.marks (by decide) _))
  have closed := Reader.dropPrefix?_append " \x7d\n" rest
  have assigned := Reader.dropPrefix?_append " = " (mark.toList ++ '\x7b' :: ' ' :: body)
  have opened : List.dropPrefix? ('\x7b' :: ' ' :: body) "\x7b ".toList = some body := opened
  rw [parts]
  simp only [Reader.rule,named,assigned,kind,opened,read,closed,Option.bind_eq_bind,Option.bind_some]
  rfl

end Rule

variable {rules : List Rule}

theorem renderRules_cons {r : Rule} {line text : String} (first : r.render = .ok line) (others : renderRules rules = .ok text) :
    renderRules (r :: rules) = .ok (line ++ "\n" ++ text) := by
  unfold renderRules at others ⊢
  cases rendered : rules.mapM Rule.render with
  | error e =>
    rw [rendered] at others
    cases others
  | ok lines =>
    rw [rendered] at others
    cases others
    rw [List.mapM_cons,first,rendered]
    exact congrArg Except.ok String.join_cons

theorem renderRules_spelledOut (rules : List Rule) : renderRules (rules.map Rule.spelledOut) = renderRules rules := by
  have lines : (rules.map Rule.spelledOut).mapM Rule.render = rules.mapM Rule.render := by
    induction rules with
    | nil => rfl
    | cons r rules ih => rw [List.map_cons,List.mapM_cons,List.mapM_cons,r.render_spelledOut,ih]
  rw [renderRules,renderRules,lines]

/-- A legible grammar has a text, and that reads as its rules with the searches spelled out. -/
theorem grammar_renderRules (legible : ∀ r ∈ rules, r.Legible) :
    ∃ text, renderRules rules = .ok text ∧ Reader.grammar text = some (rules.map Rule.spelledOut) := by
  suffices read : ∃ text, renderRules rules = .ok text ∧ rules.length ≤ text.toList.length ∧
      ∀ fuel, rules.length ≤ fuel → Reader.rules fuel text.toList = some (rules.map Rule.spelledOut) by
    obtain ⟨text,written,enough,read⟩ := read
    exact ⟨text,written,read _ enough⟩
  induction rules with
  | nil => exact ⟨"",rfl,Nat.le_refl 0,fun fuel _ => by cases fuel <;> rfl⟩
  | cons r rules ih =>
    obtain ⟨text,written,enough,read⟩ := ih fun r member => legible r (List.mem_cons_of_mem _ member)
    obtain ⟨line,first,reads⟩ := (legible r List.mem_cons_self).reads
    refine ⟨_,renderRules_cons first written,?_,fun fuel le => ?_⟩
    · simp only [String.toList_append,List.length_append,List.length_cons]
      have : 1 ≤ "\n".toList.length := by decide
      omega
    · obtain ⟨fuel,rfl⟩ : ∃ k, fuel = k + 1 := ⟨fuel - 1,by rw [List.length_cons] at le; omega⟩
      rw [String.toList_append]
      exact Reader.rules_cons (reads text.toList) (read fuel (Nat.le_of_succ_le_succ le))

/-- Grammars are written alike just when they are the same up to abbreviated searches. -/
theorem renderRules_unambiguous {rules rules' : List Rule} (legible : ∀ r ∈ rules, r.Legible) (legible' : ∀ r ∈ rules', r.Legible) :
    ∃ text text', renderRules rules = .ok text ∧ renderRules rules' = .ok text' ∧
      (text = text' ↔ rules.map Rule.spelledOut = rules'.map Rule.spelledOut) := by
  obtain ⟨text,written,read⟩ := grammar_renderRules legible
  obtain ⟨text',written',read'⟩ := grammar_renderRules legible'
  refine ⟨text,text',written,written',fun same => ?_,fun same => ?_⟩
  · rw [← same,read] at read'
    exact Option.some.inj read'
  · rw [← renderRules_spelledOut,same,renderRules_spelledOut,written'] at written
    exact (Except.ok.inj written).symm

/-- A search is written as the repetition it abbreviates, and not as one that looks ahead further. -/
theorem block_unambiguous :
    let search : Rule := ⟨"block",.atomic,.skipUntil ["*/"]⟩
    let repetition : Rule := ⟨"block",.atomic,.rep (.seq (.notFollowedBy (.literal "*/")) (.ref "ANY"))⟩
    let further : Rule := ⟨"block",.atomic,.rep (.notFollowedBy (.seq (.literal "*/") (.ref "ANY")))⟩
    (search.Legible ∧ repetition.Legible ∧ further.Legible) ∧
      renderRules [search] = renderRules [repetition] ∧ renderRules [repetition] ≠ renderRules [further] := by
  intro search repetition further
  have word : Reader.IsWord "block" := ⟨by decide,by decide⟩
  have any : (Expr.ref "ANY").Legible := ⟨⟨by decide,by decide⟩,by decide⟩
  have first : search.Legible := ⟨rfl,word,trivial⟩
  have second : repetition.Legible := ⟨rfl,word,trivial,any⟩
  have third : further.Legible := ⟨rfl,word,trivial,any⟩
  refine ⟨⟨first,second,third⟩,?_,fun equal => ?_⟩
  · obtain ⟨text,text',written,written',same⟩ :=
      renderRules_unambiguous (List.forall_mem_singleton.2 first) (List.forall_mem_singleton.2 second)
    rw [written,written',same.2 rfl]
  · obtain ⟨text,text',written,written',same⟩ :=
      renderRules_unambiguous (List.forall_mem_singleton.2 second) (List.forall_mem_singleton.2 third)
    rw [written,written'] at equal
    exact absurd (same.1 (Except.ok.inj equal)) (by decide)

end TypedPeg
