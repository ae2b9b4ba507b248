import TypedPeg.Proofs.Match.Yields

/-! Repetitions of repetitions and of options. Where a repetition has ended it would end at once if it began there anew,
behind the separators as well; so an outer repetition has one item of it, or none. An option that is absent has made
no progress, so it repeats as what it wraps does. -/
namespace TypedPeg.NodeTable

variable {table : NodeTable} {source : Source} {skip atomic first : Bool} {inner outer part name : String} {node : Node} {c d r r' : Cursor}
  {vs ws : List Value}

namespace Iterates

theorem unique (iterates : table.Iterates source skip atomic inner first c r vs)
    (iterates' : table.Iterates source skip atomic inner first c r' ws) : r = r' ∧ vs = ws := by
  induction iterates generalizing r' ws with
  | stop gap tried still =>
    cases iterates' with
    | stop gap' tried' still' => exact ⟨rfl,rfl⟩
    | more gap' one' moved' rest' =>
      cases gap.unique gap'
      exact (moved' (still _ _ (tried.unique one'))).elim
  | more gap one moved rest ih =>
    cases iterates' with
    | stop gap' tried' still' =>
      cases gap.unique gap'
      exact (moved (still' _ _ (tried'.unique one))).elim
    | more gap' one' moved' rest' =>
      cases gap.unique gap'
      cases one.unique one'
      obtain ⟨rfl,rfl⟩ := ih rest'
      exact ⟨rfl,rfl⟩

/-- Without an item it has not moved; with one it has. -/
theorem moved_iff (iterates : table.Iterates source skip atomic inner first c r vs) : vs ≠ [] ↔ r.pos ≠ c.pos := by
  have less : vs ≠ [] → r.ahead source < c.ahead source := by
    induction iterates with
    | stop gap tried still => exact fun some => (some rfl).elim
    | @more first c d e v r vs gap one moved rest ih =>
      intro _
      have before := Nat.lt_of_lt_of_le (one.nears.ahead_lt moved) gap.nears.ahead_le
      by_cases none : vs = []
      · cases rest with
        | stop gap' tried' still' => exact before
        | more gap' one' moved' rest' => cases none
      · exact Nat.lt_trans (ih none) before
  constructor
  · intro some same
    have shorter := less some
    rw [Cursor.ahead,Cursor.ahead,same] at shorter
    exact Nat.lt_irrefl _ shorter
  · rintro moved rfl
    cases iterates
    exact moved rfl

theorem eq_of_nil (iterates : table.Iterates source skip atomic inner first c r []) : r = c := by
  cases iterates
  rfl

/-- Going on from where it ended it ends there. -/
theorem ends (iterates : table.Iterates source skip atomic inner first c r vs) :
    table.Iterates source skip atomic inner (first && vs.isEmpty) r r [] := by
  induction iterates with
  | @stop first c d o gap tried still =>
    rw [List.isEmpty_nil,Bool.and_true]
    exact .stop gap tried still
  | @more first c d e v r vs gap one moved rest ih => simpa using ih

/-- What does not go on behind the separators does not begin there. -/
theorem begin_of_stop (gap : table.Passes source (skip && !first) atomic c d)
    (iterates : table.Iterates source skip atomic inner first c r []) :
    table.Iterates source skip atomic inner true d d [] := by
  cases iterates with
  | stop gap' tried still =>
    cases gap.unique gap'
    refine .stop ?_ tried still
    rw [Bool.not_true,Bool.and_false]
    exact passes_self

end Iterates

theorem Passes.eq_of_first (passes : table.Passes source (skip && !true) atomic c d) : d = c := by
  rw [Bool.not_true,Bool.and_false] at passes
  exact passes.unique passes_self

/-- A repetition of a repetition has that one for its only item, or no item if that one has none. -/
theorem Iterates.nested (found : table.get? inner = some node) (body : node.body = .list part skip)
    (iterates : table.Iterates source skip atomic part true c d vs) (outside : table.Iterates source skip atomic inner true c r ws) :
    r = d ∧ ws = if vs = [] then [] else [.many inner (c.spanTo d) vs] := by
  have once {c d e : Cursor} {v : Value} {vs : List Value} (inside : table.Iterates source skip atomic part true c d vs)
      (yields : table.Yields source atomic inner c (.matched (e,v))) : e = d ∧ v = .many inner (c.spanTo d) vs := by
    obtain ⟨d',vs',inside',same⟩ := yields.list found body
    obtain ⟨rfl,rfl⟩ := inside.unique inside'
    cases same
    exact ⟨rfl,rfl⟩
  cases outside with
  | stop gap tried still =>
    cases gap.eq_of_first
    obtain ⟨d',vs',inside,rfl⟩ := tried.list found body
    obtain ⟨rfl,rfl⟩ := iterates.unique inside
    have none : vs = [] := Classical.not_not.1 fun some => iterates.moved_iff.1 some (still _ _ rfl)
    subst none
    exact ⟨iterates.eq_of_nil.symm,rfl⟩
  | more gap one moved rest =>
    cases gap.eq_of_first
    obtain ⟨rfl,rfl⟩ := once iterates one
    have some := iterates.moved_iff.2 moved
    rw [if_neg some]
    -- the inner repetition has stopped for good, so the next attempt at it makes no progress
    have ended := iterates.ends
    rw [Bool.true_and,List.isEmpty_eq_false_iff.2 some] at ended
    cases rest with
    | stop gap' tried still => exact ⟨rfl,rfl⟩
    | more gap' one' moved' rest' =>
      obtain ⟨rfl,-⟩ := once (.begin_of_stop gap' ended) one'
      exact (moved' rfl).elim

/-- A repetition of an option has the items of the repetition of what it wraps, each in the option. -/
theorem Iterates.optional (found : table.get? inner = some node) (body : node.body = .optional part)
    (iterates : table.Iterates source skip atomic part first c d vs) (outside : table.Iterates source skip atomic inner first c r ws) :
    r = d ∧ ws = vs.map fun v => .present inner v.span v := by
  induction iterates generalizing r ws with
  | stop gap tried still =>
    cases outside with
    | stop gap' tried' still' => exact ⟨rfl,rfl⟩
    | more gap' one moved rest =>
      cases gap.unique gap'
      rcases one.optional found body with ⟨f,absent,same⟩ | ⟨e,v,present,same⟩
      · cases same
        exact (moved rfl).elim
      · cases same
        exact (moved (still _ _ (tried.unique present))).elim
  | more gap one moved rest ih =>
    cases outside with
    | stop gap' tried still =>
      cases gap.unique gap'
      rcases tried.optional found body with ⟨f,absent,same⟩ | ⟨e,v,present,same⟩
      · cases one.unique absent
      · cases one.unique present
        exact (moved (still _ _ same)).elim
    | more gap' one' moved' rest' =>
      cases gap.unique gap'
      rcases one'.optional found body with ⟨f,absent,same⟩ | ⟨e,v,present,same⟩
      · cases one.unique absent
      · cases one.unique present
        cases same
        obtain ⟨rfl,rfl⟩ := ih rest'
        rw [List.map_cons,one.span]
        exact ⟨rfl,rfl⟩

/-- Three repetitions, of a node, of a repetition of it and of an option of it, all with separators or all without. Where
their calls do not halt, all three match and come to the same cursor. The first has the items of the node, the third
these in the option, and the second what the inner repetition would show, if that has an item. -/
theorem repetitions_collapse {x y z option : String} (single : table.Bears x (.list part skip)) (double : table.Bears y (.list inner skip))
    (nested : table.Bears inner (.list part skip)) (triple : table.Bears z (.list option skip))
      (wrapped : table.Bears option (.optional part))
    {ox oy oz : Outcome (Cursor × Value)} (yields : table.Yields source atomic x c ox) (yields' : table.Yields source atomic y c oy)
    (yields'' : table.Yields source atomic z c oz) :
    ∃ d vs, ox = .matched (d,.many x (c.spanTo d) vs) ∧
      oy = .matched (d,.many y (c.spanTo d) (if vs = [] then [] else [.many inner (c.spanTo d) vs])) ∧
      oz = .matched (d,.many z (c.spanTo d) (vs.map fun v => .present option v.span v)) := by
  obtain ⟨_,single⟩ := single
  obtain ⟨_,double⟩ := double
  obtain ⟨_,nested⟩ := nested
  obtain ⟨_,triple⟩ := triple
  obtain ⟨_,wrapped⟩ := wrapped
  obtain ⟨d,vs,iterates,rfl⟩ := yields.list single rfl
  obtain ⟨r,ws,outside,rfl⟩ := yields'.list double rfl
  obtain ⟨rfl,rfl⟩ := iterates.nested nested rfl outside
  obtain ⟨r,ws,outside,rfl⟩ := yields''.list triple rfl
  obtain ⟨rfl,rfl⟩ := iterates.optional wrapped rfl outside
  exact ⟨r,vs,rfl,rfl,rfl⟩

def letters : NodeTable :=
  ⟨[⟨"single","single",.list "letter" true⟩,⟨"double","double",.list "inner" true⟩,⟨"inner","inner",.list "letter" true⟩,
    ⟨"triple","triple",.list "option" true⟩,⟨"option","option",.optional "letter"⟩,⟨"letter","letter",.push "maybe"⟩,
    ⟨"maybe","maybe",.optional "a"⟩,⟨"a","a",.terminal (.literal "a")⟩,⟨"WHITESPACE","WHITESPACE",.terminal (.literal " ")⟩],by decide⟩

theorem letters_collapse :
    let after : Cursor := ⟨3,[⟨0,1⟩,⟨2,3⟩]⟩
    let items : List Value := [⟨0,1⟩,⟨2,3⟩].map fun span : Span => .present "maybe" span (.leaf "a" span (some "a"))
    let wrapped := items.map fun v => Value.present "option" v.span v
    letters.Yields (.ofString "a a ") false "single" .start (.matched (after,.many "single" ⟨0,3⟩ items)) ∧
    letters.Yields (.ofString "a a ") false "double" .start (.matched (after,.many "double" ⟨0,3⟩ [.many "inner" ⟨0,3⟩ items])) ∧
    letters.Yields (.ofString "a a ") false "triple" .start (.matched (after,.many "triple" ⟨0,3⟩ wrapped)) ∧
    ∃ d vs, Outcome.matched (after,Value.many "single" ⟨0,3⟩ items) = .matched (d,.many "single" (Cursor.start.spanTo d) vs) ∧
      Outcome.matched (after,Value.many "double" ⟨0,3⟩ [.many "inner" ⟨0,3⟩ items]) =
        .matched (d,.many "double" (Cursor.start.spanTo d) (if vs = [] then [] else [.many "inner" (Cursor.start.spanTo d) vs])) ∧
      Outcome.matched (after,Value.many "triple" ⟨0,3⟩ wrapped) =
        .matched (d,.many "triple" (Cursor.start.spanTo d) (vs.map fun v => .present "option" v.span v)) := by
  intro after items wrapped
  have single : letters.Yields (.ofString "a a ") false "single" .start (.matched (after,.many "single" ⟨0,3⟩ items)) :=
    ⟨Outcome.ended_matched,20,[],.new true,by decide +kernel⟩
  have double : letters.Yields (.ofString "a a ") false "double" .start
      (.matched (after,.many "double" ⟨0,3⟩ [.many "inner" ⟨0,3⟩ items])) :=
    ⟨Outcome.ended_matched,20,[],.new true,by decide +kernel⟩
  have triple : letters.Yields (.ofString "a a ") false "triple" .start (.matched (after,.many "triple" ⟨0,3⟩ wrapped)) :=
    ⟨Outcome.ended_matched,20,[],.new true,by decide +kernel⟩
  exact ⟨single,double,triple,repetitions_collapse ⟨_,rfl⟩ ⟨_,rfl⟩ ⟨_,rfl⟩ ⟨_,rfl⟩ ⟨_,rfl⟩ single double triple⟩

end TypedPeg.NodeTable
