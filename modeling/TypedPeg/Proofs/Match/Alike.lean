import TypedPeg.Proofs.Match.Paired

/-! One node at work twice, over calls that are alike. A node reads of its cursor no more
than the offset, unless it is a terminal that looks at the stack; so the cursors need only be
related, and whatever relation they are in, nodes and sweeps of separators keep it. -/
namespace TypedPeg

variable {σ τ : Type} {l : Likeness σ τ} {near : Cursor → Cursor → Prop}

def Likeness.Answers (near : Cursor → Cursor → Prop) (x y : Cursor × Value) : Prop := near x.1 y.1 ∧ x.2 = y.2

theorem Furthest.ofChoice_inj {far far' : Furthest} {label : String} (same : far.ofChoice label = far'.ofChoice label) :
    far = far' := by
  cases far; cases far'
  simpa [ofChoice] using same

structure Calls.Alike (l : Likeness σ τ) (near : Cursor → Cursor → Prop) (calls : Calls σ) (calls' : Calls τ)
    (atomic atomic' : Bool) : Prop where
  call : ∀ name c c', near c c' →
    Run.Alike l (Likeness.Answers near) (calls.call atomic name c) (calls'.call atomic' name c')
  within : ∀ flag name c c', near c c' →
    Run.Alike l (Likeness.Answers near) (calls.within flag name c) (calls'.within flag name c')
  skip : ∀ c c', near c c' → Run.Alike l near (calls.skip atomic c) (calls'.skip atomic' c')

section Answers
variable {α β γ : Type} {post : α → β → Prop}

theorem Run.Alike.answer {r : Run σ (Cursor × γ)} {r' : Run τ (Cursor × γ)} {next : Cursor × γ → Run σ α} {next' : Cursor × γ → Run τ β}
    (alike : Run.Alike l (fun x y => near x.1 y.1 ∧ x.2 = y.2) r r')
    (rest : ∀ d d' v, near d d' → Run.Alike l post (next (d,v)) (next' (d',v))) : Run.Alike l post (r >>= next) (r' >>= next') := by
  refine alike.bind fun x y same => ?_
  obtain ⟨d,v⟩ := x
  obtain ⟨d',v'⟩ := y
  obtain ⟨close,values⟩ := same
  cases values
  exact rest d d' v close

theorem Run.Alike.tried_answer {r : Run σ (Cursor × γ)} {r' : Run τ (Cursor × γ)} {next : Except Failure (Cursor × γ) → Run σ α}
    {next' : Except Failure (Cursor × γ) → Run τ β} (alike : Run.Alike l (fun x y => near x.1 y.1 ∧ x.2 = y.2) r r')
    (fails : ∀ f f', l.failures f f' → Run.Alike l post (next (.error f)) (next' (.error f')))
    (rest : ∀ d d' v, near d d' → Run.Alike l post (next (.ok (d,v))) (next' (.ok (d',v)))) :
    Run.Alike l post (r.attempt >>= next) (r'.attempt >>= next') := by
  refine alike.attempt.tried fails fun x y same => ?_
  obtain ⟨d,v⟩ := x
  obtain ⟨d',v'⟩ := y
  obtain ⟨close,values⟩ := same
  cases values
  exact rest d d' v close

end Answers

def Likeness.pairing (l : Likeness σ τ) (near : Cursor → Cursor → Prop) : Pairing σ τ where
  toLikeness := l
  near := near
  values _ := Eq
  known _ := True

theorem Calls.Alike.paired {calls : Calls σ} {calls' : Calls τ} {atomic atomic' : Bool}
    (alike : Calls.Alike l near calls calls' atomic atomic') : calls.Paired (l.pairing near) calls' atomic atomic' :=
  ⟨fun _ _ _ => alike.call _ _ _,fun flag _ _ _ _ => alike.within flag _ _ _,alike.skip _ _⟩

/-- Cursors that are near have one offset, and failures at such cursors correspond. -/
structure Likeness.Tallies (l : Likeness σ τ) (near : Cursor → Cursor → Prop) : Prop where
  samePos : ∀ {c c'}, near c c' → c.pos = c'.pos
  push : ∀ {c c'} entry, near c c' → near (c.push entry) (c'.push entry)
  here : ∀ {c c'} kind msg labels, near c c' → l.failures ⟨kind,msg,c.pos,labels⟩ ⟨kind,msg,c'.pos,labels⟩
  relabelled : ∀ {c c'} {f f' : Failure} kind msg, near c c' → l.failures f f' →
    l.failures ⟨kind,msg,c.pos,f.expected⟩ ⟨kind,msg,c'.pos,f'.expected⟩
  noted : ∀ {far far' : Furthest} {f f' : Failure} label, l.failures (far.ofChoice label) (far'.ofChoice label) → l.failures f f' →
    l.failures ((far.note f).ofChoice label) ((far'.note f').ofChoice label)

structure Likeness.Fits [Observer σ] [Observer τ] (l : Likeness σ τ) (near : Cursor → Cursor → Prop) : Prop extends l.Tallies near where
  watched : l.Watched

theorem Likeness.tallies_eq (failures : l.failures = Eq) : l.Tallies Eq where
  samePos same := congrArg Cursor.pos same
  push entry same := congrArg (·.push entry) same
  here kind msg labels same := by rw [failures,same]
  relabelled kind msg same := by
    rw [failures]
    intro caught
    rw [same,caught]
  noted label same := by
    rw [failures] at same ⊢
    intro caught
    rw [Furthest.ofChoice_inj same,caught]

theorem Likeness.fits_eq [Observer σ] [Observer τ] (watched : l.Watched) (failures : l.failures = Eq) : l.Fits Eq :=
  ⟨tallies_eq failures,watched⟩

theorem Likeness.Tallies.pairing {p : Pairing σ τ} (tallies : p.toLikeness.Tallies p.near) (source : Source) : p.Tallies source source where
  ahead close := by rw [Cursor.ahead,Cursor.ahead,tallies.samePos close]
  still close moved := by rw [tallies.samePos close,tallies.samePos moved]
  further close moved := by rw [tallies.samePos close,tallies.samePos moved]
  push close moved := by
    rw [Cursor.spanTo,Cursor.spanTo,tallies.samePos close,tallies.samePos moved]
    exact tallies.push _ moved
  here := tallies.here
  relabelled := tallies.relabelled
  noted := tallies.noted

theorem Likeness.Fits.pairing [Observer σ] [Observer τ] {p : Pairing σ τ} (fits : p.toLikeness.Fits p.near) (source : Source) :
    p.Fits source source := ⟨fits.toTallies.pairing source,fits.watched⟩

def Terminal.Alike (l : Likeness σ τ) (near : Cursor → Cursor → Prop) (source : Source) (label : String)
    (t : Terminal) : Prop :=
  ∀ c c', near c c' → Run.Alike.caught l near (t.move source label c) (t.move source label c')

theorem Terminal.alike_eq (failures : l.failures = Eq) (source : Source) (label : String) (t : Terminal) :
    t.Alike l Eq source label := by
  intro c c' same
  cases same
  cases t.move source label c with
  | ok after => exact rfl
  | error f =>
    show l.failures f f
    rw [failures]

theorem Value.Rows.eq {names : List String} {vs vs' : List Value} (rows : Value.Rows (fun _ => Eq) names vs vs') : vs = vs' := by
  induction rows with
  | nil => rfl
  | cons one others ih => rw [one,ih]

namespace Node

variable {calls : Calls σ} {calls' : Calls τ} {atomic atomic' : Bool}

theorem Paired.eq {source : Source} {node : Node} {c d c' d' : Cursor} {v v' : Value}
    (paired : node.Paired (l.pairing near) source source c d c' d' v v') (start : c.pos = c'.pos) (stop : d.pos = d'.pos) : v = v' := by
  have span : c.spanTo d = c'.spanTo d' := by rw [Cursor.spanTo,Cursor.spanTo,start,stop]
  have here : c.spanTo c = c'.spanTo c' := by rw [Cursor.spanTo,Cursor.spanTo,start]
  cases paired with
  | @terminal t body => cases kind : t.leafKind <;> simp [Terminal.leaf,kind,Value.unitLeaf,Value.spanLeaf,span,here]
  | lookahead body => rw [Value.unitLeaf,Value.unitLeaf,here]
  | atomic body => rw [Value.spanLeaf,Value.spanLeaf,span]
  | through shape child one => exact one
  | product body rows => rw [span,Value.Rows.eq rows]
  | sum body chosen one =>
    cases one
    rw [span]
  | absent body => rw [here]
  | present body one =>
    cases one
    rw [span]
  | list body items =>
    cases List.forall₂_eq_eq_eq ▸ items
    rw [span]

variable [Observer σ] [Observer τ]

theorem repetition_alike (fits : l.Fits near) (alike : Calls.Alike l near calls calls' atomic atomic')
    (skip : Bool) (inner : String) (rounds : Nat) {c c' : Cursor} (close : near c c') (items : List Value) :
    Run.Alike l (fun x y => near x.1 y.1 ∧ x.2 = y.2) (repetition calls skip atomic inner rounds c items)
      (repetition calls' skip atomic' inner rounds c' items) := by
  have same : List.Forall₂ ((l.pairing near).values inner) items items := List.forall₂_eq_eq_eq ▸ rfl
  -- whatever the text, the repetition itself does not look at it
  refine (repetition_paired (fits.toTallies.pairing ⟨#[]⟩) alike.paired skip trivial rounds close same).mono fun x y ended => ⟨ended.1,?_⟩
  exact List.forall₂_eq_eq_eq ▸ ended.2

theorem step_alike_of_hushed (tallies : l.Tallies near)
    (told : ∀ {f f' s t}, l.failures f f' → l.states s t → l.states (Observer.fail f s) (Observer.fail f' t))
    (alike : Calls.Alike l near calls calls' atomic atomic') {source : Source} {node : Node} {c c' : Cursor}
    (hushed : ∀ inner, node.body = .lookahead inner true → Run.Alike l (Run.Alike.caught l (Likeness.Answers near))
      ((calls.call atomic inner c).attempt.hushed .negation) ((calls'.call atomic' inner c').attempt.hushed .negation))
    (halts : node.body = .declared → l.halts .notRunnable .notRunnable)
    (terminal : ∀ t, node.body = .terminal t → t.Alike l near source node.label) (close : near c c') :
    Run.Alike l (Likeness.Answers near) (node.step source calls atomic c) (node.step source calls' atomic' c') := by
  have compared : (l.pairing near).Tallies source source := tallies.pairing source
  refine (step_paired_of_hushed compared told alike.paired (fun _ _ => trivial) hushed halts
    (fun t body => terminal t body c c' close) close).mono ?_
  exact fun x y ended => ⟨ended.1,ended.2.eq (tallies.samePos close) (tallies.samePos ended.1)⟩

theorem step_alike (fits : l.Fits near) (alike : Calls.Alike l near calls calls' atomic atomic') {source : Source}
    {node : Node} (halts : node.body = .declared → l.halts .notRunnable .notRunnable)
    (terminal : ∀ t, node.body = .terminal t → t.Alike l near source node.label) {c c' : Cursor} (close : near c c') :
    Run.Alike l (Likeness.Answers near) (node.step source calls atomic c) (node.step source calls' atomic' c') :=
  step_alike_of_hushed fits.toTallies fits.watched.fail alike (fun inner _ => (alike.call inner c c' close).attempt.hushed fits.watched _)
    halts terminal close

end Node

theorem Skipping.skip_alike [Observer σ] [Observer τ] {separator : String → Cursor → Run σ (Cursor × Value)}
    {separator' : String → Cursor → Run τ (Cursor × Value)} (fits : l.Fits near)
    (alike : ∀ name c c', near c c' → Run.Alike l (Likeness.Answers near) (separator name c) (separator' name c'))
    (source : Source) (names : List String) (atomic : Bool) {c c' : Cursor} (close : near c c') :
    Run.Alike l near (skip source names separator atomic c) (skip source names separator' atomic c') :=
  skip_paired (p := l.pairing near) (fits.pairing source) (fun name _ {c c'} => alike name c c') atomic close

end TypedPeg
