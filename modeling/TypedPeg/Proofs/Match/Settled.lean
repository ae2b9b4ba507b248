import TypedPeg.Proofs.Match.Termination

/-! What a run that does not halt comes to is settled: with more frames, with fewer calls in
progress and under another observer it comes to the same. So one may speak of what an atomic
call comes to at a cursor, in whatever midst it is made. -/
namespace TypedPeg

/-- The cursor after a match, none after a failure; a halt shows nothing. -/
def Outcome.shown {α : Type} : Outcome (Cursor × α) → Option (Option Cursor)
  | .matched (after,_) => some (some after)
  | .failed _ => some none
  | .halted _ => none

namespace NodeTable

variable {σ τ : Type} [Observer σ] [Observer τ] {table : NodeTable} {source : Source} {floor : Int}

def settling (σ τ : Type) : Likeness σ τ := ⟨fun _ _ => True,Eq,Eq,fun _ => True,fun _ => False⟩

theorem settling_fits : (settling σ τ).Fits (beside source floor) where
  watched := ⟨fun _ _ => trivial,fun _ => trivial,fun _ => trivial⟩
  samePos same := congrArg Cursor.pos same.1
  push entry same := ⟨congrArg (·.push entry) same.1,same.2⟩
  here kind msg labels same := congrArg (fun c : Cursor => Failure.mk kind msg c.pos labels) same.1
  relabelled kind msg same failures := by
    cases same.1
    cases failures
    exact rfl
  noted label same noted := by
    cases noted
    rw [Furthest.ofChoice_inj same]
    exact rfl

omit [Observer σ] [Observer τ] in
theorem settling_terminal (nonneg : 0 ≤ floor) (label : String) (t : Terminal) :
    t.Alike (settling σ τ) (beside source floor) source label := by
  intro c c' same
  obtain ⟨same,inside⟩ := same
  cases same
  have whole : c.From source 0 := ⟨Int.le_trans nonneg inside.1,inside.2⟩
  cases moved : t.move source label c with
  | ok after => exact ⟨rfl,inside.trans (Terminal.move_from whole moved)⟩
  | error f => exact rfl

/-- Runs beside runs with more frames, in which only doomed calls are refused besides. -/
theorem settling_agree (nonneg : 0 ≤ floor) {nestings : List Entry → List Entry → Prop}
    (push : ∀ {active active'} entry, nestings active active' → nestings (entry :: active) (entry :: active'))
    (refused : ∀ {active active' name c}, nestings active active' → c.From source floor → (⟨c.pos,name⟩ : Entry) ∈ active' →
      (⟨c.pos,name⟩ : Entry) ∈ active ∨ Regimes.Doomed (⟨settling σ τ,beside source floor,true,true,(· ≤ ·),nestings⟩ : Regimes σ τ)
        table source active name c) :
    Regimes.Agree (⟨settling σ τ,beside source floor,true,true,(· ≤ ·),nestings⟩ : Regimes σ τ) table source where
  fits := settling_fits
  halts _ := rfl
  terminal node _ t _ := settling_terminal nonneg node.label t
  visit _ _ _ := trivial
  push := push
  descend le := Nat.sub_le_sub_right le 1
  shallow _ := .inr trivial
  shallow' le := .inl (Nat.le_zero.1 le)
  refused _ _ _ := .inr trivial
  refused' stacked close isIn := by
    rw [Bool.true_and] at isIn
    rcases refused stacked close.2 (Entry.isIn_iff.1 isIn) with known | doomed
    · exact .inl (Entry.isIn_iff.2 known)
    · exact .inr (.inr doomed)

theorem fewer_agree : Regimes.Agree (⟨settling σ τ,beside source 0,true,true,(· ≤ ·),fun active active' => active' ⊆ active⟩ : Regimes σ τ)
    table source :=
  settling_agree (Int.le_refl 0) (fun _ fewer => List.cons_subset_cons _ fewer) fun fewer _ member => .inl (fewer member)

omit [Observer σ] [Observer τ] in
theorem shown_of_alike {α : Type} {post : Cursor × α → Cursor × α → Prop} (same : ∀ x y, post x y → x.1 = y.1)
    {r : Run σ (Cursor × α)} {r' : Run τ (Cursor × α)} (alike : Run.Alike (settling σ τ) post r r') {s : σ} {t : τ} {o : Option Cursor}
    (ended : (r s).1.shown = some o) : (r' t).1.shown = some o := by
  have both := alike s t trivial
  generalize r s = e at both ended
  generalize r' t = e' at both ⊢
  cases both with
  | matched results states =>
    rw [← ended]
    exact congrArg (fun c => some (some c)) (same _ _ results).symm
  | failed failures states => exact ended
  | halted halts states => cases ended
  | first excused => cases ended
  | second excused => exact excused.elim

/-- What an atomic call comes to, where it does not halt. -/
def Tries (table : NodeTable) (source : Source) (name : String) (c : Cursor) (o : Option Cursor) : Prop :=
  ∃ frames active, ∃ s : Tracker, ((table.calls source frames active).call true name c s).1.shown = some o

/-- Where the separators skipped at a cursor end. -/
def Skips (table : NodeTable) (source : Source) (c r : Cursor) : Prop :=
  ∃ frames active, ∃ s : Tracker, ((table.calls source frames active).skip false c s).1 = .matched r

variable {name : String} {c : Cursor} {o o' : Option Cursor}

theorem tries_of_call {frames : Nat} {active : List Entry} {s : σ} (inside : c.From source 0)
    (ended : ((table.calls source frames active).call true name c s).1.shown = some o) : table.Tries source name c o := by
  refine ⟨frames,[],.new false,?_⟩
  rw [← callsIf_true] at ended ⊢
  exact shown_of_alike (fun _ _ answers => answers.1.1)
    (fewer_agree.call (Nat.le_refl _) (List.nil_subset active) (.inl rfl) name ⟨rfl,inside⟩) ended

theorem Tries.settles (tries : table.Tries source name c o) (inside : c.From source 0) : ∃ frames, ∀ more ≥ frames, ∀ s : σ,
    ((table.calls source more []).call true name c s).1.shown = some o := by
  obtain ⟨frames,active,t,ended⟩ := tries
  refine ⟨frames,fun more le s => ?_⟩
  rw [← callsIf_true] at ended ⊢
  exact shown_of_alike (fun _ _ answers => answers.1.1)
    (fewer_agree.call le (List.nil_subset active) (.inl rfl) name ⟨rfl,inside⟩) ended

theorem Tries.unique (tries : table.Tries source name c o) (tries' : table.Tries source name c o')
    (inside : c.From source 0) : o = o' := by
  obtain ⟨n,settled⟩ := tries.settles (σ := Unit) inside
  obtain ⟨n',settled'⟩ := tries'.settles (σ := Unit) inside
  have first := settled (max n n') (Nat.le_max_left _ _) ()
  have second := settled' (max n n') (Nat.le_max_right _ _) ()
  rw [first] at second
  exact Option.some.inj second

theorem Tries.from {d : Cursor} (tries : table.Tries source name c (some d)) (inside : c.From source 0) :
    d.From source c.pos := by
  obtain ⟨n,settled⟩ := tries.settles (σ := Unit) inside
  have ended := settled n (Nat.le_refl n) ()
  cases called : (table.calls source n [] : Calls Unit).call true name c () with
  | mk out t =>
    rw [called] at ended
    cases out with
    | matched got =>
      obtain ⟨after,value⟩ := got
      cases ended
      exact (onward nested_nil n true).call inside called
    | failed f => cases ended
    | halted h => cases ended

omit [Observer σ] [Observer τ] in
private theorem matched_of_alike {post : Cursor → Cursor → Prop} (same : ∀ x y, post x y → x = y) {r : Run σ Cursor}
    {r' : Run τ Cursor} (alike : Run.Alike (settling σ τ) post r r') {s : σ} {t : τ} {d : Cursor}
    (ended : (r s).1 = .matched d) : (r' t).1 = .matched d := by
  have both := alike s t trivial
  generalize r s = e at both ended
  generalize r' t = e' at both ⊢
  cases both with
  | matched results states =>
    rw [← ended]
    exact congrArg Outcome.matched (same _ _ results).symm
  | failed failures states => cases ended
  | halted halts states => cases ended
  | first excused => cases ended
  | second excused => exact excused.elim

theorem skips_of_skip {frames : Nat} {active : List Entry} {s : σ} {r : Cursor} (inside : c.From source 0)
    (ended : ((table.calls source frames active).skip false c s).1 = .matched r) : table.Skips source c r := by
  refine ⟨frames,[],.new false,?_⟩
  rw [← callsIf_true] at ended ⊢
  exact matched_of_alike (fun _ _ close => close.1)
    ((fewer_agree.calls (Nat.le_refl frames) (List.nil_subset active) (.inl rfl)).skip c c ⟨rfl,inside⟩) ended

theorem Skips.settles {r : Cursor} (skips : table.Skips source c r) (inside : c.From source 0) : ∃ frames, ∀ more ≥ frames, ∀ s : σ,
    ((table.calls source more []).skip false c s).1 = .matched r := by
  obtain ⟨frames,active,t,ended⟩ := skips
  refine ⟨frames,fun more le s => ?_⟩
  rw [← callsIf_true] at ended ⊢
  exact matched_of_alike (fun _ _ close => close.1)
    ((fewer_agree.calls le (List.nil_subset active) (.inl rfl)).skip c c ⟨rfl,inside⟩) ended

end NodeTable

end TypedPeg
