import TypedPeg.Proofs.Match.Handling
import TypedPeg.Proofs.Run.Ends

/-! Matching with and without the check for calls in progress. Runs of one table under two
regimes, which may differ in that check, in the frames they have and in the calls in progress,
are alike as long as the halts in which the regimes differ are excused. -/
namespace TypedPeg

namespace NodeTable

section Definition
variable {σ : Type} [Observer σ] (table : NodeTable) (source : Source)

/-- The calls of a table; only if `guarded` is one refused that is in progress already. -/
def callsIf (guarded : Bool) : Nat → List Entry → Calls σ := table.callsBy source { guarded := guarded }

theorem callsIf_succ (guarded : Bool) (frames : Nat) (active : List Entry) (atomic : Bool) (name : String) (c : Cursor) :
    ((table.callsIf source guarded (frames + 1) active).call atomic name c : Run σ _) =
      match table.get? name with
      | none => .fail ⟨.undefinedRule,"unknown rule '" ++ name ++ "'",c.pos,[name]⟩
      | some node =>
        if guarded && Entry.isIn ⟨c.pos,name⟩ active then .halt (.leftRecursion name c.pos)
        else match frames with
          | 0 => .halt .tooDeep
          | left + 1 => .visiting (⟨c.pos,name⟩ :: active) c
              (node.step source (table.callsIf source guarded left (⟨c.pos,name⟩ :: active)) atomic c) :=
  callsBy_call table source _ frames active atomic name c

theorem callsIf_within (guarded : Bool) (frames : Nat) (active : List Entry) (flag : Bool) (name : String)
    (input : Cursor) : ((table.callsIf source guarded frames active).within flag name input : Run σ _) =
      (table.callsIf source guarded (frames - 1) active).call flag name input :=
  callsBy_within table source _ frames active flag name input

theorem callsIf_skip (guarded : Bool) (frames : Nat) (active : List Entry) (atomic : Bool) (input : Cursor) :
    ((table.callsIf source guarded (frames + 1) active).skip atomic input : Run σ _) =
      Skipping.skip source table.separators ((table.callsIf source guarded frames active).within true) atomic input :=
  callsBy_skip table source _ frames active atomic input

section Call
variable {table source} (guarded : Bool) {active : List Entry} {name : String} {node : Node} {c : Cursor}

theorem callsIf_refused (found : table.get? name = some node) (busy : (guarded && Entry.isIn ⟨c.pos,name⟩ active) = true)
    (frames : Nat) (atomic : Bool) : ((table.callsIf source guarded (frames + 1) active).call atomic name c : Run σ _) =
      .halt (.leftRecursion name c.pos) := by
  simp only [callsIf_succ,found,busy,if_true]

theorem callsIf_spent (found : table.get? name = some node) (fresh : (guarded && Entry.isIn ⟨c.pos,name⟩ active) = false)
    (atomic : Bool) : ((table.callsIf source guarded 1 active).call atomic name c : Run σ _) = .halt .tooDeep := by
  simp only [callsIf_succ,found,fresh,Bool.false_eq_true,if_false]

theorem callsIf_call (found : table.get? name = some node) (fresh : (guarded && Entry.isIn ⟨c.pos,name⟩ active) = false)
    (frames : Nat) (atomic : Bool) : ((table.callsIf source guarded (frames + 2) active).call atomic name c : Run σ _) =
      .visiting (⟨c.pos,name⟩ :: active) c
        (node.step source (table.callsIf source guarded frames (⟨c.pos,name⟩ :: active)) atomic c) := by
  simp only [callsIf_succ,found,fresh,Bool.false_eq_true,if_false]

/-- A call is cut short, or is the node at work with two frames less. -/
theorem callsIf_cases (found : table.get? name = some node) (frames : Nat) (active : List Entry) (atomic : Bool) (c : Cursor) :
    (∃ h : Halt, h.CutShort ∧ ((table.callsIf source guarded frames active).call atomic name c : Run σ _) = .halt h) ∨
      ∃ left, left + 2 ≤ frames ∧ ((table.callsIf source guarded frames active).call atomic name c : Run σ _) =
        .visiting (⟨c.pos,name⟩ :: active) c (node.step source (table.callsIf source guarded left (⟨c.pos,name⟩ :: active)) atomic c) := by
  cases frames with
  | zero => exact .inl ⟨.tooDeep,trivial,rfl⟩
  | succ frames =>
    cases busy : guarded && Entry.isIn ⟨c.pos,name⟩ active with
    | true => exact .inl ⟨.leftRecursion name c.pos,trivial,callsIf_refused guarded found busy frames atomic⟩
    | false =>
      cases frames with
      | zero => exact .inl ⟨.tooDeep,trivial,callsIf_spent guarded found busy atomic⟩
      | succ left => exact .inr ⟨left,Nat.le_refl _,callsIf_call guarded found busy left atomic⟩

end Call

/-- With the check it is the way in which tables match. -/
theorem callsIf_true (frames : Nat) (active : List Entry) :
    (table.callsIf source true frames active : Calls σ) = table.calls source frames active :=
  callsBy_plain table source frames active

end Definition

variable {σ τ : Type} [Observer σ] [Observer τ] {table : NodeTable} {source : Source}

/-- Calls are alike in all they offer if calls by name are, with the frames given and with up to two
fewer. -/
theorem callsIf_alike {l : Likeness σ τ} {near : Cursor → Cursor → Prop} {guarded guarded' : Bool} {n n' : Nat}
    {active active' : List Entry} {atomic atomic' : Bool} (fits : l.Fits near)
    (flags : atomic = atomic' ∨ table.separators = [])
    (call : ∀ name c c', near c c' → Run.Alike l (Likeness.Answers near)
      ((table.callsIf source guarded n active).call atomic name c)
      ((table.callsIf source guarded' n' active').call atomic' name c'))
    (inner : ∀ flag name c c', near c c' → Run.Alike l (Likeness.Answers near)
      ((table.callsIf source guarded (n - 1) active).call flag name c)
      ((table.callsIf source guarded' (n' - 1) active').call flag name c'))
    (separator : ∀ name c c', near c c' → Run.Alike l (Likeness.Answers near)
      ((table.callsIf source guarded (n - 2) active).call true name c)
      ((table.callsIf source guarded' (n' - 2) active').call true name c'))
    (out : n = 0 ∨ n' = 0 → ∀ c c', Run.Alike l near ((table.callsIf source guarded n active).skip atomic c)
      ((table.callsIf source guarded' n' active').skip atomic' c')) :
    Calls.Alike l near (table.callsIf source guarded n active) (table.callsIf source guarded' n' active')
      atomic atomic' := by
  refine ⟨call,fun flag name c c' close => ?_,fun c c' close => ?_⟩
  · rw [callsIf_within,callsIf_within]
    exact inner flag name c c' close
  · cases n with
    | zero => exact out (.inl rfl) c c'
    | succ n =>
      cases n' with
      | zero => exact out (.inr rfl) c c'
      | succ n' =>
        rw [callsIf_skip,callsIf_skip]
        rcases flags with rfl | none
        · refine Skipping.skip_alike fits (fun name c c' close => ?_) source _ _ close
          rw [callsIf_within,callsIf_within]
          exact separator name c c' close
        · simp only [Skipping.skip,none,List.isEmpty_nil,Bool.true_or,if_true]
          exact .pure close

/-- Two regimes for one table: with the check or without, with frames in the relation `depth` and
calls in progress in the relation `nestings`. -/
structure Regimes (σ τ : Type) where
  likeness : Likeness σ τ
  near : Cursor → Cursor → Prop
  guarded : Bool
  guarded' : Bool
  depth : Nat → Nat → Prop
  nestings : List Entry → List Entry → Prop

def Regimes.Doomed (r : Regimes σ τ) (table : NodeTable) (source : Source) (active : List Entry) (name : String)
    (c : Cursor) : Prop :=
  ∀ n atomic (s : σ), ∃ h t, (table.callsIf source r.guarded n active).call atomic name c s = (.halted h,t) ∧
    r.likeness.firstExcused h

/-- A halt that only one of the regimes comes to is excused. -/
structure Regimes.Agree (r : Regimes σ τ) (table : NodeTable) (source : Source) : Prop where
  fits : r.likeness.Fits r.near
  halts : ∀ h, r.likeness.halts h h
  terminal : ∀ node ∈ table.nodes, ∀ t, node.body = .terminal t → t.Alike r.likeness r.near source node.label
  visit : ∀ {active active' c c' s t}, r.nestings active active' → r.near c c' → r.likeness.states s t →
    r.likeness.states (Observer.visit active c s) (Observer.visit active' c' t)
  push : ∀ {active active'} entry, r.nestings active active' → r.nestings (entry :: active) (entry :: active')
  descend : ∀ {n n'}, r.depth n n' → r.depth (n - 1) (n' - 1)
  shallow : ∀ {n'}, r.depth 0 n' → n' = 0 ∨ r.likeness.firstExcused .tooDeep
  shallow' : ∀ {n}, r.depth n 0 → n = 0 ∨ r.likeness.secondExcused .tooDeep
  refused : ∀ {active active' name c c'}, r.nestings active active' → r.near c c' →
    (r.guarded && Entry.isIn ⟨c.pos,name⟩ active) = true → (r.guarded' && Entry.isIn ⟨c.pos,name⟩ active') = true ∨
      r.likeness.firstExcused (.leftRecursion name c.pos)
  refused' : ∀ {active active' name c c'}, r.nestings active active' → r.near c c' →
    (r.guarded' && Entry.isIn ⟨c.pos,name⟩ active') = true → (r.guarded && Entry.isIn ⟨c.pos,name⟩ active) = true ∨
      r.likeness.secondExcused (.leftRecursion name c.pos) ∨ r.Doomed table source active name c

namespace Regimes.Agree

variable {r : Regimes σ τ}

omit [Observer σ] [Observer τ] in
private theorem first {α β : Type} {post : α → β → Prop} {h : Halt} (excused : r.likeness.firstExcused h)
    (run : Run τ β) : Run.Alike r.likeness post (Run.halt h : Run σ α) run :=
  fun _ _ _ => .first excused

omit [Observer σ] [Observer τ] in
private theorem second {α β : Type} {post : α → β → Prop} {h : Halt} (excused : r.likeness.secondExcused h)
    (run : Run σ α) : Run.Alike r.likeness post run (Run.halt h : Run τ β) :=
  fun _ _ _ => .second excused

private theorem spent (agree : r.Agree table source) {α β : Type} {post : α → β → Prop} {n n' : Nat}
    (depth : r.depth n n') {run : Run σ α} {run' : Run τ β} (out : n = 0 → run = .halt .tooDeep)
    (out' : n' = 0 → run' = .halt .tooDeep) (zero : n = 0 ∨ n' = 0) : Run.Alike r.likeness post run run' := by
  rcases zero with rfl | rfl
  · rw [out rfl]
    rcases agree.shallow depth with rfl | excused
    · rw [out' rfl]
      exact .halt (agree.halts _)
    · exact first excused _
  · rw [out' rfl]
    rcases agree.shallow' depth with rfl | excused
    · rw [out rfl]
      exact .halt (agree.halts _)
    · exact second excused _

private theorem calls_of_call (agree : r.Agree table source) {n n' : Nat} (depth : r.depth n n')
    {active active' : List Entry} {atomic atomic' : Bool} (flags : atomic = atomic' ∨ table.separators = [])
    (call : ∀ m ≤ n, ∀ m', r.depth m m' → ∀ atomic atomic', atomic = atomic' ∨ table.separators = [] →
      ∀ name c c', r.near c c' → Run.Alike r.likeness (Likeness.Answers r.near)
        ((table.callsIf source r.guarded m active).call atomic name c)
        ((table.callsIf source r.guarded' m' active').call atomic' name c')) :
    Calls.Alike r.likeness r.near (table.callsIf source r.guarded n active) (table.callsIf source r.guarded' n' active')
      atomic atomic' := by
  have inner := agree.descend depth
  refine callsIf_alike agree.fits flags (call n (Nat.le_refl _) n' depth _ _ flags)
    (fun flag => call _ (Nat.sub_le n 1) _ inner flag flag (.inl rfl))
    (call _ (Nat.sub_le n 2) _ (agree.descend inner) true true (.inl rfl)) fun zero c c' => ?_
  exact spent agree depth (by rintro rfl; rfl) (by rintro rfl; rfl) zero

theorem call (agree : r.Agree table source) {n n' : Nat} (depth : r.depth n n') {active active' : List Entry}
    (nestings : r.nestings active active') {atomic atomic' : Bool} (flags : atomic = atomic' ∨ table.separators = [])
    (name : String) {c c' : Cursor} (close : r.near c c') :
    Run.Alike r.likeness (Likeness.Answers r.near) ((table.callsIf source r.guarded n active).call atomic name c)
      ((table.callsIf source r.guarded' n' active').call atomic' name c') := by
  induction n using Nat.strongRecOn generalizing n' active active' atomic atomic' name c c' with
  | ind n ih =>
  by_cases doomed : r.Doomed table source active name c
  · intro s t _
    obtain ⟨h,s',halted,excused⟩ := doomed n atomic s
    rw [halted]
    exact .first excused
  cases n with
  | zero => exact spent agree depth (fun _ => rfl) (by rintro rfl; rfl) (.inl rfl)
  | succ n =>
    cases n' with
    | zero => exact spent agree depth (by omega) (fun _ => rfl) (.inr rfl)
    | succ n' =>
      have samePos := agree.fits.samePos close
      simp only [callsIf_succ]
      cases found : table.get? name with
      | none => exact .fail agree.fits.watched (agree.fits.here _ _ _ close)
      | some node =>
        dsimp only
        rw [← samePos]
        by_cases refused : (r.guarded && Entry.isIn ⟨c.pos,name⟩ active) = true
        · rw [if_pos refused]
          rcases agree.refused nestings close refused with refused' | excused
          · rw [if_pos refused']
            exact .halt (agree.halts _)
          · exact first excused _
        · rw [if_neg refused]
          by_cases refused' : (r.guarded' && Entry.isIn ⟨c.pos,name⟩ active') = true
          · rw [if_pos refused']
            rcases agree.refused' nestings close refused' with refused' | excused | doomed'
            · exact (refused refused').elim
            · exact second excused _
            · exact (doomed doomed').elim
          · rw [if_neg refused']
            have depth := agree.descend depth
            cases n with
            | zero => exact spent agree depth (fun _ => rfl) (by rintro rfl; rfl) (.inl rfl)
            | succ n =>
              cases n' with
              | zero => exact spent agree depth (by omega) (fun _ => rfl) (.inr rfl)
              | succ n' =>
                have nestings := agree.push ⟨c.pos,name⟩ nestings
                have below := calls_of_call agree (agree.descend depth) flags fun m small m' depth atomic atomic' flags name c c' =>
                  ih m (by omega) depth nestings flags name
                intro s t related
                exact Node.step_alike agree.fits below
                  (fun _ => agree.halts _) (agree.terminal node (List.mem_of_find?_eq_some found)) close _ _
                  (agree.visit nestings close related)

theorem calls (agree : r.Agree table source) {n n' : Nat} (depth : r.depth n n') {active active' : List Entry}
    (nestings : r.nestings active active') {atomic atomic' : Bool} (flags : atomic = atomic' ∨ table.separators = []) :
    Calls.Alike r.likeness r.near (table.callsIf source r.guarded n active) (table.callsIf source r.guarded' n' active')
      atomic atomic' :=
  calls_of_call agree depth flags fun _ _ _ depth _ _ flags name _ _ close => agree.call depth nestings flags name close

end Regimes.Agree

/-- One table, one regime: runs are alike whose observers are told the same. -/
theorem agree_of_watched {l : Likeness σ τ} (watched : l.Watched) (failures : l.failures = Eq) (halts : ∀ h, l.halts h h)
    (visit : ∀ active c {s t}, l.states s t → l.states (Observer.visit active c s) (Observer.visit active c t)) (table : NodeTable)
    (source : Source) : Regimes.Agree ⟨l,Eq,true,true,Eq,Eq⟩ table source where
  fits := Likeness.fits_eq watched failures
  halts := halts
  terminal _ _ t _ := Terminal.alike_eq failures source _ t
  visit := by
    rintro active _ c _ s t rfl rfl states
    exact visit active c states
  push entry nestings := congrArg (entry :: ·) nestings
  descend same := congrArg (· - 1) same
  shallow same := .inl same.symm
  shallow' same := .inl same
  refused := by
    rintro active _ name c _ rfl _ isIn
    exact .inl isIn
  refused' := by
    rintro active _ name c _ rfl _ isIn
    exact .inl isIn

def same {σ : Type} (first second : Halt → Prop) : Likeness σ σ := ⟨Eq,Eq,Eq,first,second⟩

omit [Observer σ] in
theorem eq_of_same {α : Type} {first second : Halt → Prop} {r r' : Run σ α} {s : σ}
    (alike : Run.Alike (same first second) Eq r r') (finished : ∀ h, (r s).1 = .halted h → ¬first h)
    (finished' : ∀ h, (r' s).1 = .halted h → ¬second h) : r' s = r s := by
  have both := alike s s rfl
  generalize r s = e at both finished ⊢
  generalize r' s = e' at both finished' ⊢
  cases both with
  | matched results states => rw [results,states]
  | failed failures states => rw [failures,states]
  | halted halts states => rw [halts,states]
  | first excused => exact (finished _ rfl excused).elim
  | second excused => exact (finished' _ rfl excused).elim

theorem same_watched {first second : Halt → Prop} : (same first second : Likeness σ σ).Watched :=
  ⟨fun failures states => by rw [failures,states]; rfl,congrArg _,congrArg _⟩

private theorem same_agree {first second : Halt → Prop} {guarded guarded' : Bool} {depth : Nat → Nat → Prop}
    (descend : ∀ {n n'}, depth n n' → depth (n - 1) (n' - 1)) (shallow : ∀ {n'}, depth 0 n' → n' = 0 ∨ first .tooDeep)
    (shallow' : ∀ {n}, depth n 0 → n = 0 ∨ second .tooDeep)
    (refused : ∀ name pos, guarded = guarded' ∨ (guarded' = false ∧ first (.leftRecursion name pos))) :
    Regimes.Agree (⟨same first second,Eq,guarded,guarded',depth,Eq⟩ : Regimes σ σ) table source where
  fits := Likeness.fits_eq same_watched rfl
  halts _ := rfl
  terminal _ _ t _ := Terminal.alike_eq rfl source _ t
  visit := by
    intro active active' c c' s s' nestings close states
    cases nestings
    cases close
    cases states
    rfl
  push entry nestings := congrArg (entry :: ·) nestings
  descend := descend
  shallow := shallow
  shallow' := shallow'
  refused := by
    rintro active _ name c _ rfl _ isIn
    rcases refused name c.pos with rfl | ⟨_,excused⟩
    · exact .inl isIn
    · exact .inr excused
  refused' := by
    rintro active _ name c _ rfl _ isIn
    rcases refused name c.pos with rfl | ⟨rfl,_⟩
    · exact .inl isIn
    · cases isIn

theorem Answers.eq {x y : Cursor × Value} (answers : Likeness.Answers Eq x y) : x = y := Prod.ext answers.1 answers.2

theorem callsIf_mono {guarded : Bool} {n n' : Nat} (le : n ≤ n') (active : List Entry) (atomic : Bool) (name : String)
    (c : Cursor) {s : σ} (finished : ((table.callsIf source guarded n active).call atomic name c s).1 ≠ .halted .tooDeep) :
    (table.callsIf source guarded n' active).call atomic name c s =
      (table.callsIf source guarded n active).call atomic name c s := by
  have agree : Regimes.Agree (⟨same (· = .tooDeep) (fun _ => False),Eq,guarded,guarded,(· ≤ ·),Eq⟩ : Regimes σ σ)
      table source :=
    same_agree (fun le => by omega) (fun _ => .inr rfl) (fun le => .inl (by omega)) fun _ _ => .inl rfl
  refine eq_of_same ((agree.call le rfl (.inl rfl) name rfl).mono fun _ _ => Answers.eq) ?_ fun _ _ => id
  intro h ended spent
  rw [spent] at ended
  exact finished ended

/-- Without the check a run ends as with it, unless that is in left recursion. -/
theorem callsIf_false (frames : Nat) (active : List Entry) (atomic : Bool) (name : String) (c : Cursor) {s : σ}
    (finished : ∀ again pos,
      ((table.calls source frames active).call atomic name c s).1 ≠ .halted (.leftRecursion again pos)) :
    (table.callsIf source false frames active).call atomic name c s =
      (table.calls source frames active).call atomic name c s := by
  have agree : Regimes.Agree (⟨same (fun h => ∃ name pos, h = .leftRecursion name pos) (fun _ => False),Eq,true,false,
      Eq,Eq⟩ : Regimes σ σ) table source :=
    same_agree (fun same => by rw [same]) (fun same => .inl same.symm) (fun same => .inl same)
      fun name pos => .inr ⟨rfl,name,pos,rfl⟩
  rw [← callsIf_true] at finished ⊢
  refine eq_of_same ((agree.call rfl rfl (.inl rfl) name rfl).mono fun _ _ => Answers.eq) ?_ fun _ _ => id
  intro h ended recursion
  obtain ⟨again,pos,rfl⟩ := recursion
  exact finished again pos ended

end NodeTable

end TypedPeg
