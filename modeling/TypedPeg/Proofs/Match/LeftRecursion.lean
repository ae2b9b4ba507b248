import Mathlib.Data.Nat.Find
import TypedPeg.Proofs.Match.Orderly

/-! What the check for calls in progress decides. A run that it lets end would have ended in the
same way without it. Without backreferences and separators what a call comes to depends on the
node and the offset alone; then a run that the check refuses would have repeated itself for ever,
and only such a run would have. -/
namespace TypedPeg

def Terminal.usesStack : Terminal → Bool
  | .peek _ _ | .drop _ => true
  | _ => false

/-- Where a terminal that does not use the stack moves depends on the offset alone. -/
theorem Terminal.move_stackless {t : Terminal} (stackless : t.usesStack = false) (source : Source) (label : String)
    {c c' : Cursor} (samePos : c.pos = c'.pos) :
    (t.move source label c).map Cursor.pos = (t.move source label c').map Cursor.pos := by
  have starts (text : List Char) : c.startsWith source text = c'.startsWith source text := by
    rw [Cursor.startsWith,Cursor.startsWith,samePos]
  have chunk (n : Int) : c.peek source n = c'.peek source n := by rw [Cursor.peek,Cursor.peek,samePos]
  have atEnd : c.atEnd source = c'.atEnd source := by rw [Cursor.atEnd,Cursor.atEnd,samePos]
  have moved (n : Int) : (c.advance n).pos = (c'.advance n).pos := congrArg (· + n) samePos
  cases t with
  | peek start stop => cases stackless
  | drop count => cases stackless
  | range lo hi =>
    simp only [move,chunk,samePos]
    split
    · rfl
    · split
      · exact congrArg Except.ok (moved 1)
      · rfl
  | skipUntil strings => simp only [move,samePos,Except.map]
  | newline =>
    simp only [move,starts,samePos]
    split
    · exact congrArg Except.ok (moved _)
    · rfl
  | literal text | caseless text | any | startOfInput | endOfInput =>
    simp only [move,starts,chunk,atEnd,samePos]
    split <;> simp only [Except.map,moved,samePos]

namespace NodeTable

/-- No node looks at the stack, and no node is a separator. -/
structure Plain (table : NodeTable) : Prop where
  stackless : ∀ node ∈ table.nodes, ∀ t, node.body = .terminal t → t.usesStack = false
  unseparated : ∀ name ∈ Table.separatorNames, name ∉ table.names

variable {table : NodeTable} {source : Source}

theorem Plain.separators (plain : table.Plain) : table.separators = [] := by
  refine List.filter_eq_nil_iff.2 fun name member contained => ?_
  exact plain.unseparated name member (Table.contains_iff.1 contained)

section Verdict
variable {σ τ : Type} [Observer σ] [Observer τ]

def verdict (σ τ : Type) : Likeness σ τ := ⟨fun _ _ => True,Eq,Eq,fun _ => False,fun _ => False⟩

theorem verdict_fits : (verdict σ τ).Fits fun c c' => c.pos = c'.pos where
  watched := ⟨fun _ _ => trivial,fun _ => trivial,fun _ => trivial⟩
  samePos samePos := samePos
  push _ samePos := samePos
  here kind msg labels samePos := by
    show Failure.mk kind msg _ labels = _
    rw [samePos]
  relabelled kind msg samePos same := by
    cases same
    show Failure.mk kind msg _ _ = _
    rw [samePos]
  noted label same noted := by
    cases noted
    rw [Furthest.ofChoice_inj same]
    exact rfl

omit [Observer σ] [Observer τ] in
theorem verdict_terminal {t : Terminal} (stackless : t.usesStack = false) (label : String) :
    t.Alike (verdict σ τ) (fun c c' => c.pos = c'.pos) source label := by
  intro c c' samePos
  have moved := Terminal.move_stackless stackless source label samePos
  cases first : t.move source label c <;> cases second : t.move source label c' <;> rw [first,second] at moved
  · exact Except.error.inj moved
  · cases moved
  · cases moved
  · exact Except.ok.inj moved

/-- Without the check, and without separators and a stack, a call is told by its node and offset. -/
theorem verdict_call (plain : table.Plain) (source : Source) (frames : Nat) (active active' : List Entry) (atomic atomic' : Bool)
    (name : String) {c c' : Cursor} (samePos : c.pos = c'.pos) :
    Run.Alike (verdict σ τ) (Likeness.Answers fun c c' => c.pos = c'.pos)
      ((table.callsIf source false frames active).call atomic name c)
      ((table.callsIf source false frames active').call atomic' name c') := by
  have agree : Regimes.Agree (⟨verdict σ τ,fun c c' => c.pos = c'.pos,false,false,Eq,fun _ _ => True⟩ : Regimes σ τ)
      table source := {
    fits := verdict_fits
    halts := fun _ => rfl
    terminal := fun node member t body => verdict_terminal (plain.stackless node member t body) node.label
    visit := fun _ _ _ => trivial
    push := fun _ _ => trivial
    descend := fun same => congrArg (· - 1) same
    shallow := fun same => .inl same.symm
    shallow' := fun same => .inl same
    refused := fun _ _ refused => .inl refused
    refused' := fun _ _ refused => .inl refused }
  exact agree.call rfl trivial (.inr plain.separators) name samePos

/-- Whether a call comes to an end without the check, nested no deeper than the frames allow. -/
def Finite (table : NodeTable) (source : Source) (frames : Nat) (e : Entry) : Prop :=
  ((table.callsIf source false frames [] : Calls Unit).call false e.name ⟨e.pos,[]⟩ ()).1 ≠ .halted .tooDeep

theorem finite_iff (plain : table.Plain) (frames : Nat) (active : List Entry) (atomic : Bool) (name : String)
    (c : Cursor) (s : σ) : table.Finite source frames ⟨c.pos,name⟩ ↔
      ((table.callsIf source false frames active).call atomic name c s).1 ≠ .halted .tooDeep := by
  have samePos : (⟨c.pos,[]⟩ : Cursor).pos = c.pos := rfl
  have both := verdict_call (σ := Unit) (τ := σ) plain source frames [] active false atomic name samePos () s trivial
  unfold Finite
  generalize (table.callsIf source false frames []).call false name ⟨c.pos,[]⟩ () = e at both ⊢
  generalize (table.callsIf source false frames active).call atomic name c s = e' at both ⊢
  cases both with
  | matched results states => exact ⟨fun _ => nofun,fun _ => nofun⟩
  | failed failures states => exact ⟨fun _ => nofun,fun _ => nofun⟩
  | halted halts states =>
    cases halts
    exact Iff.rfl
  | first excused => exact excused.elim
  | second excused => exact excused.elim

theorem Finite.mono {frames more : Nat} {e : Entry} (finite : table.Finite source frames e) (le : frames ≤ more) :
    table.Finite source more e := by
  unfold Finite
  rw [callsIf_mono le [] false e.name ⟨e.pos,[]⟩ finite]
  exact finite

/-- Runs with the check that are in left recursion, or out of frames, stand beside runs without it
that are out of frames; the others end alike. -/
private def stalling (σ : Type) : Likeness σ σ where
  states := Eq
  failures := Eq
  halts h h' := h = h' ∧ ∀ again pos, h ≠ .leftRecursion again pos
  firstExcused h := h = .tooDeep
  secondExcused h := h = .tooDeep

/-- With the check and without, for a call of which left recursion with it means that it does not end
without it. -/
private theorem stalling_call {n k : Nat} {active : List Entry} {atomic : Bool} {name : String} {c : Cursor}
    (endless : ∀ (s : σ) again pos, ((table.callsIf source true n active).call atomic name c s).1 =
      .halted (.leftRecursion again pos) →
        ((table.callsIf source false k active).call atomic name c s).1 = .halted .tooDeep) :
    Run.Alike (stalling σ) (Likeness.Answers Eq) ((table.callsIf source true n active).call atomic name c)
      ((table.callsIf source false k active).call atomic name c) := by
  intro s _ same
  cases same
  by_cases unended : ((table.callsIf source false k active).call atomic name c s).1 = .halted .tooDeep
  · generalize (table.callsIf source false k active).call atomic name c s = e at unended ⊢
    obtain ⟨o,t⟩ := e
    cases unended
    exact .second rfl
  by_cases spent : ((table.callsIf source true n active).call atomic name c s).1 = .halted .tooDeep
  · generalize (table.callsIf source true n active).call atomic name c s = e at spent ⊢
    obtain ⟨o,t⟩ := e
    cases spent
    exact .first rfl
  have finished : ∀ again pos, ((table.calls source n active).call atomic name c s).1 ≠
      .halted (.leftRecursion again pos) := by
    intro again pos halted
    rw [← callsIf_true] at halted
    exact unended (endless s again pos halted)
  have unguarded := callsIf_false n active atomic name c finished
  rw [← callsIf_true] at unguarded finished
  -- what both come to does not change with the frames, whichever has more
  have same : (table.callsIf source false k active).call atomic name c s =
      (table.callsIf source true n active).call atomic name c s := by
    rcases Nat.le_total n k with le | le
    · rw [callsIf_mono le active atomic name c (by rwa [unguarded]),unguarded]
    · rw [← unguarded,callsIf_mono le active atomic name c unended]
  rw [same]
  generalize (table.callsIf source true n active).call atomic name c s = e at finished ⊢
  obtain ⟨o,t⟩ := e
  cases o with
  | matched got => exact .matched ⟨rfl,rfl⟩ rfl
  | failed f => exact .failed rfl rfl
  | halted h =>
    refine .halted ⟨rfl,?_⟩ rfl
    intro again pos same
    exact finished again pos (congrArg Outcome.halted same)

/-- A body that comes upon left recursion with the check does not end without it, if that is so of
the calls it can make. -/
private theorem body_endless {n k : Nat} {active : List Entry}
    (endless : ∀ n' ≤ n, ∀ k' ≤ k, ∀ atomic name c (s : σ) again pos,
      ((table.callsIf source true n' active).call atomic name c s).1 = .halted (.leftRecursion again pos) →
        ((table.callsIf source false k' active).call atomic name c s).1 = .halted .tooDeep)
    {atomic : Bool} {node : Node} {c : Cursor} {s : σ} {again : String} {pos : Int}
    (halted : (node.step source (table.callsIf source true n active) atomic c s).1 = .halted (.leftRecursion again pos)) :
    (node.step source (table.callsIf source false k active) atomic c s).1 = .halted .tooDeep := by
  have inner (n' : Nat) (less : n' ≤ n) (k' : Nat) (less' : k' ≤ k) (flag : Bool) (name : String) (c c' : Cursor)
      (same : c = c') : Run.Alike (stalling σ) (Likeness.Answers Eq)
        ((table.callsIf source true n' active).call flag name c)
        ((table.callsIf source false k' active).call flag name c') := by
    cases same
    exact stalling_call (endless n' less k' less' flag name c)
  have watched : (stalling σ).Watched := ⟨by rintro f _ s _ rfl rfl; rfl,congrArg _,congrArg _⟩
  have fits : (stalling σ).Fits Eq := Likeness.fits_eq watched rfl
  have calls : Calls.Alike (stalling σ) Eq (table.callsIf source true n active) (table.callsIf source false k active)
      atomic atomic := by
    refine callsIf_alike fits (.inl rfl) (inner n (Nat.le_refl _) k (Nat.le_refl _) atomic)
      (inner _ (Nat.sub_le n 1) _ (Nat.sub_le k 1)) (inner _ (Nat.sub_le n 2) _ (Nat.sub_le k 2) true) fun zero c c' => ?_
    rcases zero with rfl | rfl
    · exact fun _ _ _ => .first rfl
    · exact fun _ _ _ => .second rfl
  have both : (stalling σ).Ends (Likeness.Answers Eq) (node.step source (table.callsIf source true n active) atomic c s)
      (node.step source (table.callsIf source false k active) atomic c s) :=
    Node.step_alike fits calls (fun _ => ⟨rfl,nofun⟩) (fun t _ => Terminal.alike_eq rfl source node.label t) rfl s s rfl
  generalize node.step source (table.callsIf source true n active) atomic c s = e at both halted
  generalize node.step source (table.callsIf source false k active) atomic c s = e' at both ⊢
  cases both with
  | matched results states => cases halted
  | failed failures states => cases halted
  | halted halts states =>
    cases halted
    exact (halts.2 again pos rfl).elim
  | first excused =>
    cases excused
    cases halted
  | second excused => exact congrArg Outcome.halted excused

private theorem Finite.least {depth : Nat} {e : Entry} (finite : table.Finite source depth e) :
    ∃ least ≤ depth, table.Finite source least e ∧ ∀ m < least, ¬table.Finite source m e := by
  classical
  have some : ∃ m, table.Finite source m e := ⟨depth,finite⟩
  exact ⟨Nat.find some,Nat.find_min' some finite,Nat.find_spec some,fun m less => Nat.find_min some less⟩

/-- If a call comes upon left recursion and yet would end without the check, then so would one of
the calls in progress, nested no deeper. -/
theorem finite_active_of_leftRecursion (plain : table.Plain) {frames : Nat} {active : List Entry} {atomic : Bool}
    {name : String} {c : Cursor} {s : σ} {again : String} {pos : Int}
    (halted : ((table.callsIf source true frames active).call atomic name c s).1 = .halted (.leftRecursion again pos))
    {depth : Nat} (finite : table.Finite source depth ⟨c.pos,name⟩) : ∃ e ∈ active, table.Finite source depth e := by
  induction frames using Nat.strongRecOn generalizing active atomic name c s again pos depth with
  | ind frames ih =>
  cases frames with
  | zero => cases halted
  | succ frames =>
    simp only [callsIf_succ,Bool.true_and] at halted
    cases found : table.get? name with
    | none =>
      rw [found] at halted
      cases halted
    | some node =>
      rw [found] at halted
      cases known : Entry.isIn ⟨c.pos,name⟩ active with
      | true => exact ⟨_,Entry.isIn_iff.1 known,finite⟩
      | false =>
        simp only [known] at halted
        cases frames with
        | zero => cases halted
        | succ left =>
          obtain ⟨least,le,ends,minimal⟩ := finite.least
          have ended := (finite_iff plain least active atomic name c s).1 ends
          -- the call itself takes two frames, so the body ends with fewer than the least
          obtain _ | _ | k := least
          · exact (ended rfl).elim
          · simp only [callsIf_succ,found,Bool.false_and] at ended
            exact (ended rfl).elim
          · simp only [callsIf_succ,found,Bool.false_and] at ended
            by_contra none
            have endless : ∀ m ≤ k, ∀ e ∈ (⟨c.pos,name⟩ : Entry) :: active, ¬table.Finite source m e := by
              intro m small e member finite
              rcases List.mem_cons.1 member with rfl | member
              · exact minimal m (by omega) finite
              · exact none ⟨e,member,finite.mono (by omega)⟩
            refine ended (body_endless (fun n less m small flag name c s again pos halted => ?_) halted)
            by_contra ended
            have finite := (finite_iff plain m _ flag name c s).2 ended
            obtain ⟨e,member,finite⟩ := ih n (by omega) halted finite
            exact endless m small e member finite

/-- The check for calls in progress is sound: a run that ends with it ends in the same way without it,
however much further that may nest. In a table without separators that leaves the stack alone it is
also exact: of the runs with frames for every call there can be it refuses those that without it do
not end at any depth, and no others. -/
theorem leftRecursion_exact (table : NodeTable) (source : Source) (atomic : Bool) (name : String) (c : Cursor) (s : σ) :
    (∀ frames, (∀ h, ((table.calls source frames []).call atomic name c s).1 ≠ .halted h) →
      ∀ depth ≥ frames, (table.callsIf source false depth []).call atomic name c s =
        (table.calls source frames []).call atomic name c s) ∧
    (table.Plain → c.From source 0 → ∀ frames, 4 * (table.size * (source.length + 1) + 1) ≤ frames →
      ((∃ again pos, ((table.calls source frames []).call atomic name c s).1 = .halted (.leftRecursion again pos)) ↔
        ∀ depth, ((table.callsIf source false depth []).call atomic name c s).1 = .halted .tooDeep)) := by
  constructor
  · intro frames ended depth more
    have same := callsIf_false frames [] atomic name c (fun again pos => ended _)
    rw [callsIf_mono more [] atomic name c (by rw [same]; exact ended _),same]
  · intro plain inside frames room
    constructor
    · intro halted depth
      obtain ⟨again,pos,halted⟩ := halted
      rw [← callsIf_true] at halted
      by_contra ended
      obtain ⟨e,member,_⟩ := finite_active_of_leftRecursion plain halted
        ((finite_iff plain depth [] atomic name c s).2 ended)
      cases member
    · intro endless
      by_contra finished
      have finished : ∀ again pos, ((table.calls source frames []).call atomic name c s).1 ≠ .halted (.leftRecursion again pos) :=
        fun again pos halted => finished ⟨again,pos,halted⟩
      have answered := call_not_tooDeep inside room atomic name s
      rw [callsIf_true] at answered
      rw [← callsIf_false frames [] atomic name c finished] at answered
      exact answered (endless frames)

end Verdict

def loop : NodeTable :=
  ⟨[⟨"a","a",.alias "b"⟩,⟨"b","b",.alias "a"⟩,⟨"x","x",.terminal (.literal "x")⟩],by decide⟩

theorem loop_endless : loop.Plain ∧ (∀ depth,
      ((loop.callsIf (.ofString "x") false depth [] : Calls Unit).call false "a" .start ()).1 = .halted .tooDeep) ∧
    ∀ depth ≥ 2, (loop.callsIf (.ofString "x") false depth [] : Calls Unit).call false "x" .start () =
      (.matched (⟨1,[]⟩,.leaf "x" ⟨0,1⟩ (some "x")),()) := by
  have plain : loop.Plain := by
    refine ⟨fun node member t body => ?_,by decide⟩
    simp only [loop,List.mem_cons,List.not_mem_nil,or_false] at member
    rcases member with rfl | rfl | rfl <;> cases body
    rfl
  refine ⟨plain,?_,fun depth enough => ?_⟩
  · refine ((leftRecursion_exact loop (.ofString "x") false "a" .start ()).2 plain Cursor.from_start 28 (by decide)).1 ?_
    rw [← callsIf_true]
    exact ⟨"a",0,by decide +kernel⟩
  · have ended : (loop.calls (.ofString "x") 2 [] : Calls Unit).call false "x" .start () =
        (.matched (⟨1,[]⟩,.leaf "x" ⟨0,1⟩ (some "x")),()) := by
      rw [← callsIf_true]
      decide +kernel
    have halts : ∀ h, ((loop.calls (.ofString "x") 2 [] : Calls Unit).call false "x" .start ()).1 ≠ .halted h := by
      intro h halted
      rw [ended] at halted
      cases halted
    rw [(leftRecursion_exact loop (.ofString "x") false "x" .start ()).1 2 halts depth enough,ended]

end NodeTable

end TypedPeg
