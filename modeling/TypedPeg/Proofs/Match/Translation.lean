import TypedPeg.Proofs.Match.Alike
import TypedPeg.Proofs.Source.Shift

/-! Matching some way into a text. If nothing that can be reached asks for the start of the input, a match in a text
that stands behind another comes to what it comes to in the text alone, with every offset moved by the length of what
stands before. -/
namespace TypedPeg

namespace Value

mutual
def shift (n : Nat) : Value → Value
  | leaf name s content => leaf name (s.shift n) content
  | product name s fields names => product name (s.shift n) (shiftAll n fields) names
  | variant name s i v => variant name (s.shift n) i (shift n v)
  | absent name s => absent name (s.shift n)
  | present name s v => present name (s.shift n) (shift n v)
  | many name s items => many name (s.shift n) (shiftAll n items)
  | bare name s => bare name (s.shift n)

def shiftAll (n : Nat) : List Value → List Value
  | [] => []
  | v :: rest => shift n v :: shiftAll n rest
end

theorem shiftAll_of_forall₂ {n : Nat} {vs vs' : List Value} (all : List.Forall₂ (fun v v' => v' = v.shift n) vs vs') :
    vs' = shiftAll n vs := by
  induction all with
  | nil => rfl
  | cons one others ih => rw [one,ih,shiftAll]

theorem Rows.shiftAll {n : Nat} {names : List String} {vs vs' : List Value} (rows : Rows (fun _ v v' => v' = v.shift n) names vs vs') :
    vs' = Value.shiftAll n vs := by
  induction rows with
  | nil => rfl
  | cons one others ih => rw [one,ih,Value.shiftAll]

end Value

def Furthest.shift (n : Nat) (far : Furthest) : Furthest := { far with pos := far.pos + n }

theorem Furthest.note_shift (n : Nat) (far : Furthest) (f : Failure) : (far.shift n).note (f.shift n) = (far.note f).shift n := by
  simp only [note,shift,Failure.shift,Int.add_lt_add_iff_right,Int.add_left_inj]
  split
  · rfl
  · split <;> rfl

def Halt.shift (n : Nat) : Halt → Halt
  | .leftRecursion name pos => .leftRecursion name (pos + n)
  | h => h

def Entry.shift (n : Nat) (e : Entry) : Entry := { e with pos := e.pos + n }

theorem Entry.shift_injective (n : Nat) : Function.Injective (Entry.shift n) := by
  intro e e' same
  cases e; cases e'
  simpa [shift] using same

theorem Entry.isIn_shift (n : Nat) (e : Entry) (active : List Entry) : (e.shift n).isIn (active.map (Entry.shift n)) = e.isIn active := by
  rw [Bool.eq_iff_iff,isIn_iff,isIn_iff]
  exact List.mem_map_of_injective (shift_injective n)

namespace Tracker

/-- A tracker that has noted nothing stands before every offset, and stays where it is. -/
def shift (n : Nat) (t : Tracker) : Tracker := if t.furthest.pos < 0 then t else { t with furthest := t.furthest.shift n }

theorem new_shift (n : Nat) (enabled : Bool) : (Tracker.new enabled).shift n = Tracker.new enabled := rfl

theorem mute_shift (n : Nat) (k : Int) (t : Tracker) : (t.shift n).mute k = (t.mute k).shift n := by
  unfold shift mute
  split <;> rfl

theorem note_shift (n : Nat) (t : Tracker) {f : Failure} (nonneg : 0 ≤ f.pos) : (t.shift n).note (f.shift n) = (t.note f).shift n := by
  have listening : (t.shift n).enabled = t.enabled ∧ (t.shift n).muted = t.muted := by
    unfold shift
    split <;> exact ⟨rfl,rfl⟩
  rw [note,note,listening.1,listening.2]
  split
  · have noted : ¬(t.furthest.note f).pos < 0 := by
      unfold Furthest.note
      split
      · exact Int.not_lt.2 nonneg
      · rename_i short
        split <;> exact fun before => short (Int.lt_of_lt_of_le before nonneg)
    rw [shift.eq_def n { t with furthest := t.furthest.note f },if_neg noted]
    unfold shift
    split
    · rename_i nothing
      -- the first failure that is noted is taken over as it is
      have first : t.furthest.note f = ⟨f.pos,FirstSeen.ofList f.expected⟩ := if_pos (Int.lt_of_lt_of_le nothing nonneg)
      have first' : t.furthest.note (f.shift n) = ⟨f.pos + n,FirstSeen.ofList f.expected⟩ :=
        if_pos (Int.lt_of_lt_of_le nothing (Int.add_nonneg nonneg (Int.natCast_nonneg n)))
      rw [first,first']
      rfl
    · exact congrArg (fun far => { t with furthest := far }) (Furthest.note_shift n _ f)
  · rfl

end Tracker

def Outcome.shift (n : Nat) : Outcome (Cursor × Value) → Outcome (Cursor × Value)
  | .matched (d,v) => .matched (d.shift n,v.shift n)
  | .failed f => .failed (f.shift n)
  | .halted h => .halted (h.shift n)

def Pairing.displaced (n : Nat) (known : String → Prop) : Pairing Tracker Tracker where
  states s t := t = s.shift n
  failures f f' := 0 ≤ f.pos ∧ f' = f.shift n
  halts h h' := h' = h.shift n
  firstExcused _ := False
  secondExcused _ := False
  near c c' := c.Placed ∧ c' = c.shift n
  values _ v v' := v' = v.shift n
  known := known

section Displaced
variable {source : Source} {before : Array Char} {known : String → Prop}

theorem Pairing.displaced_fits : (Pairing.displaced before.size known).Fits source (source.after before) where
  watched :=
    { fail := by
        rintro f f' s t ⟨nonneg,rfl⟩ rfl
        exact Tracker.note_shift _ _ nonneg
      mute := by
        rintro why s t rfl
        exact Tracker.mute_shift _ _ _
      unmute := by
        rintro why s t rfl
        exact Tracker.mute_shift _ _ _ }
  ahead := by
    rintro c c' ⟨placed,rfl⟩
    exact Cursor.ahead_shift.symm
  still := by
    rintro c c' d d' ⟨placed,rfl⟩ ⟨placed',rfl⟩
    exact (Int.add_left_inj _).symm
  further := by
    rintro c c' d d' ⟨placed,rfl⟩ ⟨placed',rfl⟩
    exact (Int.add_lt_add_iff_right _).symm
  push := by
    rintro c c' d d' ⟨placed,rfl⟩ ⟨placed',rfl⟩
    exact ⟨placed.push placed',Cursor.push_shift (c.spanTo d)⟩
  here := by
    rintro c c' kind msg labels ⟨placed,rfl⟩
    exact ⟨placed.pos,rfl⟩
  relabelled := by
    rintro c c' f f' kind msg ⟨placed,rfl⟩ ⟨nonneg,rfl⟩
    exact ⟨placed.pos,rfl⟩
  noted := by
    rintro far far' f f' label ⟨first,same⟩ ⟨second,rfl⟩
    obtain rfl : far' = far.shift before.size := Furthest.ofChoice_inj same
    refine ⟨?_,congrArg (·.ofChoice label) (Furthest.note_shift _ _ _)⟩
    simp only [Furthest.ofChoice,Furthest.note]
    split
    · exact second
    · split <;> exact first

theorem Terminal.leaf_shift (t : Terminal) (name : String) {c d : Cursor} (start : c.Placed) (stop : d.Placed) :
    t.leaf (source.after before) name (c.shift before.size) (d.shift before.size) = (t.leaf source name c d).shift before.size := by
  have text : ((c.spanTo d).shift before.size).text (source.after before) = (c.spanTo d).text source := Span.text_shift ⟨start.pos,stop.pos⟩
  cases kind : t.leafKind <;> simp [leaf,kind,Value.unitLeaf,Value.spanLeaf,Value.shift,Cursor.spanTo_shift,text]

/-- What a node makes of values further on is its own value further on. -/
theorem Node.Paired.shift {node : Node} {c d : Cursor} {v v' : Value} (start : c.Placed) (stop : d.Placed)
    (paired : node.Paired (.displaced before.size known) source (source.after before) c d (c.shift before.size)
      (d.shift before.size) v v') :
    v' = v.shift before.size := by
  cases paired with
  | terminal body => exact Terminal.leaf_shift _ _ start stop
  | lookahead body => rfl
  | atomic body =>
    rw [Value.spanLeaf,Cursor.spanTo_shift,Span.text_shift ⟨start.pos,stop.pos⟩]
    rfl
  | through shape child one => exact one
  | product body rows => rw [rows.shiftAll,Cursor.spanTo_shift,Value.shift]
  | sum body chosen one => rw [one,Cursor.spanTo_shift,Value.shift]
  | absent body => rfl
  | present body one => rw [one,Cursor.spanTo_shift,Value.shift]
  | list body items => rw [Value.shiftAll_of_forall₂ items,Cursor.spanTo_shift,Value.shift]

end Displaced

namespace NodeTable

/-- The names that a node can come to call, from itself on. -/
inductive Reachable (table : NodeTable) (root : String) : String → Prop
  | self : Reachable table root root
  | child {name node child} (reached : Reachable table root name) (found : table.get? name = some node)
      (called : child ∈ node.body.children) : Reachable table root child

/-- Nothing that a match from one node can come to asks for the start of the input. -/
def Unanchored (table : NodeTable) (name : String) : Prop :=
  ∀ root ∈ name :: table.separators, ∀ sub node, table.Reachable root sub → table.get? sub = some node → node.body ≠ .terminal .startOfInput

variable {table : NodeTable} {name : String}

theorem Unanchored.pairs (unanchored : table.Unanchored name) (source : Source) (before : Array Char) :
    table.Pairs (.displaced before.size fun sub => ∃ root ∈ name :: table.separators, table.Reachable root sub)
      (fun active active' => active' = active.map (Entry.shift before.size)) table source (source.after before) where
  fits := Pairing.displaced_fits
  visit _ _ states := states
  enter := by
    rintro active active' c c' sub rfl ⟨placed,rfl⟩
    rfl
  again := by
    rintro active active' c c' sub rfl ⟨placed,rfl⟩
    exact (Entry.isIn_shift _ _ _).symm
  refused := by
    rintro c c' sub ⟨placed,rfl⟩
    rfl
  spent := rfl
  separators := rfl
  separator separator member := ⟨separator,List.mem_cons_of_mem _ member,.self⟩
  defined _ := rfl
  step := by
    rintro sub node node' ⟨root,among,reached⟩ found found' frames active active' atomic c c' paired ⟨placed,rfl⟩
    cases found.symm.trans found'
    refine (Node.step_paired Pairing.displaced_fits paired (fun child called => ⟨root,among,reached.child found called⟩) (fun _ => rfl)
      (fun t body => ?_) ⟨placed,rfl⟩).mono ?_
    · rw [Terminal.move_shift placed fun anchor => unanchored root among sub node reached found (anchor ▸ body)]
      cases ended : t.move source node.label c with
      | ok d => exact ⟨Terminal.placed_of_move placed ended,rfl⟩
      | error f => exact ⟨Terminal.pos_of_move_error ended ▸ placed.pos,rfl⟩
    · rintro ⟨d,v⟩ ⟨d',v'⟩ ⟨⟨placed',rfl⟩,made⟩
      exact ⟨⟨placed',rfl⟩,made.shift placed placed'⟩

/-- A call further on in a text ends as it does at its place in the text alone. -/
theorem Unanchored.call_shift (unanchored : table.Unanchored name) (source : Source) (before : Array Char) (frames : Nat)
    (active : List Entry) (atomic : Bool) {c : Cursor} (placed : c.Placed) (t : Tracker) :
    (table.calls (source.after before) frames (active.map (Entry.shift before.size))).call atomic name (c.shift before.size)
      (t.shift before.size) =
      (((table.calls source frames active).call atomic name c t).1.shift before.size,
        ((table.calls source frames active).call atomic name c t).2.shift before.size) := by
  have paired : (table.calls source frames active).Paired _ (table.calls (source.after before) frames _) atomic atomic :=
    (unanchored.pairs source before).calls frames rfl atomic
  have ended := paired.call ⟨name,List.mem_cons_self,.self⟩ ⟨placed,rfl⟩ t _ rfl
  generalize (table.calls source frames active).call atomic name c t = e at ended
  generalize (table.calls (source.after before) frames (active.map (Entry.shift before.size))).call atomic name (c.shift before.size)
    (t.shift before.size) = e' at ended
  cases ended with
  | @matched x y s t results states =>
    obtain ⟨d,v⟩ := x
    obtain ⟨d',v'⟩ := y
    obtain ⟨⟨-,rfl⟩,rfl⟩ := results
    rw [states]
    rfl
  | failed failures states =>
    rw [failures.2,states]
    rfl
  | halted halts states =>
    rw [halts,states]
    rfl
  | first excused => exact excused.elim
  | second excused => exact excused.elim

/-- Matching does not depend on where in a text it starts, unless the start of the input is asked for. -/
theorem call_translated (unanchored : table.Unanchored name) (p s : String) (frames : Nat) (atomic tracked : Bool) :
    (table.calls (.ofString (p ++ s)) frames []).call atomic name ⟨p.length,[]⟩ (Tracker.new tracked) =
      (((table.calls (.ofString s) frames []).call atomic name .start (Tracker.new tracked)).1.shift p.length,
        ((table.calls (.ofString s) frames []).call atomic name .start (Tracker.new tracked)).2.shift p.length) := by
  have shifted := unanchored.call_shift (.ofString s) p.toList.toArray frames [] atomic Cursor.placed_start (Tracker.new tracked)
  rw [List.size_toArray,String.length_toList,Tracker.new_shift] at shifted
  have start : Cursor.start.shift p.length = ⟨p.length,[]⟩ := by simp [Cursor.start,Cursor.shift]
  rw [Source.ofString_append,← start]
  exact shifted

/-- Names that lead to no others, none of which asks for the start of the input. -/
theorem Unanchored.of_closed (names : List String) (roots : ∀ root ∈ name :: table.separators, root ∈ names)
    (closed : ∀ sub ∈ names, ∀ node ∈ table.get? sub, node.body ≠ .terminal .startOfInput ∧ ∀ child ∈ node.body.children, child ∈ names) :
    table.Unanchored name := by
  intro root among sub node reached found
  have inside : sub ∈ names := by
    clear found
    induction reached with
    | self => exact roots root among
    | child reached found called ih => exact (closed _ ih _ found).2 _ called
  exact (closed sub inside node found).1

def doubled : NodeTable :=
  ⟨[⟨"doubled","doubled",.product ["first","again"] ["first","again"] true⟩,⟨"first","first",.push "letter"⟩,
    ⟨"letter","letter",.terminal .any⟩,⟨"again","again",.terminal (.peek 0 none)⟩,
    ⟨"WHITESPACE","WHITESPACE",.terminal (.literal " ")⟩,⟨"SOI","SOI",.terminal .startOfInput⟩],by decide⟩

theorem doubled_translated : doubled.Unanchored "doubled" ∧
    ((doubled.calls (.ofString "a  a") 20 []).call false "doubled" .start (Tracker.new true)).1 =
      .matched (⟨4,[⟨0,1⟩]⟩,.product "doubled" ⟨0,4⟩ [.leaf "letter" ⟨0,1⟩ (some "a"),.leaf "again" ⟨3,4⟩ (some "a")] ["first","again"]) ∧
    ((doubled.calls (.ofString "b a  a") 20 []).call false "doubled" ⟨2,[]⟩ (Tracker.new true)).1 =
      .matched (⟨6,[⟨2,3⟩]⟩,.product "doubled" ⟨2,6⟩ [.leaf "letter" ⟨2,3⟩ (some "a"),.leaf "again" ⟨5,6⟩ (some "a")]
        ["first","again"]) := by
  have unanchored : doubled.Unanchored "doubled" :=
    .of_closed ["doubled","first","letter","again","WHITESPACE"] (by decide +kernel) (by decide +kernel)
  have alone : ((doubled.calls (.ofString "a  a") 20 []).call false "doubled" .start (Tracker.new true)).1 =
      .matched (⟨4,[⟨0,1⟩]⟩,.product "doubled" ⟨0,4⟩ [.leaf "letter" ⟨0,1⟩ (some "a"),.leaf "again" ⟨3,4⟩ (some "a")]
        ["first","again"]) := by
    decide +kernel
  have behind := congrArg Prod.fst (call_translated unanchored "b " "a  a" 20 false true)
  refine ⟨unanchored,alone,behind.trans ?_⟩
  rw [alone]
  rfl

end NodeTable

end TypedPeg
