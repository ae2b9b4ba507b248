import TypedPeg.Proofs.Source.Stack

/-! A text with another one put before it. What is read of the text from an offset on is there still, further on
by the length of what was put before, unless the offset counts back from the end. Of the terminals only the one
for the start of the input notices. -/
namespace TypedPeg

namespace Source

def after (source : Source) (before : Array Char) : Source := ⟨before ++ source.chars⟩

theorem ofString_append (p s : String) : ofString (p ++ s) = (ofString s).after p.toList.toArray := by
  simp [ofString,after]

variable {source : Source} {before : Array Char}

theorem length_after : (source.after before).length = before.size + source.length := Array.size_append

theorem clip_after {bound : Int} (nonneg : 0 ≤ bound) : (source.after before).clip (bound + before.size) =
    before.size + source.clip bound := by
  unfold clip
  rw [length_after,if_neg (by omega),if_neg (by omega)]
  omega

theorem sliceChars_after {start stop : Int} (first : 0 ≤ start) (last : 0 ≤ stop) :
    (source.after before).sliceChars (start + before.size) (stop + before.size) = source.sliceChars start stop := by
  rw [sliceChars,clip_after first,clip_after last,after,Array.extract_append,
    Array.extract_empty_of_size_le_start (Nat.le_add_right _ _),Nat.add_sub_cancel_left,Nat.add_sub_cancel_left,Array.empty_append]
  rfl

theorem standsAt_after (text : List Char) (i : Nat) : (source.after before).standsAt text (before.size + i) = source.standsAt text i := by
  induction text generalizing i with
  | nil => rfl
  | cons c rest ih =>
    rw [standsAt,standsAt,Nat.add_assoc,ih,after,Array.getElem?_append_right (Nat.le_add_right _ _),Nat.add_sub_cancel_left]

theorem hasAt_after (text : List Char) {offset : Int} (nonneg : 0 ≤ offset) :
    (source.after before).hasAt text (offset + before.size) = source.hasAt text offset := by
  have inside : offset + before.size ≤ ((before.size + source.length : Nat) : Int) ↔ offset ≤ source.length := by omega
  rw [hasAt,hasAt,clip_after nonneg,standsAt_after,length_after,decide_eq_decide.2 inside]

theorem search_after (text : List Char) (count i : Nat) :
    (source.after before).search text count (before.size + i) = (source.search text count i).map (before.size + ·) := by
  induction count generalizing i with
  | zero => rfl
  | succ count ih =>
    rw [search,search,standsAt_after]
    split
    · rfl
    · exact ih (i + 1)

theorem find?_after (text : List Char) {offset : Int} (nonneg : 0 ≤ offset) :
    (source.after before).find? text (offset + before.size) = (source.find? text offset).map (before.size + ·) := by
  unfold find?
  dsimp only
  rw [clip_after nonneg,length_after]
  by_cases inside : offset ≤ source.length
  · rw [if_pos inside,if_pos (by omega),Nat.add_assoc,Nat.add_sub_add_left]
    exact search_after text _ _
  · rw [if_neg inside,if_neg (by omega)]
    rfl

theorem firstOf_after (strings : List String) {offset : Int} (nonneg : 0 ≤ offset) :
    (source.after before).firstOf strings (offset + before.size) = before.size + source.firstOf strings offset := by
  unfold firstOf
  rw [length_after]
  generalize source.length = stop
  induction strings generalizing stop with
  | nil => rfl
  | cons s rest ih =>
    have earlier : min (before.size + stop) (((source.after before).find? s.toList (offset + before.size)).getD (before.size + stop)) =
        before.size + min stop ((source.find? s.toList offset).getD stop) := by
      rw [find?_after _ nonneg]
      cases source.find? s.toList offset with
      | none => simp
      | some j => exact Nat.add_min_add_left _ _ _
    rw [List.foldl_cons,List.foldl_cons,earlier]
    exact ih _

end Source

namespace Span

def shift (n : Nat) (s : Span) : Span := ⟨s.start + n,s.stop + n⟩

def Placed (s : Span) : Prop := 0 ≤ s.start ∧ 0 ≤ s.stop

variable {source : Source} {before : Array Char} {s : Span}

theorem chars_shift (placed : s.Placed) : (s.shift before.size).chars (source.after before) = s.chars source :=
  Source.sliceChars_after placed.1 placed.2

theorem text_shift (placed : s.Placed) : (s.shift before.size).text (source.after before) = s.text source :=
  congrArg String.ofList (chars_shift placed)

end Span

namespace Stack

variable {n : Nat} {stack : List Span}

theorem slice?_shift (start : Int) (stop : Option Int) :
    slice? (stack.map (Span.shift n)) start stop = (slice? stack start stop).map (List.map (Span.shift n)) := by
  cases stop with
  | none | some i =>
    simp only [slice?,List.length_map]
    split
    · rfl
    · rw [Option.map_some,List.map_take,List.map_drop]

theorem drop?_shift (count : Int) : drop? (stack.map (Span.shift n)) count = (drop? stack count).map (List.map (Span.shift n)) := by
  unfold drop?
  rw [List.length_map]
  split
  · rfl
  · rw [Option.map_some,List.map_take]

theorem slice?_subset {start : Int} {stop : Option Int} {entries : List Span} (sliced : slice? stack start stop = some entries) :
    entries ⊆ stack := by
  cases stop with
  | none | some i =>
    simp only [slice?] at sliced
    split at sliced
    · cases sliced
    · cases sliced
      exact fun s member => List.mem_of_mem_drop (List.mem_of_mem_take member)

theorem chars_shift {source : Source} {before : Array Char} {entries : List Span} (placed : ∀ s ∈ entries, s.Placed) :
    chars (source.after before) (entries.map (Span.shift before.size)) = chars source entries := by
  rw [chars,chars,List.flatMap_def,List.flatMap_def,List.map_map]
  exact congrArg List.flatten (List.map_congr_left fun s member => Span.chars_shift (placed s member))

end Stack

namespace Cursor

def shift (n : Nat) (c : Cursor) : Cursor := ⟨c.pos + n,c.stack.map (Span.shift n)⟩

/-- The offset counts from the start of the text, and so do the stack's. -/
structure Placed (c : Cursor) : Prop where
  pos : 0 ≤ c.pos
  stack : ∀ s ∈ c.stack, s.Placed

theorem placed_start : Cursor.start.Placed := ⟨Int.le_refl _,fun _ member => (List.not_mem_nil member).elim⟩

theorem Placed.push {c d : Cursor} (first : c.Placed) (last : d.Placed) : (d.push (c.spanTo d)).Placed :=
  ⟨last.pos,List.forall_mem_append.2 ⟨last.stack,List.forall_mem_singleton.2 ⟨first.pos,last.pos⟩⟩⟩

variable {source : Source} {before : Array Char} {n : Nat} {c d : Cursor}

theorem spanTo_shift : (c.shift n).spanTo (d.shift n) = (c.spanTo d).shift n := rfl

theorem push_shift (s : Span) : (c.shift n).push (s.shift n) = (c.push s).shift n := by
  simp [push,shift]

theorem advance_shift (k : Int) : (c.shift n).advance k = (c.advance k).shift n := by
  simp only [advance,shift]
  rw [Int.add_right_comm]

theorem startsWith_shift (placed : c.Placed) (text : List Char) :
    (c.shift before.size).startsWith (source.after before) text = c.startsWith source text := Source.hasAt_after text placed.pos

theorem peek_shift (placed : c.Placed) (k : Nat) : (c.shift before.size).peek (source.after before) k = c.peek source k := by
  unfold peek shift
  rw [Int.add_right_comm]
  exact Source.sliceChars_after placed.pos (Int.add_nonneg placed.pos (Int.natCast_nonneg k))

theorem atEnd_shift : (c.shift before.size).atEnd (source.after before) = c.atEnd source := by
  have last : ((before.size + source.length : Nat) : Int) ≤ c.pos + before.size ↔ (source.length : Int) ≤ c.pos := by omega
  rw [atEnd,atEnd,Source.length_after,shift,decide_eq_decide.2 last]

theorem ahead_shift : (c.shift before.size).ahead (source.after before) = c.ahead source := by
  unfold ahead shift
  rw [Source.length_after]
  dsimp only
  split <;> split <;> omega

end Cursor

def Failure.shift (n : Nat) (f : Failure) : Failure := { f with pos := f.pos + n }

namespace Terminal

variable {source : Source} {before : Array Char} {label : String} {t : Terminal} {c d : Cursor}

theorem placed_of_move (placed : c.Placed) (moved : t.move source label c = .ok d) : d.Placed := by
  obtain ⟨kept,left⟩ := stack_of_move moved
  refine ⟨nonneg_of_move placed.pos moved,fun s member => placed.stack s ?_⟩
  rw [left] at member
  exact List.mem_of_mem_take member

/-- A terminal moves as it does without the text before, and fails as it does. -/
theorem move_shift (placed : c.Placed) (anywhere : t ≠ .startOfInput) :
    t.move (source.after before) label (c.shift before.size) =
      ((t.move source label c).mapError (Failure.shift before.size)).map (Cursor.shift before.size) := by
  cases t with
  | startOfInput => exact (anywhere rfl).elim
  | literal text =>
    simp only [move,Cursor.startsWith_shift placed,Cursor.advance_shift]
    split <;> rfl
  | caseless text =>
    simp only [move,Cursor.peek_shift placed,Cursor.advance_shift]
    split <;> rfl
  | range lo hi =>
    have next : (c.shift before.size).peek (source.after before) 1 = c.peek source 1 := Cursor.peek_shift placed 1
    simp only [move,next,Cursor.advance_shift]
    split
    · rfl
    · split <;> rfl
  | any =>
    simp only [move,Cursor.atEnd_shift,Cursor.advance_shift]
    split <;> rfl
  | endOfInput =>
    simp only [move,Cursor.atEnd_shift]
    split <;> rfl
  | newline =>
    simp only [move,Cursor.startsWith_shift placed,Cursor.advance_shift]
    split <;> rfl
  | skipUntil strings =>
    have first : ((source.after before).firstOf strings (c.shift before.size).pos : Int) = source.firstOf strings c.pos + before.size := by
      rw [Cursor.shift,Source.firstOf_after strings placed.pos,Int.natCast_add,Int.add_comm]
    simp only [move,first]
    rfl
  | peek start stop =>
    have sliced : Stack.slice? (c.shift before.size).stack start stop =
        (Stack.slice? c.stack start stop).map (List.map (Span.shift before.size)) :=
      Stack.slice?_shift start stop
    simp only [move,sliced]
    cases kept : Stack.slice? c.stack start stop with
    | none => rfl
    | some entries =>
      have texts : Stack.chars (source.after before) (entries.map (Span.shift before.size)) = Stack.chars source entries :=
        Stack.chars_shift fun s member => placed.stack s (Stack.slice?_subset kept member)
      simp only [Option.map_some,texts,Cursor.startsWith_shift placed,Cursor.advance_shift]
      split <;> rfl
  | drop count =>
    have dropped : Stack.drop? (c.shift before.size).stack count = (Stack.drop? c.stack count).map (List.map (Span.shift before.size)) :=
      Stack.drop?_shift count
    simp only [move,dropped]
    cases Stack.drop? c.stack count <;> rfl

end Terminal

end TypedPeg
