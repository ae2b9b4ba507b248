import TypedPeg.Proofs.Source.Bounds

/-! Cursors as a parse comes to them. The spans on the stack lie behind the cursor and end in
order; moving on, a cursor keeps the bottom of its stack, and what is then put on top lies in
the text moved over. -/
namespace TypedPeg

def Span.Between (s : Span) (low high : Int) : Prop := low ≤ s.start ∧ s.start ≤ s.stop ∧ s.stop ≤ high

theorem Span.Between.widen {s : Span} {low high low' high' : Int} (h : s.Between low high) (first : low' ≤ low)
    (last : high ≤ high') : s.Between low' high' :=
  ⟨Int.le_trans first h.1,h.2.1,Int.le_trans h.2.2 last⟩

namespace Cursor

variable {source : Source} {c d e : Cursor}

/-- Inside the text, with spans behind it on the stack. -/
structure Sound (source : Source) (c : Cursor) : Prop where
  inside : c.From source 0
  behind : ∀ s ∈ c.stack, s.Between 0 c.pos
  ordered : c.stack.Pairwise fun s s' => s.stop ≤ s'.stop

/-- Moving on to `d`, the cursor keeps some of its stack and adds spans of the text moved over. -/
structure Reaches (source : Source) (c d : Cursor) : Prop where
  further : c.pos ≤ d.pos
  stack : ∃ kept added, d.stack = c.stack.take kept ++ added ∧ ∀ s ∈ added, s.Between c.pos d.pos
  sound : d.Sound source

theorem sound_start : Cursor.start.Sound source := ⟨from_start,fun _ member => (List.not_mem_nil member).elim,.nil⟩

namespace Reaches

theorem refl (sound : c.Sound source) : c.Reaches source c :=
  ⟨Int.le_refl _,⟨c.stack.length,[],by simp,fun _ member => (List.not_mem_nil member).elim⟩,sound⟩

theorem trans (first : c.Reaches source d) (second : d.Reaches source e) : c.Reaches source e := by
  obtain ⟨kept,added,same,between⟩ := first.stack
  obtain ⟨kept',added',same',between'⟩ := second.stack
  refine ⟨Int.le_trans first.further second.further,⟨min kept' kept,added.take (kept' - (c.stack.take kept).length) ++ added',?_,?_⟩,
    second.sound⟩
  · rw [same',same,List.take_append,List.take_take,List.append_assoc]
  · refine List.forall_mem_append.2 ⟨fun s member => ?_,fun s member => (between' s member).widen first.further (Int.le_refl _)⟩
    have inside := between s (List.mem_of_mem_take member)
    exact inside.widen (Int.le_refl _) second.further

theorem push (reaches : c.Reaches source d) (inside : c.From source 0) : c.Reaches source (d.push (c.spanTo d)) := by
  obtain ⟨kept,added,same,between⟩ := reaches.stack
  have whole : (c.spanTo d).Between c.pos d.pos := ⟨Int.le_refl _,reaches.further,Int.le_refl _⟩
  refine ⟨reaches.further,⟨kept,added ++ [c.spanTo d],?_,?_⟩,reaches.sound.inside,?_,?_⟩
  · rw [Cursor.push,same,List.append_assoc]
  · exact List.forall_mem_append.2 ⟨between,List.forall_mem_singleton.2 whole⟩
  · have behind := whole.widen inside.1 (Int.le_refl _)
    exact List.forall_mem_append.2 ⟨reaches.sound.behind,List.forall_mem_singleton.2 behind⟩
  · refine List.pairwise_append.2 ⟨reaches.sound.ordered,List.pairwise_singleton _ _,fun s member => ?_⟩
    -- whatever is below ends where the cursor is, and there the new span ends too
    exact List.forall_mem_singleton.2 (reaches.sound.behind s member).2.2

end Reaches

end Cursor

theorem Stack.drop?_eq_take {stack left : List Span} {count : Int} (dropped : Stack.drop? stack count = some left) :
    ∃ kept, left = stack.take kept := by
  unfold drop? at dropped
  split at dropped
  · cases dropped
  · exact ⟨_,(Option.some.inj dropped).symm⟩

namespace Terminal

variable {source : Source} {label : String} {t : Terminal} {c d : Cursor}

theorem move_cases (moved : t.move source label c = .ok d) :
    (∃ n : Nat, d = c.advance n) ∨ (∃ stop : Nat, d = { c with pos := stop }) ∨ ∃ kept, d = c.withStack (c.stack.take kept) := by
  have here : c = c.advance (0 : Nat) := by simp [Cursor.advance]
  cases t with
  | literal text | caseless text | any | newline =>
    simp only [move] at moved
    split at moved <;> cases moved
    exact .inl ⟨_,rfl⟩
  | range lo hi | peek start stop =>
    simp only [move] at moved
    split at moved
    · cases moved
    · split at moved <;> cases moved
      exact .inl ⟨_,rfl⟩
  | startOfInput | endOfInput =>
    simp only [move] at moved
    split at moved <;> cases moved
    exact .inl ⟨0,here⟩
  | skipUntil strings =>
    simp only [move] at moved
    cases moved
    exact .inr (.inl ⟨_,rfl⟩)
  | drop count =>
    simp only [move] at moved
    split at moved
    · cases moved
    · rename_i left dropped
      cases moved
      obtain ⟨kept,rfl⟩ := Stack.drop?_eq_take dropped
      exact .inr (.inr ⟨kept,rfl⟩)

theorem stack_of_move (moved : t.move source label c = .ok d) : ∃ kept, d.stack = c.stack.take kept := by
  have whole : c.stack = c.stack.take c.stack.length := List.take_length.symm
  obtain ⟨n,rfl⟩ | ⟨stop,rfl⟩ | ⟨kept,rfl⟩ := move_cases moved
  · exact ⟨_,whole⟩
  · exact ⟨_,whole⟩
  · exact ⟨kept,rfl⟩

theorem nonneg_of_move (nonneg : 0 ≤ c.pos) (moved : t.move source label c = .ok d) : 0 ≤ d.pos := by
  obtain ⟨n,rfl⟩ | ⟨stop,rfl⟩ | ⟨kept,rfl⟩ := move_cases moved
  · exact Int.add_nonneg nonneg (Int.natCast_nonneg n)
  · exact Int.natCast_nonneg stop
  · exact nonneg

theorem move_reaches (sound : c.Sound source) (moved : t.move source label c = .ok d) : c.Reaches source d := by
  obtain ⟨kept,left⟩ := stack_of_move moved
  have further := move_from sound.inside moved
  refine ⟨further.1,⟨kept,[],by rw [left,List.append_nil],fun _ member => (List.not_mem_nil member).elim⟩,
    sound.inside.trans further,?_,?_⟩
  all_goals rw [left]
  · intro s member
    exact (sound.behind s (List.mem_of_mem_take member)).widen (Int.le_refl _) further.1
  · exact sound.ordered.take

end Terminal

end TypedPeg
