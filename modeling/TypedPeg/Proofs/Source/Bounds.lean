import TypedPeg.Match.Terminal

/-! Where texts stand, and how far terminals move. From wherever it is a cursor stays or comes
nearer the end of the text; so from an offset inside every terminal comes to an offset at or after
it, still inside, or fails where it is. -/
namespace TypedPeg

namespace Source

variable {source : Source}

theorem clip_inside {offset : Int} (nonneg : 0 ≤ offset) (inside : offset ≤ source.length) :
    source.clip offset = offset.toNat := by
  unfold clip
  rw [if_neg (by omega)]
  omega

theorem clip_le (offset : Int) : source.clip offset ≤ source.length := by
  unfold clip
  split <;> omega

/-- A bound below zero falls behind where it is. -/
theorem le_clip {offset : Int} (inside : offset ≤ source.length) : offset ≤ source.clip offset := by
  unfold clip
  split <;> omega

theorem standsAt_length {text : List Char} {i : Nat} (inside : i ≤ source.length)
    (stands : source.standsAt text i = true) : i + text.length ≤ source.length := by
  induction text generalizing i with
  | nil => simpa using inside
  | cons c rest ih =>
    rw [standsAt,Bool.and_eq_true] at stands
    obtain ⟨first,others⟩ := stands
    have here : source.chars[i]? = some c := by simpa using first
    have bound : i < source.length := (Array.getElem?_eq_some_iff.1 here).1
    have := ih (by omega : i + 1 ≤ source.length) others
    rw [List.length_cons]
    omega

theorem search_bounds {text : List Char} {count i j : Nat} (found : source.search text count i = some j) :
    i ≤ j ∧ j < i + count := by
  induction count generalizing i with
  | zero => simp [search] at found
  | succ count ih =>
    rw [search] at found
    split at found
    · cases found
      omega
    · have := ih found
      omega

theorem find?_bounds {text : List Char} {offset : Int} {j : Nat} (found : source.find? text offset = some j) :
    offset ≤ j ∧ j ≤ source.length := by
  unfold find? at found
  split at found
  · rename_i inside
    have := search_bounds found
    have := le_clip inside
    have : source.clip offset ≤ source.length := clip_le offset
    omega
  · cases found

/-- The end of the text, unless one of the strings is found. -/
theorem firstOf_cases (source : Source) (strings : List String) (offset : Int) : source.firstOf strings offset = source.length ∨
    ∃ s ∈ strings, source.find? s.toList offset = some (source.firstOf strings offset) := by
  unfold firstOf
  generalize source.length = stop
  induction strings generalizing stop with
  | nil => exact .inl rfl
  | cons s rest ih =>
    rw [List.foldl_cons]
    rcases ih (min stop ((source.find? s.toList offset).getD stop)) with same | ⟨other,member,found⟩
    · rw [same]
      cases found : source.find? s.toList offset with
      | none => exact .inl (Nat.min_self stop)
      | some j =>
        rw [Option.getD_some]
        rcases Nat.le_total stop j with before | after
        · exact .inl (Nat.min_eq_left before)
        · exact .inr ⟨s,List.mem_cons_self,by rw [found,Nat.min_eq_right after]⟩
    · exact .inr ⟨other,List.mem_cons_of_mem s member,found⟩

theorem firstOf_le (source : Source) (strings : List String) (offset : Int) : source.firstOf strings offset ≤ source.length := by
  rcases source.firstOf_cases strings offset with same | ⟨s,-,found⟩
  · exact Nat.le_of_eq same
  · exact (find?_bounds found).2

theorem le_firstOf (source : Source) (strings : List String) {offset : Int} (inside : offset ≤ source.length) :
    offset ≤ source.firstOf strings offset := by
  rcases source.firstOf_cases strings offset with same | ⟨s,-,found⟩
  · rwa [same]
  · exact (find?_bounds found).1

/-- Nothing is found from an offset past the end. -/
theorem firstOf_outside (source : Source) (strings : List String) {offset : Int} (outside : (source.length : Int) < offset) :
    source.firstOf strings offset = source.length := by
  rcases source.firstOf_cases strings offset with same | ⟨s,-,found⟩
  · exact same
  · rw [find?,if_neg (Int.not_le.2 outside)] at found
    cases found

theorem length_sliceChars {start stop : Int} (nonneg : 0 ≤ start) (inside : start ≤ source.length)
    (ordered : start ≤ stop) : (source.sliceChars start stop).length = min stop.toNat source.length - start.toNat := by
  have last : source.clip stop = min stop.toNat source.length := by
    unfold clip
    rw [if_neg (by omega)]
  rw [sliceChars,clip_inside nonneg inside,last,Array.length_toList,Array.size_extract]
  unfold length
  omega

end Source

namespace Cursor

variable {source : Source} {c : Cursor}

def From (source : Source) (floor : Int) (c : Cursor) : Prop := floor ≤ c.pos ∧ c.pos ≤ source.length

theorem From.trans {floor : Int} {d : Cursor} (h : c.From source floor) (h' : d.From source c.pos) :
    d.From source floor := ⟨Int.le_trans h.1 h'.1,h'.2⟩

theorem From.refl {floor : Int} (h : c.From source floor) : c.From source c.pos := ⟨Int.le_refl _,h.2⟩

theorem from_start : Cursor.start.From source 0 := ⟨Int.le_refl _,Int.natCast_nonneg _⟩

theorem startsWith_length {text : List Char} (starts : c.startsWith source text = true) : c.pos + text.length ≤ source.length := by
  rw [startsWith,Source.hasAt,Bool.and_eq_true,decide_eq_true_eq] at starts
  have := Source.le_clip starts.1
  have := Source.standsAt_length (Source.clip_le c.pos) starts.2
  omega

theorem peek_length {n : Nat} (some : c.peek source n ≠ []) : c.pos + (c.peek source n).length ≤ source.length := by
  have filled := List.length_pos_iff.2 some
  rw [peek,Source.sliceChars,Array.length_toList,Array.size_extract] at filled ⊢
  have here : c.pos ≤ source.clip c.pos := by
    refine Source.le_clip (Int.not_lt.1 fun past => ?_)
    have : source.clip c.pos = source.length := by
      unfold Source.clip
      rw [if_neg (by omega)]
      omega
    unfold Source.length at this
    omega
  unfold Source.length
  omega

/-- Where the cursor is, or nearer the end of the text. From past the end it is only back to it. -/
def Nears (source : Source) (c d : Cursor) : Prop :=
  d.pos = c.pos ∨ d.pos = source.length ∨ c.pos < d.pos ∧ d.pos ≤ source.length

theorem Nears.trans {d e : Cursor} (first : c.Nears source d) (second : d.Nears source e) : c.Nears source e := by
  unfold Nears at *
  omega

theorem Nears.from {d : Cursor} (nears : c.Nears source d) (inside : c.pos ≤ source.length) : d.From source c.pos := by
  unfold Nears at nears
  constructor <;> omega

/-- What has moved can move less often. -/
theorem Nears.ahead_lt {d : Cursor} (nears : c.Nears source d) (moved : d.pos ≠ c.pos) : d.ahead source < c.ahead source := by
  unfold Nears at nears
  unfold ahead
  split <;> split <;> omega

theorem Nears.ahead_le {d : Cursor} (nears : c.Nears source d) : d.ahead source ≤ c.ahead source := by
  by_cases moved : d.pos = c.pos
  · exact Nat.le_of_eq (by rw [ahead,ahead,moved])
  · exact Nat.le_of_lt (nears.ahead_lt moved)

end Cursor

namespace Terminal

variable {source : Source} {label : String} {t : Terminal} {c : Cursor}

theorem move_nears {after : Cursor} (moved : t.move source label c = .ok after) : c.Nears source after := by
  have ahead {n : Nat} (fits : n = 0 ∨ c.pos + n ≤ source.length) : c.Nears source (c.advance n) := by
    unfold Cursor.Nears Cursor.advance
    dsimp only
    omega
  cases t with
  | literal text =>
    simp only [move] at moved
    split at moved
    · rename_i starts
      cases moved
      have := Cursor.startsWith_length starts
      exact ahead (.inr (by rwa [String.length_toList] at this))
    · cases moved
  | caseless text =>
    simp only [move] at moved
    split at moved
    · rename_i same
      cases moved
      by_cases nothing : c.peek source text.length = []
      · exact ahead (.inl (by rw [← same.1,nothing,List.length_nil]))
      · have := Cursor.peek_length nothing
        exact ahead (.inr (by rwa [same.1] at this))
    · cases moved
  | range lo hi =>
    simp only [move] at moved
    split at moved
    · cases moved
    · rename_i first rest found
      split at moved
      · cases moved
        have := Cursor.peek_length (n := 1) (by rw [Int.natCast_one,found]; exact List.cons_ne_nil _ _)
        rw [Int.natCast_one,found,List.length_cons] at this
        exact ahead (n := 1) (.inr (by omega))
      · cases moved
  | any =>
    simp only [move] at moved
    split at moved
    · cases moved
    · rename_i more
      cases moved
      simp only [Cursor.atEnd,decide_eq_true_eq,Int.not_le] at more
      exact ahead (n := 1) (.inr (by omega))
  | startOfInput | endOfInput =>
    simp only [move] at moved
    split at moved
    · cases moved
      exact .inl rfl
    · cases moved
  | newline =>
    simp only [move] at moved
    split at moved
    · rename_i terminator found
      cases moved
      have starts : c.startsWith source terminator.toList = true := by simpa using List.find?_some found
      have := Cursor.startsWith_length starts
      exact ahead (.inr (by rwa [String.length_toList] at this))
    · cases moved
  | skipUntil strings =>
    simp only [move] at moved
    cases moved
    have before := source.firstOf_le strings c.pos
    unfold Cursor.Nears
    dsimp only
    by_cases inside : c.pos ≤ source.length
    · have := source.le_firstOf strings inside
      omega
    · have := source.firstOf_outside strings (Int.not_le.1 inside)
      omega
  | peek start stop =>
    simp only [move] at moved
    split at moved
    · cases moved
    · split at moved
      · rename_i starts
        cases moved
        exact ahead (.inr (Cursor.startsWith_length starts))
      · cases moved
  | drop count =>
    simp only [move] at moved
    split at moved
    · cases moved
    · cases moved
      exact .inl rfl

theorem move_from {after : Cursor} (inside : c.From source 0) (moved : t.move source label c = .ok after) :
    after.From source c.pos :=
  (move_nears moved).from inside.2

/-- A terminal fails where it is, with one label, and never for want of a definition. -/
theorem move_error {f : Failure} (failed : t.move source label c = .error f) :
    ∃ kind msg shown, f = ⟨kind,msg,c.pos,[shown]⟩ ∧ kind ≠ .undefinedRule := by
  cases t with
  | skipUntil strings => simp [move] at failed
  | literal text | caseless text | any | startOfInput | endOfInput | newline | drop count =>
    simp only [move] at failed
    split at failed <;> cases failed
    exact ⟨_,_,_,rfl,nofun⟩
  | range lo hi | peek start stop =>
    simp only [move] at failed
    split at failed
    · cases failed
      exact ⟨_,_,_,rfl,nofun⟩
    · split at failed <;> cases failed
      exact ⟨_,_,_,rfl,nofun⟩

theorem pos_of_move_error {f : Failure} (failed : t.move source label c = .error f) : f.pos = c.pos := by
  obtain ⟨kind,msg,shown,rfl,-⟩ := move_error failed
  rfl

end Terminal

end TypedPeg
