import TypedPeg.Proofs.Grammar.TextReader

/-! What reads as what. A text reads as an expression at a level when the reader takes it up to its end, whatever may
stand behind it there; each form of grammar notation reads as soon as its parts do at the levels where it has them. -/
namespace TypedPeg.Reader

/-- What may be behind a form at a level, so that it reads to its end and no further. -/
structure Ends (level : Nat) (y : List Char) : Prop where
  stop : ∀ c ∈ y.head?, c ∈ [' ',')'] ∨ level = 4 ∧ c ∈ ['?','*']
  sequence : level ≤ 2 → y.dropPrefix? " ~ ".toList = none
  choice : level ≤ 1 → y.dropPrefix? " | ".toList = none

/-- The text reads as the expression, whatever is behind it that may be. Four steps to a character are enough, and the
fewer of the four levels are still to go down, the fewer. -/
def Reads (level : Nat) (t : List Char) (e : Expr) : Prop :=
  ∀ fuel y, Ends level y → 4 * (t ++ y).length + 5 ≤ fuel + level → expr fuel level (t ++ y) = some (marks e y)

namespace Ends

variable {level : Nat} {y : List Char}

theorem head (ends : Ends level y) {p : Char → Bool} (none : [' ',')','?','*'].any p = false) : ∀ c ∈ y.head?, p c = false := by
  intro c first
  have among := ends.stop c first
  refine Bool.eq_false_iff.2 (List.any_eq_false.1 none c ?_)
  simp only [List.mem_cons,List.not_mem_nil,or_false] at among ⊢
  tauto

theorem marks (ends : Ends level y) (low : level ≠ 4) (e : Expr) : marks e y = (e,y) := by
  cases y with
  | nil => rfl
  | cons c rest =>
    have among : c = ' ' ∨ c = ')' := by simpa [low] using ends.stop c rfl
    rcases among with rfl | rfl <;> rfl

theorem above (ends : Ends level y) (low : level ≠ 4) : Ends (level + 1) y :=
  ⟨fun c first => .inl ((ends.stop c first).resolve_right fun high => low high.1),fun le =>
    ends.sequence (by omega),fun le => ends.choice (by omega)⟩

theorem close (rest : List Char) : Ends level (')' :: rest) :=
  ⟨fun c first => .inl (by cases first; decide),fun _ => rfl,fun _ => rfl⟩

theorem sequel (rest : List Char) : Ends 3 (" ~ ".toList ++ rest) :=
  ⟨fun c first => .inl (by cases first; decide),nofun,nofun⟩

theorem alternative (rest : List Char) : Ends 2 (" | ".toList ++ rest) :=
  ⟨fun c first => .inl (by cases first; decide),fun _ => rfl,nofun⟩

end Ends

namespace Reads

variable {level place : Nat} {t l r : List Char} {e a b : Expr}

/-- What reads at a level reads at the one below, where nothing that is looked for follows. -/
theorem down (reads : Reads (level + 1) t e) (pos : 1 ≤ level) (bound : level ≤ 3) : Reads level t e := by
  intro fuel y ends enough
  have low : level ≠ 4 := by omega
  obtain ⟨fuel,rfl⟩ : ∃ k, fuel = k + 1 := ⟨fuel - 1,by omega⟩
  have read := reads fuel y (ends.above low) (by omega)
  have plain := ends.marks low e
  obtain rfl | rfl | rfl : level = 1 ∨ level = 2 ∨ level = 3 := by omega
  · rw [expr,linked_none (read.trans (congrArg some plain)) (ends.choice (Nat.le_refl 1)),plain]
  · rw [expr,linked_none (read.trans (congrArg some plain)) (ends.sequence (Nat.le_refl 2)),plain]
  · rw [expr,read,Option.some_or]

theorem descend (reads : Reads level t e) (le : place ≤ level) (pos : 1 ≤ place) (bound : level ≤ 4) : Reads place t e := by
  induction level,le using Nat.le_induction with
  | base => exact reads
  | succ level le ih => exact ih (reads.down (by omega) (by omega)) (by omega)

/-- A form that is read as a primary one reads with whatever marks are behind it. -/
theorem of_primary (read : ∀ fuel y, Ends 4 y → 4 * (t ++ y).length ≤ fuel → primary (expr fuel 1) (t ++ y) = some (e,y)) :
    Reads 4 t e := by
  intro fuel y ends enough
  obtain ⟨fuel,rfl⟩ : ∃ k, fuel = k + 1 := ⟨fuel - 1,by omega⟩
  rw [expr,read fuel y ends (by omega)]
  · rfl
  all_goals exact Nat.ne_of_beq_eq_false rfl

theorem enclosed (reads : Reads 1 t e) (make : Expr → Expr) {fuel : Nat} {y : List Char} (enough : 4 * (t ++ ')' :: y).length + 4 ≤ fuel) :
    enclosed (expr fuel 1) make (t ++ ')' :: y) = some (make e,y) := by
  have plain : marks e (')' :: y) = (e,')' :: y) := rfl
  rw [Reader.enclosed,reads fuel (')' :: y) (.close y) (by omega),plain]
  rfl

theorem parens (reads : Reads 1 t e) : Reads 4 ('(' :: t ++ [')']) e := by
  refine of_primary fun fuel y ends enough => ?_
  have inside : '(' :: t ++ [')'] ++ y = '(' :: (t ++ ')' :: y) := by simp
  rw [inside] at enough ⊢
  rw [List.length_cons] at enough
  rw [primary,reads.enclosed id (by omega)]
  rfl

/-- A form of one level in a place that wants another. -/
theorem wrap {text : String} (reads : Reads level text.toList e) (pos : 1 ≤ place) (bound : place ≤ 4) (pos' : 1 ≤ level)
    (bound' : level ≤ 4) :
    Reads place (Expr.wrap level place text).toList e := by
  unfold Expr.wrap
  split
  · have parens := (reads.descend pos' (Nat.le_refl 1) bound').parens.descend bound pos (Nat.le_refl 4)
    simpa using parens
  · rename_i tight
    exact reads.descend (by omega) pos bound'

/-- Two forms with a mark between them, where that links forms of the level. -/
theorem link {mark : String} {join : Expr → Expr → Expr}
    (step : ∀ fuel text, expr (fuel + 1) level text = linked (expr fuel (level + 1)) (expr fuel level) mark join text)
    (between : ∀ rest, Ends (level + 1) (mark.toList ++ rest)) (some : 1 ≤ mark.toList.length) (low : level ≤ 2)
    (first : Reads (level + 1) l a) (second : Reads level r b) : Reads level (l ++ mark.toList ++ r) (join a b) := by
  intro fuel y ends enough
  obtain ⟨fuel,rfl⟩ : ∃ k, fuel = k + 1 := ⟨fuel - 1,by omega⟩
  have parts : l ++ mark.toList ++ r ++ y = l ++ (mark.toList ++ (r ++ y)) := by simp
  rw [parts] at enough ⊢
  have read := first fuel _ (between (r ++ y)) (by omega)
  rw [(between _).marks (by omega)] at read
  simp only [List.length_append] at enough
  have read' := second fuel y ends (by rw [List.length_append]; omega)
  rw [ends.marks (by omega)] at read' ⊢
  rw [step,linked_some read read']

theorem seq (first : Reads 3 l a) (second : Reads 2 r b) : Reads 2 (l ++ " ~ ".toList ++ r) (.seq a b) :=
  link (fun _ _ => rfl) .sequel (by decide) (by decide) first second

theorem choice (first : Reads 2 l a) (second : Reads 1 r b) : Reads 1 (l ++ " | ".toList ++ r) (.choice a b) :=
  link (fun _ _ => rfl) .alternative (by decide) (by decide) first second

theorem sign {c : Char} (make : Expr → Expr) (member : c ∈ ['&','!','#']) (before : List Char)
    (step : ∀ operand rest, signed operand (c :: (before ++ rest)) = (operand rest).map (Prod.map make id)) (reads : Reads 3 t e) :
    Reads 3 (c :: (before ++ t)) (make e) := by
  intro fuel y ends enough
  obtain ⟨fuel,rfl⟩ : ∃ k, fuel = k + 1 := ⟨fuel - 1,by omega⟩
  have parts : c :: (before ++ t) ++ y = c :: (before ++ (t ++ y)) := by simp
  rw [parts] at enough ⊢
  simp only [List.length_cons,List.length_append] at enough
  -- nothing tighter begins with a sign, so the reader gets to it at this level
  rw [expr,expr_sign (List.mem_cons_of_mem _ member),Option.none_or,step,
    reads fuel y ends (by rw [List.length_append]; omega),ends.marks (by decide),ends.marks (by decide)]
  rfl

theorem mark {c : Char} {make : Expr → Expr} (member : c ∈ ['?','*']) (step : ∀ e y, marks e (c :: y) = marks (make e) y)
    (reads : Reads 4 t e) :
    Reads 4 (t ++ [c]) (make e) := by
  intro fuel y ends enough
  rw [List.append_assoc] at enough ⊢
  -- the mark is part of what is behind the form, and is taken with all the marks there
  rw [← step]
  exact reads fuel (c :: y) ⟨fun d first => .inr ⟨rfl,by cases first; exact member⟩,nofun,nofun⟩ enough

theorem opt (reads : Reads 4 t e) : Reads 4 (t ++ ['?']) (.opt e) := reads.mark (by decide) fun _ _ => rfl

theorem rep (reads : Reads 4 t e) : Reads 4 (t ++ ['*']) (.rep e) := reads.mark (by decide) fun _ _ => rfl

section Primary
open Text.Quoted (textDelimiter charDelimiter)

variable {name : String}

/-- A text in quotes, with what says how it is meant in front. -/
theorem quoted (before : List Char) (make : String → Expr)
    (step : ∀ whole body, primary whole (before ++ textDelimiter :: body) =
      (Text.Quoted.read textDelimiter body).map (Prod.map (make ∘ String.ofList) id)) (text : String) :
    Reads 4 (before ++ (Text.Quoted.text text).toList) (make text) := by
  refine of_primary fun fuel y ends enough => ?_
  obtain ⟨body,shown,read⟩ := Text.Quoted.read_enclose (.inl rfl : textDelimiter = textDelimiter ∨ _) text.toList y
  rw [Text.Quoted.text,String.toList_ofList,List.append_assoc,shown,step,read,Option.map_some,Prod.map_apply,Function.comp_apply,
    String.ofList_toList]
  rfl

theorem literal (text : String) : Reads 4 (Text.Quoted.text text).toList (.literal text) := by
  have reads := quoted [] .literal (fun _ _ => rfl) text
  rwa [List.nil_append] at reads

theorem caseless (text : String) : Reads 4 ('^' :: (Text.Quoted.text text).toList) (.caseless text) :=
  quoted ['^'] .caseless (fun _ _ => rfl) text

theorem range (lo hi : Char) :
    Reads 4 ((Text.Quoted.char lo).toList ++ "..".toList ++ (Text.Quoted.char hi).toList) (.range lo hi) := by
  refine of_primary fun fuel y ends enough => ?_
  obtain ⟨last,shown,read⟩ := Text.Quoted.read_enclose (.inr rfl : charDelimiter = _ ∨ charDelimiter = charDelimiter) [hi] y
  obtain ⟨body,shown',read'⟩ :=
    Text.Quoted.read_enclose (.inr rfl : charDelimiter = _ ∨ charDelimiter = charDelimiter) [lo] ("..'".toList ++ last)
  have written (c : Char) : (Text.Quoted.char c).toList = Text.Quoted.enclose charDelimiter [c] := String.toList_ofList
  have parts : (Text.Quoted.char lo).toList ++ "..".toList ++ (Text.Quoted.char hi).toList ++ y = charDelimiter :: body := by
    have second : "..".toList ++ charDelimiter :: last = "..'".toList ++ last := rfl
    rw [written,written,List.append_assoc,List.append_assoc,shown,second,shown']
  have behind := dropPrefix?_append "..'" last
  rw [parts]
  show bounds body = _
  simp only [bounds,read',Option.bind_eq_bind,Option.bind_some,behind,read]

/-- A name is all there is to read, where no bracket is behind it. -/
theorem of_name (isWord : IsWord name) (plain : (if name = "DROP" then Expr.drop 1 else .ref name) = e) : Reads 4 name.toList e := by
  refine of_primary fun fuel y ends enough => ?_
  rw [primary_word isWord _ (ends.head (by decide)),named,plain]
  · rintro rest rfl
    exact absurd (ends.stop '(' rfl) (by decide)
  · rintro rest rfl
    exact absurd (ends.stop '[' rfl) (by decide)

theorem ref (isWord : IsWord name) (other : name ≠ "DROP") : Reads 4 name.toList (.ref name) := of_name isWord (if_neg other)

theorem operation (isWord : IsWord name) {make : Expr → Expr}
    (step : ∀ whole rest, named whole name ('(' :: rest) = Reader.enclosed whole make rest) (reads : Reads 1 t e) :
    Reads 4 (name.toList ++ '(' :: t ++ [')']) (make e) := by
  refine of_primary fun fuel y ends enough => ?_
  have inside : name.toList ++ '(' :: t ++ [')'] ++ y = name.toList ++ '(' :: (t ++ ')' :: y) := by simp
  rw [inside] at enough ⊢
  simp only [List.length_append,List.length_cons] at enough
  rw [primary_word isWord _ (stop_cons rfl),step]
  exact reads.enclosed make (by rw [List.length_append,List.length_cons]; omega)

theorem restore (reads : Reads 1 t e) : Reads 4 ("RESTORE".toList ++ '(' :: t ++ [')']) (.restore e) :=
  reads.operation ⟨by decide,by decide⟩ fun _ _ => rfl

theorem push (reads : Reads 1 t e) : Reads 4 ("PUSH".toList ++ '(' :: t ++ [')']) (.push e) :=
  reads.operation ⟨by decide,by decide⟩ fun _ _ => rfl

theorem drop (count : Int) : Reads 4 (if count = 1 then "DROP" else "DROP(" ++ toString count ++ ")").toList (.drop count) := by
  by_cases one : count = 1
  · rw [if_pos one,one]
    exact of_name ⟨by decide,by decide⟩ (if_pos rfl)
  rw [if_neg one]
  refine of_primary fun fuel y ends enough => ?_
  have parts : ("DROP(" ++ toString count ++ ")").toList ++ y = "DROP".toList ++ '(' :: ((toString count).toList ++ ')' :: y) := by
    simp only [String.toList_append,List.append_assoc]
    rfl
  have counted : number ((toString count).toList ++ ')' :: y) = (some count,')' :: y) := number_append count (stop_cons rfl)
  rw [parts,primary_word ⟨by decide,by decide⟩ _ (stop_cons rfl),named,if_neg (by decide),if_neg (by decide),counted]
  rfl

theorem peek (start : Int) (stop : Option Int) : Reads 4 ("PEEK[" ++ Expr.peekBounds start stop ++ "]").toList (.peek start stop) := by
  refine of_primary fun fuel y ends enough => ?_
  let behind : List Char := (stop.elim "" toString).toList ++ ']' :: y
  have parts : ("PEEK[" ++ Expr.peekBounds start stop ++ "]").toList ++ y =
      "PEEK".toList ++ '[' :: ((if start = 0 then "" else toString start).toList ++ ("..".toList ++ behind)) := by
    simp only [Expr.peekBounds,String.toList_append,List.append_assoc]
    cases stop <;> rfl
  have started : ∃ i, number ((if start = 0 then "" else toString start).toList ++ ("..".toList ++ behind)) = (i,"..".toList ++ behind) ∧
      i.getD 0 = start := by
    have dots : ∀ c ∈ ("..".toList ++ behind).head?, isNumeral c = false := stop_cons rfl
    by_cases zero : start = 0
    · rw [if_pos zero]
      exact ⟨none,number_none dots,zero.symm⟩
    · rw [if_neg zero]
      exact ⟨some start,number_append start dots,rfl⟩
  have stopped : number behind = (stop,']' :: y) := by
    cases stop with
    | none => exact number_none (stop_cons rfl)
    | some i => exact number_append i (stop_cons rfl)
  obtain ⟨i,started,value⟩ := started
  have dots := dropPrefix?_append ".." behind
  rw [parts,primary_word ⟨by decide,by decide⟩ _ (stop_cons rfl),named,started]
  simp only [dots,Option.bind_eq_bind,Option.bind_some,stopped,value]

/-- A search for one of no strings, of which nothing else is an abbreviation. -/
theorem never : Reads 4 "(! ~ ANY)*".toList (.skipUntil []) := by
  refine of_primary fun fuel y ends enough => ?_
  have closed := dropPrefix?_append "! ~ ANY)*" y
  have parts : "(! ~ ANY)*".toList ++ y = '(' :: ("! ~ ANY)*".toList ++ y) := rfl
  have bare : expr fuel 1 ("! ~ ANY)*".toList ++ y) = none := expr_bare fuel _
  rw [parts,primary,Reader.enclosed,bare,Option.none_or,closed]
  rfl

end Primary

theorem followedBy (reads : Reads 3 t e) : Reads 3 ('&' :: t) (.followedBy e) := sign .followedBy (by decide) [] (fun _ _ => rfl) reads

theorem notFollowedBy (reads : Reads 3 t e) : Reads 3 ('!' :: t) (.notFollowedBy e) :=
  sign .notFollowedBy (by decide) [] (fun _ _ => rfl) reads

theorem tag {name : String} (isWord : IsWord name) (reads : Reads 3 t e) :
    Reads 3 ('#' :: (name.toList ++ " = ".toList ++ t)) (.tag e name) := by
  refine sign (.tag · name) (by decide) (name.toList ++ " = ".toList) (fun operand rest => ?_) reads
  have taken := word_append (y := " = ".toList ++ rest) isWord (stop_cons rfl)
  have behind := dropPrefix?_append " = " rest
  rw [List.append_assoc]
  simp only [signed,taken,behind,Option.bind_eq_bind,Option.bind_some]

end Reads

end TypedPeg.Reader
