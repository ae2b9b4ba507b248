import Mathlib.Algebra.Ring.Nat
import Mathlib.Data.List.TakeWhile
import TypedPeg.Proofs.Text.Quoted

/-! Literals as a notation, whoever writes them. A character is written bare, behind a backslash or by its number in
hexadecimal digits, and a literal ends at the first delimiter that is none of these. In whatever way a quoted text is
read so, it comes out as it was, and what is behind it stays. -/
namespace TypedPeg.Text

namespace Hex

def digit? (c : Char) : Option Nat :=
  if '0' ≤ c ∧ c ≤ '9' then some (c.toNat - 0x30)
  else if 'A' ≤ c ∧ c ≤ 'F' then some (c.toNat - 0x41 + 10)
  else if 'a' ≤ c ∧ c ≤ 'f' then some (c.toNat - 0x61 + 10)
  else none

def value? (n : Nat) : List Char → Option Nat
  | [] => some n
  | c :: rest => (digit? c).bind fun d => value? (16 * n + d) rest

theorem value?_append (n : Nat) (cs ds : List Char) : value? n (cs ++ ds) = (value? n cs).bind (value? · ds) := by
  induction cs generalizing n with
  | nil => rfl
  | cons c cs ih =>
    simp only [List.cons_append,value?,ih]
    cases digit? c <;> rfl

theorem digit?_upperDigit {n : Nat} (small : n < 16) : digit? (upperDigit n) = some n := by
  have each : ∀ n < 16, digit? (upperDigit n) = some n := by decide
  exact each n small

/-- A numeral is read back, as far as its width allows. -/
theorem value?_digits (width n : Nat) : value? 0 (digits upperDigit width n) = some (n % 16 ^ width) := by
  induction width generalizing n with
  | zero => simp [digits,value?,Nat.mod_one]
  | succ width ih =>
    have last := digit?_upperDigit (Nat.mod_lt n (by decide : 0 < 16))
    calc value? 0 (digits upperDigit (width + 1) n)
      _ = value? (n / 16 % 16 ^ width) [upperDigit (n % 16)] := by rw [digits,value?_append,ih,Option.bind_some]
      _ = some (16 * (n / 16 % 16 ^ width) + n % 16) := by rw [value?,last,Option.bind_some,value?]
      _ = some (n % 16 ^ (width + 1)) := by rw [Nat.pow_succ,Nat.mul_comm (16 ^ width),Nat.mod_mul,Nat.add_comm]

theorem isSome_digit?_of_value? {n m : Nat} {cs : List Char} (value : value? n cs = some m) : ∀ c ∈ cs, (digit? c).isSome := by
  induction cs generalizing n with
  | nil => exact nofun
  | cons c cs ih =>
    obtain ⟨d,digit,value⟩ := Option.bind_eq_some_iff.1 value
    exact List.forall_mem_cons.2 ⟨by rw [digit]; rfl,ih value⟩

/-- Where a brace ends a numeral, there is one numeral in front of it. -/
theorem numeral_unique {n m n' m' : Nat} {cs cs' s s' : List Char} (value : value? n cs = some m) (value' : value? n' cs' = some m')
    (same : cs ++ '\x7d' :: s = cs' ++ '\x7d' :: s') : cs = cs' ∧ s = s' := by
  have taken {n m : Nat} {cs : List Char} (s : List Char) (value : value? n cs = some m) :
      (cs ++ '\x7d' :: s).takeWhile (fun c => (digit? c).isSome) = cs := by
    rw [List.takeWhile_append_of_pos (isSome_digit?_of_value? value),List.takeWhile_cons_of_neg (by decide),List.append_nil]
  obtain rfl : cs = cs' := by rw [← taken s value,same,taken s' value']
  exact ⟨rfl,(List.cons.inj (List.append_cancel_left same)).2⟩

end Hex

namespace Quoted

def marks (delimiter : Char) : List (Char × Char) :=
  [('\x5c','\x5c'),(delimiter,delimiter),('n','\n'),('r','\r'),('t','\t')]

inductive Stands (delimiter : Char) : List Char → Char → Prop
  | bare {c : Char} (unmarked : c ≠ '\x5c') (inside : c ≠ delimiter) : Stands delimiter [c] c
  | marked {mark c : Char} (listed : (mark,c) ∈ marks delimiter) : Stands delimiter ['\x5c',mark] c
  | numbered {numeral : List Char} {c : Char} (nonempty : numeral ≠ []) (value : Hex.value? 0 numeral = some c.toNat) :
    Stands delimiter ('\x5c' :: 'u' :: '\x7b' :: (numeral ++ ['\x7d'])) c

/-- What is behind an opening delimiter, the text that it stands for and what is left behind the closing one. -/
inductive Contents (delimiter : Char) : List Char → List Char → List Char → Prop
  | close (rest : List Char) : Contents delimiter (delimiter :: rest) [] rest
  | next {shown s t rest : List Char} {c : Char} (stands : Stands delimiter shown c) (more : Contents delimiter s t rest) :
    Contents delimiter (shown ++ s) (c :: t) rest

/-- What begins with a literal, the text that the literal stands for and what is left behind it. -/
inductive Literal (delimiter : Char) : List Char → List Char → List Char → Prop
  | mk {body t rest : List Char} (contents : Contents delimiter body t rest) : Literal delimiter (delimiter :: body) t rest

variable {delimiter : Char}

theorem stands_escape (c : Char) : Stands delimiter (escape delimiter c) c := by
  unfold escape
  split_ifs with backslash same newline back tab control
  · exact .marked (by simp [marks,backslash])
  · exact .marked (by simp [marks,same])
  · exact .marked (by simp [marks,newline])
  · exact .marked (by simp [marks,back])
  · exact .marked (by simp [marks,tab])
  · have nonempty : Hex.digits Hex.upperDigit 2 c.toNat ≠ [] := List.ne_nil_of_length_pos (by rw [Hex.length_digits]; decide)
    have value := Hex.value?_digits 2 c.toNat
    rw [Nat.mod_eq_of_lt (Nat.lt_trans (control_lt control) (by decide))] at value
    exact .numbered nonempty value
  · exact .bare backslash same

theorem contents_flatMap (t rest : List Char) : Contents delimiter (t.flatMap (escape delimiter) ++ delimiter :: rest) t rest := by
  induction t with
  | nil => exact .close rest
  | cons c t ih =>
    rw [List.flatMap_cons,List.append_assoc]
    exact .next (stands_escape c) ih

theorem isControl_upperDigit {n : Nat} (small : n < 16) : isControl (Hex.upperDigit n) = false := by
  have each : ∀ n < 16, isControl (Hex.upperDigit n) = false := by decide
  exact each n small

theorem isControl_of_mem_digits (width n : Nat) : ∀ shown ∈ Hex.digits Hex.upperDigit width n, isControl shown = false := by
  induction width generalizing n with
  | zero => exact nofun
  | succ width ih =>
    rw [Hex.digits]
    exact List.forall_mem_append.2 ⟨ih _,List.forall_mem_singleton.2 (isControl_upperDigit (Nat.mod_lt n (by decide)))⟩

section Closing
variable (closing : delimiter = textDelimiter ∨ delimiter = charDelimiter)
include closing

/-- What is written for a character does not begin with the delimiter. -/
theorem Stands.inside {shown s rest : List Char} {c : Char} (stands : Stands delimiter shown c) : delimiter :: rest ≠ shown ++ s := by
  have apart : delimiter ≠ '\x5c' := by rcases closing with rfl | rfl <;> decide
  cases stands with
  | bare unmarked inside => exact fun same => inside (List.cons.inj same).1.symm
  | marked listed => exact fun same => apart (List.cons.inj same).1
  | numbered nonempty value => exact fun same => apart (List.cons.inj same).1

theorem marks_unique {mark c c' : Char} (listed : (mark,c) ∈ marks delimiter) (listed' : (mark,c') ∈ marks delimiter) : c = c' := by
  have each : ∀ p ∈ marks delimiter, ∀ q ∈ marks delimiter, p.1 = q.1 → p.2 = q.2 := by rcases closing with rfl | rfl <;> decide
  exact each _ listed _ listed' rfl

/-- The mark of a number is that of nothing else. -/
theorem unlisted (c : Char) : ('u',c) ∉ marks delimiter := by
  have each : ∀ p ∈ marks delimiter, p.1 ≠ 'u' := by rcases closing with rfl | rfl <;> decide
  exact fun listed => each _ listed rfl

/-- A text begins with what is written for a character in one way at most. -/
theorem Stands.unique {shown shown' s s' : List Char} {c c' : Char} (first : Stands delimiter shown c) (second : Stands delimiter shown' c')
    (same : shown ++ s = shown' ++ s') : c = c' ∧ s = s' := by
  -- a backslash tells a bare character from the others, and the mark behind it tells those two apart
  cases first with
  | bare unmarked inside =>
    cases second with
    | bare unmarked' inside' => exact List.cons.inj same
    | marked listed' => exact absurd (List.cons.inj same).1 unmarked
    | numbered nonempty' value' => exact absurd (List.cons.inj same).1 unmarked
  | marked listed =>
    cases second with
    | bare unmarked' inside' => exact absurd (List.cons.inj same).1.symm unmarked'
    | marked listed' =>
      obtain ⟨rfl,rest⟩ := List.cons.inj (List.cons.inj same).2
      exact ⟨marks_unique closing listed listed',rest⟩
    | numbered nonempty' value' =>
      obtain ⟨rfl,_⟩ := List.cons.inj (List.cons.inj same).2
      exact absurd listed (unlisted closing c)
  | numbered nonempty value =>
    cases second with
    | bare unmarked' inside' => exact absurd (List.cons.inj same).1.symm unmarked'
    | marked listed' =>
      obtain ⟨rfl,_⟩ := List.cons.inj (List.cons.inj same).2
      exact absurd listed' (unlisted closing c')
    | numbered nonempty' value' =>
      simp only [List.cons_append,List.append_assoc,List.nil_append,List.cons.injEq,true_and] at same
      obtain ⟨rfl,rest⟩ := Hex.numeral_unique value value' same
      rw [value] at value'
      exact ⟨Char.toNat_inj.1 (Option.some.inj value'),rest⟩

theorem Contents.unique {s s' t t' rest rest' : List Char} (first : Contents delimiter s t rest) (second : Contents delimiter s' t' rest')
    (same : s = s') : t = t' ∧ rest = rest' := by
  -- along the first reading: the second closes where it does, and else takes the same character
  induction first generalizing s' t' with
  | close rest =>
    cases second with
    | close rest' => exact ⟨rfl,(List.cons.inj same).2⟩
    | next stands more => exact absurd same (stands.inside closing)
  | next stands more ih =>
    cases second with
    | close rest' => exact absurd same.symm (stands.inside closing)
    | next stands' more' =>
      obtain ⟨rfl,same⟩ := stands.unique closing stands' same
      obtain ⟨rfl,rest⟩ := ih more' same
      exact ⟨rfl,rest⟩

/-- What is enclosed reads as itself, up to where it ends, and in no other way. -/
theorem literal_enclose_iff {t rest u y : List Char} : Literal delimiter (enclose delimiter t ++ rest) u y ↔ u = t ∧ y = rest := by
  have opened : enclose delimiter t ++ rest = delimiter :: (t.flatMap (escape delimiter) ++ delimiter :: rest) := by simp [enclose]
  have written : Contents delimiter (t.flatMap (escape delimiter) ++ delimiter :: rest) t rest := contents_flatMap t rest
  rw [opened]
  constructor
  · rintro ⟨contents⟩
    exact contents.unique closing written rfl
  · rintro ⟨rfl,rfl⟩
    exact ⟨written⟩

theorem isControl_delimiter : isControl delimiter = false := by rcases closing with rfl | rfl <;> rfl

theorem isControl_of_mem_escape (c : Char) : ∀ shown ∈ escape delimiter c, isControl shown = false := by
  have pair {a b : Char} (first : isControl a = false) (second : isControl b = false) : ∀ shown ∈ [a,b], isControl shown = false :=
    List.forall_mem_cons.2 ⟨first,List.forall_mem_singleton.2 second⟩
  unfold escape
  split_ifs with backslash same newline back tab control
  · exact pair rfl rfl
  · exact pair rfl (same ▸ isControl_delimiter closing)
  · exact pair rfl rfl
  · exact pair rfl rfl
  · exact pair rfl rfl
  · have opened : ∀ shown ∈ ['\x5c','u','\x7b'], isControl shown = false := List.forall_mem_cons.2 ⟨rfl,pair rfl rfl⟩
    have braced := List.forall_mem_append.2 ⟨opened,isControl_of_mem_digits 2 c.toNat⟩
    exact List.forall_mem_append.2 ⟨braced,List.forall_mem_singleton.2 rfl⟩
  · exact List.forall_mem_singleton.2 (Bool.eq_false_iff.2 control)

theorem isControl_of_mem_enclose (t : List Char) : ∀ shown ∈ enclose delimiter t, isControl shown = false := by
  have ends := isControl_delimiter closing
  refine List.forall_mem_append.2 ⟨List.forall_mem_cons.2 ⟨ends,fun shown member => ?_⟩,List.forall_mem_singleton.2 ends⟩
  obtain ⟨c,_,member⟩ := List.mem_flatMap.1 member
  exact isControl_of_mem_escape closing c shown member

end Closing

theorem toList_text_append (t x : String) : (text t ++ x).toList = enclose textDelimiter t.toList ++ x.toList := by
  rw [text,String.toList_append,String.toList_ofList]

theorem toList_char_append (c : Char) (x : String) : (char c ++ x).toList = enclose charDelimiter [c] ++ x.toList := by
  rw [char,String.toList_append,String.toList_ofList]

/-- A quoted text is read back and ends where its quotes do, whatever is behind it, and so is a character. No control
character shows in a quoted text. -/
theorem literals_delimited (t x : String) (c : Char) :
    (∀ u y, Literal textDelimiter (text t ++ x).toList u y ↔ u = t.toList ∧ y = x.toList) ∧
      (∀ u y, Literal charDelimiter (char c ++ x).toList u y ↔ u = [c] ∧ y = x.toList) ∧
      ∀ shown ∈ (text t).toList, 0x20 ≤ shown.toNat ∧ shown.toNat ≠ 0x7F := by
  refine ⟨fun u y => ?_,fun u y => ?_,fun shown member => ?_⟩
  · rw [toList_text_append]
    exact literal_enclose_iff (.inl rfl)
  · rw [toList_char_append]
    exact literal_enclose_iff (.inr rfl)
  · rw [text,String.toList_ofList] at member
    have plain := isControl_of_mem_enclose (.inl rfl) t.toList shown member
    simp only [isControl,Bool.or_eq_false_iff,decide_eq_false_iff_not,beq_eq_false_iff_ne] at plain
    exact ⟨Nat.le_of_not_lt plain.1,plain.2⟩

/-- A backslash in front of a quote, an escape spelled out and two controls, with what could be taken for the end behind
them. -/
theorem mixed_delimited :
    let mixed := "\\\x22\\n\n\x7F"
    text mixed = "\x22\\\\\\\x22\\\\n\\n\\u\x7b7F\x7d\x22" ∧
      Literal textDelimiter (text mixed ++ "\\\x22").toList mixed.toList "\\\x22".toList ∧
      Literal charDelimiter (char '\x27' ++ "\\\x22").toList ['\x27'] "\\\x22".toList ∧
      'n' ∈ (text mixed).toList ∧ 0x20 ≤ 'n'.toNat ∧ 'n'.toNat ≠ 0x7F := by
  intro mixed
  obtain ⟨whole,single,plain⟩ := literals_delimited mixed "\\\x22" '\x27'
  have written : text mixed = "\x22\\\\\\\x22\\\\n\\n\\u\x7b7F\x7d\x22" := by decide
  have member : 'n' ∈ (text mixed).toList := by decide
  exact ⟨written,(whole _ _).2 ⟨rfl,rfl⟩,(single _ _).2 ⟨rfl,rfl⟩,member,plain 'n' member⟩

end Quoted

end TypedPeg.Text
