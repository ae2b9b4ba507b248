import Mathlib.Data.List.Basic
import Mathlib.Data.List.TakeWhile
import TypedPeg.Grammar.Printer
import TypedPeg.Proofs.Text.Quoted

/-! A reader of grammar notation. It takes one form off the front of a text and leaves the rest, at one of four levels:
choices, sequences, signs and tags in front of a form, and forms with the marks behind them. To have a form of a looser
level where a tighter one is read, it is put in parentheses. -/
namespace TypedPeg.Reader

def isWordChar (c : Char) : Bool := c.isAlphanum || c == '_'

/-- What a name has to be to be told from what is around it. -/
def IsWord (name : String) : Prop := name ≠ "" ∧ name.toList.all isWordChar = true

def word (text : List Char) : String × List Char := (String.ofList (text.takeWhile isWordChar),text.dropWhile isWordChar)

def isNumeral (c : Char) : Bool := c.isDigit || c == '-'

def integer : List Char → Option Int
  | [] => none
  | '-' :: digits => some (-(Nat.ofDigitChars 10 digits 0 : Nat))
  | digits => some (Nat.ofDigitChars 10 digits 0 : Nat)

def number (text : List Char) : Option Int × List Char := (integer (text.takeWhile isNumeral),text.dropWhile isNumeral)

section Forms
variable (first others whole : List Char → Option (Expr × List Char))

def enclosed (make : Expr → Expr) (text : List Char) : Option (Expr × List Char) :=
  match whole text with
  | some (e,')' :: rest) => some (make e,rest)
  | _ => none

def named (name : String) : List Char → Option (Expr × List Char)
  | '(' :: rest =>
    if name = "RESTORE" then enclosed whole .restore rest
    else if name = "PUSH" then enclosed whole .push rest
    else
      match number rest with
      | (some count,')' :: rest) => some (.drop count,rest)
      | _ => none
  | '[' :: rest => do
    let (start,rest) := number rest
    let rest ← rest.dropPrefix? "..".toList
    match number rest with
    | (stop,']' :: rest) => some (.peek (start.getD 0) stop,rest)
    | _ => none
  | rest => some (if name = "DROP" then .drop 1 else .ref name,rest)

def bounds (text : List Char) : Option (Expr × List Char) := do
  let (lo,rest) ← Text.Quoted.read Text.Quoted.charDelimiter text
  let rest ← rest.dropPrefix? "..'".toList
  let (hi,rest) ← Text.Quoted.read Text.Quoted.charDelimiter rest
  match lo,hi with
  | [lo],[hi] => some (.range lo hi,rest)
  | _,_ => none

/-- A form that nothing has to be put around. A search for one of no strings is written in no other way. -/
def primary : List Char → Option (Expr × List Char)
  | '\x22' :: rest => (Text.Quoted.read Text.Quoted.textDelimiter rest).map (Prod.map (.literal ∘ String.ofList) id)
  | '^' :: '\x22' :: rest => (Text.Quoted.read Text.Quoted.textDelimiter rest).map (Prod.map (.caseless ∘ String.ofList) id)
  | '\x27' :: rest => bounds rest
  | '(' :: rest => (enclosed whole id rest).or ((rest.dropPrefix? "! ~ ANY)*".toList).map fun rest => (.skipUntil [],rest))
  | text =>
    let (name,rest) := word text
    if name = "" then none else named whole name rest

def marks : Expr → List Char → Expr × List Char
  | e, '?' :: rest => marks (.opt e) rest
  | e, '*' :: rest => marks (.rep e) rest
  | e, rest => (e,rest)

def signed (operand : List Char → Option (Expr × List Char)) : List Char → Option (Expr × List Char)
  | '&' :: rest => (operand rest).map (Prod.map .followedBy id)
  | '!' :: rest => (operand rest).map (Prod.map .notFollowedBy id)
  | '#' :: rest => do
    let (name,rest) := word rest
    let rest ← rest.dropPrefix? " = ".toList
    (operand rest).map (Prod.map (.tag · name) id)
  | _ => none

def linked (mark : String) (join : Expr → Expr → Expr) (text : List Char) : Option (Expr × List Char) := do
  let (e,rest) ← first text
  match rest.dropPrefix? mark.toList with
  | none => some (e,rest)
  | some rest => (others rest).map (Prod.map (join e) id)

end Forms

def expr : Nat → Nat → List Char → Option (Expr × List Char)
  | 0, _, _ => none
  | fuel + 1, 1, text => linked (expr fuel 2) (expr fuel 1) " | " .choice text
  | fuel + 1, 2, text => linked (expr fuel 3) (expr fuel 2) " ~ " .seq text
  | fuel + 1, 3, text => (expr fuel 4 text).or (signed (expr fuel 3) text)
  | fuel + 1, _, text => (primary (expr fuel 1) text).map fun (e,rest) => marks e rest

def kind : List Char → Kind × List Char
  | '_' :: rest => (.silent,rest)
  | '@' :: rest => (.atomic,rest)
  | '$' :: rest => (.compoundAtomic,rest)
  | '!' :: rest => (.nonAtomic,rest)
  | rest => (.normal,rest)

def rule (text : List Char) : Option (Rule × List Char) := do
  let (name,rest) := word text
  let rest ← rest.dropPrefix? " = ".toList
  let (kind,rest) := kind rest
  let rest ← rest.dropPrefix? "\x7b ".toList
  -- going down a character's levels takes four steps
  let (e,rest) ← expr (4 * rest.length + 4) 1 rest
  let rest ← rest.dropPrefix? " \x7d\n".toList
  return (⟨name,kind,e⟩,rest)

def rules : Nat → List Char → Option (List Rule)
  | _, [] => some []
  | 0, _ => none
  | fuel + 1, text => do
    let (r,rest) ← rule text
    (rules fuel rest).map (r :: ·)

def grammar (text : String) : Option (List Rule) := rules text.toList.length text.toList

theorem rules_cons {fuel : Nat} {r : Rule} {rs : List Rule} {text rest : List Char} (first : rule text = some (r,rest))
    (others : rules fuel rest = some rs) : rules (fuel + 1) text = some (r :: rs) := by
  cases text with
  | nil => cases first
  | cons c text => simp only [rules,first,Option.bind_eq_bind,Option.bind_some,others,Option.map_some]

theorem dropPrefix?_append (mark : String) (y : List Char) : (mark.toList ++ y).dropPrefix? mark.toList = some y :=
  List.dropPrefix?_eq_some_iff.2 ⟨_,rfl,beq_self_eq_true _⟩

section Linked
variable {first others : List Char → Option (Expr × List Char)} {mark : String} {join : Expr → Expr → Expr}
    {text rest y : List Char} {a b : Expr}

theorem linked_none (read : first text = some (a,rest)) (none : rest.dropPrefix? mark.toList = none) :
    linked first others mark join text = some (a,rest) := by
  simp [linked,read,none]

theorem linked_some (read : first text = some (a,mark.toList ++ rest)) (read' : others rest = some (b,y)) :
    linked first others mark join text = some (join a b,y) := by
  simp [linked,read,dropPrefix?_append,read']

end Linked

section Tokens
variable {p : Char → Bool} {t y : List Char}

theorem takeWhile_append (all : ∀ c ∈ t, p c = true) (stop : ∀ c ∈ y.head?, p c = false) : (t ++ y).takeWhile p = t := by
  rw [List.takeWhile_append_of_pos all]
  cases y with
  | nil => simp
  | cons c rest => rw [List.takeWhile_cons_of_neg (by simp [stop c rfl]),List.append_nil]

theorem dropWhile_append (all : ∀ c ∈ t, p c = true) (stop : ∀ c ∈ y.head?, p c = false) : (t ++ y).dropWhile p = y := by
  rw [List.dropWhile_append_of_pos all]
  cases y with
  | nil => rfl
  | cons c rest => rw [List.dropWhile_cons_of_neg (by simp [stop c rfl])]

theorem stop_cons {d : Char} (apart : p d = false) : ∀ c ∈ (d :: y).head?, p c = false := by
  rintro c ⟨⟩
  exact apart

theorem word_append {name : String} (isWord : IsWord name) (stop : ∀ c ∈ y.head?, isWordChar c = false) :
    word (name.toList ++ y) = (name,y) := by
  have all := List.all_eq_true.1 isWord.2
  rw [word,takeWhile_append all stop,dropWhile_append all stop,String.ofList_toList]

theorem integer_toDigits (n : Nat) : integer (Nat.toDigits 10 n) = some (n : Int) := by
  have value := Nat.ofDigitChars_ten_toDigits (n := n)
  cases shown : Nat.toDigits 10 n with
  | nil => exact (Nat.toDigits_ne_nil shown).elim
  | cons c digits =>
    have unsigned : c ≠ '-' := by
      rintro rfl
      have digit : ('-' : Char).isDigit = true := Nat.isDigit_of_mem_toDigits (by decide) (by decide) (shown ▸ List.mem_cons_self)
      exact absurd digit (by decide)
    rw [shown] at value
    rw [integer,value]
    · exact List.cons_ne_nil _ _
    · intro digits same
      exact unsigned (List.cons.inj same).1

theorem numeral_toDigits (n : Nat) : ∀ c ∈ Nat.toDigits 10 n, isNumeral c = true := by
  intro c member
  rw [isNumeral,Nat.isDigit_of_mem_toDigits (by decide) (by decide) member,Bool.true_or]

theorem number_append (i : Int) (stop : ∀ c ∈ y.head?, isNumeral c = false) : number ((toString i).toList ++ y) = (some i,y) := by
  have shown : (∀ c ∈ (toString i).toList, isNumeral c = true) ∧ integer (toString i).toList = some i := by
    rw [Int.toString_eq_repr]
    cases i with
    | ofNat n =>
      have digits : (Int.ofNat n).repr.toList = Nat.toDigits 10 n := Nat.toList_repr
      rw [digits]
      exact ⟨numeral_toDigits n,integer_toDigits n⟩
    | negSucc n =>
      have digits : (Int.negSucc n).repr.toList = '-' :: Nat.toDigits 10 (n + 1) := String.toList_append.trans (congrArg _ Nat.toList_repr)
      rw [digits,integer,Nat.ofDigitChars_ten_toDigits]
      exact ⟨List.forall_mem_cons.2 ⟨rfl,numeral_toDigits (n + 1)⟩,rfl⟩
  rw [number,takeWhile_append shown.1 stop,dropWhile_append shown.1 stop,shown.2]

theorem number_none (stop : ∀ c ∈ y.head?, isNumeral c = false) : number y = (none,y) := by
  have none := takeWhile_append (t := []) nofun stop
  have all := dropWhile_append (t := []) nofun stop
  rw [List.nil_append] at none all
  rw [number,none,all,integer]

end Tokens

/-- No form begins with a blank, and no primary form with a sign. -/
theorem primary_sign {c : Char} (sign : c ∈ [' ','&','!','#']) (whole : List Char → Option (Expr × List Char)) (rest : List Char) :
    primary whole (c :: rest) = none := by
  have no (apart : isWordChar c = false) : word (c :: rest) = ("",c :: rest) := by
    rw [word,List.takeWhile_cons_of_neg (by simp [apart]),List.dropWhile_cons_of_neg (by simp [apart]),String.ofList_nil]
  simp only [List.mem_cons,List.not_mem_nil,or_false] at sign
  rcases sign with rfl | rfl | rfl | rfl
  all_goals
    rw [primary,no (by decide)]
    all_goals simp

theorem primary_word {name : String} (isWord : IsWord name) (whole : List Char → Option (Expr × List Char)) {y : List Char}
    (stop : ∀ c ∈ y.head?, isWordChar c = false) : primary whole (name.toList ++ y) = named whole name y := by
  have taken := word_append isWord stop
  cases shown : name.toList with
  | nil => exact (isWord.1 (String.toList_eq_nil_iff.1 shown)).elim
  | cons c rest =>
    have first : isWordChar c = true := List.all_eq_true.1 isWord.2 c (shown ▸ List.mem_cons_self)
    have apart {d : Char} {z z' : List Char} (other : isWordChar d = false) (same : c :: z = d :: z') : False := by
      cases same
      exact Bool.false_ne_true (other.symm.trans first)
    rw [shown,List.cons_append] at taken
    rw [List.cons_append,primary,taken]
    · exact if_neg isWord.1
    all_goals exact fun _ => apart (by decide)

theorem expr_sign {c : Char} (sign : c ∈ [' ','&','!','#']) (fuel : Nat) (rest : List Char) : expr fuel 4 (c :: rest) = none := by
  cases fuel with
  | zero => rfl
  | succ fuel =>
    rw [expr,primary_sign sign]
    · rfl
    all_goals exact nofun

/-- Where there is no primary form and no signed one, there is no form. -/
theorem expr_none {text : List Char} (none : ∀ fuel, expr fuel 4 text = none)
    (unsigned : ∀ fuel, signed (expr fuel 3) text = .none) {level : Nat}
    (pos : 1 ≤ level) (bound : level ≤ 4) (fuel : Nat) : expr fuel level text = .none := by
  induction fuel generalizing level with
  | zero => rfl
  | succ fuel ih =>
    obtain rfl | rfl | rfl | rfl : level = 1 ∨ level = 2 ∨ level = 3 ∨ level = 4 := by omega
    · rw [expr,linked,ih (by decide) (by decide)]
      rfl
    · rw [expr,linked,ih (by decide) (by decide)]
      rfl
    · rw [expr,none,unsigned,Option.none_or]
    · exact none _

/-- A sign with nothing to stand in front of. -/
theorem expr_bare (fuel : Nat) (rest : List Char) : expr fuel 1 ('!' :: ' ' :: rest) = none := by
  have blank (fuel : Nat) : expr fuel 3 (' ' :: rest) = none :=
    expr_none (fun fuel => expr_sign (by decide) fuel rest) (fun _ => rfl) (by decide) (by decide) fuel
  refine expr_none (fun fuel => expr_sign (by decide) fuel _) (fun fuel => ?_) (by decide) (by decide) fuel
  rw [signed,blank,Option.map_none]

end TypedPeg.Reader
