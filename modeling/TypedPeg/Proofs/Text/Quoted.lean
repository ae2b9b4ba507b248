import TypedPeg.Text.Quoted

/-! Literals of grammar notation read back. A literal says where it ends: after its text comes the first delimiter
that is not escaped, whatever stands behind it. -/
namespace TypedPeg.Text.Quoted

def digitValue (c : Char) : Nat := if c.isDigit then c.toNat - 0x30 else c.toNat - 0x41 + 10

def unescape (c : Char) : Char :=
  if c = 'n' then '\n' else if c = 'r' then '\r' else if c = 't' then '\t' else c

def read (delimiter : Char) : List Char → Option (List Char × List Char)
  | [] => none
  | '\x5c' :: 'u' :: '\x7b' :: high :: low :: '\x7d' :: rest =>
    (read delimiter rest).map (Prod.map (Char.ofNat (16 * digitValue high + digitValue low) :: ·) id)
  | '\x5c' :: c :: rest => (read delimiter rest).map (Prod.map (unescape c :: ·) id)
  | c :: rest => if c = delimiter then some ([],rest) else (read delimiter rest).map (Prod.map (c :: ·) id)

theorem control_lt {c : Char} (control : isControl c = true) : c.toNat < 0x80 := by
  simp only [isControl,Bool.or_eq_true,decide_eq_true_eq,beq_iff_eq] at control
  omega

theorem hex_value {n : Nat} (small : n < 0x80) : ∃ high low, Hex.digits Hex.upperDigit 2 n = [high,low] ∧
    16 * digitValue high + digitValue low = n := by
  have each : ∀ n < 0x80, 16 * digitValue (Hex.upperDigit (n / 16 % 16)) + digitValue (Hex.upperDigit (n % 16)) = n := by decide
  exact ⟨_,_,rfl,each n small⟩

variable {delimiter : Char}

theorem read_backslash {c : Char} (rest : List Char) (other : c ≠ 'u') :
    read delimiter ('\x5c' :: c :: rest) = (read delimiter rest).map (Prod.map (unescape c :: ·) id) := by
  rw [read]
  intro high low rest same
  exact (other same).elim

theorem read_plain {c : Char} (rest : List Char) (other : c ≠ '\x5c') :
    read delimiter (c :: rest) = if c = delimiter then some ([],rest) else (read delimiter rest).map (Prod.map (c :: ·) id) := by
  rw [read]
  · intro high low rest same
    exact (other same).elim
  · intro c rest same
    exact (other same).elim

variable (closing : delimiter = textDelimiter ∨ delimiter = charDelimiter)
include closing

theorem read_escape (c : Char) (rest : List Char) :
    read delimiter (escape delimiter c ++ rest) = (read delimiter rest).map (Prod.map (c :: ·) id) := by
  -- in the order in which the writer asks
  by_cases backslash : c = '\x5c'
  · subst backslash
    exact read_backslash rest (by decide)
  by_cases same : c = delimiter
  · have marked : escape delimiter c = ['\x5c',c] := by rw [escape,if_neg backslash,if_pos same]
    have itself : c ≠ 'u' ∧ unescape c = c := by
      rw [same]
      rcases closing with rfl | rfl <;> decide
    rw [marked]
    exact (read_backslash rest itself.1).trans (by rw [itself.2])
  by_cases newline : c = '\n'
  · have marked : escape delimiter c = ['\x5c','n'] := by rw [escape,if_neg backslash,if_neg same,if_pos newline]
    rw [marked,newline]
    exact read_backslash rest (by decide)
  by_cases back : c = '\r'
  · have marked : escape delimiter c = ['\x5c','r'] := by rw [escape,if_neg backslash,if_neg same,if_neg newline,if_pos back]
    rw [marked,back]
    exact read_backslash rest (by decide)
  by_cases tab : c = '\t'
  · have marked : escape delimiter c = ['\x5c','t'] := by
      rw [escape,if_neg backslash,if_neg same,if_neg newline,if_neg back,if_pos tab]
    rw [marked,tab]
    exact read_backslash rest (by decide)
  cases control : isControl c with
  | true =>
    obtain ⟨high,low,digits,value⟩ := hex_value (control_lt control)
    have marked : escape delimiter c = ['\x5c','u','\x7b',high,low,'\x7d'] := by
      rw [escape,if_neg backslash,if_neg same,if_neg newline,if_neg back,if_neg tab,if_pos control,digits]
      rfl
    have shown : Char.ofNat (16 * digitValue high + digitValue low) = c := by rw [value,Char.ofNat_toNat]
    rw [marked]
    show read delimiter ('\x5c' :: 'u' :: '\x7b' :: high :: low :: '\x7d' :: rest) = _
    rw [read,shown]
  | false =>
    have marked : escape delimiter c = [c] := by
      rw [escape,if_neg backslash,if_neg same,if_neg newline,if_neg back,if_neg tab,if_neg (by simp [control])]
    rw [marked,List.singleton_append,read_plain rest backslash,if_neg same]

/-- What is enclosed is read back, and nothing more. -/
theorem read_enclose (text rest : List Char) : ∃ body, enclose delimiter text ++ rest = delimiter :: body ∧
    read delimiter body = some (text,rest) := by
  refine ⟨text.flatMap (escape delimiter) ++ delimiter :: rest,by simp [enclose],?_⟩
  have apart : delimiter ≠ '\x5c' := by rcases closing with rfl | rfl <;> decide
  induction text with
  | nil => rw [List.flatMap_nil,List.nil_append,read_plain rest apart,if_pos rfl]
  | cons c text ih => rw [List.flatMap_cons,List.append_assoc,read_escape closing,ih,Option.map_some,Prod.map_apply,id]

end TypedPeg.Text.Quoted
