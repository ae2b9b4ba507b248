/-! Fixed-width hexadecimal numerals. -/
namespace TypedPeg.Text.Hex

def lowerDigit (n : Nat) : Char :=
  if n < 10 then Char.ofNat (0x30 + n) else Char.ofNat (0x61 + (n - 10))

def upperDigit (n : Nat) : Char :=
  if n < 10 then Char.ofNat (0x30 + n) else Char.ofNat (0x41 + (n - 10))

/-- The last `width` digits of `n`, most significant first. -/
def digits (digit : Nat → Char) : Nat → Nat → List Char
  | 0, _ => []
  | width + 1, n => digits digit width (n / 16) ++ [digit (n % 16)]

@[simp] theorem length_digits (digit : Nat → Char) (width n : Nat) :
    (digits digit width n).length = width := by
  induction width generalizing n with
  | zero => rfl
  | succ width ih => simp [digits,ih]

end TypedPeg.Text.Hex
