/-! Numbers with a fraction, written with the digits that they have. The point stands among these or a few zeros away;
otherwise it stands behind the first, and how far it was moved is written behind them. -/
namespace TypedPeg.Text.Decimal

/-- How many digits there are behind the point, if they come to an end. -/
def places (q : Rat) : Nat := ((List.range (Nat.log2 q.den + 1)).find? fun k => Nat.pow 10 k % q.den = 0).getD 0

def zeros (n : Nat) : List Char := List.replicate n '0'

def positional (digits : List Char) (whole : Int) : List Char :=
  if whole ≤ 0 then '0' :: '.' :: zeros (-whole).toNat ++ digits
  else
    let fraction := digits.drop whole.toNat
    digits.take whole.toNat ++ zeros (whole.toNat - digits.length) ++ '.' :: if fraction.isEmpty then ['0'] else fraction

def scientific (digits : List Char) (whole : Int) : List Char :=
  let exponent := Nat.toDigits 10 (whole - 1).natAbs
  let fraction := digits.drop 1
  digits.take 1 ++ (if fraction.isEmpty then [] else '.' :: fraction) ++
    'e' :: (if whole < 1 then '-' else '+') :: zeros (2 - exponent.length) ++ exponent

def write (q : Rat) : String :=
  let behind := places q
  let all := Nat.toDigits 10 (q.num.natAbs * Nat.pow 10 behind / q.den)
  let digits := (all.reverse.dropWhile (· = '0')).reverse
  let whole : Int := all.length - behind
  let shown := if -4 < whole ∧ whole ≤ 16 then positional digits whole else scientific digits whole
  String.ofList (if q < 0 then '-' :: shown else shown)

end TypedPeg.Text.Decimal
