import TypedPeg.Text.Hex
import TypedPeg.Text.Printable

/-! Texts quoted in error messages. Single quotes are used unless the text holds
one and no double quote; whatever would not show on a line is escaped. -/
namespace TypedPeg.Text.Literal

def delimiter (t : List Char) : Char :=
  if '\x27' ∈ t ∧ '\x22' ∉ t then '\x22' else '\x27'

def escape (close c : Char) : List Char :=
  if c = close ∨ c = '\x5c' then ['\x5c',c]
  else if c = '\t' then ['\x5c','t']
  else if c = '\n' then ['\x5c','n']
  else if c = '\r' then ['\x5c','r']
  else if Printable.isPrintable c then [c]
  else if c.toNat < 0x100 then '\x5c' :: 'x' :: Hex.digits Hex.lowerDigit 2 c.toNat
  else if c.toNat < 0x10000 then '\x5c' :: 'u' :: Hex.digits Hex.lowerDigit 4 c.toNat
  else '\x5c' :: 'U' :: Hex.digits Hex.lowerDigit 8 c.toNat

def quote (t : String) : String :=
  let close := delimiter t.toList
  String.ofList (close :: t.toList.flatMap (escape close) ++ [close])

end TypedPeg.Text.Literal
