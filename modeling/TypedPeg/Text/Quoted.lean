import TypedPeg.Text.Hex

/-! Literals of grammar notation: a text between double quotes and a character
between single quotes. Backslash, the delimiter in use and every control
character are escaped, so the closing delimiter is the first bare one. -/
namespace TypedPeg.Text.Quoted

def textDelimiter : Char := '\x22'

def charDelimiter : Char := '\x27'

def isControl (c : Char) : Bool := c.toNat < 0x20 || c.toNat == 0x7F

def escape (delimiter c : Char) : List Char :=
  if c = '\x5c' then ['\x5c','\x5c']
  else if c = delimiter then ['\x5c',c]
  else if c = '\n' then ['\x5c','n']
  else if c = '\r' then ['\x5c','r']
  else if c = '\t' then ['\x5c','t']
  else if isControl c then ['\x5c','u','\x7b'] ++ Hex.digits Hex.upperDigit 2 c.toNat ++ ['\x7d']
  else [c]

def enclose (delimiter : Char) (text : List Char) : List Char :=
  delimiter :: text.flatMap (escape delimiter) ++ [delimiter]

def text (t : String) : String := String.ofList (enclose textDelimiter t.toList)

def char (c : Char) : String := String.ofList (enclose charDelimiter [c])

end TypedPeg.Text.Quoted
