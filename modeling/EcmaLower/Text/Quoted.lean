/-!
# Quoted text

Text is written between double quotes so that it can stand in a program as a string literal on one
line: quotes, backslashes, control characters and the two Unicode line separators are escaped, and
every other character stands for itself.
-/

namespace EcmaLower.Quoted

/-- A hexadecimal digit, in lower case. -/
def hexDigit (n : Nat) : Char :=
  if n < 10 then Char.ofNat (48 + n) else Char.ofNat (87 + n)

/-- The escape `\uXXXX` of a code unit. -/
def unitEscape (n : Nat) : List Char :=
  ['\\', 'u', hexDigit (n / 4096 % 16), hexDigit (n / 256 % 16), hexDigit (n / 16 % 16),
    hexDigit (n % 16)]

/-- How a character is written inside the quotes. -/
def escape (c : Char) : List Char :=
  if c = '"' then ['\\', '"']
  else if c = '\\' then ['\\', '\\']
  else if c = '\n' then ['\\', 'n']
  else if c = '\r' then ['\\', 'r']
  else if c = '\t' then ['\\', 't']
  else if c = '\x08' then ['\\', 'b']
  else if c = '\x0c' then ['\\', 'f']
  else if c.toNat < 32 || c.toNat == 0x2028 || c.toNat == 0x2029 then unitEscape c.toNat
  else [c]

/-- The characters of a literal. -/
def encode (s : List Char) : List Char :=
  '"' :: s.flatMap escape ++ ['"']

end EcmaLower.Quoted

namespace EcmaLower

/-- A text as a string literal. -/
def quoted (s : String) : String :=
  String.ofList (Quoted.encode s.toList)

end EcmaLower
