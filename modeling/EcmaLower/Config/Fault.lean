import EcmaLower.Text.Quoted

/-!
# Faults of configuration texts
-/

namespace EcmaLower.Config

/-- A value of another kind than the one that was expected. -/
inductive Found
  | null
  | bool (b : Bool)
  /-- A whole number, by its text. -/
  | integer (text : String)
  /-- Any other number, by its text. -/
  | decimal (text : String)
  | str (s : String)
  | sequence
  | map
deriving DecidableEq, Repr

/-- What is wrong with a configuration text. -/
inductive Cause
  | eofInList
  | eofInObject
  | eofInString
  | eofInValue
  | expectedColon
  | expectedListEnd
  | expectedObjectEnd
  | expectedIdent
  | expectedValue
  | invalidEscape
  | invalidNumber
  | numberOutOfRange
  | controlCharacter
  | keyNotString
  | loneSurrogate
  | trailingComma
  | trailingCharacters
  | unfinishedEscape
  /-- A value of the wrong kind; says what was expected. -/
  | wrongKind (found : Found) (expected : String)
  | unknownField (name : String)
  | duplicateField (name : String)
  | unknownVariant (name : String)
deriving DecidableEq, Repr

/-- How a character of a text is shown in a message. -/
def showChar (c : Char) : List Char :=
  if c = '"' then ['\\', '"']
  else if c = '\\' then ['\\', '\\']
  else if c = '\n' then ['\\', 'n']
  else if c = '\r' then ['\\', 'r']
  else if c = '\t' then ['\\', 't']
  else if c = '\x00' then ['\\', '0']
  else if c.toNat < 32 || (127 ≤ c.toNat && c.toNat < 160) then
    ['\\', 'u', '\x7b'] ++ Nat.toDigits 16 c.toNat ++ ['\x7d']
  else [c]

/-- A text in quotes for a message. -/
def showText (s : String) : String :=
  String.ofList ('"' :: s.toList.flatMap showChar ++ ['"'])

/-- The description of a value. -/
def Found.text : Found → String
  | null => "null"
  | bool b => "boolean `" ++ (if b then "true" else "false") ++ "`"
  | integer n => "integer `" ++ n ++ "`"
  | decimal n => "floating point `" ++ n ++ "`"
  | str s => "string " ++ showText s
  | sequence => "sequence"
  | map => "map"

/-- The text of a cause. -/
def Cause.message : Cause → String
  | eofInList => "EOF while parsing a list"
  | eofInObject => "EOF while parsing an object"
  | eofInString => "EOF while parsing a string"
  | eofInValue => "EOF while parsing a value"
  | expectedColon => "expected `:`"
  | expectedListEnd => "expected `,` or `]`"
  | expectedObjectEnd => "expected `,` or `\x7d`"
  | expectedIdent => "expected ident"
  | expectedValue => "expected value"
  | invalidEscape => "invalid escape"
  | invalidNumber => "invalid number"
  | numberOutOfRange => "number out of range"
  | controlCharacter => "control character (\\u0000-\\u001F) found while parsing a string"
  | keyNotString => "key must be a string"
  | loneSurrogate => "lone leading surrogate in hex escape"
  | trailingComma => "trailing comma"
  | trailingCharacters => "trailing characters"
  | unfinishedEscape => "unexpected end of hex escape"
  | wrongKind found expected => "invalid type: " ++ found.text ++ ", expected " ++ expected
  | unknownField name =>
    "unknown field `" ++ name ++ "`, expected one of `moduleName`, `moduleType`, `basePath`"
  | duplicateField name => "duplicate field `" ++ name ++ "`"
  | unknownVariant name =>
    "unknown variant `" ++ name ++ "`, expected one of `amd`, `cjs`, `globals`"

/-- A place in a text: the line, from 1, and the number of bytes before it on that line. -/
structure Place where
  line : Nat
  column : Nat
deriving DecidableEq, Repr

/-- A cause, and where it was found if that is known yet. -/
structure Fault where
  cause : Cause
  place : Option Place
deriving DecidableEq, Repr

/-- The text of a fault. -/
def Fault.message (f : Fault) : String :=
  match f.place with
  | some p =>
    f.cause.message ++ " at line " ++ toString p.line ++ " column " ++ toString p.column
  | none => f.cause.message

end EcmaLower.Config
