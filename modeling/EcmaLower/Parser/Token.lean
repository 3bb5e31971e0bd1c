import EcmaLower.Parser.Fault
import EcmaLower.Syntax.Operator
import EcmaLower.Text.Units

/-!
# Tokens

A source text is read as a sequence of tokens. Words with a meaning somewhere in the language are
told apart from other identifiers; whether such a word is a keyword depends on where it stands, so
the classes of words are predicates.
-/

namespace EcmaLower

/-- A token of the source text. -/
inductive TokenKind
  /-- Punctuation, by its spelling. -/
  | punct (text : String)
  /-- A word with a meaning somewhere, beside the source text it was read from. -/
  | word (word text : String)
  /-- Any other identifier, escapes decoded. -/
  | ident (name : String)
  | str (value : Units) (raw : String)
  | num (raw : String)
  | bigInt (raw : String)
  | regex (pattern flags : String)
  /-- A part of a template. The part is `first` if it starts with the opening quote, and `last` if
  it ends with the closing quote rather than with `${`. A bad escape takes the place of the
  value. -/
  | template (first last : Bool) (raw : String) (cooked : Except Fault Units)
  /-- The line `#!...` at the start of a file. -/
  | hashbang (text : String)
  | eof
  /-- Text that is no token. -/
  | error (fault : Fault)

/-- A token with its place, and whether a line break precedes it. -/
structure Token where
  kind : TokenKind
  span : Span
  lineBreak : Bool

/-! ## Words -/

/-- The keywords of the language. -/
def keywords : List String :=
  ["await", "break", "case", "catch", "class", "const", "continue", "debugger", "default",
    "delete", "do", "else", "export", "extends", "false", "finally", "for", "function", "if",
    "import", "in", "instanceof", "let", "new", "null", "return", "super", "switch", "this",
    "throw", "true", "try", "typeof", "var", "void", "while", "with", "yield"]

/-- Words with a meaning in some places that are identifiers elsewhere. -/
def knownWords : List String :=
  ["abstract", "any", "as", "asserts", "assert", "async", "bigint", "boolean", "constructor",
    "declare", "enum", "from", "get", "global", "implements", "interface", "intrinsic", "is",
    "keyof", "namespace", "never", "number", "object", "of", "out", "override", "package",
    "private", "protected", "public", "readonly", "require", "set", "static", "string", "symbol",
    "type", "undefined", "unique", "unknown", "using", "accessor", "infer", "satisfies", "meta",
    "target"]

/-- Whether a word is a keyword. -/
def isKeyword (w : String) : Bool := keywords.contains w

/-- Whether a word has a meaning in some places. -/
def isKnownWord (w : String) : Bool := knownWords.contains w

/-- Words that are never identifiers, whatever surrounds them. -/
def alwaysReserved : List String :=
  ["null", "true", "false", "break", "case", "catch", "continue", "debugger", "default", "do",
    "export", "else", "finally", "for", "function", "if", "return", "switch", "throw", "try",
    "var", "const", "while", "with", "new", "this", "super", "class", "extends", "import", "in",
    "instanceof", "typeof", "void", "delete", "enum"]

/-- Words that are reserved in strict code. -/
def strictReserved : List String :=
  ["implements", "interface", "let", "package", "private", "protected", "public", "static"]

namespace TokenKind

/-- The name of a token in reports. Reports spell `typeof` and `instanceof` with a capital and leave
out the sign of equality in `*=`. -/
def describe : TokenKind → String
  | punct t => if t == "*=" then "*" else t
  | word w _ => if w == "typeof" then "typeOf" else if w == "instanceof" then "instanceOf" else w
  | ident _ => "ident"
  | str .. => "string literal"
  | num _ => "numeric literal"
  | bigInt _ => "bigint literal"
  | regex .. => "regexp literal"
  | template first last _ _ =>
    if first && last then "no substitution template literal" else if first then "template head"
      else if last then "template tail" else "template middle"
  | hashbang _ => "#!"
  | eof => "<eof>"
  | error _ => "<lexing error>"

/-- Whether a token is the given punctuation. -/
def isPunct (k : TokenKind) (t : String) : Bool :=
  match k with
  | punct u => u == t
  | _ => false

/-- Whether a token is the given word. -/
def isWord (k : TokenKind) (w : String) : Bool :=
  match k with
  | word u _ => u == w
  | _ => false

/-- Whether a token is text that is no token. -/
def isError : TokenKind → Bool
  | error _ => true
  | _ => false

/-- Whether a token is the end of the text. -/
def isEof : TokenKind → Bool
  | eof => true
  | _ => false

/-- Whether a token is a string. -/
def isStr : TokenKind → Bool
  | str .. => true
  | _ => false

/-- The operator that a punctuation token is between two operands. -/
def binaryOp? : TokenKind → Option BinaryOp
  | punct t =>
    match t with
    | "==" => some .eq
    | "!=" => some .notEq
    | "===" => some .strictEq
    | "!==" => some .strictNotEq
    | "<" => some .lt
    | "<=" => some .le
    | ">" => some .gt
    | ">=" => some .ge
    | "<<" => some .shl
    | ">>" => some .shr
    | ">>>" => some .ushr
    | "+" => some .add
    | "-" => some .sub
    | "*" => some .mul
    | "/" => some .div
    | "%" => some .mod
    | "**" => some .pow
    | "|" => some .bitOr
    | "^" => some .bitXor
    | "&" => some .bitAnd
    | "||" => some .or
    | "&&" => some .and
    | "??" => some .nullish
    | _ => none
  | _ => none

/-- The assignment operator that a token is. -/
def assignOp? : TokenKind → Option AssignOp
  | punct t =>
    match t with
    | "=" => some .plain
    | "+=" => some (.compound .add)
    | "-=" => some (.compound .sub)
    | "*=" => some (.compound .mul)
    | "/=" => some (.compound .div)
    | "%=" => some (.compound .mod)
    | "**=" => some (.compound .pow)
    | "<<=" => some (.compound .shl)
    | ">>=" => some (.compound .shr)
    | ">>>=" => some (.compound .ushr)
    | "|=" => some (.compound .bitOr)
    | "^=" => some (.compound .bitXor)
    | "&=" => some (.compound .bitAnd)
    | "||=" => some (.compound .or)
    | "&&=" => some (.compound .and)
    | "??=" => some (.compound .nullish)
    | _ => none
  | _ => none

/-- A `//` comment on the same line belongs to any token but a binary operator. -/
def takesLineComment (k : TokenKind) : Bool :=
  k.binaryOp?.isNone

/-- A `/* */` comment on the same line belongs to these tokens; after others it belongs to what
follows. -/
def takesBlockComment : TokenKind → Bool
  | punct t => t == ";" || t == "\x7b" || t == "\x7d"
  | word w _ => !isKeyword w
  | ident _ | str .. | num _ | bigInt _ | regex .. => true
  | _ => false

end TokenKind

end EcmaLower
