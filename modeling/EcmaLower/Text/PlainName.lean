import EcmaLower.Text.Letter

/-!
# Plain names

A property can be written after a dot if its name is a letter, `$` or `_`, followed by letters,
digits, `$` and `_`, and is not a word of the language. Old engines refuse words of the language
after a dot, so they are written in brackets.
-/

namespace EcmaLower

/-- Words of the language that old engines refuse after a dot. -/
def reservedNames : List String :=
  ["break", "case", "catch", "class", "const", "continue", "debugger", "default", "delete",
    "do", "else", "enum", "export", "extends", "false", "finally", "for", "function", "if",
    "implements", "import", "in", "instanceof", "interface", "let", "new", "null", "package",
    "private", "protected", "public", "return", "static", "super", "switch", "this", "throw",
    "true", "try", "typeof", "var", "void", "while", "with", "yield"]

/-- Whether a character can start a plain name. -/
def isPlainStart (c : Char) : Bool := c == '$' || c == '_' || isAlphabetic c

/-- Whether a character can go on a plain name. -/
def isPlainPart (c : Char) : Bool := c == '$' || c == '_' || isAlphanumeric c

/-- Whether the characters of a text have the shape of a plain name. -/
def hasPlainShape : List Char → Bool
  | [] => false
  | c :: cs => isPlainStart c && cs.all isPlainPart

/-- Whether a name can be written after a dot. -/
def isPlainName (name : String) : Bool :=
  hasPlainShape name.toList && !reservedNames.contains name

end EcmaLower
