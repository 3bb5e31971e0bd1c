import EcmaLower.Parser.Context
import EcmaLower.Parser.Token
import EcmaLower.Syntax.Comment
import EcmaLower.Text.IdentifierChar
import EcmaLower.Text.Space

/-!
# Reading tokens

Tokens are read one at a time, because the parser decides at some places how the next one is to be
read: a slash starts a regular expression where an operand is expected, and a closing brace
continues a template where a substitution ends.

Reading a token can find faults that do not stop it; they are recorded in the state. A fault that
stops it becomes an error token, which the parser reports when it cannot do without the token.
-/

namespace EcmaLower

/-- The state of reading: the text that is left, and what was found in the text before it. -/
structure LexState where
  /-- The text that is left. -/
  rest : List Char
  /-- The position of `rest`. -/
  pos : Nat
  /-- No token has been read. -/
  isStart : Bool := true
  /-- A line break was passed since the last token. -/
  lineBreak : Bool := false
  /-- The end of the last token. -/
  prevHi : Nat
  /-- The last token. -/
  prev : Option TokenKind := none
  /-- The text from the start of the token that is being read, or was read last. -/
  tokenText : List Char := []
  /-- The position of `tokenText`. -/
  tokenStart : Nat := 1
  /-- The last token should have been a regular expression and could not be read as one. -/
  atBadRegExp : Bool := false
  /-- The faults that were found, the latest first. -/
  faults : List Fault := []
  comments : Comments := {}
  /-- Comments that lead the next token. -/
  pending : List Comment := []

/-- Reading, which may fail with a fault; the state is kept when it fails. -/
abbrev Lex := EStateM Fault LexState

namespace LexState

/-- Passes the next `n` characters. -/
def advance (s : LexState) : Nat → LexState
  | 0 => s
  | n + 1 =>
    match s.rest with
    | [] => s
    | c :: cs => advance { s with rest := cs, pos := s.pos + c.utf8Size } n

/-- Records a fault. -/
def addFault (s : LexState) (f : Fault) : LexState :=
  { s with faults := f :: s.faults }

/-- The characters from the start of `cs`, at position `pos`, up to position `stop`. -/
def sliceUpTo (stop : Nat) : Nat → List Char → List Char
  | _, [] => []
  | pos, c :: cs => if pos < stop then c :: sliceUpTo stop (pos + c.utf8Size) cs else []

/-- The text between two states of one reading. -/
def textUpTo (s t : LexState) : String :=
  String.ofList (sliceUpTo t.pos s.pos s.rest)

/-- The text of the token that is being read, so far. -/
def tokenSource (s : LexState) : String :=
  String.ofList (sliceUpTo s.pos s.tokenStart s.tokenText)

end LexState

/-- Characters that end a line. -/
def isLineEnd (c : Char) : Bool :=
  c == '\n' || c == '\r' || c.toNat == 0x2028 || c.toNat == 0x2029

/-- White space other than line ends. A byte order mark is white space wherever it stands. -/
def isBlank (c : Char) : Bool :=
  (isSpace c && !isLineEnd c) || c.toNat == 0xfeff

/-- The value of a digit in a radix. -/
def digitValue? (radix : Nat) (c : Char) : Option Nat :=
  let n := c.toNat
  let v :=
    if c.isDigit then n - 48
    else if 97 ≤ n && n ≤ 122 then n - 87
    else if 65 ≤ n && n ≤ 90 then n - 55
    else 99
  if v < radix then some v else none

namespace Lex

/-! ## Characters -/

/-- The next character. -/
def cur : Lex (Option Char) := return (← get).rest.head?

/-- The position of the next character. -/
def curPos : Lex Nat := return (← get).pos

/-- Passes `n` characters. -/
def skip (n : Nat) : Lex Unit := modify fun s => s.advance n

/-- Passes a character if it is the given one. -/
def eat (c : Char) : Lex Bool := do
  if (← cur) == some c then
    skip 1
    return true
  return false

/-- Records a fault at a position. -/
def note (pos : Nat) (cause : Cause) : Lex Unit :=
  modify fun s => s.addFault ⟨⟨pos, s.pos⟩, cause⟩

/-- Records a fault of strict code. -/
def noteStrict (ctx : Context) (pos : Nat) (cause : Cause) : Lex Unit := do
  if ctx.strict || ctx.isModule then note pos cause

/-- The text of the token that is being read, so far. -/
def source : Lex String := return (← get).tokenSource

/-- A token starts here. -/
def startToken : Lex Unit :=
  modify fun s => { s with tokenText := s.rest, tokenStart := s.pos }

/-- Goes back to the start of the last token, and passes its first character. -/
def reread : Lex Unit :=
  modify fun s => { s with rest := s.tokenText, pos := s.tokenStart }.advance 1

/-- Stops with a fault at a position. -/
def failAt {α : Type} (pos : Nat) (cause : Cause) : Lex α := do
  throw ⟨⟨pos, max pos (← curPos)⟩, cause⟩

/-! ## White space and comments -/

/-- Keeps a comment: for the next token, or for the last one. -/
def storeComment (forNext : Bool) (c : Comment) : Lex Unit :=
  modify fun s =>
    if forNext then { s with pending := s.pending ++ [c] }
    else { s with comments := s.comments.addTrailing s.prevHi c }

/-- Passes a comment that ends with its line; its delimiter has `n` characters. -/
def skipLineComment (n : Nat) : Lex Unit := do
  skip n
  let s ← get
  let text := s.rest.takeWhile fun c => !isLineEnd c
  skip text.length
  let takes := s.prev.all TokenKind.takesLineComment
  storeComment (s.lineBreak || !takes) ⟨true, String.ofList text⟩

/-- The length of a block comment's text, and whether it has a line end. -/
def blockLength : List Char → Option (Nat × Bool)
  | [] => none
  | '*' :: '/' :: _ => some (0, false)
  | c :: cs => (blockLength cs).map fun r => (r.1 + 1, isLineEnd c || r.2)

/-- Passes a comment in `/*` and `*/`. -/
def skipBlockComment : Lex Unit := do
  let before := (← get).lineBreak
  skip 2
  let s ← get
  match blockLength s.rest with
  | none =>
    skip s.rest.length
    note (← curPos) .unterminatedBlockComment
  | some (n, breaks) =>
    skip n
    let text := s.textUpTo (← get)
    skip 2
    if breaks then modify fun s => { s with lineBreak := true }
    let takes := s.prev.any TokenKind.takesBlockComment
    storeComment (before || (!takes && (← cur) != some ';')) ⟨false, text⟩

/-- Passes white space and comments; the argument bounds their number. -/
def skipTrivia : Nat → Lex Unit
  | 0 => pure ()
  | n + 1 => do
    match (← get).rest with
    | '/' :: '/' :: _ =>
      skipLineComment 2
      skipTrivia n
    | '/' :: '*' :: _ =>
      skipBlockComment
      skipTrivia n
    | c :: _ =>
      if isLineEnd c then
        modify fun s => { s.advance 1 with lineBreak := true }
        skipTrivia n
      else if isBlank c then
        skip 1
        skipTrivia n
    | [] => pure ()

/-- Passes all white space and comments. -/
def skipAllTrivia : Lex Unit := do
  skipTrivia ((← get).rest.length + 1)

/-! ## Numbers -/

/-- Whether `_` may stand before or after a character of a number. -/
def separatorAllowed (radix : Nat) (prev next : Option Char) : Bool :=
  let forbidden : Option Char → Bool := fun c =>
    match c with
    | none => false
    | some c =>
      if radix == 16 then ['.', 'X', '_', 'x'].contains c
      else ['.', 'B', 'E', 'O', '_', 'b', 'e', 'o'].contains c
  (next.any fun c => (digitValue? radix c).isSome) && !forbidden prev && !forbidden next

/-- The number that a list of digit values spells. -/
def ofDigits (radix : Nat) (ds : List Nat) : Nat :=
  ds.foldl (fun n d => n * radix + d) 0

/-- Passes digits and `_` separators, up to one after which the digits `enough`, and returns the digit
values. The first argument bounds the characters to read. -/
def readDigits (radix start : Nat) (enough : List Nat → Bool) : Nat → Option Char → List Nat →
    Lex (List Nat)
  | 0, _, ds => return ds
  | n + 1, prev, ds => do
    match (← get).rest with
    | '_' :: rest =>
      if !separatorAllowed radix prev rest.head? then note start .misplacedSeparator
      skip 1
      readDigits radix start enough n prev ds
    | c :: _ =>
      match digitValue? radix c with
      | some v =>
        skip 1
        let ds := ds ++ [v]
        if enough ds then return ds
        readDigits radix start enough n (some c) ds
      | none => return ds
    | [] => return ds

/-- All digits that follow. -/
def digits (radix : Nat) : Lex (List Nat) := do
  let s ← get
  readDigits radix s.pos (fun _ => false) (s.rest.length + 1) none []

/-- At least one digit. -/
def someDigits (radix : Nat) : Lex (List Nat) := do
  let start ← curPos
  let ds ← digits radix
  if ds.isEmpty then failAt start (.expectedDigit radix)
  return ds

/-- The ASCII characters that start an identifier. -/
def isAsciiIdentStart (c : Char) : Bool :=
  c.isAlpha || c == '$' || c == '_'

/-- An identifier in ASCII may not follow a number directly. -/
def ensureNotIdent : Lex Unit := do
  if (← cur).any isAsciiIdentStart then failAt (← curPos) .identAfterNumber

/-- Reads `0x`, `0o` or `0b` and digits of the radix. A separator may precede all digits of a number,
but not of a big integer. -/
def radixNumber (radix : Nat) : Lex TokenKind := do
  skip 2
  let start ← curPos
  let startsWithSeparator := (← cur) == some '_'
  discard <| someDigits radix
  if ← eat 'n' then
    if startsWithSeparator then failAt start .misplacedSeparator
    return .bigInt (← source)
  ensureNotIdent
  return .num (← source)

/-- Reads the fraction and exponent of a decimal number. -/
def decimalTail : Lex TokenKind := do
  if ← eat '.' then discard <| digits 10
  match ← cur with
  | some c =>
    if c == 'e' || c == 'E' then
      skip 1
      match ← cur with
      | none => failAt (← curPos) .exponentWithoutDigits
      | some d => if d == '+' || d == '-' then skip 1
      discard <| someDigits 10
  | none => pure ()
  ensureNotIdent
  return .num (← source)

/-- Reads a decimal number, or an octal one that starts with `0`. -/
def number (ctx : Context) : Lex TokenKind := do
  let s ← get
  if s.rest.head? == some '.' then return ← decimalTail
  let startsWithZero := s.rest.head? == some '0'
  let ds ← someDigits 10
  let length := (← curPos) - s.pos
  if !startsWithZero || length == 1 then
    if ← eat 'n' then return .bigInt (← source)
  if startsWithZero && length != 1 then
    if ds.all (· < 8) then
      ensureNotIdent
      noteStrict ctx s.pos .legacyOctal
      return .num (← source)
    noteStrict ctx s.pos .legacyDecimal
  decimalTail

/-! ## Escapes -/

/-- Reads a given number of hexadecimal digits, or all that follow as long as they spell a number of
32 bits. -/
def hexDigits (count : Option Nat) : Lex (List Nat) := do
  let s ← get
  readDigits 16 s.pos (fun ds => count == some ds.length || 0xffffffff < ofDigits 16 ds)
    (s.rest.length + 1) none []

/-- Reads the escape of a low surrogate, if one follows. One that is cut short is a fault of the
escape before it, whose digits are `wanted`. -/
def lowSurrogate (wanted : String) : Lex (Option UInt16) := do
  let s ← get
  if !(['\\', 'u'].isPrefixOf s.rest) then return none
  skip 2
  let ds ← hexDigits (some 4)
  if ds.length != 4 then failAt (← curPos) (.badEscape wanted)
  let unit := UInt16.ofNat (ofDigits 16 ds)
  if Units.isTrail unit then return some unit
  modify fun t => { t with rest := s.rest, pos := s.pos }
  return none

/-- Reads what follows `u` in an escape: four digits, or any number in braces. A high surrogate and
the low one after it are one code point. Says whether surrogates were written. -/
def unicodeEscape : Lex (Nat × Bool) := do
  skip 1
  let curly ← eat '\x7b'
  let start ← curPos
  let close : Lex Unit := do
    if curly then
      if !(← eat '\x7d') then failAt start .invalidUnicodeEscape
  let wanted := if curly then "1-6 hex characters" else "4 hex characters"
  let ds ← hexDigits (if curly then none else some 4)
  let value := ofDigits 16 ds
  if ds.isEmpty || (!curly && ds.length != 4) || 0xffffffff < value then
    failAt (← curPos) (.badEscape wanted)
  if 0x10ffff < value then
    failAt (← curPos) (.badEscape "1-6 hex characters in the range 0 to 10FFFF.")
  let unit := UInt16.ofNat value
  if 0xffff < value || !(Units.isLead unit || Units.isTrail unit) then
    close
    return (value, false)
  if ds.length != 4 then failAt start .invalidUnicodeEscape
  let low ← if Units.isLead unit then lowSurrogate wanted else pure none
  close
  match low with
  | some low => return (Units.joinPair unit low, true)
  | none => return (value, true)

/-- The value of an octal escape: up to three digits, as long as it fits a byte. -/
def octalEscape (first : Nat) : Lex Nat := do
  match (← cur).bind (digitValue? 8) with
  | none => return first
  | some d =>
    skip 1
    let second := first * 8 + d
    match (← cur).bind (digitValue? 8) with
    | none => return second
    | some e =>
      if 255 < second * 8 + e then return second
      skip 1
      return second * 8 + e

/-- Reads an escape sequence at its backslash; a line continuation has no value. -/
def escapedChar (ctx : Context) (inTemplate : Bool) : Lex (Option Nat) := do
  let start ← curPos
  skip 1
  match ← cur with
  | none => failAt start .invalidStringEscape
  | some c =>
    let simple (n : Nat) : Lex (Option Nat) := do
      skip 1
      return some n
    match c with
    | 'n' => simple 10
    | 'r' => simple 13
    | 't' => simple 9
    | 'b' => simple 8
    | 'v' => simple 11
    | 'f' => simple 12
    | '\r' =>
      skip 1
      discard <| eat '\n'
      return none
    | 'x' =>
      skip 1
      let ds ← hexDigits (some 2)
      if ds.length != 2 then failAt start (.badEscape "2 hex characters")
      return some (ofDigits 16 ds)
    | 'u' =>
      tryCatch ((fun r => some r.1) <$> unicodeEscape) fun f => failAt start f.cause
    | _ =>
      if isLineEnd c then
        skip 1
        return none
      match digitValue? 8 c with
      | none => simple c.toNat
      | some d =>
        skip 1
        if d == 0 && ((← cur).bind (digitValue? 8)).isNone then return some 0
        if inTemplate then failAt start .legacyOctal
        noteStrict ctx start .legacyOctal
        some <$> octalEscape d

/-! ## Words -/

/-- Reads an identifier name with its escapes; says whether it has any. The first argument bounds
the characters to read. -/
def readWord : Nat → List Char → Bool → Lex (String × Bool)
  | 0, acc, escaped => return (String.ofList acc.reverse, escaped)
  | n + 1, acc, escaped => do
    match ← cur with
    | some '\\' =>
      let start ← curPos
      skip 1
      if (← cur) != some 'u' then failAt start .expectedUnicodeEscape
      let (v, bySurrogates) ← unicodeEscape
      let c := Units.charOf v
      if bySurrogates || !isIdentPart c then note start .invalidIdentChar
      readWord n (c :: acc) true
    | some c =>
      if isIdentPart c then
        skip 1
        readWord n (c :: acc) escaped
      else return (String.ofList acc.reverse, escaped)
    | none => return (String.ofList acc.reverse, escaped)

/-- Whether a word cannot be a name, or be written with escapes, where it stands. -/
def isReservedHere (ctx : Context) (w : String) : Bool :=
  alwaysReserved.contains w ||
    (w == "await" && (ctx.inAsync || ctx.inStaticBlock || ctx.strict)) ||
    (w == "yield" && (ctx.inGenerator || ctx.strict)) ||
    (ctx.strict && strictReserved.contains w)

/-- Reads a keyword or an identifier. A name that starts with an escape or outside of ASCII is never a
keyword. -/
def word (ctx : Context) : Lex TokenKind := do
  let s ← get
  let (w, escaped) ← readWord (s.rest.length + 1) [] false
  if s.rest.head?.any Char.isAlpha && (isKeyword w || isKnownWord w) then
    if escaped && isReservedHere ctx w then failAt s.pos (.escapeInReservedWord w)
    return .word w (← source)
  return .ident w

/-! ## Strings, templates and regular expressions -/

/-- Reads a string after its opening quote. The first argument bounds the characters to read. -/
def readString (ctx : Context) (start : Nat) (quote : Char) : Nat → Units → Lex Units
  | 0, acc => return acc
  | n + 1, acc => do
    match ← cur with
    | none =>
      note start .unterminatedString
      return acc
    | some c =>
      if c == quote then
        skip 1
        return acc
      else if c == '\\' then
        match ← escapedChar ctx false with
        | some v => readString ctx start quote n (acc ++ Units.ofCodePoint v)
        | none => readString ctx start quote n acc
      else if c == '\n' || c == '\r' then
        note start .unterminatedString
        return acc
      else
        skip 1
        readString ctx start quote n (acc ++ Units.ofCodePoint c.toNat)

/-- Reads a string literal. -/
def string (ctx : Context) (quote : Char) : Lex TokenKind := do
  let s ← get
  skip 1
  let value ← readString ctx s.pos quote (s.rest.length + 1) []
  return .str value (← source)

/-- Reads a part of a template up to its closing quote or `${`; returns its value and whether it is
the last part. The first argument bounds the characters to read. -/
def readTemplate (ctx : Context) (start : Nat) : Nat → Except Fault Units →
    Lex (Except Fault Units × Bool)
  | 0, _ => failAt start .unterminatedTemplate
  | n + 1, acc => do
    match (← get).rest with
    | [] => failAt start .unterminatedTemplate
    | '`' :: _ => return (acc, true)
    | '$' :: '\x7b' :: _ => return (acc, false)
    | '\\' :: _ =>
      let r ← tryCatch (Except.ok <$> escapedChar ctx true) fun f => return Except.error f
      match r, acc with
      | .ok (some v), .ok us => readTemplate ctx start n (.ok (us ++ Units.ofCodePoint v))
      | .ok _, acc => readTemplate ctx start n acc
      | .error f, .ok _ => readTemplate ctx start n (.error f)
      | .error f, .error _ => readTemplate ctx start n (.error f)
    | '\r' :: rest =>
      skip (if rest.head? == some '\n' then 2 else 1)
      readTemplate ctx start n (acc.map (· ++ [10]))
    | c :: _ =>
      skip 1
      readTemplate ctx start n (acc.map (· ++ Units.ofCodePoint c.toNat))

/-- Reads a part of a template, after its first character: the opening quote if `isFirst`, else the
brace that closes a substitution. -/
def template (ctx : Context) (isFirst : Bool) : Lex TokenKind := do
  let start := (← curPos) - 1
  let (cooked, isLast) ← readTemplate ctx start ((← get).rest.length + 1) (.ok [])
  let raw := String.ofList ((← source).toList.drop 1)
  skip (if isLast then 1 else 2)
  return .template isFirst isLast raw cooked

/-- The length of the pattern of a regular expression, up to the slash that ends it. -/
def regExpLength : List Char → Bool → Bool → Option Nat
  | [], _, _ => none
  | c :: cs, escaped, inClass =>
    if isLineEnd c then none
    else if escaped then (regExpLength cs false inClass).map (· + 1)
    else if c == '/' && !inClass then some 0
    else
      let inClass' := if c == '[' then true else if c == ']' then false else inClass
      (regExpLength cs (c == '\\') inClass').map (· + 1)

/-- Reads a regular expression after its opening slash. -/
def regExp : Lex TokenKind := do
  let s ← get
  match regExpLength s.rest false false with
  | none =>
    skip (s.rest.takeWhile fun c => !isLineEnd c).length
    failAt (s.pos - 1) .unterminatedRegExp
  | some n =>
    skip n
    let pattern := s.textUpTo (← get)
    skip 1
    if !(← cur).any isAsciiIdentStart then return .regex pattern ""
    let (flags, _) ← readWord ((← get).rest.length + 1) [] false
    return .regex pattern flags

/-! ## Punctuation -/

/-- Punctuation, longer spellings before their beginnings. -/
def punctuators : List (List Char) :=
  [">>>=", "...", "===", "!==", "**=", "<<=", ">>=", ">>>", "&&=", "||=", "??=", "=>", "==", "!=",
    "<=", ">=", "&&", "||", "??", "++", "--", "+=", "-=", "*=", "/=", "%=", "&=", "|=", "^=",
    "<<", ">>", "**", "\x7b", "\x7d", "(", ")", "[", "]", ";", ",", "<", ">", "+", "-", "*", "/",
    "%", "&", "|", "^", "!", "~", "?", ":", "=", ".", "@", "#"].map String.toList

/-- Reads punctuation. -/
def punctuation : Lex TokenKind := do
  let s ← get
  match punctuators.find? (·.isPrefixOf s.rest) with
  | some p =>
    skip p.length
    return .punct (String.ofList p)
  | none =>
    match s.rest with
    | c :: _ =>
      skip 1
      failAt s.pos (.unexpectedChar c)
    | [] => return .eof

/-! ## Tokens -/

/-- The marks that version control leaves in a text with conflicts. -/
def conflictMarkers : List (List Char) :=
  ["=======", "<<<<<<< ", ">>>>>>> ", "||||||| "].map String.toList

/-- Whether a text starts like a comment in the style of markup. The closing mark counts only at the
start of a line. -/
def isLegacyComment (s : LexState) : Bool :=
  ['<', '!', '-', '-'].isPrefixOf s.rest || (s.lineBreak && ['-', '-', '>'].isPrefixOf s.rest)

/-- Passes the rest of the line as a comment, and the white space after it; the mark that starts it
has `n` characters. -/
def skipLine (n : Nat) : Lex Unit := do
  skipLineComment n
  skipAllTrivia

/-- Passes a comment in the style of markup. -/
def skipLegacyComment (ctx : Context) : Lex Unit := do
  let s ← get
  let fault : Lex Unit := do
    if ctx.isModule then note s.pos .legacyComment
  if s.rest.head? == some '<' then
    skipLine 4
    fault
  else
    fault
    skipLine 3

/-- Passes a conflict marker. It is a fault that does not stop the reading, except for the mark of
the common ancestor. -/
def skipConflict : Lex Unit := do
  let s ← get
  let f : Fault := ⟨⟨s.pos, s.pos + 7⟩, .conflictMarker⟩
  modify fun s => s.addFault f
  skipLine 7
  if s.rest.head? == some '|' then throw f

/-- Reads a number that starts with the digit `0`. -/
def zeroNumber (ctx : Context) : Lex TokenKind := do
  match (← get).rest[1]? with
  | some 'x' | some 'X' => radixNumber 16
  | some 'o' | some 'O' => radixNumber 8
  | some 'b' | some 'B' => radixNumber 2
  | _ => number ctx

/-- Reads a token that is not preceded by white space. Comments in the style of markup and conflict
markers before it count as parts of it; the first argument bounds their number. -/
def readToken (ctx : Context) : Nat → Lex TokenKind
  | 0 => return .eof
  | n + 1 => do
    let s ← get
    if isLegacyComment s then
      skipLegacyComment ctx
      return ← readToken ctx n
    if s.lineBreak && conflictMarkers.any (·.isPrefixOf s.rest) then
      skipConflict
      return ← readToken ctx n
    match s.rest with
    | [] => return .eof
    | c :: rest =>
      if c == '0' then zeroNumber ctx
      else if c.isDigit || (c == '.' && rest.head?.any Char.isDigit) then number ctx
      else if c == '"' || c == '\'' then string ctx c
      else if c == '`' then
        skip 1
        template ctx true
      else if isIdentStart c || c == '\\' then word ctx
      else punctuation

/-- Runs a reader of one token; a fault that stops it becomes an error token. Comments before the
token are attached to it. -/
def tokenOf (read : Lex TokenKind) : Lex Token := do
  let kind ← tryCatch read fun f => return .error f
  let s ← get
  let tok : Token := ⟨kind, ⟨s.tokenStart, s.pos⟩, s.lineBreak⟩
  if !kind.isEof then
    set { s with
      comments := s.pending.foldl (fun cs c => cs.addLeading s.tokenStart c) s.comments
      pending := []
      prev := some kind
      prevHi := s.pos }
  return tok

/-- The end of the text. Comments before it trail the last token, or lead an empty text. -/
def endToken : Lex Token := do
  let s ← get
  let add := if s.prev.isNone then Comments.addLeading else Comments.addTrailing
  set { s with
    comments := s.pending.foldl (fun cs c => add cs s.prevHi c) s.comments
    pending := [] }
  return ⟨.eof, ⟨s.pos, s.pos⟩, s.lineBreak⟩

/-- The regular expression whose opening slash started the last token. -/
def regExpToken : Lex Token := do
  let tok ← tokenOf do
    reread
    regExp
  modify fun s => { s with atBadRegExp := tok.kind.isError }
  return tok

/-- The next token. Nothing is read beyond a regular expression that cannot be read. If a text ends in
a comment in the style of markup, all its comments are lost. -/
def nextToken (ctx : Context) : Lex Token := do
  let s ← get
  if s.atBadRegExp then return ← regExpToken
  if s.isStart then
    match s.rest with
    | '#' :: '!' :: rest =>
      let text := rest.takeWhile fun c => !isLineEnd c
      set { s with isStart := false }
      startToken
      return ← tokenOf do
        skip (text.length + 2)
        return .hashbang (String.ofList text)
    | _ => pure ()
  set { s with lineBreak := s.isStart, isStart := false }
  skipAllTrivia
  startToken
  let s ← get
  if s.rest.isEmpty then return ← endToken
  let tok ← tokenOf (readToken ctx (s.rest.length + 1))
  if tok.kind.isEof then modify fun s => { s with comments := {}, pending := [] }
  return tok

/-- The part of a template after the brace that closed a substitution, which was the last token. -/
def templateToken (ctx : Context) : Lex Token :=
  tokenOf do
    reread
    template ctx false

end Lex

end EcmaLower
