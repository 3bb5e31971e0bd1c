import EcmaLower.Config.Number
import EcmaLower.Module.Unit

/-!
# Configuration texts

A configuration text is a JSON object with the options as its fields, each of them at most once, or a
JSON array with the options in order. An option that is left out keeps its default.
-/

namespace EcmaLower.Config

/-! ## Values -/

/-- Fails because the next value is of the wrong kind. -/
def wrongKind {α : Type} (expected : String) : Decode α := placed do
  let fail (found : Found) : Decode α := failLater (.wrongKind found expected)
  match ← peek with
  | some 'n' => do skip; word ['u', 'l', 'l']; fail .null
  | some 't' => do skip; word ['r', 'u', 'e']; fail (.bool true)
  | some 'f' => do skip; word ['a', 'l', 's', 'e']; fail (.bool false)
  | some '-' => do skip; fail (← number true)
  | some '"' => do skip; fail (.str (← string))
  | some '[' => fail .sequence
  | some '\x7b' => fail .map
  | some c => if c.isDigit then fail (← number false) else failNext .expectedValue
  | none => failNext .expectedValue

/-- Reads a string and uses it. -/
def stringValue {α : Type} (expected : String) (use : String → Decode α) : Decode α := do
  match ← blanks with
  | none => failNext .eofInValue
  | some '"' => placed do
    skip
    use (← string)
  | some _ => wrongKind expected

/-- Reads a string or `null`. -/
def optionalString (expected : String) : Decode (Option String) := do
  match ← blanks with
  | some 'n' =>
    skip
    word ['u', 'l', 'l']
    return none
  | _ => stringValue expected fun s => return some s

/-- Reads the colon behind a key. -/
def colon : Decode Unit := do
  match ← blanks with
  | some ':' => skip
  | some _ => failNext .expectedColon
  | none => failNext .eofInObject

/-- Reads `null`. -/
def null : Decode Unit := do
  match ← blanks with
  | none => failNext .eofInValue
  | some 'n' =>
    skip
    word ['u', 'l', 'l']
  | some _ => wrongKind "unit"

/-- Reads the name of a module type. -/
def moduleTypeName : Decode ModuleType :=
  stringValue "variant identifier" fun s =>
    match ModuleType.ofName? s with
    | some t => return t
    | none => failLater (.unknownVariant s)

/-- Reads a module type: its name, or an object with its name as the key of `null`. -/
def moduleType : Decode ModuleType := do
  match ← blanks with
  | some '\x7b' =>
    skip
    let t ← moduleTypeName
    colon
    null
    match ← blanks with
    | some '\x7d' =>
      skip
      return t
    | some _ => failHere .expectedValue
    | none => failHere .eofInObject
  | some '"' => moduleTypeName
  | some _ => failNext .expectedValue
  | none => failNext .eofInValue

/-! ## Fields -/

/-- The options that can be configured. -/
inductive Field
  | moduleName | moduleType | basePath
deriving DecidableEq, Repr

/-- The key of an option. -/
def Field.key : Field → String
  | moduleName => "moduleName"
  | moduleType => "moduleType"
  | basePath => "basePath"

/-- The options, in the order of an array. -/
def Field.all : List Field := [.moduleName, .moduleType, .basePath]

/-- The option of a key. -/
def Field.ofKey? (k : String) : Option Field := all.find? (·.key == k)

/-- Reads the value of an option into the options. -/
def Field.value (f : Field) (o : CompileOptions) : Decode CompileOptions := do
  match f with
  | .moduleName => return { o with moduleName := ← optionalString "a string" }
  | .moduleType => return { o with moduleType := ← Config.moduleType }
  | .basePath => return { o with basePath := ← optionalString "path string" }

/-- Whether another key follows in an object; the cursor is then at its quote. -/
def hasKey (isFirst : Bool) : Decode Bool := do
  match ← blanks with
  | none => failNext .eofInObject
  | some '\x7d' => return false
  | some c =>
    if isFirst then
      if c = '"' then return true else failNext .keyNotString
    else if c = ',' then
      skip
      match ← blanks with
      | some '"' => return true
      | some '\x7d' => failNext .trailingComma
      | some _ => failNext .keyNotString
      | none => failNext .eofInValue
    else failNext .expectedObjectEnd

/-- Reads the fields of an object, at most as many as the first argument says. -/
def fields : Nat → (seen : List Field) → CompileOptions → Decode CompileOptions
  | 0, _, o => return o
  | n + 1, seen, o => do
    if ← hasKey seen.isEmpty then
      skip
      let key ← string
      match Field.ofKey? key with
      | none => failLater (.unknownField key)
      | some f =>
        if seen.contains f then failLater (.duplicateField key)
        colon
        fields n (f :: seen) (← f.value o)
    else return o

/-- Reads the end of an object. -/
def objectEnd : Decode Unit := do
  match ← blanks with
  | some '\x7d' => skip
  | some ',' => failNext .trailingComma
  | some _ => failNext .trailingCharacters
  | none => failNext .eofInObject

/-- Whether another element follows in an array. -/
def hasElement (isFirst : Bool) : Decode Bool := do
  match ← blanks with
  | none => failNext .eofInList
  | some ']' => return false
  | some c =>
    if isFirst then return true
    else if c = ',' then
      skip
      match ← blanks with
      | some ']' => failNext .trailingComma
      | some _ => return true
      | none => failNext .eofInValue
    else failNext .expectedListEnd

/-- Reads the elements of an array as the options in order. -/
def elements : List Field → (isFirst : Bool) → CompileOptions → Decode CompileOptions
  | [], _, o => return o
  | f :: fs, isFirst, o => do
    if ← hasElement isFirst then elements fs false (← f.value o) else return o

/-- Reads the end of an array. -/
def arrayEnd : Decode Unit := do
  match ← blanks with
  | some ']' => skip
  | some ',' =>
    skip
    match ← blanks with
    | some ']' => failNext .trailingComma
    | _ => failNext .trailingCharacters
  | some _ => failNext .trailingCharacters
  | none => failNext .eofInList

/-! ## The whole text -/

/-- Reads the options. -/
def options : Decode CompileOptions := do
  match ← blanks with
  | none => failNext .eofInValue
  | some '[' => placed do
    skip
    andThenAlways (elements Field.all true {}) arrayEnd
  | some '\x7b' => placed do
    skip
    andThenAlways (fields ((← get).rest.length + 1) [] {}) objectEnd
  | some _ => wrongKind "struct CompileOptions"

/-- Reads the options and makes sure that nothing follows them. -/
def document : Decode CompileOptions := do
  let o ← options
  match ← blanks with
  | none => return o
  | some _ => failNext .trailingCharacters

/-- The options that a text gives. -/
def read (text : String) : Except Fault CompileOptions :=
  match document.run ⟨text.toList, ⟨1, 0⟩⟩ with
  | .ok o _ => .ok o
  | .error f _ => .error f

end EcmaLower.Config
