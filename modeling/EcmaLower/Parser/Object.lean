import EcmaLower.Parser.Function

/-!
# Object literals
-/

namespace EcmaLower

namespace Parse

/-- The parameters of a getter, of which there should be none; faults are reported at its key. -/
def getterParams (g : Grammar) (key : Span) : Parse (List Node) := do
  let ps ← formalParams g
  if !ps.isEmpty then note key .getterParams
  return ps

/-- The parameters of a setter, of which there should be one; faults are reported at its key. -/
def setterParams (g : Grammar) (key : Span) : Parse (List Node) := do
  let ps ← formalParams g
  if ps.length != 1 then note key .setterParams
  match ps with
  | p :: _ => if p.tag == .restPat then note p.span .setterRest
  | [] => pure ()
  return ps

/-- Parameters and body of a method. -/
def methodTail (g : Grammar) (start : Nat) (params : Parse (List Node))
    (isAsync isGenerator : Bool) : Parse Node :=
  within (fun c => { c with allowSuper := true, inField := false })
    (functionTail g start params isAsync isGenerator)

/-- The parameter and body that a setter keeps of a function. -/
def setterParts (f : Node) : Option (Node × Node) :=
  match f.kids with
  | [.mk _ _ [p], b] => some (p, b)
  | [.mk _ _ (_ :: p :: _), b] => some (p, b)
  | _ => none

/-- A property that starts with the word `get`, `set` or `async` and goes on with a key. -/
def modifiedProperty (g : Grammar) (start : Nat) (modifier : String) : Parse Node := do
  let isGenerator ← if modifier == "async" then eat "*" else pure false
  let key ← propertyKey g
  match modifier with
  | "get" =>
    let f ← methodTail g start (getterParams g key.span) false false
    match f.kids with
    | [_, b] => return .mk (← spanFrom start) .getter [key, b]
    | _ => return .mk (← spanFrom start) .invalid []
  | "set" =>
    let f ← methodTail g start (setterParams g key.span) false false
    match setterParts f with
    | some (p, b) => return .mk (← spanFrom start) .setter [key, p, b]
    | none => return .mk (← spanFrom start) .invalid []
  | _ =>
    let f ← methodTail g start (formalParams g) true isGenerator
    return .mk (← spanFrom start) .objMethod [key, f]

/-- A property whose key is a word and is not followed by `:` or `(`. -/
def wordProperty (g : Grammar) (start : Nat) (name : Ident) : Parse Node := do
  if ← eat "?" then note (← prevSpan) .optionalProperty
  let k ← kind
  if k.isPunct "=" || k.isPunct "," || k.isPunct "\x7d" then
    if ← eat "=" then
      let value ← g.assign
      return .mk (← spanFrom start) (.initShorthand name) [value]
    return .mk name.span (.shorthand name.name) []
  if name.name == "get" || name.name == "set" || name.name == "async" then
    modifiedProperty g start name.name
  else unexpected "... , *,  (, [, :, , ?, = or an identifier"

/-- A property of an object literal. -/
def objectProperty (g : Grammar) : Parse Node := do
  let start ← curPos
  if ← eat "..." then
    let e ← g.assign
    return .mk (← spanFrom start) .spread [e]
  if ← eat "*" then
    let key ← propertyKey g
    let f ← methodTail g start (formalParams g) false true
    return .mk (← spanFrom start) .objMethod [key, f]
  let key ← propertyKey g
  if ← eat ":" then
    let value ← g.assign
    return .mk (← spanFrom start) .keyValue [key, value]
  if ← isAt "(" then
    let f ← methodTail g start (formalParams g) false false
    return .mk (← spanFrom start) .objMethod [key, f]
  match key.tag with
  | .keyName n => wordProperty g start ⟨n, key.span⟩
  | _ => unexpected "identifier"

/-- An object literal. -/
def objectLiteral (g : Grammar) : Parse Node := do
  let start ← curPos
  let (props, comma) ← within (fun c => { c with beforeColon := false })
    (braced (objectProperty g))
  if let some c := comma then
    modify fun s => { s with trailingCommas := (start, c) :: s.trailingCommas }
  return .mk (← spanFrom start) .object props

end Parse

end EcmaLower
