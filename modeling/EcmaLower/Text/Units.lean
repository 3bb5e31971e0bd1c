/-!
# Texts of 16-bit units

The value of an ECMAScript string is a sequence of 16-bit units, which need not be well formed: a
surrogate may stand alone. This module converts between unit sequences, code points and `String`.
-/

namespace EcmaLower

/-- The value of a string: a sequence of 16-bit units. -/
abbrev Units := List UInt16

namespace Units

/-- The units of a code point: one in the Basic Multilingual Plane, else a surrogate pair. -/
def ofCodePoint (n : Nat) : Units :=
  if n < 0x10000 then [UInt16.ofNat n]
  else
    [UInt16.ofNat (0xd800 + (n - 0x10000) / 0x400), UInt16.ofNat (0xdc00 + (n - 0x10000) % 0x400)]

/-- The units of a list of characters. -/
def ofChars (cs : List Char) : Units :=
  cs.flatMap fun c => ofCodePoint c.toNat

/-- The units of a text. -/
def ofString (s : String) : Units :=
  ofChars s.toList

/-- First half of a surrogate pair. -/
def isLead (u : UInt16) : Bool :=
  0xd800 ≤ u && u ≤ 0xdbff

/-- Second half of a surrogate pair. -/
def isTrail (u : UInt16) : Bool :=
  0xdc00 ≤ u && u ≤ 0xdfff

/-- The code point of a surrogate pair. -/
def joinPair (lead trail : UInt16) : Nat :=
  0x10000 + (lead.toNat - 0xd800) * 0x400 + (trail.toNat - 0xdc00)

/-- The code points of a text: surrogate pairs are joined and lone surrogates kept. -/
def codePoints : Units → List Nat
  | [] => []
  | [u] => [u.toNat]
  | u :: v :: rest =>
    if isLead u && isTrail v then joinPair u v :: codePoints rest
    else u.toNat :: codePoints (v :: rest)

/-- The character of a code point, with U+FFFD for a lone surrogate. -/
def charOf (n : Nat) : Char :=
  if h : n.isValidChar then Char.ofNatAux n h else '�'

/-- The text of a unit sequence; each lone surrogate becomes U+FFFD. -/
def toText (us : Units) : String :=
  String.ofList (us.codePoints.map charOf)

end Units

end EcmaLower
