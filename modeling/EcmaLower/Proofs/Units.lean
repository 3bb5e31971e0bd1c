import EcmaLower.Text.Units
import Mathlib.Tactic.Lemma

/-!
# Texts and their units

The value of a string literal is a sequence of 16-bit units. A text that is written as such a sequence
is read back from it: the units of a character are joined again, whatever follows them.
-/

namespace EcmaLower.Units

lemma isLead_iff {u : UInt16} : isLead u = true ↔ 0xd800 ≤ u.toNat ∧ u.toNat ≤ 0xdbff := by
  simp [isLead, UInt16.le_iff_toNat_le]

lemma isTrail_iff {u : UInt16} : isTrail u = true ↔ 0xdc00 ≤ u.toNat ∧ u.toNat ≤ 0xdfff := by
  simp [isTrail, UInt16.le_iff_toNat_le]

/-- A unit that does not open a pair stands for itself. -/
lemma codePoints_cons {u : UInt16} (h : isLead u = false) (us : Units) :
    codePoints (u :: us) = u.toNat :: codePoints us := by
  cases us with
  | nil => rfl
  | cons v us => simp [codePoints, h]

/-- The two halves of a pair are joined. -/
lemma codePoints_pair {u v : UInt16} (hu : isLead u = true) (hv : isTrail v = true) (us : Units) :
    codePoints (u :: v :: us) = joinPair u v :: codePoints us := by
  rw [codePoints, if_pos (Bool.and_eq_true_iff.mpr ⟨hu, hv⟩)]

/-- **The units of a code point are read as that point**, before any other units. -/
lemma codePoints_ofCodePoint_append {n : Nat} (h : n.isValidChar) (us : Units) :
    codePoints (ofCodePoint n ++ us) = n :: codePoints us := by
  have hn : n < 0xd800 ∨ 0xdfff < n ∧ n < 0x110000 := h
  unfold ofCodePoint
  split
  · have hu : (UInt16.ofNat n).toNat = n := by rw [UInt16.toNat_ofNat']; omega
    have hlead : isLead (UInt16.ofNat n) = false := by
      rw [Bool.eq_false_iff, ne_eq, isLead_iff, hu]
      omega
    rw [List.singleton_append, codePoints_cons hlead, hu]
  · -- a pair takes the ten upper and the ten lower bits
    have hlead : (UInt16.ofNat (0xd800 + (n - 0x10000) / 0x400)).toNat =
        0xd800 + (n - 0x10000) / 0x400 := by rw [UInt16.toNat_ofNat']; omega
    have htrail : (UInt16.ofNat (0xdc00 + (n - 0x10000) % 0x400)).toNat =
        0xdc00 + (n - 0x10000) % 0x400 := by rw [UInt16.toNat_ofNat']; omega
    have hjoin : joinPair (UInt16.ofNat (0xd800 + (n - 0x10000) / 0x400))
        (UInt16.ofNat (0xdc00 + (n - 0x10000) % 0x400)) = n := by
      unfold joinPair
      omega
    rw [List.cons_append, List.singleton_append, codePoints_pair, hjoin]
    · rw [isLead_iff, hlead]
      omega
    · rw [isTrail_iff, htrail]
      omega

lemma codePoints_ofChars (cs : List Char) : codePoints (ofChars cs) = cs.map Char.toNat := by
  induction cs with
  | nil => rfl
  | cons c cs ih =>
    rw [ofChars, List.flatMap_cons, codePoints_ofCodePoint_append (n := c.toNat) c.valid, List.map_cons, ← ih, ofChars]

lemma charOf_toNat (c : Char) : charOf c.toNat = c := by
  have h : c.toNat.isValidChar := c.valid
  rw [charOf, dif_pos h]
  rfl

/-- **A text is read back from its units.** -/
@[simp] theorem toText_ofString (s : String) : toText (ofString s) = s := by
  rw [toText, ofString, codePoints_ofChars, List.map_map]
  have hid : (charOf ∘ Char.toNat) = id := funext charOf_toNat
  rw [hid, List.map_id, String.ofList_toList]

end EcmaLower.Units
