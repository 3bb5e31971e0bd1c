import EcmaLower.Parser.Lexer
import Mathlib.Algebra.GroupWithZero.Nat
import Mathlib.Tactic.Lemma

/-!
# Reading goes on

A reader of tokens never forgets a fault and never leaves the text: whatever it does, the faults that
were recorded stay recorded, and positions keep counting from 1. Both are stated of the states before
and after, as a preorder that every reader keeps to. Within a token more is true: a reader ends at or
behind the place where it began, so that the text of the token is what was passed since it started.
-/

namespace EcmaLower

variable {s s₀ t s' u : LexState} {cs : List Char} {m : Lex α} {f : α → Lex β} {Q : β → Prop}

/-! ## States -/

/-- Positions count from 1. -/
structure LexState.Placed (s : LexState) : Prop where
  pos : 1 ≤ s.pos
  tokenStart : 1 ≤ s.tokenStart

/-- `s.Follows s'`: reading from `s` may have led to `s'`. -/
structure LexState.Follows (s s' : LexState) : Prop where
  placed : s.Placed → s'.Placed
  faults : s'.faults = [] → s.faults = []

/-- How many positions characters take. -/
def LexState.extent (cs : List Char) : Nat := (cs.map Char.utf8Size).sum

/-- `s.Moves s'`: reading from `s`, with no new token started, may have led to `s'`. -/
structure LexState.Moves (s s' : LexState) : Prop where
  tokenText : s'.tokenText = s.tokenText
  tokenStart : s'.tokenStart = s.tokenStart
  faults : s'.faults = [] → s.faults = []
  passed : ∃ cs, s.rest = cs ++ s'.rest ∧ s'.pos = s.pos + extent cs

/-- The characters of a token that were passed so far. -/
structure LexState.InToken (s : LexState) (cs : List Char) : Prop where
  text : s.tokenText = cs ++ s.rest
  pos : s.pos = s.tokenStart + extent cs

namespace LexState

lemma Follows.refl (s : LexState) : s.Follows s := ⟨id, id⟩

lemma Follows.trans (h : s.Follows t) (h' : t.Follows u) : s.Follows u :=
  ⟨h'.placed ∘ h.placed, h.faults ∘ h'.faults⟩

/-- A change of a state that keeps positions and faults. -/
lemma Follows.update (h : s₀.Follows s) (hp : s'.pos = s.pos) (ht : s'.tokenStart = s.tokenStart)
    (hf : s'.faults = s.faults) : s₀.Follows s' :=
  h.trans ⟨fun hs => ⟨hp ▸ hs.pos, ht ▸ hs.tokenStart⟩, fun hs => hf ▸ hs⟩

lemma extent_append (cs ds : List Char) : extent (cs ++ ds) = extent cs + extent ds := by
  simp [extent]

lemma extent_pos (h : cs ≠ []) : 0 < extent cs := by
  obtain ⟨c, cs, rfl⟩ := List.exists_cons_of_ne_nil h
  exact Nat.add_pos_left c.utf8Size_pos _

lemma Moves.refl (s : LexState) : s.Moves s := ⟨rfl, rfl, id, [], rfl, rfl⟩

lemma Moves.trans (h : s.Moves t) (h' : t.Moves u) : s.Moves u := by
  obtain ⟨cs, hrest, hpos⟩ := h.passed
  obtain ⟨ds, hrest', hpos'⟩ := h'.passed
  refine ⟨h'.tokenText.trans h.tokenText, h'.tokenStart.trans h.tokenStart, h.faults ∘ h'.faults, cs ++ ds, ?_, ?_⟩
  · rw [hrest, hrest', List.append_assoc]
  · rw [hpos', hpos, extent_append, Nat.add_assoc]

lemma Moves.pos_le (h : s.Moves t) : s.pos ≤ t.pos := by
  obtain ⟨cs, -, hpos⟩ := h.passed
  exact hpos ▸ Nat.le_add_right ..

lemma Moves.follows (h : s.Moves t) : s.Follows t :=
  ⟨fun hs => ⟨Nat.le_trans hs.pos h.pos_le, h.tokenStart ▸ hs.tokenStart⟩, h.faults⟩

/-- A change of a state that leaves the text alone. -/
lemma Moves.update (h : s₀.Moves s) (hrest : s'.rest = s.rest) (hp : s'.pos = s.pos)
    (htext : s'.tokenText = s.tokenText) (ht : s'.tokenStart = s.tokenStart)
    (hf : s'.faults = [] → s.faults = []) : s₀.Moves s' :=
  h.trans ⟨htext, ht, hf, [], by simp [hrest], by simp [hp, extent]⟩

/-- Going back to where the reader was before. -/
lemma Moves.back (h : s.Moves t) : s.Moves { t with rest := s.rest, pos := s.pos } :=
  ⟨h.tokenText, h.tokenStart, h.faults, [], rfl, rfl⟩

lemma moves_advance (s : LexState) (n : Nat) : s.Moves (s.advance n) := by
  induction n generalizing s with
  | zero => exact .refl s
  | succ n ih =>
    rw [advance]
    split
    · exact .refl s
    · next c cs hrest =>
      have hstep : s.Moves { s with rest := cs, pos := s.pos + c.utf8Size } :=
        ⟨rfl, rfl, id, [c], hrest, by simp [extent]⟩
      exact hstep.trans (ih _)

lemma pos_lt_advance (h : s.rest ≠ []) (n : Nat) : s.pos < (s.advance (n + 1)).pos := by
  obtain ⟨c, cs, hrest⟩ := List.exists_cons_of_ne_nil h
  let t : LexState := { s with rest := cs, pos := s.pos + c.utf8Size }
  have hstep : s.advance (n + 1) = t.advance n := by rw [advance, hrest]
  have hlt : s.pos < t.pos := Nat.lt_add_of_pos_right c.utf8Size_pos
  rw [hstep]
  exact Nat.lt_of_lt_of_le hlt (t.moves_advance n).pos_le

lemma moves_addFault (s : LexState) (f : Fault) : s.Moves (s.addFault f) :=
  (Moves.refl s).update rfl rfl rfl rfl nofun

/-- The characters of a token up to where a reader has come. -/
lemma sliceUpTo_append (pos : Nat) (cs rest : List Char) : sliceUpTo (pos + extent cs) pos (cs ++ rest) = cs := by
  induction cs generalizing pos with
  | nil => cases rest <;> simp [sliceUpTo, extent]
  | cons c cs ih =>
    have hcount : pos + extent (c :: cs) = pos + c.utf8Size + extent cs := by
      simp [extent, Nat.add_assoc]
    have hlt : pos < pos + extent (c :: cs) := Nat.lt_add_of_pos_right (extent_pos nofun)
    rw [List.cons_append, sliceUpTo, if_pos hlt, hcount, ih]

lemma InToken.tokenSource (h : s.InToken cs) : s.tokenSource = String.ofList cs := by
  rw [LexState.tokenSource, h.text, h.pos, sliceUpTo_append]

lemma InToken.moves (h : s.InToken cs) (hm : s.Moves t) :
    ∃ ds, t.InToken (cs ++ ds) ∧ s.rest = ds ++ t.rest ∧ t.pos = s.pos + extent ds := by
  obtain ⟨ds, hrest, hpos⟩ := hm.passed
  refine ⟨ds, ⟨?_, ?_⟩, hrest, hpos⟩
  · rw [hm.tokenText, h.text, hrest, List.append_assoc]
  · rw [hpos, h.pos, hm.tokenStart, extent_append, Nat.add_assoc]

end LexState

namespace Lex

/-- The state in which a reader ends. -/
def after {α : Type} : EStateM.Result Fault LexState α → LexState
  | .ok _ s => s
  | .error _ s => s

/-- A reader that forgets no fault, starts no token and moves on in the text. -/
class Steady {α : Type} (m : Lex α) : Prop where
  moves (s : LexState) : s.Moves (after (m s))

section Rules

variable {α β : Type}

instance (a : α) : Steady (pure a : Lex α) := ⟨fun s => .refl s⟩

instance (f : Fault) : Steady (throw f : Lex α) := ⟨fun s => .refl s⟩

instance : Steady (get : Lex LexState) := ⟨fun s => .refl s⟩

instance (m : Lex α) (f : α → Lex β) [hm : Steady m] [hf : ∀ a, Steady (f a)] : Steady (m >>= f) where
  moves s := by
    have h := hm.moves s
    change s.Moves (after (EStateM.bind m f s))
    unfold EStateM.bind
    split
    · next a t heq =>
      rw [heq] at h
      exact h.trans ((hf a).moves t)
    · next e t heq =>
      rw [heq] at h
      exact h

/-- The rule of sequences where the second part needs an argument of its own. -/
lemma Steady.next [Steady m] (hf : ∀ a, Steady (f a)) : Steady (m >>= f) := inferInstance

instance (m : Lex α) (f : α → β) [Steady m] : Steady (f <$> m) := inferInstanceAs (Steady (m >>= fun a => pure (f a)))

instance (m : Lex α) [Steady m] : Steady (discard m) := inferInstanceAs (Steady (m >>= fun _ => pure ()))

instance (m : Lex α) (h : Fault → Lex α) [hm : Steady m] [hh : ∀ f, Steady (h f)] : Steady (tryCatch m h) where
  moves s := by
    have hs := hm.moves s
    change s.Moves (after (EStateM.tryCatch m h s))
    unfold EStateM.tryCatch
    split
    · next e t heq =>
      rw [heq] at hs
      exact hs.trans ((hh e).moves _)
    · exact hs

instance (c : Prop) [Decidable c] (m m' : Lex α) [Steady m] [Steady m'] : Steady (if c then m else m') := by
  split <;> infer_instance

/-- The rule of sequences for a reader that looks back to the state `s₀`. -/
lemma moves_bind [hm : Steady m] (h : s₀.Moves s) (hf : ∀ a t, s₀.Moves t → s₀.Moves (after (f a t))) :
    s₀.Moves (after ((m >>= f) s)) := by
  have hs := h.trans (hm.moves s)
  change s₀.Moves (after (EStateM.bind m f s))
  unfold EStateM.bind
  revert hs
  cases m s with
  | ok a t => exact fun hs => hf a t hs
  | error e t => exact id

lemma moves_get {f : LexState → Lex β} (h : s₀.Moves (after (f s s))) : s₀.Moves (after ((get >>= f) s)) := h

/-- What holds of the outcome of a reader that was in state `s` before: where it led, and that it
read a value with property `Q` if it read one. -/
def Leads (s : LexState) (Q : α → Prop) : EStateM.Result Fault LexState α → Prop
  | .ok a t => s.Follows t ∧ (s.Placed → Q a)
  | .error _ t => s.Follows t

lemma Leads.of_steady [hm : Steady m] (h : s₀.Follows s) : Leads s₀ (fun _ => True) (m s) := by
  have hs := h.trans (hm.moves s).follows
  revert hs
  cases m s with
  | ok a t => exact fun hs => ⟨hs, fun _ => trivial⟩
  | error e t => exact id

lemma Leads.then {P : α → Prop} {Q : β → Prop} {m : Lex α} {f : α → Lex β} (h : Leads s₀ P (m s))
    (hf : ∀ a t, s₀.Follows t → (s₀.Placed → P a) → Leads s₀ Q (f a t)) : Leads s₀ Q ((m >>= f) s) := by
  change Leads s₀ Q (EStateM.bind m f s)
  unfold EStateM.bind
  revert h
  cases m s with
  | ok a t => exact fun h => hf a t h.1 h.2
  | error e t => exact id

lemma Leads.bind [Steady m] (h : s₀.Follows s) (hf : ∀ a t, s₀.Follows t → Leads s₀ Q (f a t)) :
    Leads s₀ Q ((m >>= f) s) :=
  (Leads.of_steady h).then fun a t ht _ => hf a t ht

lemma Leads.get {Q : β → Prop} {f : LexState → Lex β} (h : Leads s₀ Q (f s s)) : Leads s₀ Q ((get >>= f) s) := h

lemma Leads.set {Q : β → Prop} {f : Unit → Lex β} (h : Leads s₀ Q (f () s')) : Leads s₀ Q ((set s' >>= f) s) := h

end Rules

instance : Steady cur := by unfold cur; infer_instance

instance : Steady curPos := by unfold curPos; infer_instance

instance (n : Nat) : Steady (skip n) := ⟨fun s => s.moves_advance n⟩

instance (c : Char) : Steady (eat c) := by unfold eat; infer_instance

instance (f : LexState → Fault) : Steady (modify fun s => s.addFault (f s) : Lex Unit) :=
  ⟨fun s => s.moves_addFault _⟩

instance (pos : Nat) (cause : Cause) : Steady (note pos cause) := ⟨fun s => s.moves_addFault _⟩

instance (c : Context) (pos : Nat) (cause : Cause) : Steady (noteStrict c pos cause) := by
  unfold noteStrict; infer_instance

instance : Steady source := by unfold source; infer_instance

instance {α : Type} (pos : Nat) (cause : Cause) : Steady (failAt pos cause : Lex α) := by
  unfold failAt; infer_instance

/-! ## White space and comments -/

instance (forNext : Bool) (c : Comment) : Steady (storeComment forNext c) where
  moves s := by
    change s.Moves (if forNext then _ else _)
    split <;> exact (LexState.Moves.refl s).update rfl rfl rfl rfl id

instance (n : Nat) : Steady (skipLineComment n) := by unfold skipLineComment; infer_instance

/-- A change of what was seen of the line leaves the rest as it is. -/
instance (b : LexState → Bool) : Steady (modify fun s => { s with lineBreak := b s } : Lex Unit) :=
  ⟨fun s => (LexState.Moves.refl s).update rfl rfl rfl rfl id⟩

instance : Steady skipBlockComment := by
  unfold skipBlockComment
  refine .next fun s₀ => .next fun _ => .next fun s => ?_
  split <;> infer_instance

/-- The end of a line is passed. -/
instance : Steady (modify fun s => { s.advance 1 with lineBreak := true } : Lex Unit) where
  moves s := (s.moves_advance 1).update rfl rfl rfl rfl id

instance (n : Nat) : Steady (skipTrivia n) := by
  induction n with
  | zero => unfold skipTrivia; infer_instance
  | succ n ih =>
    unfold skipTrivia
    refine .next fun s => ?_
    split <;> infer_instance

instance : Steady skipAllTrivia := by unfold skipAllTrivia; infer_instance

/-! ## Numbers -/

instance (radix start : Nat) (enough : List Nat → Bool) (n : Nat) (prev : Option Char)
    (ds : List Nat) : Steady (readDigits radix start enough n prev ds) := by
  induction n generalizing prev ds with
  | zero => unfold readDigits; infer_instance
  | succ n ih =>
    unfold readDigits
    refine .next fun s => ?_
    split
    · infer_instance
    · split <;> infer_instance
    · infer_instance

instance (radix : Nat) : Steady (digits radix) := by unfold digits; infer_instance

instance (radix : Nat) : Steady (someDigits radix) := by unfold someDigits; infer_instance

instance : Steady ensureNotIdent := by unfold ensureNotIdent; infer_instance

set_option synthInstance.maxSize 1000 in
instance (radix : Nat) : Steady (radixNumber radix) := by
  unfold radixNumber
  dsimp only
  infer_instance

instance : Steady decimalTail := by
  unfold decimalTail
  refine .next fun dot => ?_
  extract_lets last exponentDigits exponent
  have hlast : ∀ r, Steady (last r) := fun r => by unfold last; infer_instance
  have hdigits : ∀ r, Steady (exponentDigits r) := fun r => by unfold exponentDigits; infer_instance
  have hexponent : ∀ r, Steady (exponent r) := by
    intro r
    refine .next fun c => ?_
    split
    · split
      · refine .next fun _ => .next fun d => ?_
        split <;> infer_instance
      · infer_instance
    · infer_instance
  clear_value exponent
  infer_instance

set_option synthInstance.maxSize 1000 in
instance (c : Context) : Steady (number c) := by
  unfold number
  dsimp only
  infer_instance

/-! ## Escapes -/

instance (count : Option Nat) : Steady (hexDigits count) := by unfold hexDigits; infer_instance

/-- A low surrogate that is none is read again, from where the reader was before. -/
instance (wanted : String) : Steady (lowSurrogate wanted) where
  moves s := by
    unfold lowSurrogate
    refine moves_get ?_
    split
    · exact .refl s
    · refine moves_bind (.refl s) fun _ t ht => moves_bind ht fun ds t ht => ?_
      dsimp only
      split
      · refine moves_bind ht fun _ t ht => moves_bind ht fun _ t ht => ?_
        split
        · exact ht
        · exact ht.back
      · split
        · exact ht
        · exact ht.back

instance : Steady unicodeEscape := by
  unfold unicodeEscape
  refine .next fun _ => .next fun curly => .next fun start => ?_
  extract_lets close wanted
  have hclose : Steady close := by unfold close; infer_instance
  refine .next fun ds => ?_
  extract_lets value unit join surrogate small valid
  have hjoin : ∀ low, Steady (join low) := by
    intro low
    refine .next fun _ => ?_
    split <;> infer_instance
  have hsurrogate : ∀ r, Steady (surrogate r) := fun r => by unfold surrogate; infer_instance
  have hsmall : ∀ r, Steady (small r) := fun r => by unfold small; infer_instance
  have hvalid : ∀ r, Steady (valid r) := fun r => by unfold valid; infer_instance
  clear_value valid
  infer_instance

instance (first : Nat) : Steady (octalEscape first) := by
  unfold octalEscape
  refine .next fun c => ?_
  split
  · infer_instance
  · refine .next fun _ => .next fun c' => ?_
    split <;> infer_instance

/-- An escape passes its backslash. -/
lemma escapedChar_eq (c : Context) (inTemplate : Bool) : ∃ f : Nat → Lex (Option Nat), (∀ start, Steady (f start)) ∧
      escapedChar c inTemplate = curPos >>= fun start => skip 1 >>= fun _ => f start := by
  unfold escapedChar
  refine ⟨_, fun start => ?_, rfl⟩
  refine .next fun c => ?_
  split
  · infer_instance
  · dsimp only
    split <;> try infer_instance
    split
    · infer_instance
    · split
      · infer_instance
      · infer_instance

instance (c : Context) (inTemplate : Bool) : Steady (escapedChar c inTemplate) := by
  obtain ⟨f, hf, heq⟩ := escapedChar_eq c inTemplate
  rw [heq]
  infer_instance

/-! ## Words, strings and templates -/

instance (n : Nat) (acc : List Char) (escaped : Bool) : Steady (readWord n acc escaped) := by
  induction n generalizing acc escaped with
  | zero => unfold readWord; infer_instance
  | succ n ih =>
    unfold readWord
    refine .next fun c => ?_
    split
    · refine .next fun start => .next fun _ => .next fun c => ?_
      have hrest : Steady (do
          let (v, bySurrogates) ← unicodeEscape
          let c := Units.charOf v
          if bySurrogates || !isIdentPart c then note start .invalidIdentChar
          readWord n (c :: acc) true) := by
        refine .next fun (v, bySurrogates) => ?_
        dsimp only
        infer_instance
      dsimp only
      infer_instance
    · infer_instance
    · infer_instance

instance (c : Context) : Steady (word c) := by unfold word; infer_instance

instance (c : Context) (start : Nat) (quote : Char) (n : Nat) (acc : Units) :
    Steady (readString c start quote n acc) := by
  induction n generalizing acc with
  | zero => unfold readString; infer_instance
  | succ n ih =>
    unfold readString
    refine .next fun c? => ?_
    split
    · infer_instance
    · have hescape : Steady (do
          match ← escapedChar c false with
          | some v => readString c start quote n (acc ++ Units.ofCodePoint v)
          | none => readString c start quote n acc) := by
        refine .next fun v => ?_
        split <;> infer_instance
      infer_instance

instance (c : Context) (quote : Char) : Steady (string c quote) := by unfold string; infer_instance

instance (c : Context) (start n : Nat) (acc : Except Fault Units) : Steady (readTemplate c start n acc) := by
  induction n generalizing acc with
  | zero => unfold readTemplate; infer_instance
  | succ n ih =>
    unfold readTemplate
    refine .next fun s => ?_
    split <;> try infer_instance
    refine .next fun r => ?_
    split <;> infer_instance

instance (c : Context) (isFirst : Bool) : Steady (template c isFirst) := by
  unfold template; infer_instance

instance : Steady regExp := by
  unfold regExp
  refine .next fun s => ?_
  split <;> infer_instance

instance : Steady punctuation := by
  unfold punctuation
  refine .next fun s => ?_
  split
  · infer_instance
  · split <;> infer_instance

/-! ## Tokens -/

instance (n : Nat) : Steady (skipLine n) := by unfold skipLine; infer_instance

instance (c : Context) : Steady (skipLegacyComment c) := by
  unfold skipLegacyComment; infer_instance

instance : Steady skipConflict := by
  unfold skipConflict
  dsimp only
  infer_instance

instance (c : Context) : Steady (zeroNumber c) := by
  unfold zeroNumber
  refine .next fun s => ?_
  split <;> infer_instance

end Lex

end EcmaLower
