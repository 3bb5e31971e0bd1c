import EcmaLower.Proofs.Parser.Reading

/-!
# What tokens are

The tokens that are read have a place in the text. A part of a template keeps both its text and the
value of its text, and other code looks at the one to learn of the other: a part that is written with
nothing has the empty value, because a reader that adds to the value has passed a character.
-/

namespace EcmaLower

variable {s s₀ t : LexState} {cs : List Char} {α : Type} {Q : α → Prop}

/-- A part of a template that is written with nothing has the empty value. -/
def TokenKind.Spelled : TokenKind → Prop
  | .template _ _ raw (.ok value) => raw = "" → value = []
  | _ => True

/-- A token that has a place in the text, and whose value is that of its text. -/
structure Token.Sound (t : Token) : Prop where
  placed : 1 ≤ t.span.lo
  spelled : t.kind.Spelled

namespace Lex

open TokenKind (Spelled)

/-! ## Tokens other than templates -/

section Yields

variable {α β : Type} {Q : β → Prop}

/-- What a reader reads has a property, wherever it starts. -/
def Yields (m : Lex β) (Q : β → Prop) : Prop := ∀ s a t, m s = .ok a t → Q a

lemma Yields.pure {a : β} (h : Q a) : Yields (pure a) Q := by
  rintro s _ _ ⟨⟩
  exact h

lemma Yields.next {m : Lex α} {f : α → Lex β} (h : ∀ a, Yields (f a) Q) : Yields (m >>= f) Q := by
  intro s b u hb
  change EStateM.bind m f s = _ at hb
  unfold EStateM.bind at hb
  split at hb
  · next a t _ => exact h a t b u hb
  · cases hb

lemma Yields.failAt {pos : Nat} {cause : Cause} : Yields (failAt pos cause) Q := by
  rintro s _ _ ⟨⟩

lemma Yields.ite {c : Prop} [Decidable c] {m m' : Lex β} (h : Yields m Q) (h' : Yields m' Q) :
    Yields (if c then m else m') Q := by
  split
  · exact h
  · exact h'

/-- A check that may stop a reader. -/
lemma Yields.check {c : Prop} [Decidable c] {m : Lex Unit} {f : Unit → Lex β}
    (h : ∀ x, Yields (f x) Q) : Yields (if c then m >>= f else f ()) Q := .ite (.next h) (h ())

lemma Leads.of_value {m : Lex β} [hm : Steady m] (hs : s₀.Follows s) (h : ∀ a t, m s = .ok a t → Q a) :
    Leads s₀ Q (m s) := by
  have hfollows := hs.trans (hm.moves s).follows
  revert hfollows h
  cases m s with
  | ok a t => exact fun h hf => ⟨hf, fun _ => h a t rfl⟩
  | error e t => exact fun _ hf => hf

/-- The rule of sequences within a token. -/
lemma Leads.move {m : Lex α} {f : α → Lex β} [hm : Steady m] (hs : s₀.Follows s)
    (hf : ∀ a t, s.Moves t → Leads s₀ Q (f a t)) : Leads s₀ Q ((m >>= f) s) := by
  have hmoves := hm.moves s
  change Leads s₀ Q (EStateM.bind m f s)
  unfold EStateM.bind
  revert hmoves
  cases m s with
  | ok a t => exact fun hmoves => hf a t hmoves
  | error e t => exact fun hmoves => hs.trans hmoves.follows

end Yields

lemma yields_radixNumber (radix : Nat) : Yields (radixNumber radix) Spelled := by
  unfold radixNumber
  refine .next fun _ => .next fun start => .next fun c => .next fun _ => .next fun isBig => ?_
  dsimp only
  refine .ite (.check fun _ => .next fun _ => .pure trivial) ?_
  exact .next fun _ => .next fun _ => .pure trivial

lemma yields_decimalTail : Yields decimalTail Spelled := by
  unfold decimalTail
  refine .next fun dot => ?_
  extract_lets last exponentDigits exponent
  have hlast : ∀ r, Yields (last r) Spelled := fun r => .next fun _ => .next fun _ => .pure trivial
  have hdigits : ∀ r, Yields (exponentDigits r) Spelled := fun r => .next hlast
  have hexponent : ∀ r, Yields (exponent r) Spelled := by
    refine fun r => .next fun c => ?_
    split
    · refine .ite (.next fun _ => .next fun d => ?_) (hlast ())
      split
      · exact .next fun _ => .next hdigits
      · exact .check hdigits
    · exact hlast ()
  clear_value exponent
  exact .check hexponent

lemma yields_number (c : Context) : Yields (number c) Spelled := by
  unfold number
  refine .next fun s => .ite yields_decimalTail (.next fun ds => .next fun hi => ?_)
  extract_lets startsWithZero length decimal
  have hdecimal : ∀ r, Yields (decimal r) Spelled := by
    refine fun r => .ite (.ite ?_ ?_) yields_decimalTail
    · exact .next fun _ => .next fun _ => .next fun _ => .pure trivial
    · exact .next fun _ => yields_decimalTail
  clear_value decimal
  refine .ite (.next fun isBig => ?_) (hdecimal ())
  exact .ite (.next fun _ => .pure trivial) (hdecimal ())

lemma yields_zeroNumber (c : Context) : Yields (zeroNumber c) Spelled := by
  refine .next fun s => ?_
  split
  all_goals first | exact yields_radixNumber _ | exact yields_number c

lemma yields_string (c : Context) (quote : Char) : Yields (string c quote) Spelled :=
  .next fun _ => .next fun _ => .next fun _ => .next fun _ => .pure trivial

lemma yields_word (c : Context) : Yields (word c) Spelled := by
  refine .next fun s => .next fun (w, escaped) => .ite (.check fun _ => ?_) (.pure trivial)
  exact .next fun _ => .pure trivial

lemma yields_punctuation : Yields punctuation Spelled := by
  refine .next fun s => ?_
  split
  · exact .next fun _ => .pure trivial
  · split
    · exact .next fun _ => .failAt
    · exact .pure trivial

lemma yields_regExp : Yields regExp Spelled := by
  refine .next fun s => ?_
  split
  · exact .next fun _ => .failAt
  · refine .next fun _ => .next fun t => .next fun _ => .next fun c => .ite (.pure trivial) ?_
    exact .next fun _ => .next fun _ => .pure trivial

/-! ## Templates -/

section Passes

variable {α β : Type} {m : Lex α}

/-- A reader that passes a character, if one is left. -/
def Passes (m : Lex α) : Prop := ∀ s, s.rest ≠ [] → s.pos < (after (m s)).pos

lemma passes_skip (n : Nat) : Passes (skip (n + 1)) := fun _ hs => LexState.pos_lt_advance hs n

lemma Passes.bind {f : α → Lex β} (h : Passes m) (hf : ∀ a, Steady (f a)) : Passes (m >>= f) := by
  intro s hs
  have hlt := h s hs
  change s.pos < (after (EStateM.bind m f s)).pos
  unfold EStateM.bind
  revert hlt
  cases m s with
  | ok a t => exact fun hlt => Nat.lt_of_lt_of_le hlt ((hf a).moves t).pos_le
  | error e t => exact id

lemma Passes.map {f : α → β} (h : Passes m) : Passes (f <$> m) :=
  Passes.bind (f := fun a => pure (f a)) h fun _ => inferInstance

lemma Passes.tryCatch {handle : Fault → Lex α} (h : Passes m) (hh : ∀ f, Steady (handle f)) :
    Passes (tryCatch m handle) := by
  intro s hs
  have hlt := h s hs
  change s.pos < (after (EStateM.tryCatch m handle s)).pos
  unfold EStateM.tryCatch
  revert hlt
  cases m s with
  | ok a t => exact id
  | error e t => exact fun hlt => Nat.lt_of_lt_of_le hlt ((hh e).moves t).pos_le

end Passes

lemma passes_escapedChar (c : Context) (inTemplate : Bool) : Passes (escapedChar c inTemplate) := by
  obtain ⟨f, hf, heq⟩ := escapedChar_eq c inTemplate
  intro s hs
  rw [heq]
  exact (passes_skip 0).bind (fun _ => hf s.pos) s hs

/-- **What is added to the value of a template has been passed.** -/
lemma readTemplate_value {c : Context} {start n : Nat} {acc : Except Fault Units} {value : Units} {isLast : Bool}
    (h : readTemplate c start n acc s = .ok (.ok value, isLast) t) : acc = .ok value ∨ s.pos < t.pos := by
  let P (m : Lex (Except Fault Units × Bool)) : Prop :=
    m s = .ok (.ok value, isLast) t → acc = .ok value ∨ s.pos < t.pos
  have hget : ∀ f, P (f s) → P (get >>= f) := fun f hf => hf
  have hreturn : ∀ b, P (pure (acc, b)) := fun b => by
    rintro ⟨⟩
    exact .inl rfl
  have hpass : ∀ {m}, Passes m → s.rest ≠ [] → P m := by
    intro m hm hs hread
    have hlt := hm s hs
    rw [hread] at hlt
    exact .inr hlt
  suffices hP : P (readTemplate c start n acc) from hP h
  have hthrow : ∀ e, P (throw e) := fun e h => by cases h
  cases n with
  | zero => exact hthrow _
  | succ n =>
    unfold readTemplate
    refine hget _ ?_
    split
    · exact hthrow _
    · exact hreturn true
    · exact hreturn false
    · next hrest =>
      refine hpass (((passes_escapedChar c true).map.tryCatch inferInstance).bind fun r => ?_)
        (by simp [hrest])
      split <;> infer_instance
    · next hrest =>
      refine hpass (Passes.bind ?_ inferInstance) (by simp [hrest])
      split
      · exact passes_skip 1
      · exact passes_skip 0
    · next hrest => exact hpass ((passes_skip 0).bind inferInstance) (by simp [hrest])

/-- **A part of a template that is written with nothing has the empty value.** The character before
it, if there is one at all, belongs to the token. -/
lemma spelled_template {c : Context} {isFirst : Bool} {kind : TokenKind} (h : template c isFirst s = .ok kind t)
    (hs : s.InToken cs) (hcs : s.rest = [] ∨ cs ≠ []) : kind.Spelled := by
  change EStateM.bind (readTemplate c (s.pos - 1) (s.rest.length + 1) (.ok [])) _ s = _ at h
  unfold EStateM.bind at h
  cases hread : readTemplate c (s.pos - 1) (s.rest.length + 1) (.ok []) s with
  | error e u =>
    rw [hread] at h
    cases h
  | ok r u =>
    rw [hread] at h
    obtain ⟨cooked, isLast⟩ := r
    obtain ⟨rfl, -⟩ := EStateM.Result.ok.inj h
    cases cooked with
    | error f => trivial
    | ok value =>
      intro hraw
      rcases readTemplate_value hread with hvalue | hlt
      · exact (Except.ok.inj hvalue).symm
      · -- A value that was added to leaves a text of two characters at least.
        have hmoves := Steady.moves (m := readTemplate c (s.pos - 1) (s.rest.length + 1) (.ok [])) s
        rw [hread] at hmoves
        obtain ⟨ds, hu, hrest, hpos⟩ := hs.moves (t := u) hmoves
        have hds : ds ≠ [] := by
          rintro rfl
          exact absurd hlt (hpos ▸ Nat.lt_irrefl _)
        have hcs : cs ≠ [] := hcs.resolve_left (by simp [hrest, hds])
        replace hraw := String.ofList_eq_empty_iff.mp hraw
        rw [hu.tokenSource, String.toList_ofList, List.drop_eq_nil_iff, List.length_append] at hraw
        have hlength := List.length_pos_iff.mpr hcs
        have hlength' := List.length_pos_iff.mpr hds
        omega

lemma inToken_advance (h : s.InToken cs) : ∃ ds, (s.advance 1).InToken ds ∧ ((s.advance 1).rest = [] ∨ ds ≠ []) := by
  obtain ⟨ds, hin, hrest, hpos⟩ := h.moves (s.moves_advance 1)
  refine ⟨cs ++ ds, hin, ?_⟩
  by_cases hs : s.rest = []
  · rw [hs] at hrest
    exact .inl (List.append_eq_nil_iff.mp hrest.symm).2
  · have hlt := LexState.pos_lt_advance hs 0
    refine .inr fun hnil => ?_
    rw [(List.append_eq_nil_iff.mp hnil).2] at hpos
    exact absurd hlt (hpos ▸ Nat.lt_irrefl _)

/-! ## Tokens -/

lemma leads_readToken (c : Context) (n : Nat) (h : s₀.Follows s) (hs : s.InToken cs) :
    Leads s₀ Spelled (readToken c n s) := by
  induction n generalizing s cs with
  | zero => exact ⟨h, fun _ => trivial⟩
  | succ n ih =>
    have hagain : ∀ t, s.Moves t → Leads s₀ Spelled (readToken c n t) := fun t hmoves =>
      have ⟨_, hin, _⟩ := hs.moves hmoves
      ih (h.trans hmoves.follows) hin
    have hplain : ∀ {m : Lex TokenKind} [Steady m], Yields m Spelled → Leads s₀ Spelled (m s) :=
      fun hm => .of_value h (hm s)
    unfold readToken
    refine .get ?_
    split
    · exact .move h fun _ t ht => hagain t ht
    split
    · exact .move h fun _ t ht => hagain t ht
    generalize s.rest = text
    split
    · exact ⟨h, fun _ => trivial⟩
    · split
      · exact hplain (yields_zeroNumber c)
      split
      · exact hplain (yields_number c)
      split
      · exact hplain (yields_string c _)
      split
      · obtain ⟨ds, hin, hds⟩ := inToken_advance hs
        refine .of_value (m := template c true) (s := s.advance 1) (h.trans (s.moves_advance 1).follows) fun k t hk => ?_
        exact spelled_template hk hin hds
      split
      · exact hplain (yields_word c)
      · exact hplain yields_punctuation

/-- **A token is sound** if what is read for it is. -/
lemma leads_tokenOf {read : Lex TokenKind} (h : Leads s₀ Spelled (read s)) :
    Leads s₀ Token.Sound (tokenOf read s) := by
  have hkind : Leads s₀ Spelled (tryCatch read (fun f => return .error f) s) := by
    change Leads s₀ Spelled (EStateM.tryCatch read _ s)
    unfold EStateM.tryCatch
    revert h
    cases read s with
    | ok k t => exact id
    | error e t => exact fun ht => ⟨ht, fun _ => trivial⟩
  unfold tokenOf
  refine hkind.then fun kind t ht hkind => .get ?_
  dsimp only
  split
  · exact ⟨ht.update rfl rfl rfl, fun hs => ⟨(ht.placed hs).tokenStart, hkind hs⟩⟩
  · exact ⟨ht, fun hs => ⟨(ht.placed hs).tokenStart, hkind hs⟩⟩

lemma leads_endToken (h : s₀.Follows s) : Leads s₀ Token.Sound (endToken s) :=
  ⟨h.update rfl rfl rfl, fun hs => ⟨(h.placed hs).pos, trivial⟩⟩

/-- The state at the start of the last token. -/
def rewound (s : LexState) : LexState := { s with rest := s.tokenText, pos := s.tokenStart }

lemma follows_rewound (s : LexState) : s.Follows (rewound s) := ⟨fun h => ⟨h.tokenStart, h.tokenStart⟩, id⟩

lemma inToken_rewound (s : LexState) : (rewound s).InToken [] := ⟨rfl, rfl⟩

/-- What is read again starts behind the first character of the last token. -/
lemma leads_reread {m : Lex α} [hm : Steady m] (h : ∀ a t, m ((rewound s).advance 1) = .ok a t → Q a) :
    Leads s Q ((reread >>= fun _ => m) s) :=
  Leads.of_value (s := (rewound s).advance 1)
    ((follows_rewound s).trans (LexState.moves_advance _ 1).follows) h

lemma leads_regExpToken (s : LexState) : Leads s Token.Sound (regExpToken s) := by
  refine (leads_tokenOf (leads_reread (yields_regExp _))).then fun tok t ht htok => ?_
  exact ⟨ht.update rfl rfl rfl, htok⟩

lemma leads_templateToken (c : Context) (s : LexState) : Leads s Token.Sound (templateToken c s) := by
  obtain ⟨cs, hin, hcs⟩ := inToken_advance (inToken_rewound s)
  exact leads_tokenOf (leads_reread fun k t hk => spelled_template hk hin hcs)

lemma leads_startToken {f : Unit → Lex α}
    (h : Leads s₀ Q (f () { s with tokenText := s.rest, tokenStart := s.pos })) :
    Leads s₀ Q ((startToken >>= f) s) := h

lemma leads_nextToken (c : Context) (s : LexState) : Leads s Token.Sound (nextToken c s) := by
  unfold nextToken
  refine .get ?_
  split
  · exact leads_regExpToken s
  extract_lets rest
  have hstart : ∀ {t : LexState}, s.Follows t →
      s.Follows { t with tokenText := t.rest, tokenStart := t.pos } := fun ht =>
    ht.trans ⟨fun hp => ⟨hp.pos, hp.pos⟩, id⟩
  have hrest : Leads s Token.Sound (rest () s) := by
    refine .set <| .bind ((LexState.Follows.refl s).update rfl rfl rfl) fun _ t ht => ?_
    refine leads_startToken <| .get ?_
    split
    · exact leads_endToken (hstart ht)
    · have hin : LexState.InToken { t with tokenText := t.rest, tokenStart := t.pos } [] := ⟨rfl, rfl⟩
      refine (leads_tokenOf (leads_readToken c _ (hstart ht) hin)).then fun tok t ht htok => ?_
      dsimp only
      split
      · exact ⟨ht.update rfl rfl rfl, htok⟩
      · exact ⟨ht, htok⟩
  split
  · generalize s.rest = text
    split
    · refine .set <| leads_startToken <| leads_tokenOf ?_
      refine .of_value (hstart ((LexState.Follows.refl s).update rfl rfl rfl)) fun k t hk => ?_
      exact Yields.next (fun _ => .pure trivial) _ k t hk
    · exact hrest
  · exact hrest

end Lex

end EcmaLower
