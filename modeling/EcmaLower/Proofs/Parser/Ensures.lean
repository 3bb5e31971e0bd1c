import EcmaLower.Parser.Basic
import EcmaLower.Proofs.Parser.Tokens

/-!
# What a parse ensures

Faults that do not stop a parse are recorded, and a text with a recorded fault is rejected in the
end. So what a parser reads matters only if no fault is recorded, and each parser is specified in this
way: it forgets no fault, and if none is recorded when it ends, then its result has a property. That
its arguments were good is a premise *within* that property, so that the rule of sequences needs
nothing to be known of a result that was read with faults.
-/

namespace EcmaLower

variable {s s₀ : ParseState} {l : List α} {m : Parse Unit} {p : Parse α} {c : Prop} {α β : Type}
  {rest : Unit → Parse β} {P : α → Prop}

/-! ## States -/

namespace ParseState

/-- No fault is recorded. -/
def Clean (s : ParseState) : Prop := s.lex.faults = []

/-- The tokens at hand have a place in the text and the value of their text. -/
structure Placed (s : ParseState) : Prop where
  lex : s.lex.Placed
  cur : s.cur.Sound
  next : ∀ t ∈ s.next, t.Sound

/-- `s.Follows s'`: a parse may have led from `s` to `s'`. -/
structure Follows (s s' : ParseState) : Prop where
  placed : s.Placed → s'.Placed
  clean : s'.Clean → s.Clean

lemma Follows.refl (s : ParseState) : s.Follows s := ⟨id, id⟩

lemma Follows.trans {t u : ParseState} (h : s.Follows t) (h' : t.Follows u) : s.Follows u :=
  ⟨h'.placed ∘ h.placed, h.clean ∘ h'.clean⟩

/-- A change that keeps the text and the tokens. -/
lemma Follows.update {s' : ParseState} (h : s₀.Follows s) (hl : s'.lex = s.lex) (hc : s'.cur = s.cur)
    (hn : s'.next = s.next) : s₀.Follows s' :=
  h.trans ⟨fun hs => ⟨hl ▸ hs.lex, hc ▸ hs.cur, hn ▸ hs.next⟩, fun hs => (congrArg LexState.faults hl).symm.trans hs⟩

end ParseState

namespace Parse

/-! ## Outcomes -/

section Rules

variable {α β : Type}

/-- What holds of the outcome of a parse that was in state `s` before. -/
def Ends (s : ParseState) (Q : α → Prop) : EStateM.Result Fault ParseState α → Prop
  | .ok a t => s.Follows t ∧ (s.Placed → t.Clean → Q a)
  | .error _ t => s.Follows t

/-- `Ensures m Q`: the parser `m` forgets no fault, and what it reads without a fault has property
`Q`. -/
def Ensures (m : Parse α) (Q : α → Prop) : Prop := ∀ s, Ends s Q (m s)

/-- A parser that forgets no fault. -/
class Quiet (m : Parse α) : Prop where
  ensures : Ensures m fun _ => True

lemma Ends.from {Q : α → Prop} {r : EStateM.Result Fault ParseState α} (h : s₀.Follows s) (hr : Ends s Q r) :
    Ends s₀ Q r := by
  cases r with
  | ok a t => exact ⟨h.trans hr.1, fun hs => hr.2 (h.placed hs)⟩
  | error e t => exact h.trans hr

namespace Ensures

variable {P Q : α → Prop} {R : β → Prop} {m : Parse α} {f : α → Parse β}

lemma mono (h : Ensures m P) (hpq : ∀ a, P a → Q a) : Ensures m Q := by
  intro s
  have hs := h s
  revert hs
  cases m s with
  | ok a t => exact fun hs => ⟨hs.1, fun hp hc => hpq a (hs.2 hp hc)⟩
  | error e t => exact id

lemma quiet (h : Ensures m P) : Quiet m := ⟨h.mono fun _ _ => trivial⟩

lemma pure {a : α} (h : Q a) : Ensures (pure a) Q := fun s => ⟨.refl s, fun _ _ => h⟩

lemma throw {e : Fault} : Ensures (throw e) Q := fun s => .refl s

/-- **The rule of sequences.** What the first parser ensures is a premise of what the second one
has to ensure. -/
lemma bind (hm : Ensures m P) (hf : ∀ a, Ensures (f a) fun b => P a → R b) : Ensures (m >>= f) R := by
  intro s
  have hs := hm s
  change Ends s R (EStateM.bind m f s)
  unfold EStateM.bind
  revert hs
  cases m s with
  | error e t => exact id
  | ok a t =>
    intro hs
    have ht := hf a t
    change Ends s R (f a t)
    revert ht
    cases f a t with
    | error e u => exact fun ht => hs.1.trans ht
    | ok b u =>
      intro ht
      refine ⟨hs.1.trans ht.1, fun hp hc => ?_⟩
      exact ht.2 (hs.1.placed hp) hc (hs.2 hp (ht.1.clean hc))

lemma next [hm : Quiet m] (hf : ∀ a, Ensures (f a) R) : Ensures (m >>= f) R :=
  hm.ensures.bind fun a => (hf a).mono fun _ hb _ => hb

lemma map {f : α → β} (hm : Ensures m P) (hf : ∀ a, P a → R (f a)) : Ensures (f <$> m) R :=
  bind (f := fun a => Pure.pure (f a)) hm fun a => pure (hf a)

lemma pure_bind {a : α} (h : Ensures (f a) R) : Ensures (Pure.pure a >>= f) R := h

/-- A check that may record a fault, after which the parse goes on in any case. -/
lemma check {c : Prop} [Decidable c] {m : Parse Unit} {rest : Unit → Parse β} [Quiet m]
    (h : ∀ x, Ensures (rest x) R) : Ensures (if c then m >>= rest else rest ()) R := by
  split
  · exact next h
  · exact h ()

lemma ite [Decidable c] {m m' : Parse α} (h : c → Ensures m Q) (h' : ¬c → Ensures m' Q) :
    Ensures (if c then m else m') Q := by
  split
  · exact h ‹_›
  · exact h' ‹_›

lemma tryCatch {h : Fault → Parse α} (hm : Ensures m Q) (hh : ∀ f, Ensures (h f) Q) : Ensures (tryCatch m h) Q := by
  intro s
  have hs := hm s
  change Ends s Q (EStateM.tryCatch m h s)
  unfold EStateM.tryCatch
  revert hs
  cases m s with
  | ok a t => exact id
  | error e t => exact fun hs => Ends.from hs (hh e t)

end Ensures

instance (a : α) : Quiet (pure a) := ⟨.pure trivial⟩

instance (m : Parse α) (f : α → Parse β) [Quiet m] [hf : ∀ a, Quiet (f a)] : Quiet (m >>= f) :=
  ⟨.next fun a => (hf a).ensures⟩

instance (m : Parse α) (f : α → β) [hm : Quiet m] : Quiet (f <$> m) := ⟨hm.ensures.map fun _ _ => trivial⟩

instance (m : Parse α) [Quiet m] : Quiet (discard m) := inferInstanceAs (Quiet (m >>= fun _ => pure ()))

instance (c : Prop) [Decidable c] (m m' : Parse α) [Quiet m] [Quiet m'] : Quiet (if c then m else m') := by
  split <;> infer_instance

instance (m : Parse α) (h : Fault → Parse α) [hm : Quiet m] [hh : ∀ f, Quiet (h f)] :
    Quiet (tryCatch m h) := ⟨hm.ensures.tryCatch fun f => (hh f).ensures⟩

instance : Quiet (get : Parse ParseState) := ⟨fun s => ⟨.refl s, fun _ _ => trivial⟩⟩

end Rules

/-- A change that keeps the text and the tokens. -/
lemma quiet_modify {f : ParseState → ParseState} (hl : ∀ s, (f s).lex = s.lex)
    (hc : ∀ s, (f s).cur = s.cur) (hn : ∀ s, (f s).next = s.next) : Quiet (modify f : Parse Unit) :=
  ⟨fun s => ⟨(ParseState.Follows.refl s).update (hl s) (hc s) (hn s), fun _ _ => trivial⟩⟩

instance (start : Nat) (comma : Span) : Quiet
    (modify fun s => { s with trailingCommas := (start, comma) :: s.trailingCommas } : Parse Unit) :=
  quiet_modify (fun _ => rfl) (fun _ => rfl) fun _ => rfl

/-- A parse that may be given up: the state before it is restored, with the faults it had. -/
lemma Ensures.attempt {Q : α → Prop} {test : Parse Bool} [hm : Quiet m] [ht : Quiet test]
    {yes : ParseState → Parse α} {no : α} (hyes : ∀ s, Ensures (yes s) Q) (hno : Q no) : Ensures (do
      let s ← get
      m
      if ← test then yes s
      else
        set s
        return no) Q := by
  intro s
  have hs := hm.ensures s
  change Ends s Q (EStateM.bind m _ s)
  unfold EStateM.bind
  revert hs
  cases m s with
  | error e t => exact id
  | ok a t =>
    intro hs
    have ht := ht.ensures t
    change Ends s Q (EStateM.bind test _ t)
    unfold EStateM.bind
    revert ht
    cases test t with
    | error e u => exact fun ht => hs.1.trans ht
    | ok b u =>
      intro ht
      cases b with
      | true => exact Ends.from (hs.1.trans ht.1) (hyes s u)
      | false => exact ⟨.refl s, fun _ _ => hno⟩

/-! ## Tokens -/

/-- A reader of tokens that keeps to the text, and what the parse makes of the token. -/
lemma ends_lex {r : Lex Token} (h : ∀ l, Lex.Leads l Token.Sound (r l)) {f : Token → Parse β} {Q : β → Prop}
    (hf : ∀ t l, s.Follows { s with lex := l } → (s.Placed → t.Sound) → Ends s Q (f t { s with lex := l })) :
    Ends s Q ((lex r >>= f) s) := by
  have hl := h s.lex
  change Ends s Q (EStateM.bind (lex r) f s)
  unfold EStateM.bind lex
  revert hl
  cases r s.lex with
  | ok t l =>
    intro hl
    exact hf t l ⟨fun hs => ⟨hl.1.placed hs.lex, hs.cur, hs.next⟩, hl.1.faults⟩ fun hs => hl.2 hs.lex
  | error e l => exact fun hl => ⟨fun hs => ⟨hl.placed hs.lex, hs.cur, hs.next⟩, hl.faults⟩

lemma ends_get {f : ParseState → Parse β} {Q : β → Prop} (h : Ends s Q (f s s)) : Ends s Q ((get >>= f) s) := h

instance : Quiet ctx := by unfold ctx; infer_instance

lemma ensures_kind : Ensures kind TokenKind.Spelled := fun s => ⟨.refl s, fun hs _ => hs.cur.spelled⟩

instance : Quiet kind := ensures_kind.quiet

lemma ensures_curPos : Ensures curPos (1 ≤ ·) := fun s => ⟨.refl s, fun hs _ => hs.cur.placed⟩

instance : Quiet curPos := ensures_curPos.quiet

instance : Quiet curSpan := by unfold curSpan; infer_instance

instance : Quiet prevSpan := by unfold prevSpan; infer_instance

lemma ensures_spanFrom (start : Nat) : Ensures (spanFrom start) (·.lo = start) := fun s => ⟨.refl s, fun _ _ => rfl⟩

instance (start : Nat) : Quiet (spanFrom start) := (ensures_spanFrom start).quiet

instance : Quiet lineBreakBefore := by unfold lineBreakBefore; infer_instance

/-- The next token becomes the current one. -/
instance : Quiet bump where
  ensures := by
    intro s
    unfold bump
    refine ends_get ?_
    cases hnext : s.next with
    | some t => exact ⟨⟨fun hs => ⟨hs.lex, hs.next t hnext, nofun⟩, id⟩, fun _ _ => trivial⟩
    | none =>
      refine ends_lex (Lex.leads_nextToken s.ctx) fun t l hl ht => ?_
      exact ⟨⟨fun hs => ⟨(hl.placed hs).lex, ht hs, hs.next⟩, hl.clean⟩, fun _ _ => trivial⟩

instance : Quiet peek where
  ensures := by
    intro s
    unfold peek
    refine ends_get ?_
    cases hnext : s.next with
    | some t => exact ⟨.refl s, fun _ _ => trivial⟩
    | none =>
      dsimp only
      split
      · exact ⟨.refl s, fun _ _ => trivial⟩
      · refine ends_lex (Lex.leads_nextToken s.ctx) fun t l hl ht => ?_
        refine ⟨⟨fun hs => ⟨(hl.placed hs).lex, hs.cur, ?_⟩, hl.clean⟩, fun _ _ => trivial⟩
        rintro _ ⟨⟩
        exact ht hs

instance (t : String) : Quiet (isAt t) := by unfold isAt; infer_instance

instance (w : String) : Quiet (isAtWord w) := by unfold isAtWord; infer_instance

instance (t : String) : Quiet (eat t) := by unfold eat; infer_instance

instance (w : String) : Quiet (eatWord w) := by unfold eatWord; infer_instance

/-! ## Faults -/

/-- A recorded fault is there. -/
lemma ensures_record (f : Fault) : Ensures (record f) fun _ => False :=
  fun _ => ⟨⟨fun hs => ⟨⟨hs.lex.pos, hs.lex.tokenStart⟩, hs.cur, hs.next⟩, nofun⟩, fun _ h => nomatch h⟩

instance (f : Fault) : Quiet (record f) := (ensures_record f).quiet

instance : Quiet recordErrorToken := by
  unfold recordErrorToken
  refine ⟨.next fun k => ?_⟩
  split
  · exact .next fun _ => (inferInstance : Quiet (record _)).ensures
  · exact .pure trivial

lemma ensures_noteFault (f : Fault) : Ensures (noteFault f) fun _ => False := .next fun _ => ensures_record f

instance (f : Fault) : Quiet (noteFault f) := (ensures_noteFault f).quiet

/-- **After a fault was recorded, nothing is left to show.** -/
lemma ensures_note (span : Span) (cause : Cause) : Ensures (note span cause) fun _ => False := ensures_noteFault _

instance (span : Span) (cause : Cause) : Quiet (note span cause) := (ensures_note span cause).quiet

/-- What a check looks for is not there, if the check recorded no fault. -/
lemma Ensures.unless {R : β → Prop} [Decidable c] {span : Span} {cause : Cause}
    (h : ∀ x, Ensures (rest x) fun b => ¬c → R b) : Ensures (if c then note span cause >>= rest else rest ()) R := by
  split
  · exact (ensures_note span cause).bind fun x => (h x).mono fun _ _ hf => hf.elim
  · next hc => exact (h ()).mono fun _ hb => hb hc

instance (span : Span) (cause : Cause) : Quiet (noteStrict span cause) := by
  unfold noteStrict; infer_instance

lemma ensures_fail {Q : α → Prop} (span : Span) (cause : Cause) : Ensures (fail span cause) Q := .next fun _ => .throw

instance {α : Type} (span : Span) (cause : Cause) : Quiet (fail span cause : Parse α) := ⟨ensures_fail span cause⟩

lemma ensures_failHere {Q : α → Prop} (cause : Cause) : Ensures (failHere cause) Q :=
  .next fun _ => ensures_fail _ cause

instance {α : Type} (cause : Cause) : Quiet (failHere cause : Parse α) := ⟨ensures_failHere cause⟩

lemma ensures_unexpected {Q : α → Prop} (wanted : String) :
    Ensures (unexpected wanted) Q := .next fun _ => ensures_failHere _

instance {α : Type} (wanted : String) : Quiet (unexpected wanted : Parse α) := ⟨ensures_unexpected wanted⟩

instance : Quiet failOnErrorToken := by
  unfold failOnErrorToken
  refine ⟨.next fun k => ?_⟩
  split
  · exact .next fun _ => .throw
  · exact .pure trivial

instance (t : String) : Quiet (expect t) := by unfold expect; infer_instance

instance (w : String) : Quiet (expectWord w) := by unfold expectWord; infer_instance

instance : Quiet isSemi := by unfold isSemi; infer_instance

instance : Quiet eatSemi := by unfold eatSemi; infer_instance

instance : Quiet expectSemi := by unfold expectSemi; infer_instance

/-! ## Contexts and repetition -/

section Repetition

variable {α σ : Type} {Q : α → Prop}

lemma Ensures.within {change : Context → Context} {p : Parse α} (h : Ensures p Q) : Ensures (within change p) Q := by
  intro s
  have hin : s.Follows { s with ctx := change s.ctx } := (ParseState.Follows.refl s).update rfl rfl rfl
  have hs := Ends.from hin (h _)
  unfold Parse.within
  revert hs
  cases p { s with ctx := change s.ctx } with
  | ok a t => exact fun hs => ⟨hs.1.update rfl rfl rfl, hs.2⟩
  | error e t => exact fun hs => hs.update rfl rfl rfl

instance (change : Context → Context) (p : Parse α) [hp : Quiet p] : Quiet (within change p) := ⟨hp.ensures.within⟩

lemma Ensures.allowIn {p : Parse α} (h : Ensures p Q) : Ensures (allowIn p) Q := h.within

/-- What a step of a repetition ensures: the invariant of the next state, or the result. -/
def Progress (I : σ → Prop) (Q : α → Prop) : σ ⊕ α → Prop
  | .inl t => I t
  | .inr a => Q a

lemma ensures_iterate {step : σ → Parse (σ ⊕ α)} {I : σ → Prop}
    (h : ∀ s, Ensures (step s) fun r => I s → Progress I Q r) (n : Nat) (s : σ) :
    Ensures (iterate step n s) fun a => I s → Q a := by
  induction n generalizing s with
  | zero => exact .next fun _ => ensures_fail _ _
  | succ n ih =>
    refine (h s).bind fun r => ?_
    cases r with
    | inl t => exact (ih t).mono fun a ha hr hs => ha (hr hs)
    | inr a => exact .pure fun hr hs => hr hs

/-- **The rule of repetition.** An invariant that each step keeps gives the result. -/
lemma Ensures.loop {step : σ → Parse (σ ⊕ α)} (I : σ → Prop) {init : σ} (hinit : I init)
    (h : ∀ s, Ensures (step s) fun r => I s → Progress I Q r) : Ensures (loop init step) Q :=
  .next fun _ => (ensures_iterate h _ init).mono fun _ ha => ha hinit

/-- Collecting keeps an invariant of the list so far. -/
lemma Ensures.collect {step : List α → Parse (Option α)} (I : List α → Prop) (hinit : I [])
    (h : ∀ acc, Ensures (step acc) fun r => ∀ a ∈ r, I acc → I (acc ++ [a])) :
    Ensures (collect step) I := by
  refine .loop I hinit fun acc => (h acc).bind fun r => ?_
  cases r with
  | some a => exact .pure fun hr hacc => hr a rfl hacc
  | none => exact .pure fun _ hacc => hacc

lemma forall_mem_concat {P : α → Prop} {l : List α} {a : α} (hl : ∀ b ∈ l, P b) (ha : P a) : ∀ b ∈ l ++ [a], P b := by
  intro b hb
  rcases List.mem_append.mp hb with hb | hb
  · exact hl b hb
  · exact List.mem_singleton.mp hb ▸ ha

/-- Collecting results that each have a property. -/
lemma Ensures.collect_forall {step : List α → Parse (Option α)} {P : α → Prop}
    (h : ∀ acc, Ensures (step acc) fun r => ∀ a ∈ r, P a) :
    Ensures (Parse.collect step) fun l => ∀ a ∈ l, P a := by
  refine .collect (fun l => ∀ a ∈ l, P a) (by simp) fun acc => (h acc).mono fun r hr a ha hacc => ?_
  exact forall_mem_concat hacc (hr a ha)

/-- A parser run on each element of a list. -/
lemma Ensures.forM {l : List α} {f : α → Parse Unit} {P : α → Prop}
    (h : ∀ a, Ensures (f a) fun _ => P a) : Ensures (l.forM f) fun _ => ∀ a ∈ l, P a := by
  induction l with
  | nil => exact .pure (by simp)
  | cons a l ih =>
    refine (h a).bind fun _ => ih.mono fun _ hl ha => ?_
    exact List.forall_mem_cons.mpr ⟨ha, hl⟩

instance (l : List α) (f : α → Parse Unit) [hf : ∀ a, Quiet (f a)] : Quiet (l.forM f) :=
  (Ensures.forM fun a => (hf a).ensures).quiet

end Repetition

end Parse

end EcmaLower
