import EcmaLower.Proofs.Parser.Program
import EcmaLower.Proofs.TemplateParentheses

/-!
# The values of templates

A template denotes its texts with the values of its substitutions between them. This module shows that
the call of `concat` in its place denotes the same, whatever strings the other expressions denote, and that
a tag is called with both arrays of texts and with all substitutions.

The call leaves out the texts that are *written* with nothing and passes the *values* of the others. That
the two agree is a fact about the reading of templates (`read_of_parseScript`): a line continuation has an
empty value and a text of its own, but no text is empty and has a value.

## Main results

* `Template.value_concat` — the value of a call of `concat`.
* `Template.value_ruled` — the value of a lowered expression.
* `Template.lowered_values` — what lowered templates denote, and what tags are called with.
-/

namespace EcmaLower

open Node List Build

variable {es : List Node} {qs : List Quasi}
namespace Template

/-! ## Strings of expressions -/

/-- An assignment of strings to expressions under which a string literal denotes its value, and a call of
its `concat` denotes this value followed by the strings of the arguments. -/
structure Denotation (v : Node → Units) : Prop where
  literal (span : Span) (x : StrLit) : v (mk span (.str x) []) = x.value
  concat (text : Units) (args : List Node) : (∀ e ∈ args, e.Is .expr) →
    v (call (member (unitsLit text) "concat") args) = text ++ args.flatMap v

/-- Texts with values between them. -/
def interleave : List Units → List Units → Units
  | [], _ => []
  | text :: _, [] => text
  | text :: texts, value :: values => text ++ (value ++ interleave texts values)

/-- The string of an expression whose templates are still there: that of a template has its texts and the
strings of its substitutions, and that of any other expression is assigned to what becomes of it. -/
def value (v : Node → Units) (n : Node) : Units := n.fold fun span t ks =>
  match t with
  | .template quasis => interleave (quasis.map fun q => q.cooked.getD []) (ks.map (·.2))
  | _ => v (argument ((mk span t (ks.map (·.1))).ruled rule))

lemma value_template (v : Node → Units) (span : Span) (qs : List Quasi) (es : List Node) :
    value v (mk span (.template qs) es) = interleave (qs.map fun q => q.cooked.getD []) (es.map (value v)) := by
  rw [value, fold_mk, map_map]
  rfl

lemma value_of_ne {v : Node → Units} {span : Span} {t : Tag} {ks : List Node} (ht : ∀ qs, t ≠ .template qs) :
    value v (mk span t ks) = v (argument ((mk span t ks).ruled rule)) := by
  have hkids : ∀ f : Node → Units, (ks.map fun k => (k, f k)).map (·.1) = ks := fun f => by
    rw [map_map]
    exact map_id _
  rw [value, fold_mk]
  cases t with
  | template qs => exact absurd rfl (ht qs)
  | _ => simp only [hkids]

/-! ## Calls of `concat` -/

lemma ruled_template (span : Span) (qs : List Quasi) (es : List Node) :
    (mk span (.template qs) es).ruled rule = concat qs (es.map (ruled rule)) := by
  obtain ⟨new, hrule, he⟩ | ⟨hrule, -⟩ := ruled_cases rule span (.template qs) es
  · cases hrule
    exact he
  · cases hrule

lemma ruled_tagged (span quoted : Span) (qs : List Quasi) (tag : Node) (es : List Node) :
    (mk span (.tagged quoted qs) (tag :: es)).ruled rule = tagCall (tag.ruled rule) qs (es.map (ruled rule)) := by
  obtain ⟨new, hrule, he⟩ | ⟨hrule, -⟩ := ruled_cases rule span (.tagged quoted qs) (tag :: es)
  · cases hrule
    exact he
  · cases hrule

lemma argument_concat (qs : List Quasi) (es : List Node) : argument (concat qs es) = concat qs es := by
  obtain ⟨text, htext⟩ := exists_head qs
  rw [concat, htext]
  split <;> rfl

section Calls

variable {v : Node → Units} (hv : Denotation v)

include hv

lemma Denotation.unitsLit (u : Units) : v (unitsLit u) = u := hv.literal _ _

/-- A substitution and the text behind it. -/
lemma flatMap_pieces {q : Quasi} (hq : q.isCooked = true) (e : Node) :
    (pieces e q).flatMap v = v (argument e) ++ q.cooked.getD [] := by
  obtain ⟨value, hcooked, hempty⟩ := Quasi.isCooked_iff.mp hq
  rw [pieces, flatMap_cons, cooked, hcooked]
  by_cases hraw : q.raw = ""
  · simp [hraw, hempty hraw]
  · have hraw : q.raw.isEmpty = false := by simpa [String.isEmpty_iff] using hraw
    simp [hraw, hv.unitsLit]

/-- The arguments of `concat` behind the first text. -/
lemma append_flatMap_pieces (h : qs.length = es.length) (hq : ∀ q ∈ qs, q.isCooked = true) (text : Units) :
    text ++ (zipWith pieces es qs).flatten.flatMap v =
      interleave (text :: qs.map fun q => q.cooked.getD []) (es.map fun e => v (argument e)) := by
  induction es generalizing qs text with
  | nil => simp [interleave]
  | cons e es ih =>
    obtain ⟨q, qs, rfl⟩ := exists_cons_of_length_eq_add_one h
    obtain ⟨hq, hqs⟩ := forall_mem_cons.mp hq
    rw [zipWith_cons_cons, flatten_cons, flatMap_append, flatMap_pieces hv hq,
      append_assoc, ih (by simpa using h) hqs]
    rfl

/-- **The value of a call of `concat`.** -/
lemma value_concat (h : qs.length = es.length + 1) (hq : ∀ q ∈ qs, q.isCooked = true) (hes : ∀ e ∈ es, e.Is .expr) :
    v (concat qs es) = interleave (qs.map fun q => q.cooked.getD []) (es.map fun e => v (argument e)) := by
  obtain ⟨q, qs, rfl⟩ := exists_cons_of_length_eq_add_one h
  obtain ⟨hhead, hqs⟩ := forall_mem_cons.mp hq
  obtain ⟨text, hcooked, -⟩ := Quasi.isCooked_iff.mp hhead
  have hfirst : ((q :: qs).head?.bind cooked).getD (strLit "") = unitsLit text := by
    simp [cooked, hcooked]
  have htexts : (q :: qs).map (fun q => q.cooked.getD []) = text :: qs.map fun q => q.cooked.getD [] := by
    simp [hcooked]
  rw [concat, hfirst, htexts]
  cases es with
  | nil => exact hv.unitsLit text
  | cons e es =>
    rw [if_neg (by simp), tail_cons, hv.concat _ _ (is_pieces hes),
      append_flatMap_pieces hv (by simpa using h) hqs]

/-- **The value of a lowered expression**, as it stands among the arguments of a call.

**Proof sketch.** By induction: a template becomes a call of `concat`, whose value is known from those of
its substitutions. Any other expression has the value of what becomes of it. -/
theorem value_ruled {n : Node} (h : n.Read) : v (argument (n.ruled rule)) = value v n := by
  induction n with
  | mk span t ks ih =>
    by_cases ht : ∃ qs, t = .template qs
    · obtain ⟨qs, rfl⟩ := ht
      obtain ⟨hes, hlength⟩ := parts_of_template h.1
      have hq : ∀ q ∈ qs, q.isCooked = true := by
        simpa [isStray] using (read_mk.mp h).1
      have hkids : (ks.map (ruled rule)).map (fun e => v (argument e)) = ks.map (value v) := by
        rw [map_map]
        exact map_congr_left fun e he => ih e he (h.kid he)
      have hes' : ∀ e ∈ ks.map (ruled rule), e.Is .expr :=
        forall_mem_map.mpr fun e he => (hes e he).2 ▸ ruled_is keepsShape e (hes e he).1
      rw [ruled_template, argument_concat, value_concat hv (by simpa using hlength) hq hes', hkids,
        value_template]
    · exact (value_of_ne fun qs hqs => ht ⟨qs, hqs⟩).symm

end Calls

/-! ## Tags -/

/-- The array of texts for a tag: `Object.freeze(Object.defineProperty([…], "raw", {value:
Object.freeze([…])}))`. -/
def frozenTexts (cooked raw : List Node) : Node :=
  let freeze := fun e => call (path ["Object", "freeze"]) [e]
  freeze (call (path ["Object", "defineProperty"])
    [array cooked, strLit "raw", object [("value", freeze (array raw))]])

/-- An element of the array of texts: the text if it has a value, and `void 0` exactly if it has none. -/
structure IsText (q : Quasi) (e : Node) : Prop where
  some (u : Units) : q.cooked = some u → e = unitsLit u
  none : e = undefined ↔ q.cooked = none

lemma isText_cooked (q : Quasi) : IsText q ((cooked q).getD undefined) := by
  obtain ⟨raw, cooked⟩ := q
  cases cooked with
  | none => exact ⟨nofun, by simp [Template.cooked]⟩
  | some u =>
    refine ⟨fun u' hu => ?_, ?_⟩
    · cases hu
      rfl
    · simp [Template.cooked, unitsLit, undefined, make]

/-- **Lowering templates keeps their values.** Whatever strings expressions denote: what becomes of an
untagged template denotes its texts, all of which have a value, with the strings of its substitutions
between them, and the strings of templates among the substitutions are found in the same way. If
parentheses do not count, the string of a substitution is that of the lowered substitution. What becomes of
a tagged template is a call of the tag with the array of the values and the array of the source texts, and with
all substitutions behind them.

**Proof sketch.** The texts that the call of `concat` leaves out are written with nothing, and a text that is
read has the empty value then. So the arguments denote all texts but the first, and all substitutions, in
order (`append_flatMap_pieces`); nested templates come from the induction over the tree (`value_ruled`). -/
theorem lowered_values {text : String} {p : Parsed Node} (hp : parseScript text = .ok p)
    {v : Node → Units} (hv : Denotation v) :
    let s := p.script
    let out := (Pass.templateLiterals.run s).1
    (∀ span qs es, s.Contains (mk span (.template qs) es) →
      let lowered := (mk span (.template qs) es).ruled rule
      out.Contains lowered ∧ ∃ texts : List Units, qs.map (·.cooked) = texts.map some ∧
        texts.length = es.length + 1 ∧ v lowered = interleave texts (es.map (value v))) ∧
    ((∀ e, v (paren e) = v e) → ∀ e, s.Contains e → value v e = v (e.ruled rule)) ∧
    ∀ span quoted qs tag es, s.Contains (mk span (.tagged quoted qs) (tag :: es)) →
      ∃ cooked raw : List Node,
        out.Contains (call (tag.ruled rule) (frozenTexts cooked raw :: es.map (ruled rule))) ∧
        Forall₂ IsText qs cooked ∧ raw = qs.map fun q => strLit q.raw := by
  intro s out
  have hs : s.WellFormed := wellFormed_of_parseScript hp
  have hread : ∀ {n}, s.Contains n → n.Read := by
    rintro n ⟨m, hm, hn⟩
    have hmread := (read_of_parseScript hp m hm).1
    exact ⟨hmread.1.within hn, any_eq_false_of_within hmread.2 hn⟩
  refine ⟨fun span qs es hm => ⟨contains_ruled hs hm, ?_⟩, fun hparen e he => ?_,
    fun span quoted qs tag es hm => ?_⟩
  · have hn := hread hm
    have hcooked : ∀ q ∈ qs, q.isCooked = true := by simpa [isStray] using (read_mk.mp hn).1
    refine ⟨qs.map fun q => q.cooked.getD [], ?_, ?_, ?_⟩
    · rw [map_map]
      refine map_congr_left fun q hq => ?_
      obtain ⟨u, hu, -⟩ := Quasi.isCooked_iff.mp (hcooked q hq)
      simp [hu]
    · rw [length_map]
      exact (parts_of_template hn.1).2
    · rw [← value_template, ← value_ruled hv hn, ruled_template, argument_concat]
  · rw [← value_ruled hv (hread he), argument]
    split
    · exact hparen _
    · rfl
  · have hcall := contains_ruled hs hm
    rw [ruled_tagged] at hcall
    refine ⟨qs.map fun q => (cooked q).getD undefined, _, hcall, ?_, rfl⟩
    exact forall₂_map_right_iff.mpr (forall₂_same.mpr fun q _ => isText_cooked q)

/-- The strings of expressions in which a name denotes itself, a comma operator its last operand, and
anything else that is neither a literal nor a call is empty. -/
def spelling (n : Node) : Units := n.fold fun _ t ks =>
  match t, ks with
  | .str x, _ => x.value
  | .ident name, _ => Units.ofString name
  | .paren, (_, e) :: _ => e
  | .seq, ks => (ks.getLast?.map (·.2)).getD []
  | .member, (_, obj) :: _ => obj
  | .call, ks => ks.flatMap (·.2)
  | _, _ => []

lemma denotation_spelling : Denotation spelling where
  literal span x := by rw [spelling, fold_mk]
  concat text args _ := by
    have hcall : ∀ ks, spelling (mk .none .call ks) = ks.flatMap spelling := fun ks => by
      rw [spelling, fold_mk]
      exact flatMap_map ..
    have hhead : spelling (member (unitsLit text) "concat") = text := by
      rw [show member (unitsLit text) "concat" = mk .none .member
        [unitsLit text, make (.keyName "concat") []] from rfl, spelling, fold_mk]
      rfl
    rw [call, make, hcall, flatMap_cons, hhead]

/-- Whether a node is a template that spells `text`. -/
def spellsTemplate (text : Units) (n : Node) : Bool :=
  match n.tag with
  | .template _ => value spelling n == text
  | _ => false

/-- Whether a node is a tagged template with one substitution, the first of its texts without a value. -/
def tagsUncooked : Node → Bool
  | .mk _ (.tagged _ [q, _]) [_, _] => q.cooked == none
  | _ => false

/-- A template in a template, with a line continuation and with commas, and a text without a value: under
`spelling`, the outer template is `abc!e`. -/
theorem lowered_values_nested : ∃ p,
    parseScript "x = `a$\x7b`$\x7bb\x7d\\\nc`\x7d!$\x7bd, e\x7d`; t`\\u$\x7bf\x7d`;" = .ok p ∧
    let out := (Pass.templateLiterals.run p.script).1
    (∃ n, out.Contains n ∧ spelling n = Units.ofString "abc!e") ∧
    ∃ tag text raw e, out.Contains
      (call tag [frozenTexts [undefined, text] raw, e]) := by
  obtain ⟨p, hp, hP⟩ := exists_of_any_toOption (e := parseScript
      "x = `a$\x7b`$\x7bb\x7d\\\nc`\x7d!$\x7bd, e\x7d`; t`\\u$\x7bf\x7d`;")
    (P := fun p => p.script.body.any (·.any (spellsTemplate (Units.ofString "abc!e"))) &&
      p.script.body.any (·.any tagsUncooked)) (by decide +kernel)
  obtain ⟨htemplate, htagged⟩ := (Bool.and_eq_true ..).mp hP
  obtain ⟨hvalues, -, htags⟩ := lowered_values hp denotation_spelling
  refine ⟨p, hp, ?_, ?_⟩
  · obtain ⟨n, hn, hcheck⟩ := (Script.any_body_iff ..).mp htemplate
    obtain ⟨span, t, es⟩ := n
    cases t with
    | template qs =>
      obtain ⟨hlowered, texts, htexts, -, hvalue⟩ := hvalues span qs es hn
      have htexts : (qs.map fun q => q.cooked.getD []) = texts := by
        simpa [Function.comp_def] using congrArg (map fun x : Option Units => x.getD []) htexts
      refine ⟨_, hlowered, ?_⟩
      rw [hvalue, ← htexts, ← value_template]
      exact beq_iff_eq.mp hcheck
    | _ => cases hcheck
  · obtain ⟨n, hn, hcheck⟩ := (Script.any_body_iff ..).mp htagged
    unfold tagsUncooked at hcheck
    split at hcheck
    · next span quoted q q' tag e =>
      obtain ⟨cooked, raw, hcall, hcooked, -⟩ := htags span quoted [q, q'] tag [e] hn
      obtain ⟨first, rest, hq, hrest, rfl⟩ := forall₂_cons_left_iff.mp hcooked
      obtain ⟨text, rest', -, hrest', rfl⟩ := forall₂_cons_left_iff.mp hrest
      obtain rfl := forall₂_nil_left_iff.mp hrest'
      obtain rfl := hq.none.mpr (beq_iff_eq.mp hcheck)
      exact ⟨_, _, _, _, hcall⟩
    · cases hcheck

end Template

end EcmaLower
