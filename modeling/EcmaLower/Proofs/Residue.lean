import EcmaLower.Proofs.ArrowPass
import EcmaLower.Proofs.ClassPass
import EcmaLower.Proofs.Parser.Program

/-!
# What the passes leave

The passes in their canonical order, and the families of syntax that are left after them. Templates,
shorthand properties and rest parameters are always gone. A class is left exactly if it could not be
lowered. If nothing is left of classes and `super`, and no arrow in a parameter list uses `this` or
`arguments`, then nothing is left at all.

## Main results

* `Arrow.not_any_arrow` — when no arrow is left.
* `Script.WellFormed.canonical` — the passes keep scripts well-formed.
* `residue_canonical` — the families that are left.
-/

namespace EcmaLower

open Node List

variable {s : Script} {f : Family}

/-- `s.InParams a`: in the script `s`, the node `a` stands in the parameter list of the innermost
function around it that is not an arrow. -/
def Script.InParams (s : Script) (a : Node) : Prop := ∃ n ∈ s.body, Reaches Arrow.visited true a false n

lemma Script.InParams.contains {a : Node} (h : s.InParams a) : s.Contains a :=
  let ⟨n, hn, hr⟩ := h
  ⟨n, hn, Arrow.within_of_reaches_visited hr⟩

/-! ## Arrows -/

namespace Arrow

/-- An arrow with mark `b` is lowered if it and what it shares its context with allow it. -/
structure Lowerable (b : Bool) (n : Node) : Prop where
  wellFormed : n.WellFormed
  noSuper : n.any (·.tag.isSuper) = false
  noClass : n.any Family.classDef.isRoot = false
  notPart : n.role.isClassPart = false
  noContext : ∀ a, Reaches visited true a b n → Family.arrowFunction.isRoot a = true → usesContext a.kids = false

lemma lowerable_kid {b b' : Bool} {s : Span} {t : Tag} {ks : List Node} {k : Node}
    (h : Lowerable b (mk s t ks)) (hk : k ∈ ks) (hv : (b', k) ∈ visited b (mk s t ks)) :
    Lowerable b' k := by
  have hsuper := h.noSuper
  have hclass := h.noClass
  rw [any_mk, Bool.or_eq_false_iff, any_eq_false] at hsuper hclass
  have ht : t ≠ .cls := by
    rintro rfl
    cases hclass.1
  exact ⟨h.wellFormed.kid hk, eq_false_of_ne_true (hsuper.2 k hk),
    eq_false_of_ne_true (hclass.2 k hk), h.wellFormed.not_isClassPart ht h.notPart hk,
    fun a ha => h.noContext a (.step hv ha)⟩

/-- Each step leaves no arrow. -/
lemma not_any_arrow_step (b : Bool) (n n' : Node) (c : Nat) (hn : n.WellFormed)
    (hstep : Step (fun b n n' _ => n'.Is n.role ∧
      (Lowerable b n → n'.any Family.arrowFunction.isRoot = false)) b n n' c) :
    n'.Is n.role ∧ (Lowerable b n → n'.any Family.arrowFunction.isRoot = false) := by
  refine ⟨step_is b n n' c hn (hstep.mono fun _ _ _ _ h => h.1), fun h => ?_⟩
  cases hstep with
  | @rebuilt _ s t ks ks' _ hkids hparts _ harrow =>
    have hroot : Family.arrowFunction.isRoot (mk s t ks') = false := by
      cases t with
      | arrow a =>
        -- Without `super` an arrow is kept only in a parameter list, for what it uses there.
        have hsuper := h.noSuper
        have hkeep := harrow a rfl
        rw [any_mk, Bool.or_eq_false_iff, any_eq_false] at hsuper
        rw [keeps, usesSuper_eq_false fun k hk => eq_false_of_ne_true (hsuper.2 k hk), Bool.false_or,
          Bool.and_eq_true] at hkeep
        obtain ⟨rfl, hcontext⟩ := hkeep
        have := h.noContext _ .here rfl
        rw [kids_mk, hcontext] at this
        cases this
      | _ => rfl
    have hks := hparts.forall₂
      (P := fun k e => e.Is k.role ∧ e.any Family.arrowFunction.isRoot = false) hkids
      (fun x hx e d _ hk => ⟨hk.1, hk.2 (lowerable_kid h (mem_kids_of_mem_visited hx) hx)⟩)
      fun sc k e hk he => ⟨hk.2.symm ▸ is_declareIn (hk.2 ▸ he.1) sc, by
        rw [any_declareIn sc (hk.2 ▸ he.1), he.2]⟩
    rw [any_mk, hroot, Bool.false_or, any_eq_false]
    exact forall_of_forall₂ hks fun _ _ hk => ne_true_of_eq_false hk.2
  | field | staticBlock => cases h.notPart
  | lowered _ hps _ hp hb =>
    have hp' := hp.2 (lowerable_kid h (by simp) (by simp [visited]))
    have hb' := hb.2 (lowerable_kid h (by simp) (by simp [visited]))
    rw [any_toFunction (fun _ _ _ _ => rfl) (hps.2 ▸ hp.1), hp', hb']
    rfl
  | word hword =>
    rcases Tag.eq_of_contextWord hword with ⟨rfl, -⟩ | ⟨rfl | rfl, -⟩ <;> rfl
  | statement _ he =>
    have he := he.2 (lowerable_kid h (by simp) (by simp [visited]))
    rw [Build.any_core rfl]
    simp [any_asStatement, he]

/-- **When no arrow is left**: if the script has no class, no `super` and no arrow in a parameter list
that uses `this` or `arguments`, every arrow is lowered. -/
theorem not_any_arrow (h : s.WellFormed) (hsuper : s.body.any (·.any (·.tag.isSuper)) = false)
    (hclass : s.body.any (·.any Family.classDef.isRoot) = false)
    (hcontext : ∀ a, s.InParams a → Family.arrowFunction.isRoot a = true → usesContext a.kids = false) :
    (lowerScript s).1.body.any (·.any Family.arrowFunction.isRoot) = false := by
  obtain ⟨sc, body', c, hE, hbody, -⟩ := lowerScript_rel not_any_arrow_step h
  rw [any_eq_false] at hsuper hclass
  rw [hbody, any_afterDirectives, any_captures, Bool.false_or, any_eq_false]
  intro k hk
  have := hE.forall_right (P := fun k' => k'.any Family.arrowFunction.isRoot = false)
    (fun n hn n' d hr => hr.2 ⟨(h n hn).1, eq_false_of_ne_true (hsuper n hn),
      eq_false_of_ne_true (hclass n hn), ?_, fun a ha => hcontext a ⟨n, hn, ha⟩⟩) k hk
  · simp [this]
  · have hrole := (h n hn).2
    cases hr : n.role <;> first | rfl | (rw [hr] at hrole; cases hrole)

end Arrow

/-! ## The passes in order -/

section Canonical

variable (s : Script)

/-- A script after the first pass. -/
def afterClasses : Script := (Class.lowerScript s).1

/-- A script after the first two passes. -/
def afterArrows : Script := (Arrow.lowerScript (afterClasses s)).1

/-- A script after the first three passes. -/
def afterShorthands : Script := ((afterArrows s).applyRule Shorthand.rule).1

/-- A script after the first four passes. -/
def afterRests : Script := ((afterShorthands s).applyRule Rest.rule).1

/-- A script after all passes. -/
def afterTemplates : Script := ((afterRests s).applyRule Template.rule).1

lemma runPasses_canonical : (runPasses Pass.canonical s).1 = afterTemplates s := rfl

variable {s} (h : s.WellFormed)

include h

lemma wellFormed_afterClasses : (afterClasses s).WellFormed := Class.lowerScript_wellFormed h

lemma wellFormed_afterArrows : (afterArrows s).WellFormed := Arrow.lowerScript_wellFormed (wellFormed_afterClasses h)

lemma wellFormed_afterShorthands : (afterShorthands s).WellFormed :=
  (afterArrows s).applyRule_wellFormed Shorthand.keepsShape (wellFormed_afterArrows h)

lemma wellFormed_afterRests : (afterRests s).WellFormed :=
  (afterShorthands s).applyRule_wellFormed Rest.keepsShape (wellFormed_afterShorthands h)

/-- **The passes keep scripts well-formed.** -/
theorem wellFormed_afterTemplates : (afterTemplates s).WellFormed :=
  (afterRests s).applyRule_wellFormed Template.keepsShape (wellFormed_afterRests h)

/-! ## Families -/

section Search

variable {p : Node → Bool} [Foreign p] (hp : Respects p)

include hp

/-- What the last pass leaves alone. -/
lemma any_afterTemplates (ht : ∀ s qs ks, p (mk s (.template qs) ks) = false)
    (ht' : ∀ s sq qs ks, p (mk s (.tagged sq qs) ks) = false) :
    (afterTemplates s).body.any (·.any p) = (afterRests s).body.any (·.any p) :=
  (afterRests s).any_applyRule (wellFormed_afterRests h)
    (Template.any_ruled (hp.map_ruled Template.alike_ruled) ht ht')

lemma any_afterRests (hf : ∀ s a g ks, p (mk s (.func a g) ks) = false)
    (hc : ∀ s ks, p (mk s .ctor ks) = false) (hr : ∀ s ks, p (mk s .restPat ks) = false) :
    (afterRests s).body.any (·.any p) = (afterShorthands s).body.any (·.any p) :=
  (afterShorthands s).any_applyRule (wellFormed_afterShorthands h)
    (Rest.any_ruled (hp.map_ruled Rest.alike_ruled) hf hc hr)

lemma any_afterShorthands (hs : ∀ s x ks, p (mk s (.shorthand x) ks) = false)
    (hm : ∀ s ks, p (mk s .objMethod ks) = false) :
    (afterShorthands s).body.any (·.any p) = (afterArrows s).body.any (·.any p) :=
  (afterArrows s).any_applyRule (wellFormed_afterArrows h)
    (Shorthand.any_ruled (hp.map_ruled Shorthand.alike_ruled) hs hm)

lemma any_afterArrows (hf : ∀ s a g ks, p (mk s (.func a g) ks) = false)
    (ha : ∀ s a ks, p (mk s (.arrow a) ks) = false) (ht : ∀ s ks, p (mk s .this ks) = false)
    (hs : ∀ s x, false = p (mk s (.shorthand x) [])) :
    (afterArrows s).body.any (·.any p) = (afterClasses s).body.any (·.any p) :=
  Arrow.any_lowerScript Arrow.compares_eq hp ha ht hs (wellFormed_afterClasses h) (.inl hf)

end Search

/-- What the last two passes leave alone. -/
lemma any_afterTemplates_shorthands (hr : f ≠ .restParameter) (ht : f ≠ .templateLiteral)
    (ht' : f ≠ .taggedTemplate) :
    (afterTemplates s).body.any (·.any f.isRoot) = (afterShorthands s).body.any (·.any f.isRoot) := by
  rw [any_afterTemplates h (respects_isRoot f), any_afterRests h (respects_isRoot f)]
  all_goals intros; cases f <;> first | rfl | contradiction

/-- What the last three passes leave alone. -/
lemma any_afterTemplates_arrows (hr : f ≠ .restParameter) (ht : f ≠ .templateLiteral)
    (ht' : f ≠ .taggedTemplate) (hp : f ≠ .shorthandProperty) (hm : f ≠ .shorthandMethod) :
    (afterTemplates s).body.any (·.any f.isRoot) = (afterArrows s).body.any (·.any f.isRoot) := by
  rw [any_afterTemplates_shorthands h hr ht ht', any_afterShorthands h (respects_isRoot f)]
  all_goals intros; cases f <;> first | rfl | contradiction

lemma any_cls_afterArrows : (afterArrows s).body.any (·.any Family.classDef.isRoot) =
    (afterClasses s).body.any (·.any Family.classDef.isRoot) :=
  any_afterArrows h (respects_isRoot _) (fun _ _ _ _ => rfl) (fun _ _ _ => rfl) (fun _ _ => rfl)
    fun _ _ => rfl

/-- Templates, shorthand properties and rest parameters are always gone. -/
lemma not_any_afterTemplates (hf : f = .templateLiteral ∨ f = .taggedTemplate ∨
    f = .shorthandProperty ∨ f = .restParameter) :
    (afterTemplates s).body.any (·.any f.isRoot) = false := by
  have hnone : ∀ {body : List Node}, body.any (fun _ => false) = false := by simp
  obtain rfl | rfl | rfl | rfl := hf
  · exact ((afterRests s).any_applyRule (wellFormed_afterRests h)
      fun n hn => (Template.not_any_template n hn).1).trans hnone
  · exact ((afterRests s).any_applyRule (wellFormed_afterRests h)
      fun n hn => (Template.not_any_template n hn).2).trans hnone
  · rw [any_afterTemplates_shorthands h (by decide) (by decide) (by decide)]
    exact ((afterArrows s).any_applyRule (wellFormed_afterArrows h) Shorthand.not_any_shorthandProperty).trans hnone
  · rw [any_afterTemplates h respects_restParameter (fun _ _ _ => rfl) fun _ _ _ _ => rfl]
    exact ((afterShorthands s).any_applyRule (wellFormed_afterShorthands h) Rest.not_any_restParameter).trans hnone

/-- A class is left exactly if the script has one that cannot be lowered. -/
lemma any_cls_afterTemplates : (afterTemplates s).body.any (·.any Family.classDef.isRoot) =
    s.body.any (·.any Class.isKept) := by
  rw [any_afterTemplates_arrows h (by decide) (by decide) (by decide) (by decide) (by decide),
    any_cls_afterArrows h]
  exact Class.any_cls_lowerScript h

end Canonical

/-! ## The residue -/

lemma mem_residue_iff : f ∈ s.residue ↔ s.body.any (·.any f.isRoot) = true := by
  have hall : f ∈ Family.all := by cases f <;> decide
  simp only [Script.residue, mem_filter, hall, true_and]
  rfl

lemma residue_eq_nil_iff : s.residue = [] ↔ ∀ f : Family, s.body.any (·.any f.isRoot) = false := by
  rw [eq_nil_iff_forall_not_mem]
  exact forall_congr' fun f => by rw [mem_residue_iff, Bool.not_eq_true]

/-- Nothing is left if the first pass leaves no class and no `super`, and no arrow in a parameter list
uses the context. -/
lemma residue_afterTemplates (h : s.WellFormed)
    (hclass : (afterClasses s).body.any (·.any Family.classDef.isRoot) = false)
    (hsuper : (afterClasses s).body.any (·.any (·.tag.isSuper)) = false)
    (hcontext : ∀ a, (afterClasses s).InParams a → Family.arrowFunction.isRoot a = true →
      usesContext a.kids = false) : (afterTemplates s).residue = [] := by
  rw [residue_eq_nil_iff]
  intro f
  cases f with
  | templateLiteral | taggedTemplate | shorthandProperty | restParameter =>
    exact not_any_afterTemplates h (by simp)
  | classDef =>
    rw [any_afterTemplates_arrows h (by decide) (by decide) (by decide) (by decide) (by decide),
      any_cls_afterArrows h]
    exact hclass
  | arrowFunction =>
    rw [any_afterTemplates_arrows h (by decide) (by decide) (by decide) (by decide) (by decide)]
    exact Arrow.not_any_arrow (wellFormed_afterClasses h) hsuper hclass hcontext
  | shorthandMethod =>
    have hsuper' := (any_afterArrows h (respects_of_ignoresKids ignoresKids_isSuper)
      (fun _ _ _ _ => rfl) (fun _ _ _ => rfl) (fun _ _ => rfl) fun _ _ => rfl).trans hsuper
    rw [any_eq_false] at hsuper'
    rw [any_afterTemplates_shorthands h (by decide) (by decide) (by decide), afterShorthands,
      Script.applyRule_body, any_map, any_eq_false]
    intro n hn
    have hgone := Shorthand.not_any_shorthandMethod n (wellFormed_afterArrows h n hn).1
      (eq_false_of_ne_true (hsuper' n hn))
    rw [Function.comp_apply, hgone]
    exact Bool.false_ne_true

/-- **What the passes leave** of a script that is read. Templates, shorthand properties and rest
parameters are always gone; a class is left exactly if the script has one that cannot be lowered; and if
the first pass leaves no class, no `super`, and no arrow in a parameter list that uses `this` or
`arguments`, nothing is left.

**Proof sketch.** Each family is removed by one pass and left alone by the later ones. Arrows and
shorthand methods are kept only for `super` or, in a parameter list, for the context, and the passes
before theirs add neither. -/
theorem residue_canonical {text : String} {p : Parsed Node} (hp : parseScript text = .ok p) :
    let s := p.script
    let s₁ := (Pass.classes.run s).1
    let c := (runPasses Pass.canonical s).1
    (.templateLiteral ∉ c.residue ∧ .taggedTemplate ∉ c.residue ∧ .shorthandProperty ∉ c.residue ∧
      .restParameter ∉ c.residue) ∧
    (.classDef ∈ c.residue ↔
      ∃ cls, s.Contains cls ∧ cls.tag = .cls ∧ Class.isLowerable cls = false) ∧
    ((∀ n, s₁.Contains n → n.tag ≠ .cls ∧ n.tag.isSuper = false) →
      (∀ a isAsync, s₁.InParams a → a.tag = .arrow isAsync → usesContext a.kids = false) →
      c.residue = []) := by
  intro s s₁ c
  have h : s.WellFormed := wellFormed_of_parseScript hp
  have hc : c = afterTemplates s := rfl
  refine ⟨?_, ?_, ?_⟩
  · simp only [hc, mem_residue_iff, Bool.not_eq_true]
    exact ⟨not_any_afterTemplates h (by simp), not_any_afterTemplates h (by simp),
      not_any_afterTemplates h (by simp), not_any_afterTemplates h (by simp)⟩
  · rw [hc, mem_residue_iff, any_cls_afterTemplates h, Script.any_body_iff]
    simp only [Class.isKept, Bool.and_eq_true, beq_iff_eq, Bool.not_eq_true']
  · intro hclean hcontext
    refine residue_afterTemplates h ?_ ?_ ?_
    · refine eq_false_of_ne_true fun hany => ?_
      obtain ⟨⟨sn, t, ks⟩, hn, hroot⟩ := (s₁.any_body_iff _).mp hany
      cases t <;> first | exact (hclean _ hn).1 rfl | cases hroot
    · refine eq_false_of_ne_true fun hany => ?_
      obtain ⟨n, hn, hroot⟩ := (s₁.any_body_iff _).mp hany
      rw [(hclean n hn).2] at hroot
      cases hroot
    · rintro ⟨sa, t, ks⟩ ha harrow
      cases t <;> first | exact hcontext _ _ ha rfl | cases harrow

/-- The passes leave nothing of a script with a rest parameter, an arrow and a template. -/
theorem residue_templateInArrow : ∃ p,
    parseScript "function f(...a) \x7b return () => `$\x7ba\x7d`; \x7d" = .ok p ∧
    (runPasses Pass.canonical p.script).1.residue = [] := by
  obtain ⟨p, hp, hcheck⟩ := exists_of_any_toOption
    (e := parseScript "function f(...a) \x7b return () => `$\x7ba\x7d`; \x7d")
    (P := fun p => !(Pass.classes.run p.script).1.body.any
      (·.any fun n => n.tag == .cls || n.tag.isSuper || usesContext n.kids)) (by decide +kernel)
  rw [Bool.not_eq_true', Bool.eq_false_iff, ne_eq, Script.any_body_iff] at hcheck
  have hnone : ∀ n, (Pass.classes.run p.script).1.Contains n →
      (n.tag ≠ .cls ∧ n.tag.isSuper = false) ∧ usesContext n.kids = false := fun n hn => by
    simpa using fun h => hcheck ⟨n, hn, h⟩
  exact ⟨p, hp, (residue_canonical hp).2.2 (fun n hn => (hnone n hn).1)
    fun a _ ha _ => (hnone a ha.contains).2⟩

end EcmaLower
