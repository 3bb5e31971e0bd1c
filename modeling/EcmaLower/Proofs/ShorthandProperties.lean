import EcmaLower.Lower.Pass
import EcmaLower.Proofs.Alike

/-!
# What properties define

A property of an object literal defines an own property under its key, copies the properties of another
object, or sets the prototype of the new object. It sets the prototype if it is written `__proto__: value`, with
the key as a name or as a string; no shorthand does, whatever it is called. So the pass for object shorthands,
which writes all properties with a colon, changes what a shorthand called `__proto__` does. This module shows
that it changes nothing else.

## Main results

* `Shorthand.effect_ruled` — what a lowered property does.
* `Shorthand.effects_kept_iff` — which object literals keep what their properties do.
-/

namespace EcmaLower

open Node List Build

variable {p key : Node} {s : Span}

/-! ## Effects -/

/-- What a property of an object literal does. -/
inductive PropertyEffect
  | setsPrototype
  | defines (key : Node)
  | copies

/-- The same effect, with the key mapped. -/
def PropertyEffect.map (f : Node → Node) : PropertyEffect → PropertyEffect
  | setsPrototype => setsPrototype
  | defines key => defines (f key)
  | copies => copies

namespace Node

/-- Whether a key is written as `__proto__`. -/
def isProtoKey (key : Node) : Bool :=
  match key.tag with
  | .keyName name => name == "__proto__"
  | .keyStr x => x.value == Units.ofString "__proto__"
  | _ => false

/-- The key of a property; a spread has none. -/
def propertyKey? : Node → Option Node
  | mk span (.shorthand name) _ => some (mk span (.keyName name) [])
  | mk _ (.initShorthand i) _ => some (mk i.span (.keyName i.name) [])
  | mk _ .keyValue (key :: _) => some key
  | mk _ .objMethod (key :: _) => some key
  | mk _ .getter (key :: _) => some key
  | mk _ .setter (key :: _) => some key
  | _ => none

/-- Whether a property sets the prototype of the object. -/
def setsPrototype : Node → Bool
  | mk _ .keyValue (key :: _) => key.isProtoKey
  | _ => false

/-- What a property does. -/
def effect (p : Node) : PropertyEffect :=
  if p.setsPrototype then .setsPrototype
  else
    match p.propertyKey? with
    | some key => .defines key
    | none => .copies

end Node

namespace Shorthand

/-- Whether a property comes to set the prototype: a shorthand called `__proto__`, or a method of this name
that does not use `super`. -/
def gainsPrototype : Node → Bool
  | mk _ (.shorthand name) _ => name == "__proto__"
  | mk _ .objMethod [key, f] => key.isProtoKey && !usesSuper f.kids
  | _ => false

/-! ## Lowered properties -/

/-- What is neither a property nor a method in short form keeps its tag. -/
lemma ruled_of_long {t : Tag} {ks : List Node} (hs : ∀ name, t ≠ .shorthand name) (hm : t ≠ .objMethod) :
    (mk s t ks).ruled rule = mk s t (ks.map (ruled rule)) := by
  obtain ⟨new, hrule, -⟩ | ⟨-, he⟩ := ruled_cases rule s t ks
  · obtain ⟨_, name, _, heq, -⟩ | ⟨_, _, _, heq, -⟩ := rule_cases hrule
    · exact absurd (congrArg tag heq) (hs name)
    · exact absurd (congrArg tag heq) hm
  · exact he

/-- A method that uses `super` stays, and any other one becomes a property. -/
lemma ruled_method {f : Node} (h : (mk s .objMethod [key, f]).WellFormed) : (mk s .objMethod [key, f]).ruled rule =
      if usesSuper f.kids then mk s .objMethod [key.ruled rule, f.ruled rule]
      else keyValue (key.ruled rule) (funcExpr (f.ruled rule)) := by
  have hsuper : (!usesSuper (f.ruled rule).kids) = !usesSuper f.kids :=
    respects_isPlainMethod.map_ruled alike_ruled s .objMethod [key, f] h
  replace hsuper := Bool.not_inj hsuper
  obtain ⟨new, hrule, he⟩ | ⟨hrule, he⟩ := ruled_cases rule s .objMethod [key, f]
  all_goals
    simp only [map_cons, map_nil, rule, hsuper] at hrule he
    rw [he]
    split at hrule
    · simp_all
    · simp_all

lemma isProtoKey_ruled (h : key.role.isPublicKey = true) : (key.ruled rule).isProtoKey = key.isProtoKey := by
  obtain ⟨s, t, ks⟩ := key
  rw [ruled_of_long]
  · rfl
  · rintro name rfl
    cases h
  · rintro rfl
    cases h

/-- A key that is not computed stays as it is. -/
lemma ruled_key (h : key.OfRole Role.isPublicKey) (ht : key.tag ≠ .keyComputed) : key.ruled rule = key := by
  cases Class.keyShape h with
  | name | str | num | bigInt => rfl
  | computed => exact absurd rfl ht

/-- **A lowered property has the key of the property.** -/
lemma propertyKey?_ruled (h : p.WellFormed) : (p.ruled rule).propertyKey? = p.propertyKey?.map (ruled rule) := by
  obtain ⟨s, t, ks⟩ := p
  cases t with
  | shorthand name =>
    obtain rfl : ks = [] := h.leaf rfl
    rfl
  | objMethod =>
    obtain ⟨key, f, rfl, -⟩ := h.objMethod
    rw [ruled_method h]
    split <;> rfl
  | _ =>
    rw [ruled_of_long (by simp) (by simp)]
    cases ks <;> rfl

/-- **A lowered property sets the prototype** if the property did, and if it was a shorthand called
`__proto__`. -/
lemma setsPrototype_ruled (h : p.WellFormed) :
    (p.ruled rule).setsPrototype = (p.setsPrototype || gainsPrototype p) := by
  obtain ⟨s, t, ks⟩ := p
  cases t with
  | shorthand name =>
    obtain rfl : ks = [] := h.leaf rfl
    rfl
  | objMethod =>
    obtain ⟨key, f, rfl, hkey, -⟩ := h.objMethod
    rw [ruled_method h]
    split
    · next hsuper => simp [setsPrototype, gainsPrototype, hsuper]
    · next hsuper =>
      rw [keyValue, setsPrototype, isProtoKey_ruled hkey.2]
      simp [setsPrototype, gainsPrototype, hsuper]
  | keyValue =>
    obtain ⟨key, e, rfl, hkey, -⟩ := h.keyValue
    rw [ruled_of_long (by simp) (by simp), map_cons, setsPrototype, isProtoKey_ruled hkey.2]
    exact (Bool.or_false _).symm
  | _ =>
    rw [ruled_of_long (by simp) (by simp)]
    rfl

/-- **What a lowered property does.** -/
theorem effect_ruled (h : p.WellFormed) : (p.ruled rule).effect =
    if gainsPrototype p then .setsPrototype else p.effect.map (ruled rule) := by
  rw [effect, setsPrototype_ruled h, propertyKey?_ruled h, effect]
  cases hgains : gainsPrototype p with
  | true => simp
  | false =>
    cases p.setsPrototype with
    | true => rfl
    | false => cases p.propertyKey? <;> rfl

/-- A property that comes to set the prototype did define an own property. -/
lemma effect_of_gainsPrototype (h : gainsPrototype p = true) : ∃ key, p.effect = .defines key := by
  obtain ⟨s, t, ks⟩ := p
  cases t with
  | shorthand name => exact ⟨_, rfl⟩
  | objMethod =>
    match ks, h with
    | [key, f], _ => exact ⟨key, rfl⟩
  | _ => cases h

lemma not_setsPrototype_of_gains (h : gainsPrototype p = true) : p.setsPrototype = false := by
  obtain ⟨s, t, ks⟩ := p
  cases t with
  | keyValue => cases h
  | _ => rfl

lemma countP_map_ruled {props : List Node} (h : ∀ p ∈ props, p.WellFormed) :
    (props.map (ruled rule)).countP setsPrototype = props.countP setsPrototype + props.countP gainsPrototype := by
  induction props with
  | nil => rfl
  | cons p props ih =>
    obtain ⟨hp, hprops⟩ := forall_mem_cons.mp h
    have hone : (if (p.setsPrototype || gainsPrototype p) = true then 1 else 0) =
        (if p.setsPrototype = true then 1 else 0) + if gainsPrototype p = true then 1 else 0 := by
      cases hgains : gainsPrototype p with
      | true =>
        rw [not_setsPrototype_of_gains hgains]
        rfl
      | false =>
        rw [Bool.or_false]
        rfl
    rw [map_cons, countP_cons, countP_cons, countP_cons, setsPrototype_ruled hp, ih hprops, hone]
    omega

/-- The keys of properties. -/
lemma isPublicKey_of_propertyKey? (h : p.WellFormed) (hk : key ∈ p.propertyKey?) : key.OfRole Role.isPublicKey := by
  obtain ⟨s, t, ks⟩ := p
  cases t with
  | shorthand name | initShorthand name =>
    cases hk
    exact ⟨rfl, rfl⟩
  | objMethod =>
    obtain ⟨_, _, rfl, hkey, -⟩ := h.objMethod
    cases hk
    exact hkey
  | keyValue =>
    obtain ⟨_, _, rfl, hkey, -⟩ := h.keyValue
    cases hk
    exact hkey
  | getter =>
    obtain ⟨_, _, rfl, hkey, -⟩ := h.getter
    cases hk
    exact hkey
  | setter =>
    obtain ⟨_, _, _, rfl, hkey, -⟩ := h.setter
    cases hk
    exact hkey
  | _ => cases hk

/-- The rule loses no part of a property. -/
lemma within_rule {n new k : Node} (hn : n.WellFormed) (h : rule n = some new) (hk : k ∈ n.kids) : k.Within new := by
  obtain ⟨s, name, ks, rfl, rfl⟩ | ⟨s, key, f, rfl, -, rfl⟩ := rule_cases h
  · obtain rfl : ks = [] := hn.leaf rfl
    cases hk
  · rcases mem_pair.mp hk with rfl | rfl
    · exact .kid (mem_cons_self ..) .refl
    · have hinner : k.Within (funcExpr k) := .kid (mem_singleton_self _) .refl
      exact hinner.trans (.kid (by simp) .refl)

/-- **What becomes of the properties of object literals.** Every literal keeps its properties in their
order with their keys, of which only computed ones change, inside. Every property does what it did before,
except for shorthands and methods called `__proto__`: they defined a property of this name, and now they set
the prototype. So a literal keeps what its properties do exactly if it has no such property, and what was the
only entry to set the prototype may not be the only one any more.

**Proof sketch.** A property that is written with a colon sets the prototype by its key alone, and the rule
keeps keys (`setsPrototype_ruled`, `propertyKey?_ruled`). -/
theorem effects_kept_iff {s : Script} (h : s.WellFormed) {span : Span} {props : List Node}
    (hm : s.Contains (mk span .object props)) :
    let props' := props.map (ruled rule)
    (Pass.objectShorthand.run s).1.Contains (mk span .object props') ∧
    Forall₂ (fun p p' =>
      (p'.propertyKey? = p.propertyKey?.map (ruled rule) ∧
        ∀ key ∈ p.propertyKey?, key.tag ≠ .keyComputed → key.ruled rule = key) ∧
      p'.effect = if gainsPrototype p then .setsPrototype else p.effect.map (ruled rule)) props props' ∧
    (Forall₂ (fun p p' => p'.effect = p.effect.map (ruled rule)) props props' ↔
      ∀ p ∈ props, gainsPrototype p = false) ∧
    props'.countP setsPrototype = props.countP setsPrototype + props.countP gainsPrototype := by
  intro props'
  have hliteral : (mk span .object props).WellFormed := by
    obtain ⟨n, hn, hwithin⟩ := hm
    exact (h n hn).1.within hwithin
  have hw : ∀ p ∈ props, p.WellFormed := fun p hp => hliteral.kid hp
  have hpairs : ∀ {R : Node → Node → Prop}, Forall₂ R props props' ↔ ∀ p ∈ props, R p (p.ruled rule) :=
    forall₂_map_right_iff.trans forall₂_same
  refine ⟨?_, hpairs.mpr fun p hp => ⟨⟨propertyKey?_ruled (hw p hp), fun key hkey ht => ?_⟩,
    effect_ruled (hw p hp)⟩, hpairs.trans ⟨fun hkept p hp => ?_, fun hno p hp => ?_⟩, ?_⟩
  · have hcontains := s.contains_applyRule keepsShape within_rule h hm
    rwa [ruled_of_long (by simp) (by simp)] at hcontains
  · exact ruled_key (isPublicKey_of_propertyKey? (hw p hp) hkey) ht
  · refine Bool.eq_false_iff.mpr fun hgains => ?_
    obtain ⟨key, hkey⟩ := effect_of_gainsPrototype hgains
    have heffect := (effect_ruled (hw p hp)).symm.trans (hkept p hp)
    rw [hgains, hkey] at heffect
    cases heffect
  · rw [effect_ruled (hw p hp), hno p hp]
    rfl
  · exact countP_map_ruled hw

/-- `({ a, m() {}, "__proto__": b, ["__proto__"]() {}, get __proto__() {}, ...c })`: one property sets the
prototype, before and after. -/
theorem effects_kept_iff_accessor :
    let name := fun x => make (.keyName x) []
    let proto := ⟨Units.ofString "__proto__", none⟩
    let props := [make (.shorthand "a") [], make .objMethod [name "m", func [] []],
      keyValue (make (.keyStr proto) []) (ident "b"),
      make .objMethod [computedKey (strLit "__proto__"), func [] []],
      make .getter [name "__proto__", block []], make .spread [ident "c"]]
    let s : Script := { body := [exprStmt (paren (make .object props))] }
    s.WellFormed ∧ s.Contains (make .object props) ∧
    Forall₂ (fun p p' => p'.effect = p.effect.map (ruled rule)) props (props.map (ruled rule)) ∧
    props.countP setsPrototype = 1 ∧ (props.map (ruled rule)).countP setsPrototype = 1 := by
  intro name proto props s
  have hw : s.WellFormed := by decide
  have hm : s.Contains (make .object props) :=
    ⟨_, mem_singleton_self _, .kid (mem_singleton_self _) (.kid (mem_singleton_self _) .refl)⟩
  obtain ⟨-, -, hkept, hcount⟩ := effects_kept_iff hw hm
  exact ⟨hw, hm, hkept.mpr (by decide), by decide, hcount.trans (by decide)⟩

/-- **A shorthand comes to set the prototype**: `({ __proto__ })` defines a property, and the lowered literal
`({ __proto__: __proto__ })` does not. `({ __proto__, "__proto__": x })` has one entry that sets the prototype,
and the lowered literal has two, which is not allowed. -/
theorem prototype_set_by_shorthand :
    let short := make (.shorthand "__proto__") []
    let key := make (.keyName "__proto__") []
    let entry := keyValue (make (.keyStr ⟨Units.ofString "__proto__", none⟩) []) (ident "x")
    let lowered := keyValue key (ident "__proto__")
    let script := fun props : List Node =>
      ({ body := [exprStmt (paren (make .object props))] } : Script)
    (script [short]).WellFormed ∧ (Pass.objectShorthand.run (script [short])).1.body = (script [lowered]).body ∧
    short.effect = .defines key ∧ lowered.effect = .setsPrototype ∧
    (script [short, entry]).WellFormed ∧
    (Pass.objectShorthand.run (script [short, entry])).1.body = (script [lowered, entry]).body ∧
    [short, entry].countP setsPrototype = 1 ∧ [lowered, entry].countP setsPrototype = 2 := by
  intro short key entry lowered script
  exact ⟨by decide, rfl, rfl, rfl, by decide, rfl, by decide, by decide⟩

end Shorthand

end EcmaLower
