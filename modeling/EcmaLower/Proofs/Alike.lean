import EcmaLower.Proofs.ClassBuild

/-!
# What the later passes keep

Only the first pass touches classes and `super`. This module says what every later pass keeps of each
node: its role, what decides whether a class is lowered, its uses of `super`, and the shape of its
parameter list. A search whose answer at a node depends on no more than that finds the same before
and after such a pass.
-/

namespace EcmaLower

open Node List Build

variable {ks ks' : List Node} {n new : Node} {p : Node → Bool} {s : Span} {t : Tag} {q : Tag → Bool}

/-- What a node and its result have in common after a pass that leaves classes alone. -/
structure Alike (n n' : Node) : Prop extends Class.Kept n n' where
  own : n.role.isClassPart = false → n'.ownUse Tag.isSuper = n.ownUse Tag.isSuper
  func : n.role = .func → usesSuper n'.kids = usesSuper n.kids
  params : n.role = .params → n'.kids.map role = n.kids.map role

lemma Alike.trans {a b c : Node} (h : Alike a b) (h' : Alike b c) : Alike a c := by
  have hr := h.is.2
  refine ⟨h.toKept.trans h'.toKept, fun ha => ?_, fun ha => ?_, fun ha => ?_⟩
  · exact (h'.own (hr ▸ ha)).trans (h.own ha)
  · exact (h'.func (hr.trans ha)).trans (h.func ha)
  · exact (h'.params (hr.trans ha)).trans (h.params ha)

/-- The uses in a node are those in its children, as far as they share its context. -/
lemma ownUse_congr (hks : Forall₂ (fun k k' => k.role.isClassPart = false → k'.ownUse q = k.ownUse q) ks ks')
    (h : (mk s t ks).WellFormed) (hr : t.role.isClassPart = false) :
    (mk s t ks').ownUse q = (mk s t ks).ownUse q := by
  have hany : ∀ {l l' : List Node}, Forall₂ (fun k k' => k.role.isClassPart = false →
      k'.ownUse q = k.ownUse q) l l' → (∀ k ∈ l, k.role.isClassPart = false) →
      l'.any (·.ownUse q) = l.any (·.ownUse q) := by
    intro l l' hl hpart
    induction hl with
    | nil => rfl
    | cons hk _ ih =>
      rw [any_cons, any_cons, hk (hpart _ (by simp)), ih fun k hk => hpart k (by simp [hk])]
  rw [ownUse_mk, ownUse_mk]
  cases t with
  | func a g | getter | setter => rfl
  | cls =>
    obtain ⟨_, sm, ms, hs, ⟨⟩, -, hexpr, -⟩ := Class.cls_shape ⟨h, rfl⟩
    cases hks with
    | cons _ hks =>
      refine congrArg (false || ·) (hany hks fun k hk => ?_)
      rw [(hexpr k hk).2]
      rfl
  | _ => exact congrArg (_ || ·) (hany hks fun k hk => h.not_isClassPart (by simp) hr hk)

/-- **A node with its children replaced by like ones is alike.** -/
theorem alike_mk (hks : Forall₂ Alike ks ks') (h : (mk s t ks).WellFormed) : Alike (mk s t ks) (mk s t ks') := by
  have hown : Forall₂ (fun k k' => k.role.isClassPart = false →
      k'.ownUse Tag.isSuper = k.ownUse Tag.isSuper) ks ks' := hks.imp fun k k' hk => hk.own
  refine ⟨Class.kept_mk (hks.imp fun k k' hk => hk.toKept) h, ownUse_congr hown h, fun hr => ?_,
    fun _ => map_eq_of_forall₂ hks fun k k' hk => hk.is.2⟩
  obtain ⟨_, a, g, _, ⟨⟩⟩ := eq_func hr
  obtain ⟨p, b, rfl, hp, hb⟩ := h.func
  cases hks with
  | cons hp' hks =>
    cases hks with
    | cons hb' hks =>
      cases hks
      simp [usesSuper, hp'.own (by rw [hp.2]; rfl), hb'.own (by rw [hb.2]; rfl)]

/-- A node outside of classes that is no function and no list of parameters need only keep its role
and its uses of `super`. -/
lemma alike_of_is {n' : Node} (h : n'.Is n.role) (hp : n.role.isClassPart = false) (hc : n.role ≠ .cls)
    (hf : n.role ≠ .func) (hps : n.role ≠ .params) (ho : n'.ownUse Tag.isSuper = n.ownUse Tag.isSuper) : Alike n n' :=
  ⟨Class.kept_of_is h hp hc, fun _ => ho, fun hr => absurd hr hf, fun hr => absurd hr hps⟩

lemma Alike.refl (h : n.WellFormed) : Alike n n :=
  ⟨⟨⟨h, rfl⟩, fun _ => rfl, fun _ => rfl, fun _ => rfl⟩, fun _ => rfl, fun _ => rfl, fun _ => rfl⟩

/-! ## Properties that the passes respect -/

/-- A property of a node that depends on no more of its children than the passes keep. -/
def Respects (p : Node → Bool) : Prop := ∀ s t ks ks', (mk s t ks).WellFormed →
  Forall₂ Alike ks ks' → p (mk s t ks') = p (mk s t ks)

lemma respects_of_ignoresKids (h : IgnoresKids p) : Respects p := fun s t ks ks' _ _ => h s t ks' ks

lemma respects_isLowered : Respects Class.isLowered := fun _ _ _ _ h hks =>
  Class.isLowered_congr (hks.imp fun _ _ hk => hk.toKept) h

lemma hasRest_congr {p p' : Node} (hp : p.role = .params) (h : Alike p p') : hasRest p' = hasRest p := by
  have := congrArg (any · (· == .rest)) (h.params hp)
  simpa only [Rest.hasRest_eq, any_map, Function.comp_def] using this

lemma respects_restParameter : Respects Family.restParameter.isRoot := by
  intro s t ks ks' h hks
  cases t with
  | func a g =>
    obtain ⟨p, b, rfl, hp, -⟩ := h.func
    obtain _ | ⟨hp', -⟩ := hks
    exact hasRest_congr hp.2 hp'
  | ctor =>
    obtain ⟨k, p, b, rfl, -, hp, -⟩ := h.ctor
    obtain _ | ⟨-, _ | ⟨hp', -⟩⟩ := hks
    exact hasRest_congr hp.2 hp'
  | _ => rfl

lemma respects_isRoot (f : Family) : Respects f.isRoot := by
  by_cases hf : f = .restParameter
  · rw [hf]
    exact respects_restParameter
  · exact respects_of_ignoresKids (Family.ignoresKids_isRoot hf)

/-- Whether a node is a method that becomes a property. -/
def Shorthand.isPlainMethod : Node → Bool
  | .mk _ .objMethod [_, f] => !usesSuper f.kids
  | _ => false

instance : Foreign Shorthand.isPlainMethod where
  core s t ks ht := by
    cases t <;> first | rfl | cases ht
  this := rfl

lemma respects_isPlainMethod : Respects Shorthand.isPlainMethod := by
  intro s t ks ks' h hks
  cases t with
  | objMethod =>
    match ks, h with
    | [k, f], h =>
      have hfits := h.fits
      simp only [Tag.fits, map_cons, map_nil, Bool.and_eq_true, beq_iff_eq] at hfits
      cases hks with
      | cons _ hks =>
        cases hks with
        | cons hf hks =>
          cases hks
          exact congrArg (! ·) (hf.func hfits.2)
    | [], h | [_], h | _ :: _ :: _ :: _, h => exact absurd h.fits (by simp [Tag.fits])
  | _ => rfl

/-! ## Words -/

/-- The words whose meaning depends on the function around them: `super`, or `this` and
`arguments`. -/
def Tag.AreWords (q : Tag → Bool) : Prop := q = isSuper ∨ q = isContext

section Words

variable {q : Tag → Bool} (hq : Tag.AreWords q)

include hq in
lemma Tag.AreWords.nameless (ht : t.isNameless = true) : q t = false := by
  cases t with
  | funcExpr i? =>
    cases i? with
    | none => obtain rfl | rfl := hq <;> rfl
    | some i => cases ht
  | _ =>
    first
    | (obtain rfl | rfl := hq <;> rfl)
    | cases ht

/-- The search for words in the code that shares a context. -/
def Search.ofWords : Search where
  Finds n := n.ownUse q = true
  core s t ks ht := by
    have hsharing : t.sharing ks = ks ∧ t.isUse q ks = q t := by
      cases t <;> first | exact ⟨rfl, rfl⟩ | cases ht
    rw [ownUse_mk, hsharing.1, hsharing.2, hq.nameless ht, Bool.false_or, any_eq_true]
  ident s x hx := by
    obtain rfl | rfl := hq
    · simp [ownUse_mk, Tag.sharing, Tag.isUse, Tag.isSuper]
    · simp [ownUse_mk, Tag.sharing, Tag.isUse, Tag.isContext, Tag.names, hx.symm]

lemma ownUse_ruled {rule : Node → Option Node} (hr : KeepsShape rule)
    (hfire : ∀ n new, n.WellFormed → n.role.isClassPart = false → rule n = some new → new.ownUse q = n.ownUse q)
    (n : Node) (h : n.WellFormed) (hp : n.role.isClassPart = false) :
    (n.ruled rule).ownUse q = n.ownUse q := by
  induction n with
  | mk s t ks ih =>
    have hkids : (mk s t (ks.map (ruled rule))).ownUse q = (mk s t ks).ownUse q := by
      refine ownUse_congr ?_ h hp
      exact forall₂_map_right_iff.mpr (forall₂_same.mpr fun k hk => ih k hk (h.kid hk))
    obtain ⟨new, hn, he⟩ | ⟨-, he⟩ := ruled_cases rule s t ks
    · rw [he, ← hkids]
      exact hfire _ new (wellFormed_map_ruled hr h) hp hn
    · rw [he, hkids]

end Words

/-- A pass whose rule puts a like node in the place of each node does so with every tree. -/
lemma alike_ruled {rule : Node → Option Node} (hr : KeepsShape rule)
    (hfire : ∀ n new, n.WellFormed → rule n = some new → Alike n new) (n : Node)
    (h : n.WellFormed) : Alike n (n.ruled rule) :=
  ruled_induct hr (fun _ _ _ h ih => alike_mk (forall₂_map_right_iff.mpr (forall₂_same.mpr ih)) h)
    (fun _ m new hw hnew hm => hm.trans (hfire m new hw hnew)) n h

/-- A pass that keeps nodes alike leaves the properties alone that respect it. -/
lemma Respects.map_ruled {rule : Node → Option Node} (hp : Respects p)
    (ha : ∀ n : Node, n.WellFormed → Alike n (n.ruled rule)) (s : Span) (t : Tag) (ks : List Node)
    (h : (mk s t ks).WellFormed) : p (mk s t (ks.map (ruled rule))) = p (mk s t ks) := by
  refine hp s t ks _ h ?_
  exact forall₂_map_right_iff.mpr (forall₂_same.mpr fun k hk => ha k (h.kid hk))

/-! ## The local passes -/

namespace Shorthand

lemma ownUse_rule (hq : Tag.AreWords q) (hn : n.WellFormed) (h : rule n = some new) : new.ownUse q = n.ownUse q := by
  obtain ⟨s, name, ks, rfl, rfl⟩ | ⟨s, key, f, rfl, -, rfl⟩ := rule_cases h
  · obtain rfl : ks = [] := hn.leaf rfl
    obtain rfl | rfl := hq
    · rfl
    · have hthis : ∀ t : Tag, t ≠ .this → (t == .this) = false := fun t => beq_eq_false_iff_ne.mpr
      simp [keyValue, ownUse_mk, Tag.sharing, Tag.isUse, Tag.isContext, Tag.names, hthis]
  · have hm : q .objMethod = false := by obtain rfl | rfl := hq <;> rfl
    simp [keyValue, funcExpr, ownUse_mk, Tag.sharing, Tag.isUse, hm,
      hq.nameless (t := .keyValue) rfl, hq.nameless (t := .funcExpr none) rfl]

lemma alike_rule (hn : n.WellFormed) (h : rule n = some new) : Alike n new := by
  have hprop : n.role = .prop := by
    obtain ⟨s, name, ks, rfl, rfl⟩ | ⟨s, key, f, rfl, -, rfl⟩ := rule_cases h <;> rfl
  refine alike_of_is (keepsShape n new hn h) ?_ ?_ ?_ ?_ (ownUse_rule (.inl rfl) hn h) <;> simp [hprop]
  rfl

theorem alike_ruled (n : Node) (h : n.WellFormed) : Alike n (n.ruled rule) :=
  EcmaLower.alike_ruled keepsShape (fun _ _ hn h => alike_rule hn h) n h

theorem ownUse_ruled (hq : Tag.AreWords q) (n : Node) (h : n.WellFormed) (hp : n.role.isClassPart = false) :
    (n.ruled rule).ownUse q = n.ownUse q :=
  EcmaLower.ownUse_ruled keepsShape (fun _ _ hn _ h => ownUse_rule hq hn h) n h hp

/-- The methods that are left use `super`. -/
theorem not_any_isPlainMethod (n : Node) (h : n.WellFormed) : (n.ruled rule).any isPlainMethod = false := by
  refine not_any_ruled_of_fires keepsShape (fun _ _ _ => not_any_rule) ?_ n h
  · rintro ⟨s, t, ks⟩ - hrule
    unfold isPlainMethod
    split
    · rename_i f he
      cases he
      unfold rule at hrule
      split at hrule
      · cases hrule
      · rename_i he
        cases he
        split at hrule
        · rename_i hsuper
          rw [hsuper]
          rfl
        · cases hrule
      · rename_i hne
        exact absurd rfl (hne _ _ _)
    · rfl

end Shorthand

namespace Rest

/-- In a function, what moves stays in the function. -/
lemma usesSuper_moved {sp sr sb : Span} {before stmts : List Node} {pat : Node} {i : Nat} :
    usesSuper [mk sp .params before, mk sb .block (afterDirectives [slice pat i] stmts)] =
      usesSuper [mk sp .params (before ++ [mk sr .restPat [pat]]), mk sb .block stmts] := by
  have hcall : ∀ i, (call (path ["Array", "prototype", "slice", "call"])
      [ident "arguments", natLit i]).ownUse Tag.isSuper = false := fun i => rfl
  have hslice : (slice pat i).ownUse Tag.isSuper = pat.ownUse Tag.isSuper := by
    simp [slice, var, declarator, make, ownUse_mk, Tag.sharing, Tag.isUse, Tag.isSuper, hcall]
  simp only [usesSuper, any_cons, any_nil, Bool.or_false, ownUse_mk, Tag.sharing, Tag.isUse,
    Tag.isSuper, Bool.false_or, any_afterDirectives, any_append, hslice]
  ac_rfl

lemma alike_rule (hn : n.WellFormed) (h : rule n = some new) : Alike n new := by
  have his := keepsShape n new hn h
  cases moves_of_rule hn h with
  | intro keys ht =>
    obtain ⟨a, g, rfl, rfl⟩ | ⟨key, rfl, rfl⟩ := ht
    · exact ⟨Class.kept_of_is his rfl (by simp [Tag.role]), fun _ => rfl, fun _ => usesSuper_moved,
        nofun⟩
    · refine ⟨⟨his, fun _ => ?_, fun hr => ?_, fun hr => ?_⟩, fun hr => ?_, fun hr => ?_, fun hr => ?_⟩
      · rfl
      all_goals cases hr

theorem alike_ruled (n : Node) (h : n.WellFormed) : Alike n (n.ruled rule) :=
  EcmaLower.alike_ruled keepsShape (fun _ _ hn h => alike_rule hn h) n h

/-- A rest parameter is read from the `arguments` of its own function, so no use is added to the code
around it. -/
theorem ownUse_ruled (n : Node) (h : n.WellFormed) (hp : n.role.isClassPart = false) :
    (n.ruled rule).ownUse q = n.ownUse q := by
  refine EcmaLower.ownUse_ruled keepsShape (fun n new hn hp hrule => ?_) n h hp
  cases moves_of_rule hn hrule with
  | intro keys ht =>
    obtain ⟨a, g, rfl, rfl⟩ | ⟨key, rfl, rfl⟩ := ht
    · rfl
    · cases hp

end Rest

namespace Template

lemma ownUse_rule (hq : Tag.AreWords q) (hn : n.WellFormed) (h : rule n = some new) : new.ownUse q = n.ownUse q := by
  have hroot : n.ownUse q = n.kids.any (·.ownUse q) := by
    obtain ⟨s, qs, es, rfl, -⟩ | ⟨s, sq, qs, tag, es, rfl, -⟩ := rule_cases h
    · obtain rfl | rfl := hq <;> rw [ownUse_mk] <;> rfl
    · obtain rfl | rfl := hq <;> rw [ownUse_mk] <;> rfl
  rw [hroot, Bool.eq_iff_iff, any_eq_true]
  exact finds_rule (.ofWords hq) hn h

lemma alike_rule (hn : n.WellFormed) (h : rule n = some new) : Alike n new := by
  have hexpr : n.role = .expr := by
    obtain ⟨s, qs, es, rfl, -⟩ | ⟨s, sq, qs, tag, es, rfl, -⟩ := rule_cases h <;> rfl
  refine alike_of_is (keepsShape n new hn h) ?_ ?_ ?_ ?_ (ownUse_rule (.inl rfl) hn h) <;> simp [hexpr]
  rfl

theorem alike_ruled (n : Node) (h : n.WellFormed) : Alike n (n.ruled rule) :=
  EcmaLower.alike_ruled keepsShape (fun _ _ hn h => alike_rule hn h) n h

theorem ownUse_ruled (hq : Tag.AreWords q) (n : Node) (h : n.WellFormed) (hp : n.role.isClassPart = false) :
    (n.ruled rule).ownUse q = n.ownUse q :=
  EcmaLower.ownUse_ruled keepsShape (fun _ _ hn _ h => ownUse_rule hq hn h) n h hp

end Template

end EcmaLower
