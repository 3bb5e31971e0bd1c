import EcmaLower.Lower.Rest
import EcmaLower.Lower.Shorthand
import EcmaLower.Lower.Template
import EcmaLower.Proofs.OwnUse
import EcmaLower.Proofs.RulePass

/-!
# The rules of the local passes

What the rules for object shorthands, rest parameters and templates do to one node: when they fire,
that they keep the shape of trees, and that each leaves the constructs of other families alone.
-/

namespace EcmaLower

open Node List Build

variable {n new pat e : Node} {qs : List Quasi} {es before body ps : List Node} {p : Node → Bool} {s sb sp sr : Span}
  {i : Nat} {c : Quasi}

/-! ## Searches for families -/

instance (f : Family) : Foreign f.isRoot where
  core s t ks ht := by
    cases f <;> cases t <;> first | rfl | cases ht
  this := by cases f <;> rfl

instance : Foreign fun n => n.tag.isSuper where
  core s t ks ht := by
    cases t <;> first | rfl | cases ht
  this := rfl

/-- All families but that of rest parameters are told by their tag. -/
lemma Family.ignoresKids_isRoot {f : Family} (hf : f ≠ .restParameter) : IgnoresKids f.isRoot := by
  intro s t ks ks'
  cases f with
  | restParameter => exact absurd rfl hf
  | _ => cases t <;> rfl

lemma ignoresKids_isSuper : IgnoresKids fun n => n.tag.isSuper := fun _ _ _ _ => rfl

/-! ## Insertion behind directives -/

lemma mem_afterDirectives {new : List Node} {k : Node} : k ∈ afterDirectives new body ↔ k ∈ new ∨ k ∈ body := by
  have hbody : k ∈ body ↔ k ∈ body.takeWhile isDirective ∨ k ∈ body.dropWhile isDirective := by
    rw [← mem_append, takeWhile_append_dropWhile]
  rw [hbody, afterDirectives, mem_append, mem_append]
  tauto

lemma afterDirectives_nil (stmts : List Node) : afterDirectives [] stmts = stmts := by
  rw [afterDirectives, append_nil, takeWhile_append_dropWhile]

lemma any_afterDirectives {new : List Node} : (afterDirectives new body).any p = (new.any p || body.any p) := by
  rw [Bool.eq_iff_iff, Bool.or_eq_true]
  simp only [any_eq_true, mem_afterDirectives]
  constructor
  · rintro ⟨k, hk | hk, hp⟩
    · exact .inl ⟨k, hk, hp⟩
    · exact .inr ⟨k, hk, hp⟩
  · rintro (⟨k, hk, hp⟩ | ⟨k, hk, hp⟩)
    · exact ⟨k, .inl hk, hp⟩
    · exact ⟨k, .inr hk, hp⟩

/-! ## Object shorthands -/

namespace Shorthand

/-- All that the rule can do: a property gets its name as its value, a method without `super` becomes
a property. -/
lemma rule_cases (h : rule n = some new) : (∃ s name ks, n = mk s (.shorthand name) ks ∧
      new = keyValue (mk s (.keyName name) []) (mk s (.ident name) [])) ∨
    (∃ s key f, n = mk s .objMethod [key, f] ∧ usesSuper f.kids = false ∧ new = keyValue key (funcExpr f)) := by
  unfold rule at h
  split at h
  · cases h
    exact .inl ⟨_, _, _, rfl, rfl⟩
  · split at h
    · cases h
    · cases h
      exact .inr ⟨_, _, _, rfl, eq_false_of_ne_true ‹_›, rfl⟩
  · cases h

lemma keepsShape : KeepsShape rule := by
  intro n new hn h
  obtain ⟨s, name, ks, rfl, rfl⟩ | ⟨s, key, f, rfl, -, rfl⟩ := rule_cases h
  · exact is_keyValue.mpr ⟨⟨rfl, rfl⟩, ⟨rfl, rfl⟩⟩
  · have hroles := hn.fits
    simp only [Tag.fits, map_cons, map_nil, Bool.and_eq_true, beq_iff_eq] at hroles
    exact is_keyValue.mpr ⟨⟨hn.kid (by simp), hroles.1⟩,
      is_funcExpr.mpr ⟨hn.kid (by simp), hroles.2⟩⟩

/-- The rule leaves a search for other syntax alone. -/
lemma any_rule [Foreign p] (hp : ∀ s x ks, p (mk s (.shorthand x) ks) = false)
    (hm : ∀ s ks, p (mk s .objMethod ks) = false) (hn : n.WellFormed) (h : rule n = some new) :
    new.any p = n.any p := by
  obtain ⟨s, name, ks, rfl, rfl⟩ | ⟨s, key, f, rfl, -, rfl⟩ := rule_cases h
  · obtain rfl : ks = [] := hn.leaf rfl
    simpa [hp] using ⟨Foreign.core (p := p) s (.keyName name) [] rfl, Foreign.core (p := p) s (.ident name) [] rfl⟩
  · simp [hm]

/-- The pass leaves a search for other syntax alone. -/
theorem any_ruled [Foreign p]
    (hk : ∀ s t ks, (mk s t ks).WellFormed → p (mk s t (ks.map (ruled rule))) = p (mk s t ks))
    (hp : ∀ s x ks, p (mk s (.shorthand x) ks) = false) (hm : ∀ s ks, p (mk s .objMethod ks) = false)
    (n : Node) (h : n.WellFormed) : (n.ruled rule).any p = n.any p :=
  Node.any_ruled keepsShape hk (fun _ _ hn h => any_rule hp hm hn h) n h

/-- What is written out holds no other syntax than its parts. -/
lemma not_any_rule [Foreign p] (h : rule n = some new) (hkids : ∀ k ∈ n.kids, k.any p = false) :
    new.any p = false := by
  obtain ⟨s, name, ks, rfl, rfl⟩ | ⟨s, key, f, rfl, -, rfl⟩ := rule_cases h
  · simpa using ⟨Foreign.core (p := p) s (.keyName name) [] rfl, Foreign.core (p := p) s (.ident name) [] rfl⟩
  · simp [hkids key (by simp), hkids f (by simp)]

/-- No shorthand property is left. -/
theorem not_any_shorthandProperty (n : Node) (h : n.WellFormed) :
    (n.ruled rule).any Family.shorthandProperty.isRoot = false := by
  refine not_any_ruled_of_fires keepsShape (fun _ _ _ => not_any_rule) ?_ n h
  rintro ⟨s, t, ks⟩ - hrule
  cases t with
  | shorthand x => cases hrule
  | _ => rfl

/-- Where there is no `super`, no shorthand method is left. -/
theorem not_any_shorthandMethod (n : Node) (h : n.WellFormed) (hs : n.any (·.tag.isSuper) = false) :
    (n.ruled rule).any Family.shorthandMethod.isRoot = false := by
  refine not_any_ruled keepsShape
    (any_ruled (fun _ _ _ _ => rfl) (fun _ _ _ => rfl) fun _ _ => rfl) ignoresKids_isSuper
    (fun _ _ _ => not_any_rule) ?_ n h hs
  rintro ⟨s, t, ks⟩ hn hsuper hrule
  cases t with
  | objMethod =>
    obtain ⟨key, ⟨sf, tf, fks⟩, rfl, -⟩ := hn.objMethod
    simp only [any_mk, any_cons, any_nil, Bool.or_eq_false_iff, Bool.or_false,
      any_eq_false, Bool.not_eq_true] at hsuper
    have hf : usesSuper fks = false := usesSuper_eq_false hsuper.2.2.2
    simp [rule, hf] at hrule
  | _ => rfl

end Shorthand

/-! ## Rest parameters -/

namespace Rest

lemma split?_eq_some_iff : split? ps = some (before, pat) ↔ ∃ s, ps = before ++ [mk s .restPat [pat]] := by
  unfold split?
  constructor
  · intro h
    split at h
    · rename_i s p hl
      cases h
      obtain ⟨l, rfl⟩ := getLast?_eq_some_iff.mp hl
      exact ⟨s, by simp⟩
    · cases h
  · rintro ⟨s, rfl⟩
    simp

/-- The rest parameter of a function, or of a constructor with its key, moves into the body. -/
inductive Moves : Node → Node → Prop
  | intro {s sp sr sb : Span} {t : Tag} {before stmts : List Node} {pat : Node} (keys : List Node) :
    ((∃ a g, t = .func a g ∧ keys = []) ∨ ∃ key, t = .ctor ∧ keys = [key]) →
    (mk sp .params (before ++ [mk sr .restPat [pat]])).WellFormed → (mk sb .block stmts).WellFormed →
    Moves (mk s t (keys ++ [mk sp .params (before ++ [mk sr .restPat [pat]]), mk sb .block stmts]))
      (mk s t (keys ++ [mk sp .params before, mk sb .block (afterDirectives [slice pat before.length] stmts)]))

lemma lower?_cases {p b p' b' : Node} (hp : p.Is .params) (hb : b.Is .block) (h : lower? p b = some (p', b')) :
    ∃ sp sr sb before pat stmts, p = mk sp .params (before ++ [mk sr .restPat [pat]]) ∧
      b = mk sb .block stmts ∧ p' = mk sp .params before ∧
      b' = mk sb .block (afterDirectives [slice pat before.length] stmts) := by
  obtain ⟨sp, ps, rfl⟩ := eq_of_role hp.2 rfl
  obtain ⟨sb, stmts, rfl⟩ := eq_of_role hb.2 rfl
  simp only [lower?, Option.bind_eq_bind, Option.bind_eq_some_iff, Option.pure_def, Option.some.injEq,
    Prod.exists, Prod.mk.injEq] at h
  obtain ⟨before, pat, hs, rfl, rfl⟩ := h
  obtain ⟨sr, rfl⟩ := split?_eq_some_iff.mp hs
  exact ⟨sp, sr, sb, before, pat, stmts, rfl, rfl, rfl, rfl⟩

/-- All that the rule can do. -/
lemma moves_of_rule (hn : n.WellFormed) (h : rule n = some new) : Moves n new := by
  unfold rule at h
  split at h
  · obtain ⟨p, b, hks, hp, hb⟩ := hn.func
    cases hks
    obtain ⟨⟨p', b'⟩, hl, hnew⟩ := Option.bind_eq_some_iff.mp h
    cases hnew
    obtain ⟨sp, sr, sb, before, pat, stmts, rfl, rfl, rfl, rfl⟩ := lower?_cases hp hb hl
    exact .intro [] (.inl ⟨_, _, rfl, rfl⟩) hp.1 hb.1
  · obtain ⟨key, p, b, hks, -, hp, hb⟩ := hn.ctor
    cases hks
    obtain ⟨⟨p', b'⟩, hl, hnew⟩ := Option.bind_eq_some_iff.mp h
    cases hnew
    obtain ⟨sp, sr, sb, before, pat, stmts, rfl, rfl, rfl, rfl⟩ := lower?_cases hp hb hl
    exact .intro [_] (.inr ⟨_, rfl, rfl⟩) hp.1 hb.1
  · cases h

/-- The parameters before a rest parameter are patterns, and so is what it binds. -/
lemma targets_of_params (h : (mk sp .params (before ++ [mk sr .restPat [pat]])).WellFormed) :
    (∀ k ∈ before, k.OfRole Role.isTarget) ∧ pat.OfRole Role.isTarget := by
  have hrest : (mk sr .restPat [pat]).WellFormed := h.kid (by simp)
  have hroles := h.fits
  simp only [Tag.fits, Role.areParams, map_append, map_cons, map_nil,
    dropLast_concat, all_append, Bool.and_eq_true, all_map, all_eq_true,
    Function.comp_apply, Bool.or_eq_true, beq_iff_eq, bne_iff_ne] at hroles
  refine ⟨fun k hk => ⟨h.kid (by simp [hk]), ?_⟩, hrest.kid (by simp), ?_⟩
  · exact (hroles.1.1 k hk).resolve_right (hroles.2 k hk)
  · simpa [Tag.fits] using hrest.fits

/-- Patterns make a list of parameters. -/
lemma is_params {ks : List Node} (h : ∀ k ∈ ks, k.OfRole Role.isTarget) : (mk s .params ks).Is .params := by
  refine (is_mk rfl).mpr ⟨?_, fun k hk => (h k hk).1⟩
  have hne : ∀ r : Role, r.isTarget = true → r ≠ .rest := by
    rintro r hr rfl
    cases hr
  simp only [Tag.fits, Role.areParams, Bool.and_eq_true, all_eq_true, Bool.or_eq_true, bne_iff_ne]
  constructor
  · exact forall_mem_map.mpr fun k hk => .inl (h k hk).2
  · intro r hr
    obtain ⟨k, hk, rfl⟩ := mem_map.mp ((dropLast_sublist _).subset hr)
    exact hne _ (h k hk).2

lemma is_slice (h : pat.OfRole Role.isTarget) : (slice pat i).Is .stmt := by
  have hargs : ∀ k ∈ [ident "arguments", natLit i], k.OfRole Role.isArgument := by
    simp only [mem_cons, not_mem_nil, or_false, forall_eq_or_imp, forall_eq]
    exact ⟨is_ident.ofRole rfl, (is_natLit i).ofRole rfl⟩
  simp [slice, h, hargs]

/-- The body that a rest parameter moves into. -/
lemma is_moved {stmts : List Node} (hb : (mk sb .block stmts).WellFormed) (hp : pat.OfRole Role.isTarget) :
    (mk sb .block (afterDirectives [slice pat i] stmts)).Is .block := by
  refine (is_mk rfl).mpr (forall_ofRole.mp fun k hk => ?_)
  rcases mem_afterDirectives.mp hk with hk | hk
  · rw [mem_singleton.mp hk]
    exact (is_slice hp).ofRole rfl
  · exact forall_ofRole.mpr (wellFormed_mk.mp hb) k hk

lemma keepsShape : KeepsShape rule := by
  intro n new hn h
  cases moves_of_rule hn h with
  | intro keys _ hp hb =>
    obtain ⟨hbefore, hpat⟩ := targets_of_params hp
    refine ⟨hn.of_roles (by simp) fun k hk => ?_, rfl⟩
    simp only [mem_append, mem_cons, not_mem_nil, or_false] at hk
    rcases hk with hk | rfl | rfl
    · exact hn.kid (by simp [hk])
    · exact (is_params hbefore).1
    · exact (is_moved hb hpat).1

/-- A search finds the same in the parts before and after the rest parameter moves. -/
lemma any_moved [Foreign p] (hr : ∀ s ks, p (mk s .restPat ks) = false) {keys stmts : List Node} :
    (keys ++ [mk sp .params before, mk sb .block (afterDirectives [slice pat i] stmts)]).any (·.any p) =
      (keys ++ [mk sp .params (before ++ [mk sr .restPat [pat]]), mk sb .block stmts]).any (·.any p) := by
  have hslice : (slice pat i).any p = pat.any p := by simp [slice]
  simp only [any_core (p := p) (t := .params) rfl, any_core (p := p) (t := .block) rfl,
    any_afterDirectives, any_append, any_cons, any_nil, hslice, any_mk _ sr, hr,
    Bool.or_false, Bool.false_or]
  ac_rfl

/-- The rule leaves a search for other syntax alone. -/
lemma any_rule [Foreign p] (hf : ∀ s a g ks, p (mk s (.func a g) ks) = false)
    (hc : ∀ s ks, p (mk s .ctor ks) = false) (hr : ∀ s ks, p (mk s .restPat ks) = false) (hn : n.WellFormed)
    (h : rule n = some new) : new.any p = n.any p := by
  cases moves_of_rule hn h with
  | @intro s _ _ _ t _ _ _ keys ht _ _ =>
    have hroot : ∀ ks, p (mk s t ks) = false := by
      obtain ⟨a, g, rfl, -⟩ | ⟨key, rfl, -⟩ := ht
      · exact hf s a g
      · exact hc s
    rw [any_mk _ s, any_mk _ s, hroot, hroot, any_moved hr]

/-- A list of parameters has a rest parameter iff one has that role. -/
lemma hasRest_eq (params : Node) : hasRest params = params.kids.any (·.role == .rest) := by
  refine any_congr_mem fun k _ => ?_
  obtain ⟨s, t, ks⟩ := k
  cases t <;> rfl

/-- Where a list of parameters has a rest parameter, it splits. -/
lemma split?_isSome (h : (mk s .params ps).WellFormed) (hr : hasRest (mk s .params ps) = true) :
    ∃ before pat, split? ps = some (before, pat) := by
  rw [hasRest_eq, kids_mk] at hr
  have hroles := h.fits
  rcases eq_nil_or_concat ps with rfl | ⟨before, last, rfl⟩
  · cases hr
  · simp only [Tag.fits, Role.areParams, concat_eq_append, map_append, map_cons,
      map_nil, dropLast_concat, Bool.and_eq_true, all_map, all_eq_true,
      Function.comp_apply, bne_iff_ne] at hroles
    simp only [concat_eq_append, any_append, any_cons, any_nil, Bool.or_false,
      Bool.or_eq_true, any_eq_true, beq_iff_eq] at hr
    have hlast : last.role = .rest := by
      rcases hr with ⟨k, hk, hrest⟩ | hr
      · exact absurd hrest (hroles.2 k hk)
      · exact hr
    obtain ⟨sr, ks, rfl⟩ := eq_of_role hlast rfl
    obtain ⟨pat, rfl, -⟩ := (h.kid (k := mk sr .restPat ks) (by simp)).restPat
    exact ⟨before, pat, split?_eq_some_iff.mpr ⟨sr, concat_eq_append⟩⟩

lemma lower?_isSome {p b : Node} (hp : p.Is .params) (hr : hasRest p = true) :
    ∃ p' b', lower? p b = some (p', b') := by
  obtain ⟨sp, ps, rfl⟩ := eq_of_role hp.2 rfl
  obtain ⟨sb, tb, stmts⟩ := b
  obtain ⟨before, pat, hs⟩ := split?_isSome hp.1 hr
  exact ⟨mk sp .params before, mk sb tb (afterDirectives [slice pat before.length] stmts), by simp [lower?, hs]⟩

/-- Where the rule does not fire there is no rest parameter. -/
lemma isRoot_eq_false_of_rule (hn : n.WellFormed) (h : rule n = none) : Family.restParameter.isRoot n = false := by
  by_contra hroot
  obtain ⟨s, t, ks⟩ := n
  cases t with
  | func a g =>
    obtain ⟨p, b, rfl, hp, -⟩ := hn.func
    obtain ⟨p', b', hl⟩ := lower?_isSome (b := b) hp (by simpa [Family.isRoot] using hroot)
    simp [rule, hl] at h
  | ctor =>
    obtain ⟨k, p, b, rfl, -, hp, -⟩ := hn.ctor
    obtain ⟨p', b', hl⟩ := lower?_isSome (b := b) hp (by simpa [Family.isRoot] using hroot)
    simp [rule, hl] at h
  | _ => exact hroot rfl

/-- Parameters that are patterns have no rest parameter among them. -/
lemma hasRest_eq_false {t : Tag} {ks : List Node} (h : ∀ k ∈ ks, k.OfRole Role.isTarget) :
    hasRest (mk s t ks) = false := by
  rw [hasRest_eq, kids_mk, any_eq_false]
  intro k hk hrest
  have := (h k hk).2
  rw [beq_iff_eq.mp hrest] at this
  cases this

/-- The rule leaves no rest parameter. -/
lemma not_any_rule (hn : n.WellFormed) (h : rule n = some new)
    (hk : ∀ k ∈ n.kids, k.any Family.restParameter.isRoot = false) :
    new.any Family.restParameter.isRoot = false := by
  cases moves_of_rule hn h with
  | @intro s sp sr sb t before stmts pat keys ht hp hb =>
    have hrest := hasRest_eq_false (s := sp) (t := .params) (targets_of_params hp).1
    have hroot : Family.restParameter.isRoot (mk s t (keys ++ [mk sp .params before,
        mk sb .block (afterDirectives [slice pat before.length] stmts)])) = false := by
      obtain ⟨a, g, rfl, rfl⟩ | ⟨key, rfl, rfl⟩ := ht <;> simpa [Family.isRoot] using hrest
    rw [any_mk, hroot, any_moved (fun _ _ => rfl), Bool.false_or, any_eq_false]
    exact fun k hmem => ne_true_of_eq_false (hk k hmem)

/-- The pass leaves a search for other syntax alone. -/
theorem any_ruled [Foreign p]
    (hk : ∀ s t ks, (mk s t ks).WellFormed → p (mk s t (ks.map (ruled rule))) = p (mk s t ks))
    (hf : ∀ s a g ks, p (mk s (.func a g) ks) = false) (hc : ∀ s ks, p (mk s .ctor ks) = false)
    (hr : ∀ s ks, p (mk s .restPat ks) = false) (n : Node) (h : n.WellFormed) :
    (n.ruled rule).any p = n.any p :=
  Node.any_ruled keepsShape hk (fun _ _ hn h => any_rule hf hc hr hn h) n h

/-- No rest parameter is left. -/
theorem not_any_restParameter (n : Node) (h : n.WellFormed) :
    (n.ruled rule).any Family.restParameter.isRoot = false :=
  not_any_ruled_of_fires keepsShape (fun _ _ hn hrule hkids => not_any_rule hn hrule hkids)
    (fun _ hn hrule => isRoot_eq_false_of_rule hn hrule) n h

end Rest

/-! ## Templates -/

namespace Template

/-- All that the rule can do. -/
lemma rule_cases (h : rule n = some new) : (∃ s qs es, n = mk s (.template qs) es ∧ new = concat qs es) ∨
    (∃ s sq qs tag es, n = mk s (.tagged sq qs) (tag :: es) ∧ new = tagCall tag qs es) := by
  unfold rule at h
  split at h
  · cases h
    exact .inl ⟨_, _, _, rfl, rfl⟩
  · cases h
    exact .inr ⟨_, _, _, _, _, rfl, rfl⟩
  · cases h

/-- The substitutions of a template are expressions, and one text stands behind each of them. -/
lemma parts_of_template (h : (mk s (.template qs) es).WellFormed) :
    (∀ e ∈ es, e.Is .expr) ∧ qs.length = es.length + 1 := by
  have hroles := h.fits
  simp only [Tag.fits, Bool.and_eq_true, all_map, all_eq_true, Function.comp_apply, beq_iff_eq, length_map] at hroles
  exact ⟨fun e he => ⟨h.kid he, hroles.1 e he⟩, hroles.2⟩

lemma parts_of_tagged {sq : Span} (h : (mk s (.tagged sq qs) es).WellFormed) : ∀ e ∈ es, e.Is .expr := by
  have hroles := h.fits
  simp only [Tag.fits, Bool.and_eq_true, all_map, all_eq_true, Function.comp_apply, beq_iff_eq] at hroles
  exact fun e he => ⟨h.kid he, hroles.1.1 e he⟩

lemma is_argument (h : e.Is .expr) : (argument e).Is .expr := by
  unfold argument
  split
  · exact is_paren.mpr h
  · exact h

lemma is_cooked (h : e ∈ cooked c) : e.Is .expr := by
  obtain ⟨u, -, rfl⟩ := Option.map_eq_some_iff.mp h
  exact is_unitsLit u

lemma is_pieces (h : ∀ e ∈ es, e.Is .expr) : ∀ k ∈ (zipWith pieces es qs).flatten, k.Is .expr := by
  intro k hk
  obtain ⟨l, hl, hk⟩ := mem_flatten.mp hk
  obtain ⟨e, c, rfl, he, -⟩ : ∃ e c, pieces e c = l ∧ e ∈ es ∧ c ∈ qs := by
    rw [← map_uncurry_zip_eq_zipWith, mem_map] at hl
    obtain ⟨⟨e, c⟩, hz, rfl⟩ := hl
    exact ⟨e, c, rfl, of_mem_zip hz⟩
  rcases mem_cons.mp hk with rfl | hk
  · exact is_argument (h e he)
  · split at hk
    · cases hk
    · exact is_cooked (Option.mem_toList.mp hk)

lemma is_concat (h : ∀ e ∈ es, e.Is .expr) : (concat qs es).Is .expr := by
  have hhead : ((qs.head?.bind cooked).getD (strLit "")).Is .expr := by
    cases hc : qs.head?.bind cooked with
    | none => exact is_strLit
    | some e =>
      obtain ⟨c, -, hc⟩ := Option.bind_eq_some_iff.mp hc
      exact is_cooked hc
  unfold concat
  split
  · exact hhead
  · exact is_call.mpr ⟨is_member.mpr hhead, fun k hk => (is_pieces h k hk).ofRole rfl⟩

lemma is_strings (qs : List Quasi) : (strings qs).Is .expr := by
  have hcall : ∀ (names : List String) (args : List Node), (∀ k ∈ args, k.Is .expr) →
      (call (path names) args).Is .expr := fun names args h =>
    is_call.mpr ⟨is_path names, fun k hk => (h k hk).ofRole rfl⟩
  have harray : ∀ f : Quasi → Node, (∀ c, (f c).Is .expr) → (array (qs.map f)).Is .expr :=
    fun f hf => is_array.mpr (forall_mem_map.mpr fun c _ => (hf c).ofRole rfl)
  have hcooked : ∀ c, ((cooked c).getD undefined).Is .expr := by
    intro c
    cases hc : cooked c with
    | none => exact is_undefined
    | some e => exact is_cooked hc
  refine hcall _ _ (forall_mem_singleton.mpr (hcall _ _ ?_))
  simp only [forall_mem_cons, not_mem_nil, false_imp_iff, implies_true, and_true]
  refine ⟨harray _ hcooked, is_strLit, (is_object _).mpr ?_⟩
  refine forall_mem_singleton.mpr (hcall _ _ (forall_mem_singleton.mpr ?_))
  exact harray _ fun c => is_strLit

lemma is_tagCall {tag : Node} (ht : tag.Is .expr) (h : ∀ e ∈ es, e.Is .expr) : (tagCall tag qs es).Is .expr := by
  refine is_call.mpr ⟨ht, fun k hk => ?_⟩
  rcases mem_cons.mp hk with rfl | hk
  · exact (is_strings qs).ofRole rfl
  · exact (h k hk).ofRole rfl

lemma keepsShape : KeepsShape rule := by
  intro n new hn h
  obtain ⟨s, qs, es, rfl, rfl⟩ | ⟨s, sq, qs, tag, es, rfl, rfl⟩ := rule_cases h
  · exact is_concat (parts_of_template hn).1
  · have hparts := parts_of_tagged hn
    exact is_tagCall (hparts tag (by simp)) fun e he => hparts e (by simp [he])

section Search

variable (F : Search)

lemma finds_argument (e : Node) : F.Finds (argument e) ↔ F.Finds e := by
  unfold argument
  split
  · exact finds_paren F
  · rfl

lemma finds_cooked (h : cooked c = some e) : ¬F.Finds e := by
  obtain ⟨u, -, rfl⟩ := Option.map_eq_some_iff.mp h
  exact finds_unitsLit F u

lemma finds_piece (e : Node) (c : Quasi) : (∃ k ∈ pieces e c, F.Finds k) ↔ F.Finds e := by
  have htext : ¬∃ k ∈ (cooked c).toList, F.Finds k := by
    rintro ⟨k, hk, hf⟩
    exact finds_cooked F (Option.mem_toList.mp hk) hf
  simp only [pieces, mem_cons, exists_eq_or_imp, finds_argument]
  split
  · simp
  · exact or_iff_left htext

/-- With a text behind each substitution, the arguments hold all that the substitutions hold. -/
lemma finds_pieces (h : qs.length = es.length) :
    (∃ k ∈ (zipWith pieces es qs).flatten, F.Finds k) ↔ ∃ e ∈ es, F.Finds e := by
  induction es generalizing qs with
  | nil => simp
  | cons e es ih =>
    obtain _ | ⟨c, qs⟩ := qs
    · cases h
    · simp only [zipWith_cons_cons, flatten_cons, mem_append, or_and_right, exists_or,
        mem_cons, finds_piece F e c, ih (Nat.succ.inj h), exists_eq_left]

lemma finds_concat (h : qs.length = es.length + 1) : F.Finds (concat qs es) ↔ ∃ e ∈ es, F.Finds e := by
  obtain _ | ⟨c, qs⟩ := qs
  · cases h
  have hhead : ¬F.Finds ((cooked c).getD (strLit "")) := by
    cases hc : cooked c with
    | none => exact finds_unitsLit F _
    | some e => exact finds_cooked F hc
  simp only [concat, head?_cons, Option.bind_some, tail_cons]
  split
  · rename_i hes
    simp [isEmpty_iff.mp hes, hhead]
  · rw [finds_call, finds_member, finds_pieces F (Nat.succ.inj h)]
    exact or_iff_right hhead

lemma finds_strings (qs : List Quasi) : ¬F.Finds (strings qs) := by
  have hcooked : ∀ c, ¬F.Finds ((cooked c).getD undefined) := by
    intro c
    cases hc : cooked c with
    | none => exact finds_undefined F
    | some e => exact finds_cooked F hc
  have hpath : ∀ names, ¬F.Finds (path ("Object" :: names)) :=
    fun names => finds_path F (by decide)
  simp [strings, finds_call, finds_array, finds_object, strLit, finds_unitsLit, hpath, hcooked]

lemma finds_tagCall (tag : Node) (qs : List Quasi) (es : List Node) :
    F.Finds (tagCall tag qs es) ↔ ∃ e ∈ tag :: es, F.Finds e := by
  simp only [tagCall, finds_call, mem_cons, exists_eq_or_imp]
  exact or_congr_right (or_iff_right (finds_strings F qs))

/-- **A search finds in the result what it finds in the parts of a template.** -/
lemma finds_rule (hn : n.WellFormed) (h : rule n = some new) : F.Finds new ↔ ∃ k ∈ n.kids, F.Finds k := by
  obtain ⟨s, qs, es, rfl, rfl⟩ | ⟨s, sq, qs, tag, es, rfl, rfl⟩ := rule_cases h
  · exact finds_concat F (parts_of_template hn).2
  · exact finds_tagCall F tag qs es

variable {p : Node → Bool} [Foreign p]

lemma any_rule (hn : n.WellFormed) (h : rule n = some new) : new.any p = n.kids.any (·.any p) := by
  rw [Bool.eq_iff_iff, any_eq_true]
  exact finds_rule (.ofForeign p) hn h

/-- The pass leaves a search for other syntax alone. -/
theorem any_ruled (hk : ∀ s t ks, (mk s t ks).WellFormed → p (mk s t (ks.map (ruled rule))) = p (mk s t ks))
    (ht : ∀ s qs ks, p (mk s (.template qs) ks) = false)
    (ht' : ∀ s sq qs ks, p (mk s (.tagged sq qs) ks) = false) (n : Node) (h : n.WellFormed) :
    (n.ruled rule).any p = n.any p := by
  refine Node.any_ruled keepsShape hk (fun n new hn hrule => ?_) n h
  have hroot : p n = false := by
    obtain ⟨s, qs, es, rfl, -⟩ | ⟨s, sq, qs, tag, es, rfl, -⟩ := rule_cases hrule
    · exact ht _ _ _
    · exact ht' _ _ _ _
  rw [any_rule hn hrule]
  obtain ⟨s, t, ks⟩ := n
  rw [any_mk, hroot, Bool.false_or, kids_mk]

end Search

/-- The rule leaves a template only where there is none. -/
lemma not_template_of_rule (hn : n.WellFormed) (h : rule n = none) :
    Family.templateLiteral.isRoot n = false ∧ Family.taggedTemplate.isRoot n = false := by
  obtain ⟨s, t, ks⟩ := n
  cases t with
  | template qs => cases h
  | tagged sq qs =>
    cases ks with
    | nil => exact absurd hn.fits (by simp [Tag.fits])
    | cons tag es => cases h
  | _ => exact ⟨rfl, rfl⟩

/-- No template is left. -/
theorem not_any_template (n : Node) (h : n.WellFormed) : (n.ruled rule).any Family.templateLiteral.isRoot = false ∧
    (n.ruled rule).any Family.taggedTemplate.isRoot = false := by
  have hfire : ∀ f : Family, ∀ n new : Node, n.WellFormed → rule n = some new →
      (∀ k ∈ n.kids, k.any f.isRoot = false) → new.any f.isRoot = false := by
    intro f n new hn hrule hkids
    rw [any_rule hn hrule, any_eq_false]
    simpa using hkids
  constructor
  · exact not_any_ruled_of_fires keepsShape (hfire _)
      (fun _ hn hrule => (not_template_of_rule hn hrule).1) n h
  · exact not_any_ruled_of_fires keepsShape (hfire _)
      (fun _ hn hrule => (not_template_of_rule hn hrule).2) n h

end Template

end EcmaLower
