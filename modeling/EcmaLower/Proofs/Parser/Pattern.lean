import EcmaLower.Parser.Pattern
import EcmaLower.Proofs.Parser.Name

/-!
# Patterns that are read

A pattern is read as such, or as an expression that turns out to be one. The second way rebuilds a tree
bottom-up, and what it makes of a node depends on the node's role: an expression becomes a target, a
property of an object becomes a property of a pattern.
-/

namespace EcmaLower.Parse

open Node List

/-! ## Expressions read as patterns -/

instance (e : Node) (denyCall : Bool) : Quiet (checkTarget e denyCall) := by
  unfold checkTarget
  have hrest : Ensures (do
      if !isSimpleTarget (← ctx).strict e && isDeniedTarget denyCall e then note e.span .notAssignable)
      fun _ => True := .next fun c => .ite (fun _ => (ensures_note _ _).mono nofun) fun _ => .pure trivial
  refine ⟨?_⟩
  split
  · exact .ite (fun _ => .next fun _ => .pure trivial) fun _ => hrest
  · exact hrest

instance (literal : Span) : Quiet (noteTrailingComma literal) := by
  refine ⟨.next fun s => ?_⟩
  split
  · exact (ensures_note _ _).mono nofun
  · exact .pure trivial

/-- The roles of the elements of a pattern in brackets. -/
def isArrayElement (r : Role) : Bool := r.isTarget || r == .hole || r == .rest

/-- The roles of the elements of a pattern in braces. -/
def isObjectElement (r : Role) : Bool := r == .patProp || r == .rest

/-- What a node becomes when it is read as a pattern. -/
structure BecomesPattern (e p : Node) : Prop where
  expr : e.ReadAs .expr → p.ReadIn Role.isTarget
  spread : e.ReadAs .spread → p.ReadIn Role.isTarget
  prop : e.ReadAs .prop → p.ReadAs .patProp

namespace BecomesPattern

variable {e p : Node}

lemma of_expr (hr : e.role = .expr) (h : e.Read → p.ReadIn Role.isTarget) : BecomesPattern e p where
  expr he := h he.1
  spread he := nomatch hr.symm.trans he.2
  prop he := nomatch hr.symm.trans he.2

lemma of_spread (hr : e.role = .spread) (h : e.Read → p.ReadIn Role.isTarget) : BecomesPattern e p where
  expr he := nomatch hr.symm.trans he.2
  spread he := h he.1
  prop he := nomatch hr.symm.trans he.2

lemma of_prop (hr : e.role = .prop) (h : e.Read → p.ReadAs .patProp) : BecomesPattern e p where
  expr he := nomatch hr.symm.trans he.2
  spread he := nomatch hr.symm.trans he.2
  prop he := h he.1

end BecomesPattern

/-- A list of nodes, each with the parser that makes a pattern of it. -/
def Converts (ks : List (Node × (PatternUse → Parse Node))) : Prop :=
  ∀ x ∈ ks, ∀ use, Ensures (x.2 use) (BecomesPattern x.1)

lemma ensures_arrayElements (literal : Span) (use : PatternUse)
    (ks : List (Node × (PatternUse → Parse Node))) (h : Converts ks) :
    Ensures (arrayElements literal use ks) fun ps =>
      AllIn (fun r => r.isArgument || r == .hole) (ks.map (·.1)) → AllIn isArrayElement ps := by
  induction ks with
  | nil => exact .pure (by simp)
  | cons x ks ih =>
    obtain ⟨k, r⟩ := x
    have hrest := ih fun y hy => h y (mem_cons_of_mem _ hy)
    have hk := h (k, r) (mem_cons_self ..)
    simp only [map_cons, allIn_cons]
    unfold arrayElements
    dsimp only
    split
    · next hhole =>
      refine .ite (fun _ => .pure (by simp)) fun _ => hrest.bind fun ps => .pure fun hps hks => ?_
      refine allIn_cons.mpr ⟨⟨hks.1.1, ?_⟩, hps hks.2⟩
      rw [role, hhole]
      rfl
    · next hspread =>
      refine .ite (fun _ => .next fun _ => hrest.mono fun ps hps hks => hps hks.2) fun _ => ?_
      refine .check fun _ => .next fun _ => (hk _).bind fun p => .pure fun hp hks => ?_
      have hp := hp.spread ⟨hks.1.1, by rw [role, hspread]; rfl⟩
      simpa using ⟨read_one hp fun _ => rfl, rfl⟩
    · next hhole hspread =>
      refine (hk _).bind fun p => hrest.bind fun ps => .pure fun hps hp hks => ?_
      have hexpr : k.role = .expr := by
        have hrole := hks.1.2
        cases hr : k.role <;> rw [hr] at hrole <;> first | rfl | (cases hrole; done) | skip
        · exact absurd (Tag.eq_of_role (congrArg Role.onlyTag hr)) hspread
        · exact absurd (Tag.eq_of_role (congrArg Role.onlyTag hr)) hhole
      have hp := hp.expr ⟨hks.1.1, hexpr⟩
      exact allIn_cons.mpr ⟨hp.mono fun r hr => by simp [isArrayElement, hr], hps hks.2⟩

lemma ensures_objectElements (literal : Span) (use : PatternUse)
    (ks : List (Node × (PatternUse → Parse Node))) (h : Converts ks) :
    Ensures (objectElements literal use ks) fun ps =>
      AllIn (fun r => r == .prop || r == .spread) (ks.map (·.1)) → AllIn isObjectElement ps := by
  induction ks with
  | nil => exact .pure (by simp)
  | cons x ks ih =>
    obtain ⟨k, r⟩ := x
    have hrest := ih fun y hy => h y (mem_cons_of_mem _ hy)
    have hk := h (k, r) (mem_cons_self ..)
    simp only [map_cons, allIn_cons]
    unfold objectElements
    extract_lets cons rest element
    have hcons : ∀ p, Ensures (cons p) fun ps => p.ReadIn isObjectElement →
        AllIn (fun r => r == .prop || r == .spread) (ks.map (·.1)) → AllIn isObjectElement ps := fun p =>
      hrest.bind fun ps => .pure fun hps hp hks => allIn_cons.mpr ⟨hp, hps hks⟩
    split
    · next hspread =>
      have hrestPat : ∀ p, Ensures (rest p) fun ps => p.ReadIn Role.isTarget →
          AllIn (fun r => r == .prop || r == .spread) (ks.map (·.1)) → AllIn isObjectElement ps :=
        fun p => .check fun _ => .pure_bind <| (hcons _).mono fun ps hps hp =>
          hps ⟨read_one hp fun _ => rfl, rfl⟩
      have helement : ∀ x, Ensures (element x) fun ps =>
          (k.ReadIn fun r => r == .prop || r == .spread) ∧
            AllIn (fun r => r == .prop || r == .spread) (ks.map (·.1)) → AllIn isObjectElement ps := by
        intro x
        unfold element
        split
        · exact .pure_bind <| (hrestPat _).mono fun ps hps hks =>
            hps ⟨read_leaf rfl, rfl⟩ hks.2
        · exact .next fun _ => .pure_bind <| (hrestPat _).mono fun ps hps hks =>
            hps ⟨read_leaf rfl, rfl⟩ hks.2
        · refine (hk _).bind fun p => (hrestPat p).mono fun ps hps hp hks => hps (hp.spread ?_) hks.2
          exact ⟨hks.1.1, by rw [role, hspread]; rfl⟩
      exact .ite (fun _ => .next helement) fun _ => .next helement
    · next hspread =>
      refine (hk _).bind fun p => (hcons p).mono fun ps hps hp hks => hps ?_ hks.2
      have hprop : k.role = .prop := by
        have hrole := hks.1.2
        cases hr : k.role <;> rw [hr] at hrole <;> first | rfl | (cases hrole; done) | skip
        exact absurd (Tag.eq_of_role (congrArg Role.onlyTag hr)) hspread
      exact (hp.prop ⟨hks.1.1, hprop⟩).within rfl

/-- A node that is neither an object nor an array. -/
lemma ensures_simple (s : Span) (t : Tag) (ks : List (Node × (PatternUse → Parse Node)))
    (use : PatternUse) : Ensures (toPattern.simple s t ks use) fun p =>
      (mk s t (ks.map (·.1))).ReadAs .expr → p.ReadIn Role.isTarget := by
  have hnot : Ensures (toPattern.notPattern s) fun p =>
      (mk s t (ks.map (·.1))).ReadAs .expr → p.ReadIn Role.isTarget :=
    .next fun _ => .pure fun _ => ⟨read_leaf rfl, rfl⟩
  have hself : Ensures (pure (mk s t (ks.map (·.1)))) fun p =>
      (mk s t (ks.map (·.1))).ReadAs .expr → p.ReadIn Role.isTarget :=
    .pure fun h => h.within rfl
  unfold toPattern.simple
  dsimp only
  split
  · exact .pure fun _ => ⟨read_leaf rfl, rfl⟩
  · split
    · next target value hks =>
      refine .pure fun h => ?_
      rw [hks] at h
      exact ⟨read_of_reads (fun k hk => h.1.kid hk) h.1.fits, rfl⟩
    · exact hnot
  all_goals first
    | exact .ite (fun _ => hself) fun _ => hnot
    | exact .ite (fun _ => .next fun _ => hnot) fun _ => hnot

/-- One level of the recursion. -/
lemma ensures_step (s : Span) (t : Tag) (ks : List (Node × (PatternUse → Parse Node)))
    (h : Converts ks) (use : PatternUse) :
    Ensures (toPattern.step s t ks use) (BecomesPattern (mk s t (ks.map (·.1)))) := by
  unfold toPattern.step
  dsimp only
  split
  · exact .pure (.of_expr rfl fun h => ⟨h, rfl⟩)
  · refine (ensures_objectElements s use _ h).bind fun ps => .pure fun hps => .of_expr rfl fun he => ?_
    refine ⟨read_list (hps fun k hk => ⟨he.kid hk, ?_⟩) fun _ => rfl, rfl⟩
    exact all_eq_true.mp he.fits _ (mem_map_of_mem hk)
  · refine (ensures_arrayElements s use _ h).bind fun ps => .pure fun hps => .of_expr rfl fun he => ?_
    refine ⟨read_list (hps fun k hk => ⟨he.kid hk, ?_⟩) fun _ => rfl, rfl⟩
    exact all_eq_true.mp he.fits _ (mem_map_of_mem hk)
  · next k r tail =>
    refine (h (k, r) (mem_cons_self ..) use).mono fun p hp => .of_spread rfl fun he => ?_
    have hfits := he.fits
    simp only [Tag.fits, map_cons, beq_iff_eq, cons.injEq] at hfits
    exact hp.expr ⟨he.kid (by simp), hfits.1⟩
  · exact .pure (.of_prop rfl fun _ => ⟨read_leaf rfl, rfl⟩)
  · next key r₁ value r =>
    refine (h (value, r) (by simp) _).bind fun p => .pure fun hp => .of_prop rfl fun he => ?_
    have hfits := he.fits
    simp only [Tag.fits, map_cons, map_nil, Bool.and_eq_true, beq_iff_eq] at hfits
    exact ⟨read_two ⟨he.kid (by simp), hfits.1⟩
      (hp.expr ⟨he.kid (by simp), hfits.2⟩) fun _ _ => rfl, rfl⟩
  · refine .pure (.of_prop rfl fun he => ⟨read_of_reads (fun k hk => he.kid hk) ?_, rfl⟩)
    have hfits := he.fits
    simp only [Tag.fits, beq_iff_eq] at hfits
    rw [hfits]
    rfl
  · exact ensures_fail _ _
  · exact ensures_fail _ _
  · exact ensures_fail _ _
  · next hinvalid hobject harray hshorthand hinit hmethod hgetter hsetter hspread hkeyValue =>
    have hexpr := ensures_simple s t ks use
    refine .mono (P := fun p => (mk s t (ks.map (·.1))).ReadAs .expr → p.ReadIn Role.isTarget) ?_
      fun p hp => ⟨hp, fun he => ?_, fun he => ?_⟩
    · refine .ite (fun _ => .next fun _ => ?_) fun _ => .next fun c => .ite (fun _ => ?_) fun _ => hexpr
      · split
        · exact .pure fun _ => ⟨read_leaf rfl, rfl⟩
        · exact .pure fun he => he.within rfl
      · split <;> first | exact .next fun _ => hexpr | exact hexpr
    · obtain rfl : t = .spread := Tag.eq_of_role (congrArg Role.onlyTag he.2)
      rcases ks with _ | ⟨⟨k, r⟩, tail⟩
      · exact absurd he.1.fits (by simp [Tag.fits])
      · exact (hspread k r tail rfl rfl).elim
    · cases t with
      | keyValue =>
        rcases ks with _ | ⟨⟨k, r₁⟩, _ | ⟨⟨v, r⟩, _ | ⟨_, _⟩⟩⟩
        · exact absurd he.1.fits (by simp [Tag.fits])
        · exact absurd he.1.fits (by simp [Tag.fits])
        · exact (hkeyValue k r₁ v r rfl rfl).elim
        · exact absurd he.1.fits (by simp [Tag.fits])
      | shorthand n => exact (hshorthand n rfl).elim
      | initShorthand n => exact (hinit n rfl).elim
      | objMethod => exact (hmethod rfl).elim
      | getter => exact (hgetter rfl).elim
      | setter => exact (hsetter rfl).elim
      | _ => cases he.2

/-- **An expression read as a pattern.** -/
lemma ensures_toPattern (e : Node) (use : PatternUse) : Ensures (toPattern e use) (BecomesPattern e) := by
  induction e generalizing use with
  | mk s t ks ih =>
    rw [toPattern, fold_mk]
    have hks : (ks.map fun k => (k, k.fold toPattern.step)).map (·.1) = ks := by simp [Function.comp_def]
    have hstep := ensures_step s t (ks.map fun k => (k, k.fold toPattern.step)) (fun x hx use => ?_) use
    · rwa [hks] at hstep
    · obtain ⟨k, hk, rfl⟩ := mem_map.mp hx
      exact ih k hk use

/-- Looking for names that strict code may not bind. -/
instance (p : Node) : Quiet (noteStrictParam p) := by
  induction p with
  | mk s t ks ih =>
    unfold noteStrictParam
    rw [fold_mk]
    have hkids : Ensures ((ks.map fun k => (k, noteStrictParam k)).forM fun k => k.2)
        fun _ => True := by
      have : ∀ l : List Node, (∀ k ∈ l, Quiet (noteStrictParam k)) →
          Ensures ((l.map fun k => (k, noteStrictParam k)).forM fun k => k.2) fun _ => True := by
        intro l hl
        induction l with
        | nil => exact .pure trivial
        | cons k l ihl =>
          have := hl k (by simp)
          exact .next fun _ => ihl fun k hk => hl k (by simp [hk])
      exact this ks ih
    refine ⟨?_⟩
    cases t with
    | binding n | patName i =>
      exact .ite (fun _ => (ensures_note _ _).mono nofun) fun _ => .pure trivial
    | arrayPat | objectPat | restPat => exact hkids
    | assignPat =>
      match ks, ih with
      | [], _ => exact .pure trivial
      | k :: _, ih => exact (ih k (by simp)).ensures
    | patKeyValue =>
      match ks, ih with
      | [_, k], ih => exact (ih k (by simp)).ensures
      | [], _ | [_], _ | _ :: _ :: _ :: _, _ => exact .pure trivial
    | _ => exact .pure trivial

/-! ## Bindings -/

section Grammar

variable {g : Grammar} [hg : g.Sound]

lemma ensures_bindingElement : Ensures (bindingElement g) (ReadAs .pat) := by
  refine .next fun start => (hg.binding false).bind fun left => .next fun hasDefault => ?_
  refine .ite (fun _ => ?_) fun _ => .pure id
  refine hg.assign.allowIn.bind fun right => .next fun span => .pure fun hright hleft => ?_
  exact ⟨read_two (hleft.within rfl) hright.beq fun _ _ => rfl, rfl⟩

lemma ensures_arrayBinding : Ensures (arrayBinding g) (ReadAs .pat) := by
  refine .next fun start => .next fun _ => ?_
  refine .bind (P := AllIn isArrayElement) ?_ fun elems => .next fun _ => .next fun span =>
    .pure fun helems => ⟨read_list helems fun _ => rfl, rfl⟩
  refine .loop (fun x => AllIn isArrayElement x.1) (by simp) fun (acc, rest) => ?_
  refine .next fun isEnd => .ite (fun _ => .pure fun h => h) fun _ => ?_
  refine .next fun isHole => .ite (fun _ => .next fun _ => .pure fun hacc => ?_) fun _ => ?_
  · exact hacc.concat ⟨read_leaf rfl, rfl⟩
  extract_lets element
  have helement : ∀ x, Ensures (element x) fun r => AllIn isArrayElement acc →
      Progress (fun x => AllIn isArrayElement x.1) (AllIn isArrayElement) r := by
    intro x
    refine .next fun elemStart => .next fun isRest => ?_
    extract_lets append
    have happend : ∀ x, Ensures (append x) fun r => x.1.ReadIn isArrayElement → AllIn isArrayElement acc →
          Progress (fun x => AllIn isArrayElement x.1) (AllIn isArrayElement) r := by
      rintro ⟨elem, rest⟩
      refine .next fun isEnd => ?_
      extract_lets result
      have hresult : ∀ x, Ensures (result x) fun r => elem.ReadIn isArrayElement → AllIn isArrayElement acc →
            Progress (fun x => AllIn isArrayElement x.1) (AllIn isArrayElement) r :=
        fun _ => .pure fun helem hacc => hacc.concat helem
      clear_value result
      refine .ite (fun _ => .next fun _ => .next fun isEnd => ?_) fun _ => hresult ()
      exact .ite (fun _ => .next fun _ => .next hresult) fun _ => hresult ()
    clear_value append
    refine .ite (fun _ => ?_) fun _ => ?_
    · refine (hg.binding false).bind fun p => .next fun span => .pure_bind <| (happend _).mono fun r hr hp => hr ?_
      exact ⟨read_one (hp.within rfl) fun _ => rfl, rfl⟩
    · exact ensures_bindingElement.bind fun p => .pure_bind <| (happend _).mono fun r hr hp => hr (hp.within rfl)
  clear_value element
  split
  · exact .next helement
  · exact helement ()

lemma ensures_bindingProperty : Ensures (bindingProperty g) (ReadIn isObjectElement) := by
  refine .next fun start => .next fun isRest => .ite (fun _ => ?_) fun _ => ?_
  · refine (hg.binding false).bind fun p => .next fun span => .pure fun hp => ?_
    exact ⟨read_one (hp.within rfl) fun _ => rfl, rfl⟩
  · refine ensures_propertyKey.bind fun key => .next fun hasValue => .ite (fun _ => ?_) fun _ => ?_
    · refine ensures_bindingElement.bind fun p => .next fun span => .pure fun hp hkey => ?_
      exact ⟨read_two hkey (hp.within rfl) fun _ _ => rfl, rfl⟩
    · split
      · refine .next fun hasDefault => .ite (fun _ => ?_) fun _ => ?_
        · refine hg.assign.allowIn.bind fun value => .next fun span => .pure fun hvalue _ => ?_
          exact ⟨read_of_roles (.cons hvalue .nil) rfl, rfl⟩
        · exact .next fun span => .pure fun _ => ⟨read_leaf rfl, rfl⟩
      · exact ensures_unexpected _

end Grammar

/-- A list of properties in braces. -/
lemma ensures_braced {property : Parse Node} {P : Node → Prop} (h : Ensures property P) :
    Ensures (braced property) fun r => ∀ p ∈ r.1, P p := by
  refine .next fun _ => .loop (fun x => ∀ p ∈ x.1, P p) (by simp) fun (acc, comma) => ?_
  refine .next fun isEnd => .ite (fun _ => .pure fun h => h) fun _ => h.bind fun p => ?_
  refine .next fun isEnd => .ite (fun _ => .pure fun hp hacc => forall_mem_concat hacc hp) fun _ => ?_
  refine .next fun _ => .next fun isEnd => ?_
  refine .ite (fun _ => .next fun comma => ?_) fun _ => .next fun comma => ?_
  all_goals exact .pure fun hp hacc => forall_mem_concat hacc hp

instance (comma : Option Span) (ps : List Node) : Quiet (checkObjectRest comma ps) := by
  induction ps with
  | nil => exact ⟨.pure trivial⟩
  | cons p ps ih =>
    have hrest : Ensures (checkObjectRest comma ps) fun _ => True := ih.ensures
    refine ⟨.ite (fun _ => .ite (fun _ => ?_) fun _ => .next fun _ => hrest) fun _ => hrest⟩
    split
    · split
      · exact .next fun _ => hrest
      · exact hrest
    · exact .next fun _ => hrest

section Grammar

variable {g : Grammar} [hg : g.Sound]

lemma ensures_objectBinding : Ensures (objectBinding g) (ReadAs .pat) := by
  refine .next fun start => (ensures_braced ensures_bindingProperty).within.bind fun r =>
    .next fun span => .next fun _ => .pure fun hprops => ?_
  exact ⟨read_list hprops fun _ => rfl, rfl⟩

/-- **What is bound is a pattern.** -/
lemma ensures_binding (forbidLet : Bool) : Ensures (binding g forbidLet) (ReadAs .pat) := by
  refine .next fun k => ?_
  split
  · exact .next fun i => .pure ⟨read_leaf rfl, rfl⟩
  · exact .next fun i => .pure ⟨read_leaf rfl, rfl⟩
  · exact ensures_arrayBinding
  · exact ensures_objectBinding
  · exact .next fun _ => .throw
  · exact ensures_unexpected _

end Grammar

end EcmaLower.Parse
