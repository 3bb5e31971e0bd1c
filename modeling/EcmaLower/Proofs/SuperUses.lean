import EcmaLower.Proofs.MemberStatements

/-!
# How code uses `super`

The code of a member uses a property of `super` in several ways: it reads it, calls it or stores to it. The
lowering of `super` knows a call and a store only if the property itself is the callee or the target; in
parentheses, in an optional call, in a template, in a pattern or as an operand of `++` the property is read
like any other. This module walks through the code that belongs to a member and hands down how the value of
each expression is used, and whether the expression is only evaluated when an arrow is called.

The walk is followed through both steps of the lowering: that of the classes in the code, which leaves the
walk as it is, and that of `super`, which is described by what is found on the walk before and after.
-/

namespace EcmaLower

open Node Build SuperContext Option List

variable {m : Mark} {s : Span} {n a key f n' e k o r value : Node} {t : Tag} {ks args hs : List Node} {op : AssignOp}
  {x : String} {i : Nat}

/-- How the value of an expression is used. -/
inductive Usage
  | read
  /-- It is called, as the callee itself. -/
  | callee
  /-- It is assigned to, as the target itself. -/
  | target
  /-- It is called, but not as the callee of a plain call. -/
  | called
  /-- It is changed, but not as the target of an assignment. -/
  | changed
deriving DecidableEq, Repr

/-- The usage of an expression in parentheses. -/
def Usage.inParens : Usage → Usage
  | read => read
  | callee | called => called
  | target | changed => changed

/-- Whether the lowering of `super` overlooks a call or a store. -/
def Usage.isIndirect (u : Usage) : Bool := u == called || u == changed

/-- Whether the lowering of `super` sees a call or a store. -/
def Usage.isDirect (u : Usage) : Bool := u == callee || u == target

/-- How the value of an expression is used, and whether it is only evaluated when an arrow is called. -/
structure Mark where
  usage : Usage
  deferred : Bool
deriving DecidableEq, Repr

/-- An expression that is read at the same time. -/
def Mark.reading (m : Mark) : Mark := ⟨.read, m.deferred⟩

/-- How the `i`-th child of a node is used, where the node itself is used as `u`. -/
def Tag.usageAt (u : Usage) : Tag → Nat → Usage
  | .paren, _ => u.inParens
  | .call, 0 => .callee
  | .optCall _, 0 | .tagged .., 0 => .called
  | .assign _, 0 => .target
  | .update .., _ | .unary .delete, _ | .arrayPat, _ | .restPat, _ => .changed
  | .assignPat, 0 | .patKeyValue, 1 | .forIn, 0 | .forOf _, 0 => .changed
  | _, _ => .read

/-- Whether a node is an arrow. -/
def Tag.isArrow : Tag → Bool
  | .arrow _ => true
  | _ => false

namespace Class

/-- The mark of the `i`-th child of a node. -/
def markAt (m : Mark) (t : Tag) (i : Nat) : Mark := ⟨t.usageAt m.usage i, m.deferred || t.isArrow⟩

/-- The parts of a node that belong to the code of the same member. Functions, accessors and classes have
code of their own; of a class that is lowered the heritage stays outside. The key of a method that is called
on `super` is not looked into when `super` is lowered. -/
def ownParts (m : Mark) : Node → List (Mark × Node)
  | .mk _ (.func ..) _ | .mk _ .getter _ | .mk _ .setter _ | .mk _ .cls _ => []
  | .mk _ (.classDecl _) [cls] | .mk _ (.classExpr _) [cls] =>
    if isLowerable cls then cls.kids.tail.map (m.reading, ·) else []
  | .mk _ (.superMember _) ks => if m.usage = .callee then [] else ks.map (m.reading, ·)
  | .mk _ t ks => ks.mapIdx fun i k => (markAt m t i, k)

/-- Whether the parts of a node are those of the general case. -/
def isPlainTag : Tag → Bool
  | .func .. | .getter | .setter | .cls | .classDecl _ | .classExpr _ | .superMember _ => false
  | _ => true

section Parts

variable {m m' : Mark} {s : Span} {t : Tag} {ks : List Node} {k : Node}

lemma ownParts_of_isPlainTag (h : isPlainTag t = true) :
    ownParts m (mk s t ks) = ks.mapIdx fun i k => (markAt m t i, k) := by
  cases t <;> first | rfl | cases h

lemma mem_ownParts_iff (h : isPlainTag t = true) :
    (m', k) ∈ ownParts m (mk s t ks) ↔ ∃ i, ks[i]? = some k ∧ m' = markAt m t i := by
  rw [ownParts_of_isPlainTag h, List.mem_mapIdx]
  constructor
  · rintro ⟨i, hi, heq⟩
    obtain ⟨rfl, rfl⟩ := Prod.mk.inj heq
    exact ⟨i, List.getElem?_eq_getElem hi, rfl⟩
  · rintro ⟨i, hi, rfl⟩
    obtain ⟨hlt, rfl⟩ := List.getElem?_eq_some_iff.mp hi
    exact ⟨i, hlt, rfl⟩

lemma markAt_eq_reading (hu : t.usageAt m.usage i = .read) (ha : t.isArrow = false) : markAt m t i = m.reading := by
  rw [markAt, hu, ha, Bool.or_false, Mark.reading]

/-- A walk goes on with a child that is read. -/
lemma reaches_kid (hk : ks[i]? = some k) (ht : isPlainTag t = true) (hu : t.usageAt m.usage i = .read)
    (ha : t.isArrow = false) (h : Reaches ownParts m' a m.reading k) : Reaches ownParts m' a m (mk s t ks) :=
  .step ((mem_ownParts_iff ht).mpr ⟨i, hk, (markAt_eq_reading hu ha).symm⟩) h

/-- A walk that comes to another node goes on with a child. -/
lemma exists_reaches_kid (h : Reaches ownParts m' a m (mk s t ks)) (ht : isPlainTag t = true)
    (ha : a.tag ≠ t) : ∃ i k, ks[i]? = some k ∧ Reaches ownParts m' a (markAt m t i) k := by
  cases h with
  | here => exact absurd rfl ha
  | step hk h =>
    obtain ⟨i, hi, rfl⟩ := (mem_ownParts_iff ht).mp hk
    exact ⟨i, _, hi, h⟩

lemma exists_reaches_only (h : Reaches ownParts m' a m (mk s t [k])) (ht : isPlainTag t = true)
    (ha : a.tag ≠ t) : Reaches ownParts m' a (markAt m t 0) k := by
  obtain ⟨i, x, hi, h⟩ := exists_reaches_kid h ht ha
  cases i with
  | zero => exact some_inj.mp hi ▸ h
  | succ i => cases hi

/-- What a walk comes to is a part of the tree. -/
lemma within_of_mem_ownParts (h : (m', k) ∈ ownParts m (mk s t ks)) : ∃ x ∈ ks, k.Within x := by
  have hheritage : ∀ {cls : Node}, ks = [cls] → (m', k) ∈ (if isLowerable cls then
      cls.kids.tail.map (m.reading, ·) else []) → ∃ x ∈ ks, k.Within x := by
    rintro cls rfl hk
    split at hk
    · obtain ⟨e, he, heq⟩ := mem_map.mp hk
      obtain ⟨-, rfl⟩ := Prod.mk.inj heq
      obtain ⟨sc, tc, cks⟩ := cls
      exact ⟨_, mem_singleton.mpr rfl, .kid (mem_of_mem_tail he) .refl⟩
    · cases hk
  by_cases ht : isPlainTag t = true
  · obtain ⟨i, hi, -⟩ := (mem_ownParts_iff ht).mp h
    exact ⟨k, mem_of_getElem? hi, .refl⟩
  · cases t with
    | func | getter | setter | cls => cases h
    | superMember w =>
      rw [ownParts] at h
      split at h
      · cases h
      · obtain ⟨e, he, heq⟩ := mem_map.mp h
        obtain ⟨-, rfl⟩ := Prod.mk.inj heq
        exact ⟨e, he, .refl⟩
    | classDecl i | classExpr i =>
      match ks, h with
      | [cls], h => exact hheritage rfl h
      | [], h => cases h
      | a :: b :: l, h =>
        rw [ownParts, mem_mapIdx] at h
        · obtain ⟨i, hi, heq⟩ := h
          obtain ⟨-, rfl⟩ := Prod.mk.inj heq
          exact ⟨_, getElem_mem hi, .refl⟩
        all_goals simp
    | _ => exact absurd rfl ht

lemma within_of_reaches (h : Reaches ownParts m' a m n) : a.Within n := by
  induction h with
  | here => exact .refl
  | @step m₀ m₁ n k hk _ ih =>
    obtain ⟨s, t, ks⟩ := n
    obtain ⟨x, hx, hin⟩ := within_of_mem_ownParts hk
    exact .kid hx (ih.trans hin)

end Parts

/-! ## Lowering the classes in the code of a member -/

/-- What takes the place of the definition of a class: the call that builds the class, or a variable that
is initialized with it. -/
inductive Builds (call : Node) : Node → Prop
  | expr : Builds call call
  | decl {x : String} : Builds call (var [declarator (binding x) (some call)])

section Lowers

variable {known : List String} {m m' : Mark}

/-- What becomes of the definition of a class that is lowered. -/
lemma Lowers.builds {d : Node} (hL : Lowers known d n') (h : d.WellFormed) (hl : isLowered d = true) :
    ∃ sd td s sm ms ms' hs hs' name parent?, d = mk sd td [mk s .cls (mk sm .members ms :: hs)] ∧
      (∀ m, ownParts m d = hs.map (m.reading, ·)) ∧
      Forall₂ (Lowers known) ms ms' ∧ Forall₂ (Lowers known) hs hs' ∧
      Builds (call (paren (funcExpr (maker name parent? ms'))) hs') n' := by
  cases hL with
  | @node sd td ks ks' _ _ _ hks hkept hR _ =>
    have hl' := (isLowered_congr hkept h).trans hl
    have hcls : ∀ {cls}, ks' = [cls] → (∃ i, td = .classDecl i) ∨ (∃ i?, td = .classExpr i?) →
        ∃ s sm ms ms' hs hs', ks = [mk s .cls (mk sm .members ms :: hs)] ∧
          cls = mk s .cls (mk sm .members ms' :: hs') ∧ (∀ m, ownParts m (mk sd td ks) =
            hs.map (m.reading, ·)) ∧ Forall₂ (Lowers known) ms ms' ∧
          Forall₂ (Lowers known) hs hs' ∧ hs'.head?.toList = hs' := by
      rintro cls' rfl htd
      obtain ⟨cls, _, hcL, hnil, rfl⟩ := forall₂_cons_right_iff.mp hks
      cases hnil
      have hc := cls_of_def h htd
      obtain ⟨s, sm, ms, ms', hs, hs', rfl, rfl, hms, hhs⟩ := hcL.cls hc
      obtain ⟨_, _, _, _, heq, -, -, hlen⟩ := cls_shape hc
      cases heq
      refine ⟨s, sm, ms, ms', hs, hs', rfl, rfl, fun m => ?_, hms, hhs, ?_⟩
      · obtain ⟨i, rfl⟩ | ⟨i?, rfl⟩ := htd
        · exact if_pos hl
        · exact if_pos hl
      · match hs', hhs.length_eq ▸ hlen with
        | [], _ | [e], _ => rfl
    have hbuild : ∀ {name parent? s sm ms' hs'}, hs'.head?.toList = hs' →
        build name parent? (mk s .cls (mk sm .members ms' :: hs')) =
          call (paren (funcExpr (maker name parent? ms'))) hs' :=
      fun hh => congrArg (call _) hh
    cases hR with
    | keep hn =>
      rw [hn] at hl'
      cases hl'
    | @decl _ i _ parent? =>
      obtain ⟨s, sm, ms, ms', hs, hs', rfl, rfl, hparts, hms, hhs, hh⟩ := hcls rfl (.inl ⟨i, rfl⟩)
      rw [hbuild hh]
      exact ⟨_, _, s, sm, ms, ms', hs, hs', _, _, rfl, hparts, hms, hhs, .decl⟩
    | named | anonymous =>
      obtain ⟨s, sm, ms, ms', hs, hs', rfl, rfl, hparts, hms, hhs, hh⟩ := hcls rfl (.inr ⟨_, rfl⟩)
      rw [hbuild hh]
      exact ⟨_, _, s, sm, ms, ms', hs, hs', _, _, rfl, hparts, hms, hhs, .expr⟩

/-- A walk goes on from the definition of a class to the heritage. -/
lemma Builds.reaches (hb : Builds (call f hs) n') (he : e ∈ hs) : Reaches ownParts m.reading e m n' := by
  have hcall : ∀ m : Mark, Reaches ownParts m.reading e m (call f hs) := by
    intro m
    obtain ⟨i, hi⟩ := getElem?_of_mem he
    exact reaches_kid (i := i + 1) hi rfl rfl rfl .here
  cases hb with
  | expr => exact hcall m
  | decl =>
    exact reaches_kid (i := 0) rfl rfl rfl rfl (reaches_kid (i := 1) rfl rfl rfl rfl (hcall m.reading))

/-- The nodes that are written around the heritage of a class. -/
def isFrame : Tag → Bool
  | .call | .paren | .funcExpr _ | .func .. | .varDecl _ | .declarator | .binding _ => true
  | _ => false

/-- A walk through what takes the place of a class comes to the heritage. -/
lemma Builds.exists_reaches {name : String} {parent? : Option String} {ms : List Node}
    (hb : Builds (call (paren (funcExpr (maker name parent? ms))) hs) n') (h : Reaches ownParts m' a m n')
    (ha : isFrame a.tag = false) : ∃ e ∈ hs, Reaches ownParts m' a m.reading e := by
  have hne : ∀ {t}, isFrame t = true → a.tag ≠ t := by
    rintro t ht rfl
    rw [ha] at ht
    cases ht
  have hcall : ∀ {m : Mark}, Reaches ownParts m' a m (call (paren (funcExpr
      (maker name parent? ms))) hs) → ∃ e ∈ hs, Reaches ownParts m' a m.reading e := by
    intro m h
    obtain ⟨i, k, hi, h⟩ := exists_reaches_kid h rfl (hne rfl)
    cases i with
    | zero =>
      -- The function itself is not looked into.
      obtain rfl := some_inj.mp hi
      have hfunc := exists_reaches_only (exists_reaches_only h rfl (hne rfl)) rfl (hne rfl)
      cases hfunc with
      | here => exact absurd rfl (hne (t := .func false false) rfl)
      | step hk => cases hk
    | succ i =>
      rw [markAt_eq_reading rfl rfl] at h
      exact ⟨k, mem_of_getElem? hi, h⟩
  cases hb with
  | expr => exact hcall h
  | decl =>
    have hdecl := exists_reaches_only h rfl (hne rfl)
    obtain ⟨i, k, hi, h⟩ := exists_reaches_kid hdecl rfl (hne rfl)
    rw [markAt_eq_reading rfl rfl] at h
    rcases i with _ | _ | i
    · obtain rfl := some_inj.mp hi
      cases h with
      | here => exact absurd rfl (hne (t := .binding _) rfl)
      | step hk => cases hk
    · obtain rfl := some_inj.mp hi
      rw [markAt_eq_reading rfl rfl] at h
      exact hcall (m := m.reading.reading) h
    · cases hi

lemma forall₂_mapIdx {α β γ δ : Type} {R : α → β → Prop} {S : γ → δ → Prop} {l : List α} {l' : List β}
    (h : Forall₂ R l l') {f : Nat → α → γ} {g : Nat → β → δ} (hS : ∀ i a b, R a b → S (f i a) (g i b)) :
    Forall₂ S (l.mapIdx f) (l'.mapIdx g) := by
  induction h generalizing f g with
  | nil => exact .nil
  | cons hab _ ih =>
    rw [mapIdx_cons, mapIdx_cons]
    exact .cons (hS 0 _ _ hab) (ih fun i a b => hS (i + 1) a b)

/-- A node that stays leads on to its children, as they are lowered. -/
lemma ownParts_keep {ks' : List Node} (hks : Forall₂ (Lowers known) ks ks')
    (hkept : Forall₂ Kept ks ks') (h : (mk s t ks).WellFormed) (hl : isLowered (mk s t ks) = false) :
    Forall₂ (fun x x' => x.1 = x'.1 ∧ Lowers known x.2 x'.2) (ownParts m (mk s t ks))
      (ownParts m (mk s t ks')) := by
  have hl' := (isLowered_congr hkept h).trans hl
  by_cases ht : isPlainTag t = true
  · rw [ownParts_of_isPlainTag ht, ownParts_of_isPlainTag ht]
    exact forall₂_mapIdx hks fun i a b hab => ⟨rfl, hab⟩
  · cases t with
    | func | getter | setter | cls => exact .nil
    | superMember w =>
      rw [ownParts, ownParts]
      split
      · exact .nil
      · exact rel_map (fun {a b} hab => ⟨rfl, hab⟩) hks
    | classDecl i | classExpr i =>
      obtain ⟨cls, rfl, -⟩ := h.single rfl
      obtain ⟨cls', _, -, hnil, rfl⟩ := forall₂_cons_left_iff.mp hks
      cases hnil
      rw [ownParts, ownParts, if_neg (show ¬isLowerable cls = true from Bool.eq_false_iff.mp hl),
        if_neg (show ¬isLowerable cls' = true from Bool.eq_false_iff.mp hl')]
      exact .nil
    | _ => exact absurd rfl ht

/-- **The walk through the code of a member**, when the classes in it are lowered: what it comes to before
is lowered where it comes afterwards. -/
theorem reaches_lowers (hr : Reaches ownParts m' a m n) (hL : Lowers known n n') (h : n.WellFormed) :
    ∃ a', Lowers known a a' ∧ Reaches ownParts m' a' m n' := by
  induction hr generalizing n' with
  | here => exact ⟨n', hL, .here⟩
  | @step m₀ m₁ n k hk _ ih =>
    obtain ⟨s, t, ks⟩ := n
    obtain ⟨x, hx, hin⟩ := within_of_mem_ownParts hk
    have hwk : k.WellFormed := (h.kid hx).within hin
    -- It is enough to come to the child when it is lowered.
    suffices hstep : ∃ k', Lowers known k k' ∧ Reaches ownParts m₁ k' m₀ n' by
      obtain ⟨k', hkL, hr⟩ := hstep
      obtain ⟨a', haL, hr'⟩ := ih hkL hwk
      exact ⟨a', haL, hr.trans hr'⟩
    by_cases hl : isLowered (mk s t ks) = true
    · obtain ⟨sd, td, s, sm, ms, ms', hs, hs', name, parent?, heq, hparts, -, hhs, hb⟩ := hL.builds h hl
      rw [hparts] at hk
      obtain ⟨e, he, heq⟩ := mem_map.mp hk
      obtain ⟨rfl, rfl⟩ := Prod.mk.inj heq
      obtain ⟨e', he', heL⟩ := exists_mem_of_forall₂ hhs he
      exact ⟨e', heL, hb.reaches he'⟩
    · cases hL with
      | node hks hkept hR _ =>
        have hl := Bool.eq_false_iff.mpr hl
        have hl' := (isLowered_congr hkept h).trans hl
        cases hR with
        | keep =>
          obtain ⟨⟨m₁', k'⟩, hk', rfl, hkL⟩ := exists_mem_of_forall₂ (ownParts_keep hks hkept h hl) hk
          exact ⟨k', hkL, .step hk' .here⟩
        | decl hc | named hc | anonymous hc =>
          rw [isLowered, hc] at hl'
          cases hl'

/-- Nothing else is come to afterwards, but for what is written around the heritage of a class. -/
theorem reaches_of_lowers {a' : Node} (hr : Reaches ownParts m' a' m n') (hL : Lowers known n n')
    (h : n.WellFormed) (ha : isFrame a'.tag = false) :
    ∃ a, Lowers known a a' ∧ Reaches ownParts m' a m n := by
  induction n using induct_within generalizing m n' with
  | h s t ks ih =>
    by_cases hl : isLowered (mk s t ks) = true
    · obtain ⟨sd, td, sc, sm, ms, ms', hs, hs', name, parent?, heq, hparts, -, hhs, hb⟩ := hL.builds h hl
      cases heq
      obtain ⟨e', he', hr'⟩ := hb.exists_reaches hr ha
      obtain ⟨e, hmem, heL⟩ := exists_mem_of_forall₂ hhs.flip he'
      have hin : e.Within (mk sc .cls (mk sm .members ms :: hs)) := .kid (mem_cons_of_mem _ hmem) .refl
      obtain ⟨a, haL, hra⟩ := ih _ (by simp) e hin hr' heL ((h.kid (by simp)).within hin)
      refine ⟨a, haL, .step ?_ hra⟩
      rw [hparts]
      exact mem_map_of_mem hmem
    · have hl := Bool.eq_false_iff.mpr hl
      cases hL with
      | node hks hkept hR hfresh =>
        have hl' := (isLowered_congr hkept h).trans hl
        cases hR with
        | keep hn =>
          cases hr with
          | here => exact ⟨_, .node hks hkept (.keep hn) hfresh, .here⟩
          | step hk' hr' =>
            obtain ⟨⟨m₁, k⟩, hmem, heq, hkL⟩ := exists_mem_of_forall₂ (ownParts_keep hks hkept h hl).flip hk'
            cases heq
            obtain ⟨x, hx, hin⟩ := within_of_mem_ownParts hmem
            obtain ⟨a, haL, hra⟩ := ih x hx k hin hr' hkL ((h.kid hx).within hin)
            exact ⟨a, haL, .step hmem hra⟩
        | decl hc | named hc | anonymous hc =>
          rw [isLowered, hc] at hl'
          cases hl'

end Lowers

/-! ## Lowering `super` in the code of a member -/

section Frames

variable {m : Mark} {c : SuperContext}

lemma reaches_callOn_arg (ha : a ∈ args) : Reaches ownParts m.reading a m (callOn f r args) := by
  obtain ⟨i, hi⟩ := getElem?_of_mem ha
  unfold callOn
  split
  · exact reaches_kid (i := 2) rfl rfl rfl rfl (reaches_kid (i := i) hi rfl rfl rfl .here)
  · exact reaches_kid (i := i + 2) hi rfl rfl rfl .here

lemma reaches_home : Reaches ownParts m.reading key m (c.home key) := reaches_kid (i := 1) rfl rfl rfl rfl .here

lemma reaches_store_key : Reaches ownParts m.reading key m (c.store op key value) := by
  have htarget : ∀ v, Reaches ownParts m.reading key m (assign (access c.receiver key) v) := by
    intro v
    refine .step ((mem_ownParts_iff rfl).mpr ⟨0, rfl, rfl⟩) (.step ((mem_ownParts_iff rfl).mpr ⟨1, rfl, ?_⟩) .here)
    rw [markAt_eq_reading rfl rfl]
    simp [Mark.reading, markAt, Tag.isArrow]
  unfold store
  split
  · exact htarget value
  · split
    · exact reaches_kid (i := 0) rfl rfl rfl rfl (reaches_home (m := m.reading))
    · exact htarget _

lemma reaches_paren : Reaches ownParts m.reading e m.reading (paren e) :=
  reaches_kid (i := 0) rfl rfl rfl rfl .here

lemma reaches_store_value : Reaches ownParts m.reading value m (c.store op key value) := by
  have hassign : ∀ (m : Mark) t, Reaches ownParts m.reading value m (assign t value) :=
    fun m t => reaches_kid (i := 1) rfl rfl rfl rfl .here
  unfold store
  split
  · exact hassign m _
  · split
    · exact reaches_kid (i := 1) rfl rfl rfl rfl (reaches_paren.trans (hassign m.reading _))
    · exact reaches_kid (i := 1) rfl rfl rfl rfl (reaches_kid (i := 1) rfl rfl rfl rfl reaches_paren)

end Frames

/-- A walk that comes to a node finds what is found from there. -/
lemma Finds.of_reaches {P : Mark → Node → Prop} {m' : Mark} (h : Finds ownParts P m' a)
    (hr : Reaches ownParts m' a m n) : Finds ownParts P m n := by
  obtain ⟨m'', b, hb, hP⟩ := h
  exact ⟨m'', b, hr.trans hb, hP⟩

section Super

variable {c : SuperContext} {P Q : Mark → Node → Prop}

lemma ownParts_of_closed (h : use (mk s t ks) = .closed) : ownParts m (mk s t ks) = [] ∧ t.isSuper = false := by
  simp only [use] at h
  split at h
  iterate 4 exact ⟨rfl, rfl⟩
  all_goals first | cases h | split at h <;> cases h

/-- A child that is called or stored to directly is no property of `super`, if its parent is not
rewritten. -/
lemma superKey?_eq_none_of_plain (h : (mk s t ks).WellFormed) (hu : use (mk s t ks) = .plain) (hk : ks[i]? = some k)
    (hd : (markAt m t i).usage.isDirect = true) : superKey? k = none := by
  have hparens : ∀ u : Usage, u.inParens.isDirect = false := by
    intro u
    cases u <;> rfl
  cases t with
  | call =>
    cases i with
    | zero =>
      cases ks with
      | nil => cases hk
      | cons callee args =>
        obtain rfl := some_inj.mp hk
        by_contra hne
        obtain ⟨key, hkey⟩ := ne_none_iff_exists'.mp hne
        simp [use, hkey] at hu
    | succ i => cases hd
  | assign op =>
    cases i with
    | zero =>
      have hfits := h.fits
      rcases ks with _ | ⟨target, _ | ⟨value, _ | ⟨_, _⟩⟩⟩
      · cases hk
      · simp [Tag.fits] at hfits
      · obtain rfl := some_inj.mp hk
        by_contra hne
        obtain ⟨key, hkey⟩ := ne_none_iff_exists'.mp hne
        simp [use, hkey] at hu
      · simp [Tag.fits] at hfits
    | succ i => cases hd
  | paren =>
    rw [markAt, Tag.usageAt, hparens] at hd
    cases hd
  | optCall _ | tagged _ _ | assignPat | patKeyValue | forIn | forOf _ =>
    rcases i with _ | _ | i <;> cases hd
  | unary op => cases op <;> cases hd
  | _ => cases hd

/-- A node that is not rewritten, and that defines no class to lower, leads on to its children or to
nothing. -/
lemma ownParts_of_plain (c : SuperContext) (h : (mk s t ks).WellFormed) (hl : isLowered (mk s t ks) = false)
    (hu : use (mk s t ks) = .plain) (m : Mark) :
    (ownParts m (mk s t (ks.map c.lower)) = (ownParts m (mk s t ks)).map fun x => (x.1, c.lower x.2)) ∧
      ∀ x ∈ ownParts m (mk s t ks), x.2 ∈ ks ∧ (x.1.usage.isDirect = false ∨ superKey? x.2 = none) := by
  by_cases ht : isPlainTag t = true
  · constructor
    · rw [ownParts_of_isPlainTag ht, ownParts_of_isPlainTag ht]
      exact ext_getElem? fun i => by simp [Function.comp_def]
    · rintro ⟨m', k⟩ hx
      obtain ⟨i, hi, rfl⟩ := (mem_ownParts_iff ht).mp hx
      refine ⟨mem_of_getElem? hi, ?_⟩
      cases hd : (markAt m t i).usage.isDirect with
      | false => exact .inl rfl
      | true => exact .inr (superKey?_eq_none_of_plain h hu hi hd)
  · cases t with
    | func | getter | setter | cls => cases hu
    | superMember w =>
      obtain ⟨key, rfl, -⟩ := h.superMember
      cases hu
    | classDecl i | classExpr i =>
      have hl' := (apart_isLowered.kids c s _ ks h).trans hl
      obtain ⟨cls, rfl, -⟩ := h.single rfl
      have hnil : ∀ {cls : Node}, isLowerable cls = false →
          (if isLowerable cls then cls.kids.tail.map (m.reading, ·) else []) = [] :=
        fun hc => if_neg (Bool.eq_false_iff.mp hc)
      rw [map_singleton, ownParts, ownParts, hnil hl, hnil hl']
      exact ⟨rfl, fun _ hx => by cases hx⟩
    | _ => exact absurd rfl ht

lemma isSuper_of_plain (h : (mk s t ks).WellFormed) (hu : use (mk s t ks) = .plain) : t.isSuper = false := by
  cases t with
  | superCall w => cases hu
  | superMember w =>
    obtain ⟨key, rfl, -⟩ := h.superMember
    cases hu
  | _ => rfl

lemma markAt_call : markAt m .call 0 = ⟨.callee, m.deferred⟩ := by
  simp [markAt, Tag.usageAt, Tag.isArrow]

lemma markAt_assign : markAt m (.assign op) 0 = ⟨.target, m.deferred⟩ := by
  simp [markAt, Tag.usageAt, Tag.isArrow]

/-! ### What is found step by step -/

lemma finds_mk (ht : isPlainTag t = true) : Finds ownParts Q m (mk s t ks) ↔
      Q m (mk s t ks) ∨ ∃ i k, ks[i]? = some k ∧ Finds ownParts Q (markAt m t i) k := by
  rw [finds_iff]
  refine or_congr_right ⟨?_, ?_⟩
  · rintro ⟨⟨m', k⟩, hx, hf⟩
    obtain ⟨i, hi, rfl⟩ := (mem_ownParts_iff ht).mp hx
    exact ⟨i, k, hi, hf⟩
  · rintro ⟨i, k, hi, hf⟩
    exact ⟨(_, k), (mem_ownParts_iff ht).mpr ⟨i, hi, rfl⟩, hf⟩

/-- A node whose children are all read. -/
lemma finds_reading (ht : isPlainTag t = true) (ha : t.isArrow = false) (hu : ∀ i, t.usageAt m.usage i = .read) :
    Finds ownParts Q m (mk s t ks) ↔ Q m (mk s t ks) ∨ ∃ k ∈ ks, Finds ownParts Q m.reading k := by
  rw [finds_mk ht]
  refine or_congr_right ⟨?_, ?_⟩
  · rintro ⟨i, k, hi, hf⟩
    exact ⟨k, mem_of_getElem? hi, markAt_eq_reading (hu i) ha ▸ hf⟩
  · rintro ⟨k, hk, hf⟩
    obtain ⟨i, hi⟩ := getElem?_of_mem hk
    exact ⟨i, k, hi, (markAt_eq_reading (hu i) ha).symm ▸ hf⟩

lemma finds_access : Finds ownParts Q m (access o k) ↔
    Q m (access o k) ∨ Finds ownParts Q m.reading o ∨ Finds ownParts Q m.reading k := by
  refine (finds_reading (t := .member) rfl rfl fun _ => rfl).trans (or_congr_right ?_)
  rw [exists_mem_cons_iff, exists_mem_cons_iff]
  simp

/-- A node whose children are all read but for the first. -/
lemma finds_first (ht : isPlainTag t = true) (ha : t.isArrow = false) (hu : ∀ i, t.usageAt m.usage (i + 1) = .read) :
    Finds ownParts Q m (mk s t (k :: ks)) ↔ Q m (mk s t (k :: ks)) ∨
      Finds ownParts Q (markAt m t 0) k ∨ ∃ a ∈ ks, Finds ownParts Q m.reading a := by
  refine (finds_mk ht).trans (or_congr_right ⟨?_, ?_⟩)
  · rintro ⟨_ | i, k, hi, hf⟩
    · obtain rfl := some_inj.mp hi
      exact .inl hf
    · exact .inr ⟨k, mem_of_getElem? hi, markAt_eq_reading (hu i) ha ▸ hf⟩
  · rintro (hf | ⟨k, hk, hf⟩)
    · exact ⟨0, _, rfl, hf⟩
    · obtain ⟨i, hi⟩ := getElem?_of_mem hk
      exact ⟨i + 1, k, hi, (markAt_eq_reading (hu i) ha).symm ▸ hf⟩

lemma finds_call : Finds ownParts Q m (mk s .call (f :: args)) ↔ Q m (mk s .call (f :: args)) ∨
      Finds ownParts Q ⟨.callee, m.deferred⟩ f ∨ ∃ a ∈ args, Finds ownParts Q m.reading a := by
  rw [finds_first rfl rfl fun _ => rfl, markAt_call]

lemma finds_assign {v : Node} : Finds ownParts Q m (mk s (.assign op) [o, v]) ↔ Q m (mk s (.assign op) [o, v]) ∨
      Finds ownParts Q ⟨.target, m.deferred⟩ o ∨ Finds ownParts Q m.reading v := by
  rw [finds_first rfl rfl fun _ => rfl, markAt_assign]
  simp

/-- The key of a property of `super` is looked into unless the property is called. -/
lemma finds_superMember {w : Span} :
    Finds ownParts Q m (mk s (.superMember w) [key]) ↔ Q m (mk s (.superMember w) [key]) ∨
      m.usage ≠ .callee ∧ Finds ownParts Q m.reading key := by
  rw [finds_iff, ownParts]
  refine or_congr_right ?_
  split <;> rename_i hm <;> simp [hm]

/-- A relation between code and what becomes of it that holds of each node if it holds of its parts, one case for
each use of `super`. -/
structure Stepwise (c : SuperContext) (R : Mark → Node → Node → Prop) : Prop where
  closed : ∀ {m s t ks}, use (mk s t ks) = .closed → R m (mk s t ks) (mk s t ks)
  call : ∀ {m : Mark} {s w args}, (∀ k ∈ args, R m.reading k (c.lower k)) →
    R m (mk s (.superCall w) args) (callOn c.parent c.receiver (args.map c.lower))
  methodCall : ∀ {m : Mark} {s sc w key args}, (∀ k ∈ args, R m.reading k (c.lower k)) →
    R m (mk s .call (mk sc (.superMember w) [key] :: args))
      (callOn (c.home key) c.receiver (args.map c.lower))
  store : ∀ {m : Mark} {s st w op key value}, R m.reading key (c.lower key) → R m.reading value (c.lower value) →
    R m (mk s (.assign op) [mk st (.superMember w) [key], value]) (c.store op (c.lower key) (c.lower value))
  read : ∀ {m : Mark} {s w key}, m.usage.isDirect = false → R m.reading key (c.lower key) →
    R m (mk s (.superMember w) [key]) (c.home (c.lower key))
  this : ∀ {m s}, R m (mk s .this []) (c.receiver?.getD (mk s .this []))
  plain : ∀ {m s t ks}, (mk s t ks).WellFormed → isLowered (mk s t ks) = false → use (mk s t ks) = .plain →
    (∀ k ∈ ks, ∀ {m : Mark}, (m.usage.isDirect = false ∨ superKey? k = none) → R m k (c.lower k)) →
    R m (mk s t ks) (mk s t (ks.map c.lower))

/-- **What holds step by step holds of the whole code** when `super` is lowered in it. -/
theorem Stepwise.lower {R : Mark → Node → Node → Prop} (hR : Stepwise c R) (h : n.WellFormed)
    (hno : n.any isLowered = false) (hm : m.usage.isDirect = false ∨ superKey? n = none) :
    R m n (c.lower n) := by
  induction n using induct_within generalizing m with
  | h s t ks ih =>
    rw [any_mk, Bool.or_eq_false_iff, List.any_eq_false] at hno
    have hkid : ∀ k ∈ ks, ∀ {m : Mark}, (m.usage.isDirect = false ∨ superKey? k = none) →
        R m k (c.lower k) := fun k hk {m} => ih k hk k .refl (h.kid hk) (by simpa using hno.2 k hk)
    have hshape := use_shape (Node.mk s t ks)
    rw [lower_eq]
    generalize hu : use (Node.mk s t ks) = u at hshape
    cases hshape with
    | closed => exact hR.closed hu
    | call => exact hR.call fun k hk => hkid k hk (.inl rfl)
    | methodCall => exact hR.methodCall fun k hk => hkid k (List.mem_cons_of_mem _ hk) (.inl rfl)
    | @store _ op st w key value =>
      -- The key is a part of the target, which is not lowered itself.
      have htarget : Node.mk st (.superMember w) [key] ∈ [Node.mk st (.superMember w) [key], value] :=
        List.mem_cons_self ..
      have hin : key.Within (.mk st (.superMember w) [key]) := .kid (List.mem_singleton.mpr rfl) .refl
      refine hR.store (ih _ htarget key hin ((h.kid htarget).within hin) ?_ (.inl rfl))
        (hkid value (by simp) (.inl rfl))
      simpa [isLowered] using hno.2 _ htarget
    | read => exact hR.read (hm.resolve_right (by simp [superKey?])) (hkid _ (by simp) (.inl rfl))
    | this =>
      obtain rfl : ks = [] := h.leaf rfl
      exact hR.this
    | plain => exact hR.plain h hno.1 hu hkid

/-- Where `P` holds of a `super` in the code, `Q` is found in what is written for it. -/
structure Yields (c : SuperContext) (P Q : Mark → Node → Prop) : Prop where
  tag : ∀ {m a}, P m a → a.tag.isSuper = true
  call : ∀ {m s w args}, P m (.mk s (.superCall w) args) →
    Finds ownParts Q m (callOn c.parent c.receiver (args.map c.lower))
  methodCall : ∀ {m : Mark} {s w key args}, P ⟨.callee, m.deferred⟩ (.mk s (.superMember w) [key]) →
    Finds ownParts Q m (callOn (c.home key) c.receiver args)
  store : ∀ {m : Mark} {s w op key value}, P ⟨.target, m.deferred⟩ (.mk s (.superMember w) [key]) →
    Finds ownParts Q m (c.store op (c.lower key) value)
  read : ∀ {m : Mark} {s w key}, m.usage.isDirect = false → P m (.mk s (.superMember w) [key]) →
    Finds ownParts Q m (c.home (c.lower key))

namespace Yields

variable (hPQ : Yields c P Q)

include hPQ in
lemma not_of_tag (h : t.isSuper = false) : ¬P m (Node.mk s t ks) := by
  intro hP
  rw [show t.isSuper = true from hPQ.tag hP] at h
  cases h

lemma finds_args (hargs : ∀ k ∈ args, Finds ownParts P m.reading k → Finds ownParts Q m.reading (c.lower k))
    (hf : ∃ k ∈ args, Finds ownParts P m.reading k) : Finds ownParts Q m (callOn f r (args.map c.lower)) := by
  obtain ⟨k, hk, hf⟩ := hf
  exact Finds.of_reaches (hargs k hk hf) (reaches_callOn_arg (mem_map_of_mem hk))

include hPQ in
lemma stepwise : Stepwise c fun m n n' => Finds ownParts P m n → Finds ownParts Q m n' where
  closed {m s t ks} hu hf := by
    obtain ⟨hparts, hs⟩ := ownParts_of_closed (m := m) hu
    rw [finds_iff, hparts] at hf
    rcases hf with hP | ⟨x, hx, -⟩
    · exact absurd hP (hPQ.not_of_tag hs)
    · cases hx
  call hargs hf := by
    rcases (finds_reading rfl rfl fun _ => rfl).mp hf with hP | hf
    · exact hPQ.call hP
    · exact finds_args hargs hf
  methodCall hargs hf := by
    rcases (finds_call.mp hf).resolve_left (hPQ.not_of_tag rfl) with hf | hf
    · exact hPQ.methodCall ((finds_superMember.mp hf).resolve_right fun hkey => hkey.1 rfl)
    · exact finds_args hargs hf
  store hkey hvalue hf := by
    rcases (finds_assign.mp hf).resolve_left (hPQ.not_of_tag rfl) with hf | hf
    · rcases finds_superMember.mp hf with hP | ⟨-, hf⟩
      · exact hPQ.store hP
      · exact Finds.of_reaches (hkey hf) reaches_store_key
    · exact Finds.of_reaches (hvalue hf) reaches_store_value
  read hd hkey hf := by
    rcases finds_superMember.mp hf with hP | ⟨-, hf⟩
    · exact hPQ.read hd hP
    · exact Finds.of_reaches (hkey hf) reaches_home
  this hf := by
    rcases finds_iff.mp hf with hP | ⟨x, hx, -⟩
    · exact absurd hP (hPQ.not_of_tag rfl)
    · cases hx
  plain {m s t ks} h hl hu hkid hf := by
    obtain ⟨hparts, hdirect⟩ := ownParts_of_plain c h hl hu m
    obtain ⟨⟨m', k⟩, hx, hf⟩ := (finds_iff.mp hf).resolve_left (hPQ.not_of_tag (isSuper_of_plain h hu))
    obtain ⟨hmem, hd⟩ := hdirect _ hx
    refine Finds.of_reaches (hkid k hmem hd hf) (.step ?_ .here)
    exact hparts ▸ mem_map.mpr ⟨(m', k), hx, rfl⟩

include hPQ in
/-- **What is written for `super` is found on the walk** where `super` was. -/
theorem finds_lower (h : n.WellFormed) (hno : n.any isLowered = false)
    (hm : m.usage.isDirect = false ∨ superKey? n = none) (hf : Finds ownParts P m n) :
    Finds ownParts Q m (c.lower n) :=
  hPQ.stepwise.lower h hno hm hf

end Yields

/-! ### What is found in the code that is written -/

/-- What is looked for is a call or an access. -/
def ForAccesses (Q : Mark → Node → Prop) : Prop := ∀ m a, Q m a → a.tag = .call ∨ a.tag = .member

section Backward

variable (hQ : ForAccesses Q) {m : Mark}

include hQ in
lemma not_of_tag (hc : t ≠ .call) (hm : t ≠ .member) : ¬Q m (mk s t ks) := fun h => (hQ m _ h).elim hc hm

include hQ in
lemma finds_member (hx : isPlainName x = true) (h : Finds ownParts Q m (member o x)) :
    Q m (member o x) ∨ Finds ownParts Q m.reading o := by
  rw [member, if_pos hx] at h ⊢
  refine (finds_access.mp h).imp_right fun h => h.resolve_right ?_
  rw [finds_iff]
  rintro (h | ⟨_, h, -⟩)
  · exact not_of_tag hQ (by simp) (by simp) h
  · cases h

include hQ in
lemma finds_callOn (h : Finds ownParts Q m (callOn f r args)) : Q m (callOn f r args) ∨
      (∃ x, (x = "call" ∨ x = "apply") ∧ Q ⟨.callee, m.deferred⟩ (member f x)) ∨
      Finds ownParts Q m.reading f ∨ Finds ownParts Q m.reading r ∨
      ∃ a ∈ args, Finds ownParts Q m.reading a := by
  have hcallee : ∀ {x}, isPlainName x = true → x = "call" ∨ x = "apply" →
      Finds ownParts Q ⟨.callee, m.deferred⟩ (member f x) →
      (∃ x, (x = "call" ∨ x = "apply") ∧ Q ⟨.callee, m.deferred⟩ (member f x)) ∨
        Finds ownParts Q m.reading f :=
    fun {x} hx hcall h => (finds_member hQ hx h).imp_left fun h => ⟨x, hcall, h⟩
  by_cases hs : args.any (·.tag == .spread) = true
  · rw [callOn, if_pos hs] at h ⊢
    rcases finds_call.mp h with h | h | h
    · exact .inl h
    · exact .inr ((hcallee rfl (.inr rfl) h).imp_right .inl)
    · rw [exists_mem_cons_iff, exists_mem_cons_iff] at h
      rcases h with h | h | ⟨_, h, -⟩
      · exact .inr (.inr (.inr (.inl h)))
      · have h := (finds_reading rfl rfl fun _ => rfl).mp h
        exact .inr (.inr (.inr (.inr (h.resolve_left (not_of_tag hQ (by simp) (by simp))))))
      · cases h
  · rw [callOn, if_neg hs] at h ⊢
    rcases finds_call.mp h with h | h | h
    · exact .inl h
    · exact .inr ((hcallee rfl (.inl rfl) h).imp_right .inl)
    · rw [exists_mem_cons_iff] at h
      exact .inr (.inr (.inr h))

include hQ in
lemma finds_home (h : Finds ownParts Q m (c.home key)) :
    Q m (c.home key) ∨ Q m.reading (member c.parent "prototype") ∨
      Finds ownParts Q m.reading c.parent ∨ Finds ownParts Q m.reading key := by
  unfold home at h ⊢
  rcases finds_access.mp h with h | h | h
  · exact .inl h
  · split at h
    · exact .inr (.inr (.inl h))
    · exact .inr ((finds_member hQ rfl h).imp_right .inl)
  · exact .inr (.inr (.inr h))

include hQ in
lemma finds_store (h : Finds ownParts Q m (c.store op key value)) :
    (∃ m' : Mark, Q m' (access c.receiver key)) ∨ Finds ownParts Q m.reading (c.home key) ∨
      Finds ownParts Q m.reading c.receiver ∨ Finds ownParts Q m.reading key ∨
      Finds ownParts Q m.reading value := by
  have hassign : ∀ {m : Mark} {v : Node}, Finds ownParts Q m (assign (access c.receiver key) v) →
      (∃ m' : Mark, Q m' (access c.receiver key)) ∨ Finds ownParts Q m.reading c.receiver ∨
        Finds ownParts Q m.reading key ∨ Finds ownParts Q m.reading v := by
    intro m v h
    rcases (finds_assign.mp h).resolve_left (not_of_tag hQ (by simp) (by simp)) with h | h
    · exact (finds_access.mp h).elim (fun h => .inl ⟨_, h⟩) fun h => .inr (h.elim .inl (.inr ∘ .inl))
    · exact .inr (.inr (.inr h))
  have hpair : ∀ {m : Mark} {op : BinaryOp} {a b : Node}, Finds ownParts Q m (binary op a b) →
      Finds ownParts Q m.reading a ∨ Finds ownParts Q m.reading b := by
    intro m op a b h
    have h := ((finds_reading rfl rfl fun _ => rfl).mp h).resolve_left (not_of_tag hQ (by simp) (by simp))
    rw [exists_mem_cons_iff, exists_mem_cons_iff] at h
    simpa using h
  have hparen : ∀ {m : Mark} {e : Node}, Finds ownParts Q m.reading (paren e) → Finds ownParts Q m.reading e := by
    intro m e h
    obtain ⟨k, hk, h⟩ := ((finds_reading rfl rfl fun _ => rfl).mp h).resolve_left (not_of_tag hQ (by simp) (by simp))
    exact mem_singleton.mp hk ▸ h
  unfold store at h
  split at h
  · exact (hassign h).imp_right .inr
  · split at h
    · rcases hpair h with h | h
      · exact .inr (.inl h)
      · exact (hassign (hparen h)).imp_right .inr
    · rcases hassign h with h | h | h | h
      · exact .inl h
      · exact .inr (.inr (.inl h))
      · exact .inr (.inr (.inr (.inl h)))
      · rcases hpair h with h | h
        · exact .inr (.inl h)
        · exact .inr (.inr (.inr (.inr (hparen h))))

end Backward

/-- Where `Q` holds of what is written for `super`, `P` holds of the `super` in the code. What is looked for
is a call or an access that names the parent. -/
structure Stems (c : SuperContext) (parent : String) (P Q : Mark → Node → Prop) : Prop where
  tag : ForAccesses Q
  names : ∀ {m a}, Q m a → parent ∈ a.names
  call : ∀ {m s w args args'}, Q m (callOn c.parent c.receiver args') → P m (.mk s (.superCall w) args)
  callee : ∀ {m : Mark} {s w args x}, x = "call" ∨ x = "apply" →
    Q ⟨.callee, m.deferred⟩ (member c.parent x) → P m (.mk s (.superCall w) args)
  methodCall : ∀ {m key args}, ¬Q m (callOn (c.home key) c.receiver args)
  method : ∀ {m key x}, ¬Q m (member (c.home key) x)
  value : ∀ {m : Mark} {key}, ¬Q m.reading (c.home key)
  proto : ∀ {m : Mark}, ¬Q m.reading (member c.parent "prototype")
  target : ∀ {m key}, ¬Q m (access c.receiver key)
  read : ∀ {m : Mark} {s w key}, m.usage.isDirect = false → Q m (c.home (c.lower key)) →
    P m (.mk s (.superMember w) [key])
  plain : ∀ {m s t ks}, (mk s t ks).WellFormed → use (mk s t ks) = .plain →
    parent ∉ (mk s t ks).names → ¬Q m (mk s t (ks.map c.lower))

lemma notMem_names_of_within (hn : x ∉ n.names) (hk : k.Within n) : x ∉ k.names :=
  fun h => hn (names_subset_of_within hk h)

namespace Stems

variable {parent : String} (hPQ : Stems c parent P Q)

include hPQ in
lemma not_finds (hn : parent ∉ n.names) : ¬Finds ownParts Q m n :=
  fun ⟨_, _, hr, hQ⟩ => hn (names_subset_of_within (within_of_reaches hr) (hPQ.names hQ))

include hPQ in
lemma not_finds_parent (hc : c.parent = ident parent) : ¬Finds ownParts Q m c.parent := by
  rw [hc, finds_iff]
  rintro (h | ⟨_, h, -⟩)
  · exact Class.not_of_tag hPQ.tag (by simp) (by simp) h
  · cases h

include hPQ in
/-- What is found in a property of the parent is found in its key. -/
lemma finds_home (hc : c.parent = ident parent) (hf : Finds ownParts Q m (c.home key)) :
    Q m (c.home key) ∨ Finds ownParts Q m.reading key :=
  (Class.finds_home hPQ.tag hf).imp_right fun hf =>
    (hf.resolve_left hPQ.proto).resolve_left (hPQ.not_finds_parent hc)

lemma exists_finds_args (hn : parent ∉ n.names) (hin : ∀ k ∈ args, k.Within n) (hargs : ∀ k ∈ args, parent ∉ k.names →
      Finds ownParts Q m.reading (c.lower k) → Finds ownParts P m.reading k)
    (hf : ∃ a ∈ args.map c.lower, Finds ownParts Q m.reading a) :
    ∃ k ∈ args, Finds ownParts P m.reading k := by
  obtain ⟨_, ha, hf⟩ := hf
  obtain ⟨k, hk, rfl⟩ := mem_map.mp ha
  exact ⟨k, hk, hargs k hk (notMem_names_of_within hn (hin k hk)) hf⟩

include hPQ in
lemma stepwise (hc : c.parent = ident parent) (hrec : parent ∉ c.receiver.names) :
    Stepwise c fun m n n' => parent ∉ n.names → Finds ownParts Q m n' → Finds ownParts P m n where
  closed _ hn hf := absurd hf (hPQ.not_finds hn)
  call hargs hn hf := by
    rw [finds_reading rfl rfl fun _ => rfl]
    rcases finds_callOn hPQ.tag hf with hQ | ⟨x, hx, hQ⟩ | hf | hf | hf
    · exact .inl (hPQ.call hQ)
    · exact .inl (hPQ.callee hx hQ)
    · exact absurd hf (hPQ.not_finds_parent hc)
    · exact absurd hf (hPQ.not_finds hrec)
    · exact .inr (exists_finds_args hn (fun k hk => .kid hk .refl) hargs hf)
  methodCall {m s sc w key args} hargs hn hf := by
    rcases finds_callOn hPQ.tag hf with hQ | ⟨x, -, hQ⟩ | hf | hf | hf
    · exact absurd hQ hPQ.methodCall
    · exact absurd hQ hPQ.method
    · -- The key of the method is not looked into.
      have hkey := (hPQ.finds_home hc hf).resolve_left hPQ.value
      exact absurd hkey (hPQ.not_finds (notMem_names_of_within hn (Within.first (Within.first .refl))))
    · exact absurd hf (hPQ.not_finds hrec)
    · exact finds_call.mpr (.inr (.inr (exists_finds_args hn
        (fun k hk => .kid (mem_cons_of_mem _ hk) .refl) hargs hf)))
  store {m s st w op key value} hkey hvalue hn hf := by
    have htarget : Finds ownParts Q m.reading (c.lower key) →
        Finds ownParts P ⟨.target, m.deferred⟩ (Node.mk st (.superMember w) [key]) := fun hf =>
      finds_superMember.mpr (.inr ⟨by simp, hkey (notMem_names_of_within hn
        (Within.first (Within.first .refl))) hf⟩)
    rw [finds_assign]
    rcases finds_store hPQ.tag hf with ⟨m', hQ⟩ | hf | hf | hf | hf
    · exact absurd hQ hPQ.target
    · exact .inr (.inl (htarget ((hPQ.finds_home hc hf).resolve_left hPQ.value)))
    · exact absurd hf (hPQ.not_finds hrec)
    · exact .inr (.inl (htarget hf))
    · exact .inr (.inr (hvalue (notMem_names_of_within hn (Within.second .refl)) hf))
  read {m s w key} hd hkey hn hf := by
    rw [finds_superMember]
    refine (hPQ.finds_home hc hf).imp (hPQ.read hd) fun hf => ⟨?_, ?_⟩
    · intro hcallee
      rw [hcallee] at hd
      cases hd
    · exact hkey (notMem_names_of_within hn (Within.first .refl)) hf
  this {m s} hn hf := by
    cases hr : c.receiver? with
    | none =>
      rw [hr] at hf
      exact absurd hf (hPQ.not_finds hn)
    | some r =>
      rw [hr] at hf
      rw [receiver, hr] at hrec
      exact absurd hf (hPQ.not_finds hrec)
  plain {m s t ks} h hl hu hkid hn hf := by
    obtain ⟨hparts, hdirect⟩ := ownParts_of_plain c h hl hu m
    obtain ⟨x, hx, hf⟩ := (finds_iff.mp hf).resolve_left (hPQ.plain h hu hn)
    obtain ⟨⟨m', k⟩, hmem, rfl⟩ := mem_map.mp (hparts ▸ hx)
    obtain ⟨hk, hd⟩ := hdirect _ hmem
    have hkn := notMem_names_of_within hn (.kid hk .refl)
    exact finds_iff.mpr (.inr ⟨(m', k), hmem, hkid k hk hd hkn hf⟩)

include hPQ in
/-- **Nothing else is found on the walk** than what is written for `super`, if no code but what is written
names the parent. -/
theorem finds_of_lower (hc : c.parent = ident parent) (hrec : parent ∉ c.receiver.names) (h : n.WellFormed)
    (hno : n.any isLowered = false) (hn : parent ∉ n.names)
    (hm : m.usage.isDirect = false ∨ superKey? n = none) (hf : Finds ownParts Q m (c.lower n)) :
    Finds ownParts P m n :=
  (hPQ.stepwise hc hrec).lower h hno hm hn hf

end Stems

lemma tag_callOn : (callOn f r args).tag = .call := by
  unfold callOn
  split <;> rfl

lemma tag_store_ne (ha : t ≠ .assign .plain) (hb : ∀ op, t ≠ .binary op) : (c.store op key value).tag ≠ t := by
  unfold store
  split
  · exact ha.symm
  · split
    · exact (hb _).symm
    · exact ha.symm

/-- No code becomes a name that is not in it, but for the receiver. -/
lemma tag_lower_ne_ident (hrec : x ∉ c.receiver.names) (hx : x ∉ n.names) : (c.lower n).tag ≠ .ident x := by
  have hname : ∀ {k : Node}, k.tag = .ident x → x ∈ k.names := by
    intro k hk
    exact mem_names_of_within .refl (hk ▸ mem_singleton.mpr rfl)
  have hshape := use_shape n
  rw [lower_eq]
  generalize use n = u at hshape
  intro htag
  cases hshape with
  | closed => exact hx (hname htag)
  | call | methodCall => exact absurd (tag_callOn.symm.trans htag) (by simp)
  | store => exact absurd htag (tag_store_ne (by simp) (by simp))
  | read => cases htag
  | this =>
    rw [receiver] at hrec
    cases hr : c.receiver? with
    | none =>
      rw [hr] at htag
      cases htag
    | some r =>
      rw [hr] at htag hrec
      exact hrec (hname htag)
  | plain =>
    obtain rfl : _ = Tag.ident x := htag
    exact hx (mem_names_of_within .refl (mem_singleton.mpr rfl))

/-- Code that becomes a property of the parent itself is a property of `super` in a static member. -/
lemma isStatic_of_lower (hrec : x ∉ c.receiver.names) (hx : x ∉ n.names) (heq : c.lower n = mk s .member (o :: ks))
    (ho : o.tag = .ident x) : c.isStatic = true ∧ ∃ key, superKey? n = some key := by
  have hname : ∀ {k : Node}, k = mk s .member (o :: ks) → x ∈ k.names := by
    rintro k rfl
    exact mem_names_of_within (.kid (mem_cons_self ..) .refl) (ho ▸ mem_singleton.mpr rfl)
  have htag := congrArg tag heq
  have hshape := use_shape n
  rw [lower_eq] at heq htag
  generalize use n = u at hshape heq htag
  cases hshape with
  | closed => exact absurd (hname heq) hx
  | call | methodCall => exact absurd (tag_callOn.symm.trans htag) (by simp)
  | store => exact absurd htag (tag_store_ne (by simp) (by simp))
  | @read _ w key =>
    refine ⟨?_, key, rfl⟩
    by_contra hs
    simp only [home, if_neg hs] at heq
    obtain ⟨-, -, hks⟩ := Node.mk.inj heq
    obtain ⟨rfl, -⟩ := cons.inj hks
    cases ho
  | this =>
    rw [receiver] at hrec
    cases hr : c.receiver? with
    | none =>
      rw [hr] at htag
      cases htag
    | some r =>
      rw [hr] at heq hrec
      exact absurd (hname heq) hrec
  | @plain sn t ks' =>
    obtain ⟨-, -, hks⟩ := Node.mk.inj heq
    cases ks' with
    | nil => cases hks
    | cons k ks' =>
      obtain ⟨hk, -⟩ := cons.inj hks
      have hxk : x ∉ k.names := fun h => hx (names_subset_of_within (.kid (mem_cons_self ..) .refl) h)
      exact absurd (hk ▸ ho) (tag_lower_ne_ident hrec hxk)

end Super

end Class

end EcmaLower
