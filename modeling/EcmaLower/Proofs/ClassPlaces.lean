import EcmaLower.Proofs.ClassCrossings

/-!
# Places in lowered classes

Every reference of a tree stands in the lowered tree, in the scopes that are left by what is crossed on the
way to it. For a node that stays this follows from its children. For a class it is shown member by member:
where in the function that makes the class the parts of a constructor, of a field or of a method are put, and
which scopes are around them there.
-/

namespace EcmaLower.Class

open Node List Build Option

variable {s sb sm : Span} {C D : List Crossing} {x k b cls cls' m n p st : Node} {i : Nat} {ks stmts : List Node}
  {p : List Nat} {S : List Frame} {l' : Span × Tag} {isStatic : Bool} {m? : Option Making} {t : Tag}

/-! ## The parts of a class -/

/-- The names that a class is lowered with: its own name or one that is drawn, and a drawn name for its
parent. -/
structure NamedAs (known : List String) (own : Option String) (name : String) (parent? : Option String)
    (cls : Node) : Prop where
  own : own = some name ∨ own = none ∧ name ∉ known ∧ name ∉ cls.names
  parent : ∀ y ∈ parent?, y ∉ known

lemma staticThis_notMem_outward (own own' : Option String) : .staticThis own' ∉ outward own := by
  simp [outward]

section Parts

variable {known : List String} {own : Option String} {name : String} {parent? : Option String}
  {cls : Node} {ms : List Node} {l : Span × Tag}

/-- The function that makes a class binds the name of the class, and nothing else that is known. -/
lemma NamedAs.agree (h : NamedAs known own name parent? cls) :
    Agree known [makerScope name parent?] [.ofFunction ++ .ofNames own.toList] := by
  refine .cons (fun r hr => ?_) .nil
  rw [makerScope, mem_append, mem_append]
  refine or_congr_right ?_
  cases r with
  | name x =>
    have hparent : x ∉ parent?.toList := fun hx => h.parent x (mem_toList.mp hx) hr
    rw [Frame.name_mem_ofNames, Frame.name_mem_ofNames, mem_append, mem_singleton, or_iff_right hparent]
    rcases h.own with rfl | ⟨rfl, hname, -⟩
    · simp
    · refine iff_of_false ?_ (by simp)
      rintro rfl
      exact hname hr
  | this | newTarget => simp [Frame.ofNames]

variable (hms : ∀ m ∈ ms, MemberShape m) (hcls : membersOf cls = ms)
  (hN : NamedAs known own name parent? cls)

include hms hcls hN in
/-- What stands in a statement of the function that makes a class is placed in the call. -/
lemma placed_of_maker (hst : st ∈ makerBody name parent? ms) (hrole : st.role ≠ .block) (h : st.Holds l' S)
    (hA : Agree known S (D.flatMap Crossing.after))
    (hR : Relabeled known (D ++ outward own) (S ++ [makerScope name parent?]) l l') :
    Placed known (build name parent? cls) (D ++ outward own) l := by
  refine ⟨l', S ++ [makerScope name parent?], ?_, ?_, hR⟩
  · have hsealed : (D ++ outward own).any Crossing.isSealed = true := by
      simp [outward, Crossing.isSealed]
    rw [hsealed]
    exact shows_build hms hcls hst hrole h
  · rw [flatMap_append]
    exact hA.append hN.agree

lemma mem_makerBody_constructor : funcDecl name (constructor (ident (parent?.getD "Object"))
    parent?.isSome (Parts.ofMembers ms)) ∈ makerBody name parent? ms :=
  mem_append_left _ (by simp)

include hms hcls hN in
/-- What stands in a statement of the constructor. -/
lemma placed_of_constructor
    (hst : st ∈ (constructorParts (ident (parent?.getD "Object")) parent?.isSome (Parts.ofMembers ms)).2)
    (hl : l'.2.ref?.isSome = true) (h : st.Holds l' S)
    (hA : Agree known (S ++ st.blockScope never) (C.flatMap Crossing.after))
    (hD : D.flatMap Crossing.after = [constructorScope never ms]) (hstatic : ∀ own, .staticThis own ∉ D)
    (hR : Relabeled known C (S ++ st.blockScope never) l l') :
    Placed known (build name parent? cls) (C ++ D ++ outward own) l := by
  refine placed_of_maker hms hcls hN mem_makerBody_constructor (by decide : Role.stmt ≠ .block)
    (holds_constructor_stmt hms _ is_ident hst hl h) ?_ ?_
  · rw [flatMap_append, hD]
    exact hA.append (.refl _)
  · rw [append_assoc C, append_assoc (S ++ _)]
    refine hR.append (fun own' ho => ?_) _
    rcases mem_append.mp ho with ho | ho
    · exact hstatic own' ho
    · exact staticThis_notMem_outward own own' ho

/-! ### Constructors -/

omit hms in
/-- A class with a constructor has it as its only one. -/
lemma constructorParts_of_mem {sm sb : Span} {p : Node} {stmts : List Node}
    (hw : (mk sm .members ms).WellFormed) (hm : mk s .ctor [k, p, mk sb .block stmts] ∈ ms) (parent : Node)
    (derived : Bool) :
    (Parts.ofMembers ms).ctor? = some (mk s .ctor [k, p, mk sb .block stmts]) ∧
    (constructorParts parent derived (Parts.ofMembers ms)).1 = p ∧
    ∀ st ∈ stmts, st ∈ (constructorParts parent derived (Parts.ofMembers ms)).2 := by
  have hctor : (Parts.ofMembers ms).ctor? = some (mk s .ctor [k, p, mk sb .block stmts]) := by
    simp only [Parts.ofMembers, ctors_eq_singleton (ctor_length hw) hm rfl]
    rfl
  refine ⟨hctor, ?_⟩
  simp only [constructorParts, hctor]
  exact ⟨trivial, fun st hst => mem_insertAt.mpr (.inr hst)⟩

omit hms in
lemma initField_mem {parent : Node} {derived : Bool} (hm : m ∈ ms) (ht : m.tag = .field false) :
    initField this m ∈ (constructorParts parent derived (Parts.ofMembers ms)).2 := by
  have hmem : initField this m ∈ (Parts.ofMembers ms).fields.map (initField this) :=
    mem_map_of_mem (mem_filter.mpr ⟨hm, by rw [ht]; rfl⟩)
  unfold constructorParts
  split
  · exact mem_insertAt.mpr (.inl hmem)
  · exact mem_append_right _ hmem

/-- There is no reference in a key that is not computed. -/
lemma not_shows_key {b : Bool} (hk : k.Is .key) (hl : l.2.ref?.isSome = true) : ¬k.Shows l b S := by
  intro h
  obtain ⟨s, t, ks⟩ := k
  have hleaf : t.ref? = none ∧ ks = [] := by
    obtain ⟨hw, hr⟩ := hk
    cases t with
    | keyName x | keyStr x | keyNum x | keyBigInt x => exact ⟨rfl, hw.leaf rfl⟩
    | _ => cases hr
  obtain ⟨ht, rfl⟩ := hleaf
  obtain ⟨i, _, _, _, ⟨⟩, -⟩ := h.exists_kid hl ht

/-- The scope of the parameters of a constructor. -/
lemma between_ctor_params {p b : Node} (hk : k.role = .key) (hp : p.role = .params) (hb : b.role = .block) :
    (mk s .ctor [k, p, b]).between never 1 p = [.ofFunction ++ .ofNames p.declaredNames] := by
  change [Frame.ofFunction ++ .ofNames (_ ++ p.bodyNames never)] = _
  rw [parameters_ctor hk hp hb, bodyNames_eq_nil (by rw [hp]; decide), append_nil]

omit hms in
/-- The scope of its body, which is that of the function. -/
lemma between_ctor_body {p b : Node} (hk : k.role = .key) (hp : p.role = .params) (hb : b.role = .block)
    (hctor : (Parts.ofMembers ms).ctor? = some (mk s .ctor [k, p, b])) :
    (mk s .ctor [k, p, b]).between never 2 b = [constructorScope never ms] := by
  have hnames : constructorNames never ms = p.declaredNames ++ b.bodyNames never := by
    simp only [constructorNames, hctor, map_some, getD_some, parameters_ctor hk hp hb, kids_mk,
      flatMap_cons, flatMap_nil, append_nil]
    rw [bodyNames_eq_nil (n := k) (by rw [hk]; decide), bodyNames_eq_nil (n := p) (by rw [hp]; decide)]
    rfl
  change [Frame.ofFunction ++ .ofNames (_ ++ b.bodyNames never)] = _
  rw [parameters_ctor hk hp hb, constructorScope, hnames]

include hms hcls hN in
/-- **Constructors.** -/
lemma placed_ctor {sm sb : Span} {p : Node} {stmts : List Node} {f : List Frame} {b : Bool}
    (hw : (mk sm .members ms).WellFormed) (hm : mk s .ctor [k, p, mk sb .block stmts] ∈ ms)
    (hx : [k, p, mk sb .block stmts][i]? = some x) (hl : l.2.ref?.isSome = true) (hP : Placed known x C l) :
    Placed known (build name parent? cls) (C ++ [.scope f ((mk s .ctor
      [k, p, mk sb .block stmts]).between never i x) b] ++ outward own) l := by
  obtain ⟨l', S, hs, hA, hR⟩ := hP
  have hl' := hR.isSome_ref? hl
  obtain ⟨hctor, hparams, hstmts⟩ := constructorParts_of_mem hw hm
    (ident (parent?.getD "Object")) parent?.isSome
  obtain ⟨hk, hp, hb⟩ : k.Is .key ∧ p.Is .params ∧ (mk sb .block stmts).Is .block := by
    cases hms _ hm with
    | ctor hk hp hb => exact ⟨hk, hp, hb⟩
  rcases i with _ | _ | _ | i
  · obtain rfl := some_inj.mp hx
    exact absurd hs (not_shows_key hk hl')
  · obtain rfl := some_inj.mp hx
    have hholds : (funcDecl name (constructor (ident (parent?.getD "Object"))
        parent?.isSome (Parts.ofMembers ms))).Holds l' (S ++ [.ofFunction ++ .ofNames p.declaredNames]) := by
      rw [← hparams]
      exact holds_constructor_params hms _ is_ident hl' (by rw [hparams]; exact ⟨_, hs⟩)
    refine placed_of_maker hms hcls hN mem_makerBody_constructor (by decide : Role.stmt ≠ .block) hholds ?_ ?_
    · rw [flatMap_append]
      exact hA.append (between_ctor_params (s := s) hk.2 hp.2 hb.2 ▸ .refl _)
    · rw [append_assoc C, append_assoc S]
      refine hR.append (fun own' ho => ?_) _
      simp [outward] at ho
  · obtain rfl := some_inj.mp hx
    obtain ⟨j, st, _, S₁, hj, hst, -, rfl⟩ := hs.exists_kid hl' rfl
    refine placed_of_constructor hms hcls hN (hstmts st (mem_of_getElem? hj)) hl' ⟨_, hst⟩ hA
      (by simpa [Crossing.after] using between_ctor_body hk.2 hp.2 hb.2 hctor) (by simp) hR
  · cases hx

/-! ### Fields -/

/-- The parts of a field are its children. -/
lemma fieldParts_of_getElem? (h : MemberShape (mk s (.field isStatic) ks)) (hx : ks[i]? = some x) :
    i = 0 ∧ (fieldParts (mk s (.field isStatic) ks)).1 = x ∨
      i ≠ 0 ∧ (fieldParts (mk s (.field isStatic) ks)).2 = x := by
  cases h with
  | field =>
    rcases i with _ | i
    · exact .inl ⟨rfl, some_inj.mp hx⟩
    · cases hx
  | fieldInit =>
    rcases i with _ | _ | i
    · exact .inl ⟨rfl, some_inj.mp hx⟩
    · exact .inr ⟨nofun, some_inj.mp hx⟩
    · cases hx

include hms hcls hN in
/-- **Instance fields.** Both the key and the value are evaluated in the constructor. -/
lemma placed_instanceField (hm : mk s (.field false) ks ∈ ms) (hx : ks[i]? = some x)
    (hl : l.2.ref?.isSome = true) (hP : Placed known x C l)
    (hD : D.flatMap Crossing.after = [constructorScope never ms]) (hstatic : ∀ own, .staticThis own ∉ D) :
    Placed known (build name parent? cls) (C ++ D ++ outward own) l := by
  obtain ⟨l', S, hs, hA, hR⟩ := hP
  have hl' := hR.isSome_ref? hl
  have hshape := hms _ hm
  have hholds : (initField this (mk s (.field false) ks)).Holds l' S := by
    refine holds_initField hl' (fieldParts_is hshape).1 ?_
    rcases fieldParts_of_getElem? hshape hx with ⟨-, rfl⟩ | ⟨-, rfl⟩
    · exact .inl ⟨_, hs⟩
    · exact .inr ⟨_, hs⟩
  refine placed_of_constructor hms hcls hN (initField_mem hm rfl) hl' hholds ?_ hD hstatic ?_
  · exact (append_nil S).symm ▸ hA
  · exact (append_nil S).symm ▸ hR

/-- What becomes of the label of a reference in the value of a static field. -/
lemma Relabeled.static {x : Node} {C : List Crossing} {S : List Frame} {l' : Span × Tag}
    (hR : Relabeled known C S l l') (parent : Node) (hN : NamedAs known own name parent? cls)
    (hargs : "arguments" ∈ known) (hx : x.names ⊆ cls.names)
    (hs : x.Shows l' (C.any Crossing.isSealed) S) (hA : Agree known S (C.flatMap Crossing.after)) :
    Relabeled known (C ++ [.fieldTarget, .staticThis own] ++ outward own)
      (S ++ [makerScope name parent?]) l
      ((staticContext name parent).relabel (C.any Crossing.isSealed) l') := by
  rw [append_assoc]
  cases hR with
  | receiver hl hr hC hS hI hname hown =>
    rw [SuperContext.relabel_of_ne (by simp : Tag.ident _ ≠ .this)]
    exact .receiver hl (receiver?_append_of_eq_some hr) (hC.trans (prefix_append _ _))
      (by rw [hS, append_assoc]; rfl) hI hname hown
  | same hthis =>
    by_cases hl : l.2 = .this
    · have hC := receiver?_append_of_eq_none (D := [.fieldTarget, .staticThis own] ++ outward own)
        (hthis hl)
      cases hsealed : C.any Crossing.isSealed with
      | true =>
        rw [SuperContext.relabel_true]
        rw [hsealed] at hC
        exact .same fun _ => hC
      | false =>
        rw [hsealed] at hC
        rw [SuperContext.relabel, if_pos ⟨hl, rfl⟩]
        refine .receiver (I := S) (O := []) (M := makerScope name parent?) hl hC ?_ rfl ?_ ?_ ?_
        · rw [append_assoc]
          exact prefix_rfl
        · simpa [Crossing.after] using hA
        · simp [makerScope]
        · rcases hN.own with hsome | ⟨hnone, hname, hcls⟩
          · exact .inl hsome
          · refine .inr ⟨hnone, hname, fun f hf hmem => ?_⟩
            -- A drawn name is in no scope of the initializer, since the initializer does not mention it.
            rcases hs.mem_names hf hmem with rfl | hmem
            · exact hname hargs
            · exact hcls (hx hmem)
    · rw [SuperContext.relabel_of_ne hl]
      exact .same fun h => absurd h hl

include hms hcls hN in
/-- **Static fields.** Both the key and the value are evaluated in the function that makes the class. -/
lemma placed_staticField (hargs : "arguments" ∈ known) (hm : mk s (.field true) ks ∈ ms)
    (hx : ks[i]? = some x) (hnames : x.names ⊆ cls.names) (hl : l.2.ref?.isSome = true)
    (hP : Placed known x C l) :
    Placed known (build name parent? cls)
      (C ++ (if i = 0 then [] else [.fieldTarget, .staticThis own]) ++ outward own) l := by
  obtain ⟨l', S, hs, hA, hR⟩ := hP
  have hl' := hR.isSome_ref? hl
  have hshape := hms _ hm
  obtain ⟨hk, hv⟩ := fieldParts_is hshape
  have hst : defineStatic name (ident (parent?.getD "Object")) (mk s (.field true) ks) ∈
      makerBody name parent? ms := by
    refine mem_append_right _ (mem_append_right _ (mem_append_right _
      (mem_append_left _ (mem_map_of_mem (mem_filter.mpr ⟨hm, rfl⟩)))))
  rcases fieldParts_of_getElem? hshape hx with ⟨rfl, rfl⟩ | ⟨hi, rfl⟩
  · rw [if_pos rfl, append_nil]
    exact placed_of_maker hms hcls hN hst (by decide : Role.stmt ≠ .block) (holds_defineStatic hl' hk (.inl ⟨_, hs⟩)) hA
      (hR.append (staticThis_notMem_outward own) _)
  · rw [if_neg hi]
    have hparent : (ident (parent?.getD "Object")).Is .expr := is_ident
    have hlower := (staticContext_wellFormed name hparent).holds_lower _ hv.1 hl' hs
    have hrelabeled := hR.static (ident (parent?.getD "Object")) hN hargs hnames hs hA
    refine placed_of_maker hms hcls hN hst (by decide : Role.stmt ≠ .block)
      (holds_defineStatic (hrelabeled.isSome_ref? hl) hk (.inr hlower)) ?_ hrelabeled
    simpa [Crossing.after] using hA

/-! ### Methods -/

include hms hcls hN in
/-- **Methods and accessors.** -/
lemma placed_method {kind : MethodKind} (hm : mk s (.method kind isStatic) ks ∈ ms) (hx : ks[i]? = some x)
    (hl : l.2.ref?.isSome = true) (hP : Placed known x C l) :
    Placed known (build name parent? cls) (C ++ [.scope [] [] false] ++ outward own) l := by
  obtain ⟨l', S, hs, hA, hR⟩ := hP
  have hl' := hR.isSome_ref? hl
  have hst : defineMethod name (ident (parent?.getD "Object")) (mk s (.method kind isStatic) ks) ∈
      makerBody name parent? ms := by
    refine mem_append_right _ (mem_append_right _ (mem_append_left _ (mem_map_of_mem (mem_filter.mpr ⟨hm, rfl⟩))))
  have hholds : (defineMethod name (ident (parent?.getD "Object"))
      (mk s (.method kind isStatic) ks)).Holds l' S := by
    cases hms _ hm with
    | method hk hp hb =>
      refine holds_defineMethod hl' is_ident hk hp hb ?_
      rcases mem_pair.mp (mem_of_getElem? hx) with rfl | rfl
      · exact .inl ⟨_, hs⟩
      · exact .inr ⟨_, hs⟩
  have his : (defineMethod name (ident (parent?.getD "Object"))
      (mk s (.method kind isStatic) ks)).Is .stmt := is_defineMethod is_ident (hms _ hm) rfl
  refine placed_of_maker hms hcls hN hst (by rw [his.2]; decide) hholds ?_ ?_
  · simpa [Crossing.after] using hA
  · rw [append_assoc]
    refine hR.append (fun own' ho => ?_) _
    simp [outward] at ho

end Parts

/-! ## Classes and trees -/

section Trees

variable {known : List String} {own : Option String} {name : String} {parent? : Option String}
  {l : Span × Tag}

lemma crossings_cons (h : n.kids[i]? = some k) (p : List Nat) :
    crossings m? n (i :: p) = crossings (partOf m? n i) k p ++ crossed m? n i k := by
  rw [crossings, h]

/-- A reference in a tree whose root is none stands in one of the children. -/
lemma exists_kid_of_labelAt? (h : n.labelAt? p = some l) (hl : l.2.ref?.isSome = true) (hn : n.tag.ref? = none) :
    ∃ (i : Nat) (q : List Nat) (k : Node), p = i :: q ∧ n.kids[i]? = some k ∧ k.labelAt? q = some l := by
  obtain ⟨m, hm, rfl⟩ := map_eq_some_iff.mp h
  cases p with
  | nil =>
    obtain rfl := some_inj.mp hm
    rw [label, hn] at hl
    cases hl
  | cons i q =>
    obtain ⟨k, hk, hat⟩ := exists_kid_of_at? hm
    exact ⟨i, q, k, rfl, hk, by rw [labelAt?, hat, map_some]⟩

/-- What is placed in the heritage of a class is placed in the call that builds the class. -/
lemma placed_heritage {e : Node} (he : heritage? cls = some e) (hP : Placed known e C l) :
    Placed known (build name parent? cls) (C ++ [.heritage own]) l := by
  obtain ⟨l', S, hs, hA, hR⟩ := hP
  refine ⟨l', S, ?_, ?_, ?_⟩
  · have := hs.kid (n := build name parent? cls) (i := 1) (by rw [build, he]; rfl)
    simpa [build, call, make, between, seals, Tag.isCompound, Crossing.isSealed] using this
  · simpa [Crossing.after] using hA
  · have := hR.append (D := [.heritage own]) (by simp) []
    rwa [append_nil] at this

lemma ref?_member (hm : m.role.isMember = true) : m.tag.ref? = none := by
  obtain ⟨s, t, ks⟩ := m
  cases t <;> first | rfl | cases hm

/-- A member of a class is none that is lowered itself. -/
lemma partOf_member {m? : Option Making} {m : Node} (hm : m.role.isMember = true) (i : Nat) :
    partOf m? m i = none := by
  obtain ⟨s, t, ks⟩ := m
  cases t <;> first | rfl | cases hm

/-- **Members.** What is placed in a part of a member is placed in the call that builds the class. -/
lemma placed_member {cls' m m' : Node} {ms ms' : List Node} {sm : Span}
    (hw : (mk sm .members ms).WellFormed) (hw' : (mk sm .members ms').WellFormed)
    (hLms : Forall₂ (Lowers known) ms ms') (hms' : ∀ m ∈ ms', MemberShape m) (hcls : membersOf cls' = ms')
    (hN : NamedAs known own name parent? cls') (hargs : "arguments" ∈ known)
    (hnames : ∀ m ∈ ms', m.names ⊆ cls'.names) (hm : m ∈ ms) (hm' : m' ∈ ms') (hL : Lowers known m m')
    (hx : m.kids[i]? = some x) (hl : l.2.ref?.isSome = true)
    (hP : ∀ x', Lowers known x x' → Placed known x' C l) :
    Placed known (build name parent? cls')
      (C ++ crossed (some ⟨own, constructorNames isLowered ms⟩) m i x ++ outward own) l := by
  obtain ⟨s, t, ks⟩ := m
  have hrole : t.role.isMember = true := (isMember_of_mem hw hm).2
  have hlow : isLowered (mk s t ks) = false := by cases t <;> first | rfl | cases hrole
  obtain ⟨ks', rfl, hks⟩ := hL.keep (hw.kid hm) hlow
  obtain ⟨x', hx', hLx⟩ := exists_getElem? hks hx
  have hPx := hP x' hLx
  have hlocals := constructorNames_congr hw hLms
  have hbetween := between_congr (Lowers.forall_declares (hw.kid hm) hks) (hw.kid hm) i
    (hLx.declares ((hw.kid hm).kid (mem_of_getElem? hx)))
  have hshape := hms' _ hm'
  have hnamesx : x'.names ⊆ cls'.names := Subset.trans (names_kid (mem_of_getElem? hx')) (hnames _ hm')
  cases t with
  | ctor =>
    change Placed known _ (C ++ [.scope _ ((mk s .ctor ks).between isLowered i x) _] ++ outward own) l
    rw [← hbetween]
    cases hshape with
    | ctor => exact placed_ctor hms' hcls hN hw' hm' hx' hl hPx
  | method kind isStatic => exact placed_method hms' hcls hN hm' hx' hl hPx
  | field isStatic =>
    cases isStatic with
    | false =>
      rw [← hlocals]
      refine placed_instanceField hms' hcls hN hm' hx' hl hPx ?_ fun own' => ?_
      · simp only [crossed, tag_mk]
        split <;> rfl
      · simp only [crossed, tag_mk]
        split <;> simp
    | true => exact placed_staticField hms' hcls hN hargs hm' hx' hnamesx hl hPx
  | emptyMember =>
    cases hshape with
    | empty => cases hx'
  | staticBlock => cases hshape
  | _ => cases hrole

/-- **A class is placed in the call that builds it**, if its parts are placed in what becomes of them. -/
lemma placed_build {cls cls' : Node} (h : cls.Is .cls) (h' : cls'.Is .cls) (hL : Lowers known cls cls')
    (hl' : isLowerable cls' = true) (hN : NamedAs known own name parent? cls') (hargs : "arguments" ∈ known)
    (hp : cls.labelAt? p = some l) (hl : l.2.ref?.isSome = true)
    (ih : ∀ k ∈ cls.kids, ∀ x, x.Within k → ∀ x' q, Lowers known x x' → x.labelAt? q = some l →
      Placed known x' (crossings none x q) l) :
    Placed known (build name parent? cls')
      (crossings (some ⟨own, constructorNames isLowered (membersOf cls)⟩) cls p) l := by
  obtain ⟨sc, sm, ms, hs, rfl, hmembers, -, hlen⟩ := cls_shape h
  obtain ⟨ks', rfl, hks⟩ := hL.keep h.1 rfl
  cases hks with
  | @cons _ members' _ hs' hLm hLs =>
    obtain ⟨ms', rfl, hLms⟩ := hLm.keep hmembers.1 rfl
    have hw' : (mk sm .members ms').WellFormed := h'.1.kid (mem_cons_self ..)
    have hms' : ∀ m ∈ ms', MemberShape m := fun m hm =>
      memberShape (hw'.kid hm) (all_eq_true.mp hl' m hm)
    obtain ⟨i, q, k, rfl, hk, hq⟩ := exists_kid_of_labelAt? hp hl rfl
    rw [crossings_cons hk]
    rcases i with _ | i
    · obtain rfl := some_inj.mp hk
      obtain ⟨j, q, m, rfl, hj, hq⟩ := exists_kid_of_labelAt? hq hl rfl
      obtain ⟨m', hj', hLm'⟩ := exists_getElem? hLms hj
      have hmem : m ∈ ms := mem_of_getElem? hj
      have hmember := (isMember_of_mem hmembers.1 hmem).2
      obtain ⟨i, q, x, rfl, hx, hqx⟩ := exists_kid_of_labelAt? hq hl (ref?_member hmember)
      have hpath : crossings (some ⟨own, constructorNames isLowered ms⟩) (mk sm .members ms)
          (j :: i :: q) = crossings none x q ++
            crossed (some ⟨own, constructorNames isLowered ms⟩) m i x ++ [.scope [] [] false] := by
        rw [crossings_cons hj, crossings_cons hx]
        rw [show partOf _ (mk sm .members ms) j = some _ from rfl, partOf_member hmember]
        rfl
      change Placed known _ (crossings (some ⟨own, constructorNames isLowered ms⟩) (mk sm .members ms)
        (j :: i :: q) ++ [.maker own]) l
      rw [hpath, append_assoc]
      refine placed_member hmembers.1 hw' hLms hms' rfl hN hargs (fun m hm => ?_) hmem
        (mem_of_getElem? hj') hLm' hx hl fun x' hLx => ?_
      · exact Subset.trans (names_kid hm) (names_kid (mem_cons_self ..))
      · obtain ⟨s, t, ks⟩ := m
        exact ih _ (mem_of_getElem? hk) x (.kid hmem (.kid (mem_of_getElem? hx) .refl)) x' q
          hLx hqx
    · -- The heritage is the second child.
      obtain ⟨e', he', hLe⟩ := exists_getElem? hLs hk
      have hheritage : heritage? (mk sc .cls (mk sm .members ms' :: hs')) = some e' := by
        rw [hLs.length_eq] at hlen
        rcases hs' with _ | ⟨e, _ | ⟨_, _⟩⟩
        · cases he'
        · rw [← mem_singleton.mp (mem_of_getElem? he')]
          rfl
        · exact absurd hlen (by simp)
      rw [show crossed _ _ (i + 1) k = [.heritage own] from rfl]
      refine placed_heritage hheritage ?_
      exact ih k (mem_of_getElem? hk) k .refl e' q hLe hq

lemma crossed_none (n : Node) (i : Nat) (k : Node) : crossed none n i k =
    if isLowered n then [] else [.scope (n.between never i k) (n.between isLowered i k) (n.seals i)] := rfl

/-- The definition of a class that is lowered. -/
lemma making?_cases {M : Making} (h : making? (mk s t [cls]) = some M) :
    ((∃ x, t = .classDecl x) ∨ ∃ x?, t = .classExpr x?) ∧ isLowered (mk s t [cls]) = true := by
  have hif : ∀ {b : Bool} {a : Option Making}, (if b then a else none) = some M → b = true := by
    intro b a h
    cases b with
    | true => rfl
    | false => cases h
  cases t with
  | classDecl x => exact ⟨.inl ⟨x, rfl⟩, hif h⟩
  | classExpr x? => exact ⟨.inr ⟨x?, rfl⟩, hif h⟩
  | _ => cases h

/-- Outside of the classes that are lowered. -/
lemma partOf_none (h : isLowered n = false) (i : Nat) : partOf none n i = none := by
  obtain ⟨s, t, ks⟩ := n
  cases t with
  | cls => exact ite_self _
  | classDecl x | classExpr x =>
    rcases ks with _ | ⟨cls, _ | ⟨_, _⟩⟩
    · rfl
    · exact if_neg (by rw [show isLowerable cls = false from h]; nofun)
    · rfl
  | _ => rfl

/-- **Definitions of classes.** -/
lemma placed_class (h : (mk s t [cls]).WellFormed) (h' : (mk s t [cls']).WellFormed) (hL : Lowers known cls cls')
    (hl' : isLowerable cls' = true) (hN : NamedAs known own name parent? cls') (hargs : "arguments" ∈ known)
    (hM : making? (mk s t [cls]) = some ⟨own, constructorNames isLowered (membersOf cls)⟩)
    (hp : (mk s t [cls]).labelAt? p = some l) (hl : l.2.ref?.isSome = true)
    (ih : ∀ x, x.Within cls → ∀ x' q, Lowers known x x' → x.labelAt? q = some l → Placed known x' (crossings none x q) l) :
    Placed known (build name parent? cls') (crossings none (mk s t [cls]) p) l := by
  obtain ⟨ht, hlow⟩ := making?_cases hM
  have hroot : t.ref? = none := by rcases ht with ⟨x, rfl⟩ | ⟨x?, rfl⟩ <;> rfl
  obtain ⟨i, q, k, rfl, hk, hq⟩ := exists_kid_of_labelAt? hp hl hroot
  have hpath : crossings none (mk s t [cls]) (i :: q) = crossings (partOf none (mk s t [cls]) i) k q := by
    rw [crossings_cons hk, crossed_none, hlow]
    exact append_nil _
  have hpart : partOf none (mk s t [cls]) i = some ⟨own, constructorNames isLowered (membersOf cls)⟩ := by
    rcases ht with ⟨x, rfl⟩ | ⟨x?, rfl⟩ <;> exact hM
  obtain rfl : k = cls := mem_singleton.mp (mem_of_getElem? hk)
  rw [hpath, hpart]
  refine placed_build (cls_of_def h ht) (cls_of_def h' ht) hL hl' hN hargs hq hl fun e he x hx => ?_
  obtain ⟨sc, tc, cks⟩ := k
  exact ih x (.kid he hx)

/-- What is placed in the value of a variable is placed in its declaration. -/
lemma placed_var {value : Node} {x : String} (hP : Placed known value C l) :
    Placed known (var [declarator (binding x) (some value)]) C l := by
  obtain ⟨l', S, hs, hA, hR⟩ := hP
  refine ⟨l', S, ?_, hA, hR⟩
  have := (hs.kid (n := declarator (binding x) (some value)) (i := 1) rfl).kid
    (n := var [declarator (binding x) (some value)]) (i := 0) rfl
  simpa [var, declarator, make, between, seals, Tag.isCompound] using this

/-- **Nodes that stay.** -/
lemma placed_node {ks' : List Node} (h : (mk s t ks).WellFormed) (hks : Forall₂ (Lowers known) ks ks')
    (hn : isLowered (mk s t ks) = false) (hp : (mk s t ks).labelAt? p = some l) (hl : l.2.ref?.isSome = true)
    (ih : ∀ k ∈ ks, ∀ x, x.Within k → ∀ x' q, Lowers known x x' → x.labelAt? q = some l → Placed known x' (crossings none x q) l) :
    Placed known (mk s t ks') (crossings none (mk s t ks) p) l := by
  cases p with
  | nil =>
    obtain rfl := some_inj.mp hp
    exact ⟨(s, t), [], .root (mk s t ks'), .nil, .same fun _ => rfl⟩
  | cons i q =>
    obtain ⟨m, hm, rfl⟩ := map_eq_some_iff.mp hp
    obtain ⟨k, hk, hat⟩ := exists_kid_of_at? hm
    have hmem : k ∈ ks := mem_of_getElem? hk
    have hpath : crossings none (mk s t ks) (i :: q) = crossings none k q ++
        [.scope ((mk s t ks).between never i k) ((mk s t ks).between isLowered i k) ((mk s t ks).seals i)] := by
      rw [crossings_cons hk, crossed_none, hn, partOf_none hn]
      rfl
    obtain ⟨k', hk', hLk⟩ := exists_getElem? hks hk
    obtain ⟨l', S, hs, hA, hR⟩ := ih k hmem k .refl k' q hLk (by rw [labelAt?, hat, map_some])
    have hbetween := between_congr (Lowers.forall_declares h hks) h i (hLk.declares (h.kid hmem))
    rw [hpath]
    refine ⟨l', S ++ (mk s t ks').between never i k', ?_, ?_, hR.append (by simp) _⟩
    · have := hs.kid (n := mk s t ks') hk'
      rw [seals_congr hks] at this
      simpa [Crossing.isSealed] using this
    · rw [hbetween, flatMap_append]
      exact hA.append (by simpa [Crossing.after] using .refl _)

/-- **References are placed.** Every reference of a tree stands in what becomes of the tree, in the scopes
that are left by what is crossed on the way to it. -/
theorem placed_of_lowers {n' : Node} (hL : Lowers known n n') (h : n.WellFormed) (hargs : "arguments" ∈ known)
    (hp : n.labelAt? p = some l) (hl : l.2.ref?.isSome = true) : Placed known n' (crossings none n p) l := by
  induction n using induct_within generalizing n' p with
  | h s t ks ih =>
    cases hL with
    | @node _ _ _ ks' _ ds d hks hkept hR hfresh =>
      have hw' : (mk s t ks').WellFormed := (kept_mk hkept h).is.1
      have hlow := isLowered_congr hkept h
      have hpart : ∀ k ∈ ks, ∀ x, x.Within k → ∀ x' q, Lowers known x x' → x.labelAt? q = some l →
          Placed known x' (crossings none x q) l := fun k hk x hx x' q hLx hq =>
        ih k hk x hx hLx ((h.kid hk).within hx) hq
      cases hR with
      | keep hn =>
        rw [hn] at hlow
        exact placed_node h hks hlow.symm hp hl hpart
      | @decl _ i cls' parent? hc =>
        obtain ⟨cls, rfl⟩ : ∃ cls, ks = [cls] := length_eq_one_iff.mp hks.length_eq
        have hM : making? (mk s (.classDecl i) [cls]) =
            some ⟨some i.name, constructorNames isLowered (membersOf cls)⟩ := if_pos (hlow.symm.trans hc)
        have hN : NamedAs known (some i.name) i.name parent? cls' :=
          ⟨.inl rfl, fun y hy => (hfresh y (mem_toList.mpr hy)).1⟩
        exact placed_var (placed_class h hw' (forall₂_cons.mp hks).1 hc hN hargs hM hp hl (hpart cls (by simp)))
      | @named _ i cls' parent? hc =>
        obtain ⟨cls, rfl⟩ : ∃ cls, ks = [cls] := length_eq_one_iff.mp hks.length_eq
        have hM : making? (mk s (.classExpr (some i)) [cls]) =
            some ⟨some i.name, constructorNames isLowered (membersOf cls)⟩ := if_pos (hlow.symm.trans hc)
        have hN : NamedAs known (some i.name) i.name parent? cls' :=
          ⟨.inl rfl, fun y hy => (hfresh y (mem_toList.mpr hy)).1⟩
        exact placed_class h hw' (forall₂_cons.mp hks).1 hc hN hargs hM hp hl (hpart cls (by simp))
      | @anonymous _ cls' name parent? hc =>
        obtain ⟨cls, rfl⟩ : ∃ cls, ks = [cls] := length_eq_one_iff.mp hks.length_eq
        have hM : making? (mk s (.classExpr none) [cls]) =
            some ⟨none, constructorNames isLowered (membersOf cls)⟩ := if_pos (hlow.symm.trans hc)
        have hN : NamedAs known none name parent? cls' :=
          ⟨.inr ⟨rfl, (hfresh name (by simp)).1, (hfresh name (by simp)).2 cls' (by simp)⟩,
            fun y hy => (hfresh y (mem_cons_of_mem _ (mem_toList.mpr hy))).1⟩
        exact placed_class h hw' (forall₂_cons.mp hks).1 hc hN hargs hM hp hl (hpart cls (by simp))

end Trees

end EcmaLower.Class
