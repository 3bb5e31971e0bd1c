import EcmaLower.Proofs.SuperUses

/-!
# The receiver of a property of `super`

A property of `super` is looked up in the parent, but it is called with the receiver of the member and
stored to on that receiver. The lowering of `super` sees to that where the property itself is the callee of
a call or the target of an assignment. Where it is called or changed in another way it becomes a property of
the parent like any other, and the parent is what it is called on or what is changed.

## Main results

* `Class.super_property_receiver_iff` — when properties of `super` keep the receiver.
-/

namespace EcmaLower.Class

open Node List Build SuperContext

variable {isStatic : Bool} {m use : Mark} {a key n n' o : Node}

/-! ## Each property of `super` -/

/-- What is written for a property of `super` with the mark `use`: a call that passes the receiver, an
assignment to the receiver, or the property of the parent with the same mark. The key of a method that is
called is left as it is. -/
def WrittenFor (c : SuperContext) (use : Mark) (key : Node) (m : Mark) (a : Node) : Prop :=
  match use.usage with
  | .callee => m.deferred = use.deferred ∧ ∃ x args, (x = "call" ∨ x = "apply") ∧
      a = call (member (c.home key) x) (c.receiver :: args)
  | .target => m.deferred = use.deferred ∧ ∃ value, a = assign (access c.receiver (c.lower key)) value
  | .read | .called | .changed => m = use ∧ a = c.home (c.lower key)

section Uses

variable {known : List String} {c : SuperContext}

/-- A store through `super` holds an assignment to the receiver. -/
lemma reaches_store_assign (m : Mark) (op : AssignOp) (key value : Node) : ∃ m' v, m'.deferred = m.deferred ∧
      Reaches ownParts m' (assign (access c.receiver key) v) m (c.store op key value) := by
  unfold store
  split
  · exact ⟨m, _, rfl, .here⟩
  · split
    · exact ⟨m.reading, _, rfl, reaches_kid (i := 1) rfl rfl rfl rfl reaches_paren⟩
    · exact ⟨m, _, rfl, .here⟩

lemma yields_writtenFor {s w : Span} :
    Yields c (fun m a => m = use ∧ a = mk s (.superMember w) [key]) (WrittenFor c use key) where
  tag h := by
    rw [h.2]
    rfl
  call h := by cases h.2
  methodCall {m s' w' key' args} h := by
    obtain ⟨rfl, heq⟩ := h
    cases heq
    refine finds_iff.mpr (.inl ⟨rfl, ?_⟩)
    unfold callOn
    split
    · exact ⟨"apply", _, .inr rfl, rfl⟩
    · exact ⟨"call", _, .inl rfl, rfl⟩
  store {m s' w' op key' value} h := by
    obtain ⟨rfl, heq⟩ := h
    cases heq
    obtain ⟨m', v, hm, hr⟩ := reaches_store_assign (c := c) m op (c.lower key) value
    exact ⟨m', _, hr, hm, v, rfl⟩
  read {m s' w' key'} hd h := by
    obtain ⟨rfl, heq⟩ := h
    cases heq
    refine finds_iff.mpr (.inl ?_)
    obtain ⟨usage, deferred⟩ := m
    cases usage with
    | callee | target => cases hd
    | read | called | changed => exact ⟨rfl, rfl⟩

/-- **Every property of `super` in the code of a member is written in its place**, by how it is used. -/
theorem finds_writtenFor (hL : Lowers known n n') (h : n.WellFormed) (hr : Reaches ownParts use a ⟨.read, false⟩ n)
    (ha : superKey? a = some key) :
    ∃ key', Lowers known key key' ∧ Finds ownParts (WrittenFor c use key') ⟨.read, false⟩ (c.lower n') := by
  obtain ⟨a', haL, hr'⟩ := reaches_lowers hr hL h
  obtain ⟨s, w, rfl⟩ := superKey?_eq_some_iff.mp ha
  obtain ⟨_, rfl, hks⟩ := haL.keep (h.within (within_of_reaches hr)) rfl
  obtain ⟨key', _, hkey, hnil, rfl⟩ := forall₂_cons_left_iff.mp hks
  cases hnil
  exact ⟨key', hkey, yields_writtenFor.finds_lower (hL.wellFormed h) (hL.not_isLowered h) (.inl rfl)
    ⟨use, _, hr', rfl, rfl⟩⟩

end Uses

/-! ## What is called and changed -/

/-- Whether an object is the parent, or the prototype of the parent where `super` stands for that. -/
def isParentObject (isStatic : Bool) (parent : String) : Node → Bool
  | .mk _ (.ident x) _ => x == parent
  | .mk _ .member [.mk _ (.ident x) _, .mk _ (.keyName k) _] => !isStatic && x == parent && k == "prototype"
  | _ => false

/-- Whether a key is that of `call` or `apply`. -/
def isCallKey : Tag → Bool
  | .keyName k => k == "call" || k == "apply"
  | _ => false

/-- Whether a property of the parent is called on it or changed. The parent itself is called by
`parent.call(…)` and `parent.apply(…)`, with the receiver that is passed. -/
def actsOnParent (isStatic : Bool) (parent : String) (m : Mark) : Node → Bool
  | .mk _ .member [o, key] => m.usage != .read && isParentObject isStatic parent o &&
      !(m.usage == .callee && o.tag == .ident parent && isCallKey key.tag)
  | _ => false

/-- Code calls a property of the parent on it, or changes one. -/
def ActsOnParent (isStatic : Bool) (parent : String) (n : Node) : Prop :=
  Finds ownParts (fun m a => actsOnParent isStatic parent m a = true) ⟨.read, false⟩ n

/-- Code calls a property of `super` that is not the callee itself, or changes one that is not the target of
an assignment. -/
def UsesIndirectly (n : Node) : Prop :=
  Finds ownParts (fun m a => m.usage.isIndirect = true ∧ (superKey? a).isSome = true)
    ⟨.read, false⟩ n

section Acts

variable {known : List String} {c : SuperContext} {parent : String}

lemma cases_of_isParentObject (h : isParentObject isStatic parent o = true) :
    o.tag = .ident parent ∨ isStatic = false ∧ ∃ s o₁ ks, o = mk s .member (o₁ :: ks) ∧ o₁.tag = .ident parent := by
  unfold isParentObject at h
  split at h
  · exact .inl (congrArg Tag.ident (beq_iff_eq.mp h))
  · rename_i s s₁ x ks₁ s₂ k ks₂
    simp only [Bool.and_eq_true, Bool.not_eq_true', beq_iff_eq] at h
    exact .inr ⟨h.1.1, s, _, _, rfl, congrArg Tag.ident h.1.2⟩
  · cases h

lemma mem_names_of_isParentObject (h : isParentObject isStatic parent o = true) : parent ∈ o.names := by
  rcases cases_of_isParentObject h with ht | ⟨-, s, o₁, ks, rfl, ht⟩
  · exact mem_names_of_within .refl (ht ▸ mem_singleton.mpr rfl)
  · exact mem_names_of_within (Within.first .refl) (ht ▸ mem_singleton.mpr rfl)

lemma eq_of_actsOnParent (h : actsOnParent isStatic parent m a = true) :
    m.usage ≠ .read ∧ ∃ s o key, a = mk s .member [o, key] ∧ isParentObject isStatic parent o = true ∧
      ¬(m.usage = .callee ∧ o.tag = .ident parent ∧ isCallKey key.tag = true) := by
  unfold actsOnParent at h
  split at h
  · rename_i s o key
    simp only [Bool.and_eq_true, bne_iff_ne, Bool.not_eq_true', Bool.and_eq_false_imp, beq_iff_eq] at h
    refine ⟨h.1.1, s, o, key, rfl, h.1.2, fun hcall => ?_⟩
    rw [h.2 ⟨hcall.1, hcall.2.1⟩] at hcall
    cases hcall.2.2
  · cases h

/-- What `super` stands for is the parent or its prototype. -/
lemma actsOnParent_home (hc : c.parent = ident parent) (hr : m.usage ≠ .read) (hd : m.usage.isDirect = false)
    (key : Node) : actsOnParent c.isStatic parent m (c.home key) = true := by
  have hcallee : m.usage ≠ .callee := by
    intro h
    rw [h] at hd
    cases hd
  have hobject : isParentObject c.isStatic parent
      (if c.isStatic then c.parent else member c.parent "prototype") = true := by
    cases hs : c.isStatic with
    | false =>
      rw [if_neg (by simp), hc, member, if_pos (show isPlainName "prototype" = true from rfl)]
      simp [isParentObject, access, ident, make]
    | true =>
      rw [if_pos rfl, hc]
      simp [isParentObject, ident, make]
  simp [home, access, make, actsOnParent, hobject, hr, hcallee]

lemma yields_acts (hc : c.parent = ident parent) :
    Yields c (fun m a => m.usage.isIndirect = true ∧ (superKey? a).isSome = true)
      (fun m a => actsOnParent c.isStatic parent m a = true) where
  tag {m a} h := by
    obtain ⟨key, hkey⟩ := Option.isSome_iff_exists.mp h.2
    obtain ⟨s, w, rfl⟩ := superKey?_eq_some_iff.mp hkey
    rfl
  call h := by cases h.2
  methodCall h := by cases h.1
  store h := by cases h.1
  read {m s w key} hd h := by
    refine finds_iff.mpr (.inl (actsOnParent_home hc ?_ hd _))
    intro hr
    rw [hr] at h
    cases h.1

lemma not_actsOnParent_call {f r : Node} {args : List Node} :
    ¬actsOnParent isStatic parent m (callOn f r args) = true := by
  intro h
  obtain ⟨-, s, o, key, heq, -⟩ := eq_of_actsOnParent h
  exact absurd (tag_callOn.symm.trans (congrArg tag heq)) (by simp)

lemma stems_acts (hc : c.parent = ident parent) (hrec : parent ∉ c.receiver.names) :
    Stems c parent (fun m a => m.usage.isIndirect = true ∧ (superKey? a).isSome = true)
      (fun m a => actsOnParent c.isStatic parent m a = true) where
  tag m a h := by
    obtain ⟨-, s, o, key, rfl, -⟩ := eq_of_actsOnParent h
    exact .inr rfl
  names h := by
    obtain ⟨-, s, o, key, rfl, ho, -⟩ := eq_of_actsOnParent h
    exact names_subset_of_within (Within.first .refl) (mem_names_of_isParentObject ho)
  call h := absurd h not_actsOnParent_call
  callee {m s w args x} hx h := by
    obtain ⟨-, s, o, key, heq, -, hcall⟩ := eq_of_actsOnParent h
    refine absurd ⟨rfl, ?_⟩ hcall
    have hplain : isPlainName x = true := by rcases hx with rfl | rfl <;> rfl
    rw [hc, member, if_pos hplain] at heq
    cases heq
    exact ⟨rfl, by simpa [isCallKey, make] using hx⟩
  methodCall := not_actsOnParent_call
  method {m key x} h := by
    obtain ⟨-, s, o, key', heq, ho, -⟩ := eq_of_actsOnParent h
    obtain rfl : o = c.home key := by
      unfold member at heq
      split at heq <;> cases heq <;> rfl
    rcases cases_of_isParentObject ho with ht | ⟨hs, s₁, o₁, ks, heq, ht⟩
    · cases ht
    · rw [home, if_neg (by simp [hs])] at heq
      cases heq
      cases ht
  value h := (eq_of_actsOnParent h).1 rfl
  proto h := (eq_of_actsOnParent h).1 rfl
  target {m key} h := by
    obtain ⟨-, s, o, key, heq, ho, -⟩ := eq_of_actsOnParent h
    cases heq
    exact hrec (mem_names_of_isParentObject ho)
  read {m s w key} hd h := by
    refine ⟨?_, rfl⟩
    have hr := (eq_of_actsOnParent h).1
    obtain ⟨usage, deferred⟩ := m
    cases usage with
    | read => exact absurd rfl hr
    | callee | target => cases hd
    | called | changed => rfl
  plain {m s t ks} h hu hnames hQ := by
    obtain ⟨-, s', o, key, heq, ho, -⟩ := eq_of_actsOnParent hQ
    obtain ⟨-, rfl, hks⟩ := Node.mk.inj heq
    cases ks with
    | nil => cases hks
    | cons k ks =>
      have hin : parent ∉ k.names := fun hmem => hnames (names_subset_of_within (Within.first .refl) hmem)
      have hk : c.lower k = o := (cons.inj hks).1
      rcases cases_of_isParentObject ho with ht | ⟨hs, s₁, o₁, ks₁, heq, ht⟩
      · exact tag_lower_ne_ident hrec hin (hk ▸ ht)
      · rw [(isStatic_of_lower hrec hin (hk.trans heq) ht).1] at hs
        cases hs

/-- Lowering the classes in the code of a member keeps how it uses the properties of `super`. -/
lemma usesIndirectly_lowers (hL : Lowers known n n') (h : n.WellFormed) : UsesIndirectly n' ↔ UsesIndirectly n := by
  constructor
  · rintro ⟨m, a', hr, hm, ha'⟩
    have htag : isFrame a'.tag = false := by
      obtain ⟨key, hkey⟩ := Option.isSome_iff_exists.mp ha'
      obtain ⟨s, w, rfl⟩ := superKey?_eq_some_iff.mp hkey
      rfl
    obtain ⟨a, haL, hr⟩ := reaches_of_lowers hr hL h htag
    exact ⟨m, a, hr, hm, haL.superKey? ▸ ha'⟩
  · rintro ⟨m, a, hr, hm, ha⟩
    obtain ⟨a', haL, hr'⟩ := reaches_lowers hr hL h
    exact ⟨m, a', hr', hm, haL.superKey?.trans ha⟩

/-- **The code that is written calls or changes a property of the parent** if the member uses one of `super`
in a way that is overlooked. -/
theorem actsOnParent_of_usesIndirectly (hc : c.parent = ident parent) (hL : Lowers known n n') (h : n.WellFormed)
    (hf : UsesIndirectly n) : ActsOnParent c.isStatic parent (c.lower n') :=
  (yields_acts hc).finds_lower (hL.wellFormed h) (hL.not_isLowered h) (.inl rfl)
    ((usesIndirectly_lowers hL h).mpr hf)

/-- **It does so in no other case**, if nothing else names the parent. -/
theorem usesIndirectly_of_actsOnParent (hc : c.parent = ident parent) (hrec : parent ∉ c.receiver.names)
    (hL : Lowers known n n') (h : n.WellFormed) (hn : parent ∉ n'.names)
    (hf : ActsOnParent c.isStatic parent (c.lower n')) : UsesIndirectly n :=
  (usesIndirectly_lowers hL h).mp ((stems_acts hc hrec).finds_of_lower hc hrec (hL.wellFormed h)
    (hL.not_isLowered h) hn (.inl rfl) hf)

end Acts

/-! ## Scripts -/

lemma parent_contextOf (name : String) (parent m : Node) : (contextOf name parent m).parent = parent := by
  obtain ⟨s, t, ks⟩ := m
  cases t with
  | field isStatic => cases isStatic <;> rfl
  | _ => rfl

lemma names_receiver_contextOf {name x : String} (hx : x ≠ name) (parent m : Node) :
    x ∉ (contextOf name parent m).receiver.names := by
  obtain ⟨s, t, ks⟩ := m
  cases t with
  | field isStatic =>
    cases isStatic with
    | false => exact not_mem_nil
    | true =>
      rw [show (contextOf name parent (mk s (.field true) ks)).receiver = ident name from rfl, ident, make, names_mk]
      simpa [Tag.names] using hx
  | _ => exact not_mem_nil

/-- **When the properties of `super` keep the receiver.** The code of a member of a class that is lowered is
rewritten so that each property of `super` that is called or assigned to directly is called with the
receiver, or assigned to on it, and any other one is a property of the parent that is used in the same way.
So the parent is called on or changed exactly if a property of `super` is called or changed indirectly: in
parentheses, in an optional call, in a template, by `++`, `--` or `delete`, in a pattern or in the head of a
loop. -/
theorem super_property_receiver_iff {s : Script} (h : s.WellFormed) {d cls : Node} {own : Option String}
    (hd : s.Contains d) (hdef : Defines cls own d) (hl : isLowerable cls = true) {m part : Node}
    (hm : m ∈ membersOf cls) (hpart : part ∈ bodyOf m) :
    ∃ (name : String) (parent? : Option String) (code : Node),
      (own = some name ∨ own = none ∧ name ∉ vocabulary s) ∧
      parent?.isSome = (heritage? cls).isSome ∧ (∀ y ∈ parent?, y ∉ vocabulary s) ∧
      (lowerScript s).1.Contains code ∧
      Rewritten (vocabulary s) (contextOf name (parentIdent parent?) m) part code ∧
      (∀ use n key, Reaches ownParts use n ⟨.read, false⟩ part → superKey? n = some key →
        ∃ key', Lowers (vocabulary s) key key' ∧ Finds ownParts
          (WrittenFor (contextOf name (parentIdent parent?) m) use key') ⟨.read, false⟩ code) ∧
      (UsesIndirectly part →
        ActsOnParent (contextOf name (parentIdent parent?) m).isStatic (parent?.getD "Object") code) ∧
      (parent?.isSome = true →
        ActsOnParent (contextOf name (parentIdent parent?) m).isStatic (parent?.getD "Object") code →
        UsesIndirectly part) := by
  have hcls : cls.Is .cls := by
    obtain ⟨k, hk, hin⟩ := hd
    exact hdef.is ((h k hk).1.within hin)
  obtain ⟨name, parent?, cls', args, hM, -, hin⟩ := exists_made h hd hdef hl
  obtain ⟨sm, hw, hw', hms⟩ := hM.members hcls hl
  obtain ⟨m', hm', hmL⟩ := exists_mem_of_forall₂ hms hm
  obtain ⟨part', hpart', hL⟩ := exists_mem_of_forall₂ hmL.forall₂_bodyOf hpart
  have hpw : part.WellFormed := (hw.kid hm).within (within_of_mem_bodyOf hpart)
  have hparent := parent_contextOf name (parentIdent parent?) m
  refine ⟨name, parent?, _, hM.own.imp_right fun ho => ⟨ho.1, ho.2.1⟩, hM.derived, hM.parent, ?_,
    ⟨part', hL, rfl⟩, fun use n key hr hkey => finds_writtenFor hL hpw hr hkey,
    actsOnParent_of_usesIndirectly hparent hL hpw, fun hsome hacts => ?_⟩
  · have hshapes : ∀ x ∈ membersOf cls', MemberShape x :=
      forall_of_forall₂ hms fun _ _ hx => hx.shape'
    have hmaker : ((contextOf name (parentIdent parent?) m').lower part').Within
        (maker name parent? (membersOf cls')) := lower_within_maker hw' hshapes hm' hpart'
    obtain ⟨k, hk, hcall⟩ := hin
    rw [hmL.contextOf_eq] at hmaker
    exact ⟨k, hk, (Within.first (Within.first (Within.first hmaker))).trans hcall⟩
  · obtain ⟨parent, rfl⟩ := Option.isSome_iff_exists.mp hsome
    have hn : parent ∉ part'.names := fun hmem => hM.parent_notMem hcls m' hm'
      (names_subset_of_within (within_of_mem_bodyOf hpart') hmem)
    exact usesIndirectly_of_actsOnParent hparent (names_receiver_contextOf (hM.apart parent rfl).1 _ _) hL hpw
      hn hacts

/-- `class B extends A { m(a) { … } }`. -/
def withMethod (stmts : List Node) : Node := make .cls [make .members [
  make (.method .method false) [make (.keyName "m") [],
    func [binding "a"] stmts]], ident "A"]

/-- `super.x`. -/
def superProperty (x : String) : Node := make (.superMember .none) [make (.keyName x) []]

/-- A method that calls `super.x(a)` and `(super.x)(a)`. -/
theorem super_property_receiver_iff_bothCalls :
    let stmts := [exprStmt (call (superProperty "x") [ident "a"]),
      exprStmt (call (paren (superProperty "x")) [ident "a"])]
    let s : Script := { body := [make (.classDecl ⟨"B", .none⟩) [withMethod stmts]] }
    s.WellFormed ∧ ∃ (parent : String) (code : Node), parent ∉ vocabulary s ∧
      (lowerScript s).1.Contains code ∧
      Rewritten (vocabulary s) (instanceContext (ident parent)) (block stmts) code ∧
      Finds ownParts (WrittenFor (instanceContext (ident parent)) ⟨.callee, false⟩
        (make (.keyName "x") [])) ⟨.read, false⟩ code ∧
      ActsOnParent false parent code := by
  intro stmts s
  have hw : s.WellFormed := by decide
  obtain ⟨name, parent?, code, -, hsome, hfresh, hin, hcode, huses, hacts, -⟩ :=
    super_property_receiver_iff hw (d := make (.classDecl ⟨"B", .none⟩) [withMethod stmts])
      ⟨_, mem_singleton.mpr rfl, .refl⟩ .decl (by decide) (mem_singleton.mpr rfl)
      (show block stmts ∈ _ from mem_cons_of_mem _ (mem_singleton.mpr rfl))
  obtain ⟨parent, rfl⟩ := Option.isSome_iff_exists.mp (hsome.trans rfl)
  have hcall : Reaches ownParts ⟨.callee, false⟩ (superProperty "x") ⟨.read, false⟩ (block stmts) :=
    reaches_kid (i := 0) rfl rfl rfl rfl (reaches_kid (i := 0) rfl rfl rfl rfl
      (.step ((mem_ownParts_iff rfl).mpr ⟨0, rfl, rfl⟩) .here))
  obtain ⟨key, hkey, hwritten⟩ := huses _ _ _ hcall rfl
  rw [hkey.eq_self (by decide) (by decide)] at hwritten
  exact ⟨hw, parent, code, hfresh parent rfl, hin, hcode, hwritten, hacts (finds_of_search (d := 6) (by decide))⟩

/-- **The parent is called on and changed**: `(super.x)(a)` becomes `(_super.prototype.x)(a)`, and `super.x++`
becomes `_super.prototype.x++`. -/
theorem parent_called_and_changed :
    let stmts := [exprStmt (call (paren (superProperty "x")) [ident "a"]),
      exprStmt (make (.update .increment false) [superProperty "x"])]
    let s : Script := { body := [make (.classDecl ⟨"B", .none⟩) [withMethod stmts]] }
    let property := member (member (ident "_super") "prototype") "x"
    let stmts' := [exprStmt (call (paren property) [ident "a"]),
      exprStmt (make (.update .increment false) [property])]
    s.WellFormed ∧ (lowerScript s).1.Contains (func [binding "a"] stmts') ∧
      ∀ st ∈ stmts', ActsOnParent false "_super" st := by
  intro stmts s property stmts'
  refine ⟨by decide, ⟨_, mem_cons_self .., within_of_at? (p := [0, 1, 0, 0, 0, 1, 4, 0, 1, 0]) rfl⟩, ?_⟩
  intro st hst
  rcases mem_cons.mp hst with rfl | hst
  · exact finds_of_search (d := 6) (by decide)
  · obtain rfl := mem_singleton.mp hst
    exact finds_of_search (d := 6) (by decide)

end EcmaLower.Class
