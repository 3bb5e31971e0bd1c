import EcmaLower.Proofs.ClassPass

/-!
# `super` and `this` in members

In the code of a member of a class that is lowered, `super` is rewritten, and in the initializer of a
static field `this` is rewritten as well. The rewriting does not reach all the code that belongs to a
member: it stops at accessors and at nested classes although their computed keys belong to the member,
and it does not look into the key of a method that is called on `super`.

This module follows each word of the source through the lowering of classes. A walk hands down the
*place* of a node, that is, what is rewritten there, and a word is left over iff the walk comes to it
at a place where it is not rewritten.
-/

namespace EcmaLower.Class

open Node Build SuperContext List

variable {m : Place} {s : Span} {ks : List Node} {n' n : Node} {t : Tag} {w : Word} {f : Node → Node}

/-! ## What becomes of a tree -/

/-- `Becomes n n'`: the traversal makes `n'` of `n`, from some state. -/
def Becomes (n n' : Node) : Prop := ∃ w, (lower n w).1 = n'

lemma becomes_mapM (ks : List Node) (w : Walk) : Forall₂ Becomes ks ((ks.mapM lower) w).1 := by
  obtain ⟨-, c, -, hE⟩ := each_mapM (R := fun k k' _ => Becomes k k') (fun _ => True) (fun _ => 0)
    lower ks (fun k _ w _ => ⟨trivial, 0, rfl, w, rfl⟩) w trivial
  exact hE.forall₂ fun _ _ _ _ h => h

lemma Becomes.ruled (h : Becomes (.mk s t ks) n') : ∃ ks' d, Forall₂ Becomes ks ks' ∧ Ruled (.mk s t ks') n' d := by
  obtain ⟨w, rfl⟩ := h
  obtain ⟨d, -, hR⟩ := rule_spec (.mk s t ((ks.mapM lower) w).1) ((ks.mapM lower) w).2
  rw [lower_mk]
  exact ⟨_, d, becomes_mapM ks w, hR⟩

/-- Whether a node defines a class. -/
def definesClass : Tag → Bool
  | .classDecl _ | .classExpr _ => true
  | _ => false

/-- A node that defines no class keeps its tag. -/
lemma Becomes.parts (h : Becomes (.mk s t ks) n') (ht : definesClass t = false) :
    ∃ ks', n' = .mk s t ks' ∧ Forall₂ Becomes ks ks' := by
  obtain ⟨ks', d, hks, hR⟩ := h.ruled
  cases hR with
  | keep => exact ⟨ks', rfl, hks⟩
  | decl | expr => cases ht

lemma Becomes.kept {n n' : Node} (h : Becomes n n') (hn : n.WellFormed) : Kept n n' := by
  obtain ⟨w, rfl⟩ := h
  obtain ⟨c, -, hk⟩ := lower_rel (R := fun n n' _ => n.WellFormed → Kept n n')
    (fun _ _ _ _ _ _ _ hE hR h => kept_step hE hR h) n w
  exact hk hn

/-- A property of `super` stays one. -/
lemma Becomes.superKey (h : Becomes n n') : (∃ key key', superKey? n = some key ∧ superKey? n' = some key' ∧
      Becomes key key') ∨ (superKey? n = none ∧ superKey? n' = none) := by
  obtain ⟨s, t, ks⟩ := n
  obtain ⟨ks', d, hks, hR⟩ := h.ruled
  cases hR with
  | decl | expr => exact .inr ⟨rfl, rfl⟩
  | keep =>
    cases t with
    | superMember w =>
      match ks, hks with
      | [], .nil => exact .inr ⟨rfl, rfl⟩
      | [key], .cons hk .nil => exact .inl ⟨key, _, rfl, rfl, hk⟩
      | _ :: _ :: _, .cons _ (.cons _ _) => exact .inr ⟨rfl, rfl⟩
    | _ => exact .inr ⟨rfl, rfl⟩

/-! ## Words and places -/

/-- A word of the source whose meaning depends on the member around it, by where it stands. -/
inductive Word
  | super (word : Span)
  | this (word : Span)
deriving DecidableEq, Repr

/-- Whether a node is the word, as far as its root goes. -/
def Word.isAt : Word → Node → Bool
  | super w, n => n.tag == .superMember w || n.tag == .superCall w
  | this w, n => n.tag == .this && n.span == w

/-- What is rewritten at a node. -/
inductive Place
  /-- Nothing. -/
  | outside
  /-- `super`: the node belongs to the code of a member. -/
  | member
  /-- `super` and `this`: the node belongs to the initializer of a static field. -/
  | initializer
deriving DecidableEq, Repr

/-- Whether a tag is rewritten at a place. -/
def Place.rewrites : Place → Tag → Bool
  | outside, _ => false
  | member, t => t.isSuper
  | initializer, t => t.isSuper || t == .this

/-- The code of a member, with its places. The keys of methods and of static fields are evaluated
outside, the key of another field is evaluated in the constructor. -/
def memberParts : Node → List (Place × Node)
  | .mk _ .ctor [_, params, .mk _ _ stmts] => (params :: stmts).map (.member, ·)
  | .mk _ (.method ..) [key, .mk _ _ parts] => (.outside, key) :: parts.map (.member, ·)
  | .mk _ (.field false) ks => ks.map (.member, ·)
  | .mk _ (.field true) (key :: value) => (.outside, key) :: value.map (.initializer, ·)
  | _ => []

/-- The nodes below a node that defines no class, with their places. -/
def partsBelow (m : Place) (t : Tag) (ks : List Node) : List (Place × Node) :=
  match m, t, ks with
  | .outside, _, _ | _, .func .., _ | _, .getter, _ | _, .setter, _ | _, .cls, _ =>
    ks.map (.outside, ·)
  | m, .call, callee :: args =>
    match superKey? callee with
    | some key => (.outside, key) :: args.map (m, ·)
    | none => (callee :: args).map (m, ·)
  | m, _, _ => ks.map (m, ·)

/-- The nodes below a node, with their places. The heritage of a class that is lowered is evaluated
where the class is defined; a class that is kept is not looked into. -/
def below (m : Place) : Node → List (Place × Node)
  | .mk _ (.classDecl _) [cls] | .mk _ (.classExpr _) [cls] =>
    if isLowerable cls then (membersOf cls).flatMap memberParts ++ cls.kids.tail.map (m, ·)
    else [(.outside, cls)]
  | .mk _ t ks => partsBelow m t ks

/-- The nodes below the definition of a class, with their places. -/
def partsOfClass (m : Place) (cls : Node) : List (Place × Node) :=
  if isLowerable cls then (membersOf cls).flatMap memberParts ++ cls.kids.tail.map (m, ·)
  else [(.outside, cls)]

lemma below_eq (h : definesClass t = false) : below m (.mk s t ks) = partsBelow m t ks := by
  cases t <;> first | rfl | cases h

/-- The word is at a node, and is not rewritten there. -/
def Word.Stays (w : Word) (m : Place) (n : Node) : Prop := w.isAt n = true ∧ m.rewrites n.tag = false

instance (w : Word) (m : Place) (n : Node) : Decidable (w.Stays m n) := inferInstanceAs (Decidable (_ ∧ _))

lemma Word.isAt_cases (h : w.isAt n = true) : n.tag.isSuper = true ∨ n.tag = .this := by
  cases w with
  | super w =>
    simp only [isAt, Bool.or_eq_true, beq_iff_eq] at h
    rcases h with h | h
    · exact .inl (by rw [h]; rfl)
    · exact .inl (by rw [h]; rfl)
  | this w =>
    simp only [isAt, Bool.and_eq_true, beq_iff_eq] at h
    exact .inr h.1

lemma Word.isAt_eq_false (ht : Place.initializer.rewrites t = false) : w.isAt (.mk s t ks) = false := by
  rw [Place.rewrites, Bool.or_eq_false_iff, beq_eq_false_iff_ne] at ht
  refine eq_false_of_ne_true fun h => ?_
  rcases isAt_cases h with h | h
  · exact absurd (ht.1.symm.trans h) nofun
  · exact ht.2 h

lemma Word.ignoresKids (w : Word) : IgnoresKids w.isAt := by
  intro s t ks ks'
  cases w <;> rfl

/-- A word that stands in the source is in no generated code. -/
lemma Word.foreign (h : w ≠ .this .none) : Foreign w.isAt where
  core s t ks ht := isAt_eq_false (by cases t <;> first | rfl | cases ht)
  this := by
    cases w with
    | super w => rfl
    | this w =>
      refine eq_false_of_ne_true fun hw => h ?_
      simp only [isAt, Build.this, Build.make, span_mk, Bool.and_eq_true, beq_iff_eq] at hw
      rw [← hw.2]

/-- What rewriting does to the code at a place. -/
inductive Place.Runs : Place → (Node → Node) → Prop
  | outside : Runs .outside id
  | member (parent : String) (isStatic : Bool) :
    Runs .member (SuperContext.lower { parent := ident parent, isStatic })
  | initializer (name parent : String) : Runs .initializer (staticContext name (ident parent)).lower

/-- A walk that goes on with the nodes of a list. -/
lemma finds_map : (∃ x ∈ ks.map (m, ·), Finds below w.Stays x.1 x.2) ↔ ∃ k ∈ ks, Finds below w.Stays m k := by
  simp

/-! ## The code of members -/

section Words

variable {w : Word} (hw : w ≠ .this .none)

/-- What is left of a word in the code at a place is what the walk finds there. -/
def Traced (w : Word) (n : Node) : Prop := ∀ n', Becomes n n' → n.WellFormed →
  ∀ m f, Place.Runs m f → ((f n').any w.isAt = true ↔ Finds below w.Stays m n)

include hw in
/-- A key behind an object is rewritten as the key of a member is. -/
lemma any_lower_keyAsMember {k : Node} (hk : k.OfRole Role.isPublicKey) (c : SuperContext) :
    (c.lower (keyAsMember k)).any w.isAt = (c.lower k).any w.isAt := by
  have := Word.foreign hw
  cases keyShape hk with
  | name | computed => rfl
  | str | num | bigInt =>
    rw [keyAsMember, lower_computedKey, lower_leaf rfl, any_computedKey, any_core rfl, lower_leaf rfl, any_core rfl]

include hw in
/-- The statement that initializes a field is rewritten in its key and its value. -/
lemma any_lower_initField {m : Node} (hk : (fieldParts m).1.OfRole Role.isPublicKey) (parent : String) :
    ((instanceContext (ident parent)).lower (initField this m)).any w.isAt =
      (((instanceContext (ident parent)).lower (fieldParts m).1).any w.isAt ||
        ((instanceContext (ident parent)).lower (fieldParts m).2).any w.isAt) := by
  have := Word.foreign hw
  rw [lower_initField]
  simp [any_lower_keyAsMember hw hk]

include hw in
/-- **The code of a member** holds what the walk finds in its parts. -/
lemma codeAny_iff {m m' : Node} (hm : MemberShape m) (hb : Becomes m m') (hwf : m.WellFormed)
    (ih : ∀ d, d.Within m → Traced w d) (name parent : String) :
    codeAny w.isAt name (ident parent) m' = true ↔ ∃ x ∈ memberParts m, Finds below w.Stays x.1 x.2 := by
  have := Word.foreign hw
  have hf : ∀ s a g ks, w.isAt (.mk s (.func a g) ks) = false := fun _ _ _ _ => Word.isAt_eq_false rfl
  have hlist : ∀ {l l' : List Node} {q : Place} {f : Node → Node}, Forall₂ Becomes l l' →
      (∀ k ∈ l, k.Within m) → Place.Runs q f →
      ((l'.any fun k => (f k).any w.isAt) = true ↔ ∃ k ∈ l, Finds below w.Stays q k) := by
    intro l l' q f hl hin hrun
    rw [any_eq_true]
    exact exists_iff_of_forall₂ hl fun k hk k' hb =>
      ih k (hin k hk) k' hb (hwf.within (hin k hk)) q f hrun
  have hfield : ∀ {s : Span} {isStatic : Bool} {k k' : Node} {v v' : List Node},
      m = .mk s (.field isStatic) (k :: v) → m' = .mk s (.field isStatic) (k' :: v') →
      v.length ≤ 1 → k.OfRole Role.isPublicKey → Becomes k k' → Forall₂ Becomes v v' →
      (codeAny w.isAt name (ident parent) m' = true ↔ ∃ x ∈ memberParts m, Finds below w.Stays x.1 x.2) := by
    rintro s isStatic k k' v v' rfl rfl hlen hk hkb hvb
    have hk' : k'.OfRole Role.isPublicKey := (hkb.kept hk.1).is.ofRole hk.2
    have hparts : (fieldParts (.mk s (.field isStatic) (k' :: v'))).1 = k' ∧
        (∀ c : SuperContext, (c.lower (fieldParts (.mk s (.field isStatic) (k' :: v'))).2).any w.isAt =
          v'.any fun e => (c.lower e).any w.isAt) := by
      match v', hvb with
      | [], _ | [e], _ => exact ⟨rfl, fun c => by simp [fieldParts]⟩
      | _ :: _ :: _, .cons _ (.cons _ _) => simp at hlen
    cases isStatic with
    | false =>
      rw [codeAny, memberCode, any_cons, any_nil, Bool.or_false,
        any_lower_initField hw (hparts.1.symm ▸ hk'), hparts.1, hparts.2, memberParts,
        finds_map]
      exact hlist (q := .member) (.cons hkb hvb) (fun k hk => .kid hk .refl) (.member parent false)
    | true =>
      rw [codeAny, memberCode, any_cons, any_nil, Bool.or_false,
        any_defineStatic (hparts.1.symm ▸ hk'), hparts.1, hparts.2, Bool.or_eq_true,
        memberParts, exists_mem_cons_iff, finds_map]
      refine or_congr ?_ ?_
      · exact ih k (.kid (by simp) .refl) k' hkb hk.1 .outside id .outside
      · exact hlist hvb (fun k hk => .kid (by simp [hk]) .refl) (.initializer name parent)
  cases hm with
  | @ctor s sb k ps stmts hk hps hblock =>
    obtain ⟨_, rfl, _ | ⟨-, _ | ⟨hps', _ | ⟨hblock', _ | _⟩⟩⟩⟩ := hb.parts rfl
    obtain ⟨stmts', rfl, hstmts⟩ := hblock'.parts rfl
    rw [codeAny, memberCode, memberParts, finds_map, any_map]
    refine hlist (q := .member) (.cons hps' hstmts) (fun n hn => ?_) (.member parent false)
    rcases mem_cons.mp hn with rfl | hn
    · exact .kid (by simp) .refl
    · exact .kid (k := .mk sb .block stmts) (by simp) (.kid hn .refl)
  | @method s sf kind isStatic a g k ps b hk hps hbody =>
    obtain ⟨_, rfl, _ | ⟨hk', _ | ⟨hfun, _ | _⟩⟩⟩ := hb.parts rfl
    obtain ⟨parts', rfl, hparts⟩ := hfun.parts rfl
    rw [codeAny, memberCode, any_cons, any_nil, Bool.or_false,
      any_defineMethod hf ((hk'.kept hk.1).is.ofRole hk.2), memberParts, exists_mem_cons_iff,
      finds_map, Bool.or_eq_true]
    refine or_congr ?_ ?_
    · exact ih k (.kid (by simp) .refl) _ hk' hk.1 .outside id .outside
    · refine hlist hparts (fun n hn => ?_) (.member parent isStatic)
      exact .kid (k := .mk sf (.func a g) [ps, b]) (by simp) (.kid hn .refl)
  | field hk | fieldInit hk hv =>
    obtain ⟨_, rfl, _ | ⟨hk', hks⟩⟩ := hb.parts rfl
    exact hfield rfl rfl (by simp) hk hk' hks
  | empty =>
    obtain ⟨_, rfl, -⟩ := hb.parts rfl
    simp [codeAny, memberCode, memberParts]

/-! ## Class definitions -/

/-- In the call that builds a class only the heritage belongs to the code around it. -/
lemma lower_call_maker (c : SuperContext) (name : String) (parent? : Option String) (ms args : List Node) :
    c.lower (call (paren (funcExpr (maker name parent? ms))) args) =
      call (paren (funcExpr (maker name parent? ms))) (args.map c.lower) := by
  rw [lower_eq]
  exact congrArg (fun f => call f (args.map c.lower)) (lower_maker c name parent? ms)

include hw in
/-- What is left of a word in the call that builds a class, at any place. -/
lemma any_run_build (hrun : Place.Runs m f) {sm : Span} {ms hs : List Node}
    (h : (mk s .cls (mk sm .members ms :: hs)).Is .cls)
    (hl : isLowerable (mk s .cls (mk sm .members ms :: hs)) = true) (name : String)
    (parent? : Option String) :
    (f (build name parent? (mk s .cls (mk sm .members ms :: hs)))).any w.isAt =
      (ms.any (codeAny w.isAt name (ident (parent?.getD "Object"))) ||
        hs.any fun e => (f e).any w.isAt) := by
  have := Word.foreign hw
  have hf : ∀ s a g ks, w.isAt (.mk s (.func a g) ks) = false := fun _ _ _ _ => Word.isAt_eq_false rfl
  obtain ⟨_, _, _, _, he, hm, -, hlen⟩ := cls_shape h
  cases he
  have hheritage : hs.head?.toList = hs := by
    match hs, hlen with
    | [], _ | [e], _ => rfl
  have hbuild : ∀ s sm hs, build name parent? (.mk s .cls (.mk sm .members ms :: hs)) =
      call (paren (funcExpr (maker name parent? ms))) hs.head?.toList :=
    fun _ _ _ => rfl
  -- Without the heritage, the class has the same members and the same function.
  have hfunc := any_build hf (is_of_roles (s := s) (.cons hm .nil) rfl rfl) hl name parent?
  rw [hbuild, any_call] at hfunc
  simp only [head?_nil, Option.toList_none, any_nil, Bool.or_false] at hfunc
  rw [hbuild, hheritage, ← hfunc]
  cases hrun with
  | outside => exact any_call
  | member parent isStatic | initializer name parent => rw [lower_call_maker, any_call, any_map]; rfl

include hw in
/-- What is left of a word where a class is defined. -/
lemma any_run_def (hrun : Place.Runs m f) {cls : Node} (hn : (mk s t [cls]).WellFormed)
    (ht : (∃ i, t = .classDecl i) ∨ ∃ i?, t = .classExpr i?) (hb : Becomes (.mk s t [cls]) n')
    (ih : ∀ d, d.Within cls → Traced w d) :
    (f n').any w.isAt = true ↔ Finds below w.Stays m (.mk s t [cls]) := by
  have := Word.foreign hw
  have hcls : cls.Is .cls := cls_of_def hn ht
  have hat : ∀ ks, w.isAt (.mk s t ks) = false := by
    rcases ht with ⟨i, rfl⟩ | ⟨i?, rfl⟩ <;> exact fun _ => Word.isAt_eq_false rfl
  have hbelow : below m (.mk s t [cls]) = partsOfClass m cls := by
    rcases ht with ⟨i, rfl⟩ | ⟨i?, rfl⟩ <;> rfl
  rw [finds_iff_of_not fun h => Bool.false_ne_true ((hat _).symm.trans h.1), hbelow, partsOfClass]
  obtain ⟨_, d, hks, hR⟩ := hb.ruled
  obtain ⟨cls', _, hcb, _ | _, rfl⟩ := forall₂_cons_left_iff.mp hks
  have hkept := hcb.kept hcls.1
  have hcls' : cls'.Is .cls := hcls.2 ▸ hkept.is
  have hsame : isLowerable cls' = isLowerable cls := hkept.cls hcls.2
  -- A class that is lowered: its members and its heritage, one by one.
  have hbuild : isLowerable cls = true → ∀ name parent?, ((f (build name parent? cls')).any w.isAt = true ↔
        ∃ x ∈ (membersOf cls).flatMap memberParts ++ cls.kids.tail.map (m, ·), Finds below w.Stays x.1 x.2) := by
    intro hl name parent?
    obtain ⟨s, sm, ms, hs, rfl, hm, hhs, -⟩ := cls_shape hcls
    obtain ⟨_, rfl, _ | ⟨hms, htail⟩⟩ := hcb.parts rfl
    obtain ⟨ms', rfl, hmembers⟩ := hms.parts rfl
    rw [any_run_build hw hrun hcls' (hsame.trans hl), Bool.or_eq_true, any_eq_true, any_eq_true]
    simp only [mem_append, or_and_right, exists_or]
    refine or_congr ?_ ?_
    · have hmember := exists_iff_of_forall₂ hmembers (fun k hk k' hb => codeAny_iff hw
        (memberShapes hcls hl k hk) hb (hm.1.kid hk)
        (fun d hd => ih d (.kid (k := .mk sm .members ms) (by simp) (.kid hk hd)))
        name (parent?.getD "Object"))
      rw [hmember]
      simp only [membersOf, kids_mk, head?_cons, Option.map_some, Option.getD_some, mem_flatMap]
      constructor
      · rintro ⟨k, hk, x, hx, hfinds⟩
        exact ⟨x, ⟨k, hk, hx⟩, hfinds⟩
      · rintro ⟨x, ⟨k, hk, hx⟩, hfinds⟩
        exact ⟨k, hk, x, hx, hfinds⟩
    · rw [kids_mk, tail_cons, finds_map]
      exact exists_iff_of_forall₂ htail fun k hk k' hb =>
        ih k (.kid (by simp [hk]) .refl) k' hb (hhs k hk).1 m f hrun
  have hvar : ∀ x e, (f (var [declarator (binding x) (some e)])).any w.isAt = (f e).any w.isAt := by
    intro x e
    cases hrun <;> simp
  cases hR with
  | keep hno =>
    -- A class that is kept is not looked into.
    have hlower : ∀ c : SuperContext, c.lower (.mk s t [cls']) = .mk s t [cls'] := by
      intro c
      have huse : SuperContext.use (.mk s t [cls']) = .plain := by
        rcases ht with ⟨i, rfl⟩ | ⟨i?, rfl⟩ <;> rfl
      rw [lower_plain huse, map_singleton, lower_cls hcls'.2]
    have hkeep : (f (.mk s t [cls'])).any w.isAt = cls'.any w.isAt := by
      cases hrun <;> simp [hlower, hat]
    have hno' : isLowerable cls = false := by
      rcases ht with ⟨i, rfl⟩ | ⟨i?, rfl⟩ <;> exact hsame.symm.trans hno
    rw [hkeep, if_neg (by simp [hno'])]
    simpa using ih cls .refl cls' hcb hcls.1 .outside id .outside
  | decl hl => rw [hvar, if_pos (hsame ▸ hl), hbuild (hsame ▸ hl)]
  | expr hl => rw [if_pos (hsame ▸ hl), hbuild (hsame ▸ hl)]

/-! ## Other nodes -/

/-- Which nodes are looked into where something is rewritten. -/
lemma partsBelow_of_ne (hm : m ≠ .outside) (t : Tag) (ks : List Node) : partsBelow m t ks = match t, ks with
    | .func .., _ | .getter, _ | .setter, _ | .cls, _ => ks.map (.outside, ·)
    | .call, callee :: args =>
      match superKey? callee with
      | some key => (.outside, key) :: args.map (m, ·)
      | none => (callee :: args).map (m, ·)
    | _, _ => ks.map (m, ·) := by
  cases m with
  | outside => exact absurd rfl hm
  | member | initializer => cases t <;> first | rfl | (cases ks <;> rfl)

lemma not_stays_of_isSuper (hm : m ≠ .outside) (hs : n.tag.isSuper = true) : ¬w.Stays m n := by
  rintro ⟨-, hr⟩
  cases m with
  | outside => exact hm rfl
  | member | initializer =>
    rw [Place.rewrites, hs] at hr
    cases hr

lemma not_stays (ht : Place.initializer.rewrites t = false) : ¬w.Stays m (.mk s t ks) :=
  fun h => Bool.false_ne_true ((Word.isAt_eq_false ht).symm.trans h.1)

section Context

variable {c : SuperContext} {m : Place} (hm : m ≠ .outside) (hrun : Place.Runs m c.lower)
  {s : Span} {t : Tag} {ks ks' : List Node} (hwf : (mk s t ks).WellFormed)
  (hks : Forall₂ Becomes ks ks') (ih : ∀ k ∈ ks, ∀ d, d.Within k → Traced w d)

include hwf hks ih in
/-- The children of a node at one place. -/
lemma finds_kids (hrun : Place.Runs m f) : (∃ k ∈ ks', (f k).any w.isAt = true) ↔ ∃ k ∈ ks, Finds below w.Stays m k :=
  exists_iff_of_forall₂ hks fun k hk k' hb => ih k hk k .refl k' hb (hwf.kid hk) m f hrun

include hw hm hrun hwf hks ih in
/-- A call is rewritten if a method is called on `super`; the key of the method is left as it is. -/
lemma any_lower_call (ht : t = .call) (hp : c.parent.any w.isAt = false)
    (hr : c.receiver.any w.isAt = false) : (c.lower (.mk s t ks')).any w.isAt = true ↔
      ∃ x ∈ partsBelow m t ks, Finds below w.Stays x.1 x.2 := by
  have := Word.foreign hw
  subst ht
  have hkids := finds_kids hwf hks ih hrun
  rw [partsBelow_of_ne hm]
  cases hks with
  | nil => exact absurd hwf.fits (by simp [Tag.fits])
  | @cons callee callee' args args' hcallee hargs =>
    obtain ⟨key, key', hkey, hkey', hb⟩ | ⟨hnone, hnone'⟩ := hcallee.superKey
    · obtain ⟨sc, wc, rfl⟩ := superKey?_eq_some_iff.mp hkey
      have hlower : c.lower (.mk s .call (callee' :: args')) =
          callOn (c.home key') c.receiver (args'.map c.lower) := by
        rw [lower_eq]
        simp only [use, hkey']
      have hin : key.Within (.mk sc (.superMember wc) [key]) := .kid (by simp) .refl
      have hkeyWf : key.WellFormed := (hwf.kid (by simp)).within hin
      have hargsIff := exists_iff_of_forall₂ hargs fun k hk k' hb =>
        ih k (by simp [hk]) k .refl k' hb (hwf.kid (by simp [hk])) m _ hrun
      simp only [hlower, any_callOn, any_home hp, hr, Bool.false_or,
        Bool.or_eq_true, hkey, exists_mem_cons_iff, any_map, any_eq_true, finds_map]
      refine or_congr ?_ hargsIff
      exact ih _ (by simp) key hin key' hb hkeyWf .outside id .outside
    · have huse : use (.mk s .call (callee' :: args')) = .plain := by simp only [use, hnone']
      rw [lower_plain huse, any_core rfl, any_map, any_eq_true]
      simp only [hnone, finds_map]
      exact hkids

include hw hm hrun hwf hks ih in
/-- An assignment is rewritten if it stores to a property of `super`. -/
lemma any_lower_assign {op : AssignOp} (ht : t = .assign op) (hp : c.parent.any w.isAt = false)
    (hr : c.receiver.any w.isAt = false) : (c.lower (.mk s t ks')).any w.isAt = true ↔
      ∃ k ∈ ks, Finds below w.Stays m k := by
  have := Word.foreign hw
  subst ht
  have hkids := finds_kids hwf hks ih hrun
  obtain ⟨target, value, rfl, -⟩ := WellFormed.two (p := Role.isTarget) (q := (· == .expr)) (fun _ => rfl) hwf
  obtain ⟨target', _, htarget, hrest, rfl⟩ := forall₂_cons_left_iff.mp hks
  obtain ⟨value', _, hvalue, _ | _, rfl⟩ := forall₂_cons_left_iff.mp hrest
  obtain ⟨key, key', hkey, hkey', hb⟩ | ⟨hnone, hnone'⟩ := htarget.superKey
  · obtain ⟨sc, wc, rfl⟩ := superKey?_eq_some_iff.mp hkey
    have hlower : c.lower (.mk s (.assign op) [target', value']) = c.store op (c.lower key') (c.lower value') := by
      rw [lower_eq]
      simp only [use, hkey']
    have hin : key.Within (.mk sc (.superMember wc) [key]) := .kid (by simp) .refl
    have hkeyWf : key.WellFormed := (hwf.kid (by simp)).within hin
    have htargetFinds : Finds below w.Stays m (.mk sc (.superMember wc) [key]) ↔ Finds below w.Stays m key := by
      rw [finds_iff_of_not (not_stays_of_isSuper hm rfl)]
      change (∃ x ∈ partsBelow m (.superMember wc) [key], _) ↔ _
      rw [partsBelow_of_ne hm]
      simp
    rw [hlower, any_store hp hr, Bool.or_eq_true]
    simp only [mem_cons, not_mem_nil, or_false, exists_eq_or_imp, exists_eq_left, htargetFinds]
    exact or_congr (ih _ (by simp) key hin key' hb hkeyWf m _ hrun)
      (ih value (by simp) value .refl value' hvalue (hwf.kid (by simp)) m _ hrun)
  · have huse : use (.mk s (.assign op) [target', value']) = .plain := by simp only [use, hnone']
    rw [lower_plain huse, any_core rfl, any_map, any_eq_true]
    exact hkids

include hw hm hrun hwf hks ih in
/-- **What is left of a word where something is rewritten**, at a node that defines no class. -/
lemma any_lower_parts (hd : definesClass t = false) (hp : c.parent.any w.isAt = false)
    (hr : c.receiver.any w.isAt = false)
    (hthis : ∀ s, (c.lower (.mk s .this [])).any w.isAt = true ↔ w.Stays m (.mk s .this [])) :
    (c.lower (.mk s t ks')).any w.isAt = true ↔ Finds below w.Stays m (.mk s t ks) := by
  have := Word.foreign hw
  have hbelow : below m (.mk s t ks) = partsBelow m t ks := below_eq hd
  have hkids := finds_kids hwf hks ih hrun
  have houtside := finds_kids hwf hks ih .outside
  have hsuper : t.isSuper = true → (Finds below w.Stays m (.mk s t ks) ↔
      ∃ x ∈ partsBelow m t ks, Finds below w.Stays x.1 x.2) := by
    intro hs
    rw [finds_iff_of_not (not_stays_of_isSuper hm (n := .mk s t ks) hs), hbelow]
  have hother : Place.initializer.rewrites t = false → (Finds below w.Stays m (.mk s t ks) ↔
      ∃ x ∈ partsBelow m t ks, Finds below w.Stays x.1 x.2) := by
    intro ht
    rw [finds_iff_of_not (not_stays ht), hbelow]
  -- A node that is rebuilt around its children.
  have hplain : Place.initializer.rewrites t = false → use (.mk s t ks') = .plain →
      partsBelow m t ks = ks.map (m, ·) →
      ((c.lower (.mk s t ks')).any w.isAt = true ↔ Finds below w.Stays m (.mk s t ks)) := by
    intro ht hu hpb
    rw [hother ht, hpb, finds_map, ← hkids, lower_eq, hu]
    simp only [span_mk, tag_mk, kids_mk, any_mk, Word.isAt_eq_false ht, Bool.false_or,
      any_map, any_eq_true, Function.comp_apply]
  have hclosed : Place.initializer.rewrites t = false → use (.mk s t ks') = .closed →
      partsBelow m t ks = ks.map (.outside, ·) →
      ((c.lower (.mk s t ks')).any w.isAt = true ↔ Finds below w.Stays m (.mk s t ks)) := by
    intro ht hu hpb
    rw [hother ht, hpb, finds_map, ← houtside, lower_eq, hu]
    simp only [any_mk, Word.isAt_eq_false ht, Bool.false_or, any_eq_true, id_eq]
  cases t with
  | classDecl | classExpr => cases hd
  | func a g | getter | setter | cls => exact hclosed rfl rfl (partsBelow_of_ne hm _ _)
  | call =>
    rw [hother rfl]
    exact any_lower_call hw hm hrun hwf hks ih rfl hp hr
  | assign op =>
    rw [hother rfl, partsBelow_of_ne hm, finds_map]
    exact any_lower_assign hw hm hrun hwf hks ih rfl hp hr
  | this =>
    obtain rfl : ks = [] := hwf.leaf rfl
    cases hks
    rw [hthis, finds_iff, hbelow, partsBelow_of_ne hm]
    simp
  | superCall ws =>
    rw [hsuper rfl, partsBelow_of_ne hm, finds_map, ← hkids, lower_eq]
    simp only [use, any_callOn, hp, hr, Bool.false_or, any_map, any_eq_true, Function.comp_apply]
  | superMember ws =>
    obtain ⟨key, rfl, -⟩ := hwf.superMember
    obtain ⟨key', rest, -, hrest, rfl⟩ := forall₂_cons_left_iff.mp hks
    cases hrest
    rw [hsuper rfl, partsBelow_of_ne hm, finds_map, ← hkids, lower_eq]
    simp only [use, any_home hp, mem_singleton, exists_eq_left]
  | _ => exact hplain rfl rfl (partsBelow_of_ne hm _ _)

end Context

/-! ## Trees and scripts -/

include hw in
/-- A node that defines no class, at any place. -/
lemma any_run_parts (hrun : Place.Runs m f) (hwf : (mk s t ks).WellFormed)
    (hd : definesClass t = false) (hb : Becomes (.mk s t ks) n')
    (ih : ∀ k ∈ ks, ∀ d, d.Within k → Traced w d) :
    (f n').any w.isAt = true ↔ Finds below w.Stays m (.mk s t ks) := by
  have := Word.foreign hw
  obtain ⟨ks', rfl, hks⟩ := hb.parts hd
  cases hrun with
  | outside =>
    rw [finds_iff, below_eq hd, partsBelow, finds_map, ← finds_kids hwf hks ih .outside, id_eq, any_mk,
      Bool.or_eq_true, any_eq_true, w.ignoresKids s t ks' ks]
    simp [Word.Stays, Place.rewrites]
  | member parent isStatic =>
    refine any_lower_parts hw (by simp) (.member parent isStatic) hwf hks ih hd ?_ ?_ ?_
    · exact any_ident
    · exact any_this
    · intro s
      rw [SuperContext.lower_eq]
      simp [SuperContext.use, Word.Stays, Place.rewrites, Tag.isSuper]
  | initializer name parent =>
    refine any_lower_parts hw (by simp) (.initializer name parent) hwf hks ih hd ?_ ?_ ?_
    · exact any_ident
    · exact any_ident
    · intro s
      rw [SuperContext.lower_eq]
      simp [SuperContext.use, staticContext, Word.Stays, Place.rewrites]

include hw in
/-- **What is left of a word in a tree** is what the walk finds, at every place. -/
theorem any_isAt_iff (n : Node) : Traced w n := by
  induction n using induct_within with
  | h s t ks ih =>
    intro n' hb hwf m f hrun
    cases t with
    | classDecl i =>
      obtain ⟨cls, rfl, -⟩ := hwf.single rfl
      exact any_run_def hw hrun hwf (.inl ⟨i, rfl⟩) hb fun d hd => ih cls (by simp) d hd
    | classExpr i? =>
      obtain ⟨cls, rfl, -⟩ := hwf.single rfl
      exact any_run_def hw hrun hwf (.inr ⟨i?, rfl⟩) hb fun d hd => ih cls (by simp) d hd
    | _ => exact any_run_parts hw hrun hwf rfl hb ih

end Words

/-- A word of a script is *overlooked* if the walk comes to it at a place where it is not
rewritten. -/
def Overlooks (s : Script) (w : Word) : Prop := ∃ n ∈ s.body, Finds below w.Stays .outside n

/-- **What is left of a word in a script.** The lowering of classes leaves exactly the words that it
overlooks. -/
theorem any_isAt_lowerScript {s : Script} (h : s.WellFormed) (hw : w ≠ .this .none) :
    (lowerScript s).1.body.any (·.any w.isAt) = true ↔ Overlooks s w := by
  rw [any_eq_true]
  exact exists_iff_of_forall₂ (becomes_mapM s.body { names := .ofScript s }) fun n hn n' hb =>
    any_isAt_iff hw n n' hb (h n hn).1 .outside id .outside

end EcmaLower.Class
