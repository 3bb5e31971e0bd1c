import EcmaLower.Proofs.ClassPlaces

/-!
# The functions that make classes

Each class that can be lowered is made by a function, and that function stands in the lowered script,
wherever the class was defined: in the code of another member `super` is rewritten around it, and in the
class that it is nested in the members are taken apart, but the function itself is left as it is.

This module also says where the parts of a member stand in the function that makes its class.
-/

namespace EcmaLower

open Node List Build SuperContext

variable {op : AssignOp} {isStatic : Bool} {args ks : List Node} {kind : MethodKind} {k : Nat}
  {cls' d f m n n' parent part receiver st value x : Node} {own : Option String} {s : Span} {name : String} {t : Tag}

/-! ## Parts of what is rewritten -/

namespace Node

lemma Within.first {k : Node} (h : x.Within k) : x.Within (mk s t (k :: ks)) := .kid (mem_cons_self ..) h

lemma Within.second {k k' : Node} (h : x.Within k) :
    x.Within (mk s t (k' :: k :: ks)) := .kid (mem_cons_of_mem _ (mem_cons_self ..)) h

end Node

namespace SuperContext

variable {c : SuperContext} {x : Node}

lemma within_callOn_func (h : x.Within f) : x.Within (callOn f receiver args) := by
  have hmember : ∀ name, x.Within (member f name) := by
    intro name
    unfold member
    split
    · exact h.first
    · exact h.first
  unfold callOn
  split
  · exact (hmember "apply").first
  · exact (hmember "call").first

lemma within_callOn_arg {a : Node} (ha : a ∈ args) (h : x.Within a) : x.Within (callOn f receiver args) := by
  unfold callOn
  split
  · exact .kid (k := array args) (by simp) (.kid ha h)
  · exact .kid (by simp [ha]) h

lemma within_home {key : Node} (h : x.Within key) : x.Within (c.home key) := h.second

lemma within_store_key {key : Node} (h : x.Within key) : x.Within (c.store op key value) := by
  have htarget : x.Within (access c.receiver key) := h.second
  unfold store
  split
  · exact htarget.first
  · split
    · exact (within_home h).first
    · exact htarget.first

lemma within_store_value {key : Node} (h : x.Within value) : x.Within (c.store op key value) := by
  have hassign : x.Within (assign (access c.receiver key) value) := h.second
  have hparen : x.Within (paren value) := h.first
  unfold store
  split
  · exact hassign
  · split
    · exact (show x.Within (paren _) from hassign.first).second
    · exact (show x.Within (binary _ (c.home key) (paren value)) from hparen.second).second

end SuperContext

namespace Class

/-- An expression in parentheses that the rewriting of `super` leaves as it is. -/
structure Sealed (f : Node) : Prop where
  tag : f.tag = .paren
  lower : ∀ c : SuperContext, c.lower f = f

lemma sealed_maker (name : String) (parent? : Option String) (ms : List Node) :
    Sealed (paren (funcExpr (maker name parent? ms))) :=
  ⟨rfl, fun c => lower_maker c name parent? ms⟩

/-- `CalledIn f k n`: the tree `n` holds a call of `f` with `k` arguments. -/
def CalledIn (f : Node) (k : Nat) (n : Node) : Prop := ∃ args : List Node, args.length = k ∧ (call f args).Within n

section Sealed

variable {f : Node} {k : Nat}

lemma CalledIn.trans (h : CalledIn f k n) (hn : n.Within n') : CalledIn f k n' := by
  obtain ⟨args, hlen, hin⟩ := h
  exact ⟨args, hlen, hin.trans hn⟩

/-- A call in a node of another kind is in one of its children. -/
lemma CalledIn.exists_kid (h : CalledIn f k (.mk s t ks)) (ht : t ≠ .call) : ∃ n ∈ ks, CalledIn f k n := by
  obtain ⟨args, hlen, hin⟩ := h
  rcases within_mk_iff.mp hin with heq | ⟨n, hn, hin⟩
  · exact absurd (congrArg Node.tag heq).symm ht
  · exact ⟨n, hn, args, hlen, hin⟩

lemma CalledIn.only (h : CalledIn f k (.mk s t [n])) (ht : t ≠ .call) : CalledIn f k n := by
  simpa using h.exists_kid ht

variable (hf : Sealed f)

include hf in
/-- **A call of what is sealed stays** where `super` is rewritten around it. -/
lemma CalledIn.lower (c : SuperContext) (hn : n.WellFormed) (h : CalledIn f k n) : CalledIn f k (c.lower n) := by
  induction n using induct_within with
  | h s t ks ih =>
    obtain ⟨args, hlen, hin⟩ := h
    rcases within_mk_iff.mp hin with heq | ⟨x, hx, hin'⟩
    · have hcall : c.lower (call f args) = call f (args.map c.lower) := by
        have huse : use (call f args) = .plain := by
          obtain ⟨sf, tf, fks⟩ := f
          obtain rfl : tf = .paren := hf.tag
          rfl
        rw [lower_eq, huse]
        exact congrArg (call · _) (hf.lower c)
      exact ⟨args.map c.lower, by rw [length_map, hlen], by rw [← heq, hcall]; exact .refl⟩
    have hxk : CalledIn f k x := ⟨args, hlen, hin'⟩
    have hkid : ∀ x ∈ ks, CalledIn f k x → CalledIn f k (c.lower x) := fun x hx => ih x hx x .refl (hn.kid hx)
    have hshape := use_shape (mk s t ks)
    rw [lower_eq]
    generalize use (mk s t ks) = u at hshape
    cases hshape with
    | closed => exact ⟨args, hlen, hin⟩
    | call =>
      exact (hkid x hx hxk).trans (within_callOn_arg (mem_map_of_mem hx) .refl)
    | @methodCall _ sc w key margs =>
      rcases mem_cons.mp hx with rfl | hx'
      · exact (hxk.only (by simp)).trans
          (within_callOn_func (within_home .refl))
      · exact (hkid x hx hxk).trans (within_callOn_arg (mem_map_of_mem hx') .refl)
    | @store _ op st w key value =>
      rcases mem_cons.mp hx with rfl | hx'
      · have hkey := ih _ hx key (.kid (by simp) .refl) ((hn.kid hx).kid (by simp)) (hxk.only (by simp))
        exact hkey.trans (within_store_key .refl)
      · obtain rfl := mem_singleton.mp hx'
        exact (hkid _ hx hxk).trans (within_store_value .refl)
    | read =>
      obtain rfl := mem_singleton.mp hx
      exact (hkid _ hx hxk).trans (within_home .refl)
    | this =>
      obtain rfl : ks = [] := hn.leaf rfl
      cases hx
    | plain => exact (hkid x hx hxk).trans (.kid (mem_map_of_mem hx) .refl)

/-- Only a computed key has parts. -/
lemma CalledIn.computed {key : Node} (h : CalledIn f k key) (hk : key.OfRole Role.isPublicKey) :
    ∃ s e, key = mk s .keyComputed [e] ∧ CalledIn f k e := by
  have hleaf : ∀ {s : Span} {t : Tag}, t ≠ .call → ¬CalledIn f k (mk s t []) := by
    intro s t ht h
    obtain ⟨_, ⟨⟩, -⟩ := h.exists_kid ht
  cases keyShape hk with
  | name | str | num | bigInt => exact absurd h (hleaf (by simp))
  | computed => exact ⟨_, _, rfl, h.only (by simp)⟩

/-- Keys stay in place when they are put behind an object or become expressions. -/
lemma CalledIn.key {key : Node} (h : CalledIn f k key) (hk : key.OfRole Role.isPublicKey) :
    CalledIn f k (keyAsMember key) ∧ CalledIn f k (keyAsExpr key) := by
  obtain ⟨s, e, rfl, he⟩ := h.computed hk
  exact ⟨h, he⟩

end Sealed

/-! ## Members -/

/-- What `super` and `this` stand for in a member of a class. -/
def contextOf (name : String) (parent : Node) : Node → SuperContext
  | .mk _ (.method _ isStatic) _ => { parent, isStatic }
  | .mk _ (.field true) _ => staticContext name parent
  | _ => instanceContext parent

/-- The code of a member whose `super` is that of the member: parameters and body of a function, or the
initializer of a field. -/
def bodyOf : Node → List Node
  | .mk _ .ctor [_, params, .mk _ _ stmts] => params :: stmts
  | .mk _ (.method ..) [_, .mk _ _ parts] => parts
  | .mk _ (.field _) (_ :: value) => value
  | _ => []

section Maker

variable {name : String} {parent? : Option String} {sm : Span} {ms : List Node}

/-- The parent of a class, as it is written in the function that makes the class. -/
def parentIdent (parent? : Option String) : Node := ident (parent?.getD "Object")

lemma within_maker (hst : st ∈ makerBody name parent? ms) (h : x.Within st) : x.Within (maker name parent? ms) := by
  have hblock : x.Within (block (makerBody name parent? ms)) := .kid hst h
  rw [maker_eq]
  exact hblock.second

lemma within_maker_params
    (h : x.Within ((instanceContext (parentIdent parent?)).lower (constructorParts (parentIdent parent?) parent?.isSome (Parts.ofMembers ms)).1)) :
    x.Within (maker name parent? ms) := by
  refine within_maker mem_makerBody_constructor ?_
  have hctor : x.Within (constructor (parentIdent parent?) parent?.isSome (Parts.ofMembers ms)) := h.first
  exact hctor.first

lemma within_maker_stmt (hst : st ∈ (constructorParts (parentIdent parent?) parent?.isSome (Parts.ofMembers ms)).2)
    (h : x.Within ((instanceContext (parentIdent parent?)).lower st)) : x.Within (maker name parent? ms) := by
  refine within_maker mem_makerBody_constructor ?_
  have hblock : x.Within (block ((constructorParts (parentIdent parent?) parent?.isSome
      (Parts.ofMembers ms)).2.map (instanceContext (parentIdent parent?)).lower)) :=
    .kid (mem_map_of_mem hst) h
  have hctor : x.Within (constructor (parentIdent parent?) parent?.isSome (Parts.ofMembers ms)) := hblock.second
  exact hctor.first

lemma mem_makerBody_method (hm : m ∈ ms) (hr : m.role = .method) :
    defineMethod name (parentIdent parent?) m ∈ makerBody name parent? ms := by
  refine mem_append_right _ (mem_append_right _ (mem_append_left _ ?_))
  refine mem_map_of_mem (mem_filter.mpr ⟨hm, ?_⟩)
  obtain ⟨s, t, ks⟩ := m
  cases t <;> first | rfl | cases hr

lemma mem_makerBody_static (hm : m ∈ ms) (ht : m.tag = .field true) :
    defineStatic name (parentIdent parent?) m ∈ makerBody name parent? ms := by
  refine mem_append_right _ (mem_append_right _ (mem_append_right _ (mem_append_left _ ?_)))
  exact mem_map_of_mem (mem_filter.mpr ⟨hm, by rw [ht]; rfl⟩)

/-- The statement that defines a method holds its function, with `super` rewritten. -/
lemma within_defineMethod_func {k : Node} {sf : Span} {tf : Tag} {fks : List Node}
    (h : x.Within (mk sf tf (fks.map (SuperContext.lower { parent, isStatic })))) :
    x.Within (defineMethod name parent (mk s (.method kind isStatic) [k, mk sf tf fks])) := by
  have hf : x.Within (Build.funcExpr (mk sf tf (fks.map (SuperContext.lower { parent, isStatic })))) := h.first
  have hobject : ∀ slot, x.Within (Build.object [(slot, Build.funcExpr (mk sf tf
      (fks.map (SuperContext.lower { parent, isStatic })))), ("configurable", Build.boolLit true)]) := by
    intro slot
    have hvalue : x.Within (Build.keyValue (Build.make (.keyName slot) []) (Build.funcExpr (mk sf tf
      (fks.map (SuperContext.lower { parent, isStatic }))))) := hf.second
    exact hvalue.first
  cases kind with
  | method =>
    exact Within.first (Within.second hf)
  | getter | setter =>
    exact Within.first (.kid (List.mem_cons_of_mem _ (List.mem_cons_of_mem _ (List.mem_cons_of_mem _
      (List.mem_cons_self ..)))) (hobject _))

/-- The statement that defines a method holds its key. -/
lemma CalledIn.defineMethod {g key : Node} (h : CalledIn f k key) (hk : key.OfRole Role.isPublicKey) :
    CalledIn f k (defineMethod name parent (.mk s (.method kind isStatic) [key, g])) := by
  obtain ⟨sf, tf, fks⟩ := g
  cases kind with
  | method => exact (h.key hk).1.trans (Within.first (Within.first (Within.second .refl)))
  | getter | setter =>
    exact (h.key hk).2.trans (Within.first (.kid (mem_cons_of_mem _ (mem_cons_of_mem _ (mem_cons_self ..))) .refl))

variable (hw : (mk sm .members ms).WellFormed) (hms : ∀ m ∈ ms, MemberShape m)

include hw hms in
/-- **The code of a member stands in the function that makes its class**, with `super` rewritten. -/
lemma lower_within_maker (hm : m ∈ ms) (hpart : part ∈ bodyOf m) :
    ((contextOf name (parentIdent parent?) m).lower part).Within (maker name parent? ms) := by
  cases hms m hm with
  | @ctor s sb k p stmts =>
    obtain ⟨-, hp, hstmts⟩ := constructorParts_of_mem hw hm (parentIdent parent?) parent?.isSome
    rcases mem_cons.mp hpart with rfl | hpart
    · refine within_maker_params ?_
      rw [hp]
      exact .refl
    · exact within_maker_stmt (hstmts part hpart) .refl
  | method =>
    refine within_maker (mem_makerBody_method hm rfl) (within_defineMethod_func ?_)
    exact .kid (mem_map_of_mem hpart) .refl
  | field => cases hpart
  | @fieldInit s isStatic k v =>
    obtain rfl := mem_singleton.mp hpart
    cases isStatic with
    | false =>
      refine within_maker_stmt (initField_mem hm rfl) ?_
      rw [lower_initField]
      exact Within.first (Within.second .refl)
    | true =>
      exact within_maker (mem_makerBody_static hm rfl) (Within.first (Within.second .refl))
  | empty => cases hpart

include hw hms in
/-- A call of what is sealed in a member stands in the function that makes its class. -/
lemma CalledIn.maker_of_member (hf : Sealed f) (hm : m ∈ ms) (h : CalledIn f k m) :
    CalledIn f k (maker name parent? ms) := by
  have hpart : ∀ part ∈ bodyOf m, part.WellFormed → CalledIn f k part → CalledIn f k (maker name parent? ms) :=
    fun part hpart hpw hp => (hp.lower hf _ hpw).trans (lower_within_maker hw hms hm hpart)
  have hfield : ∀ {s isStatic key v}, m = .mk s (.field isStatic) (key :: v) →
      key.OfRole Role.isPublicKey → CalledIn f k key → CalledIn f k (maker name parent? ms) := by
    rintro s isStatic key v rfl hk hkey
    have hfirst : (fieldParts (.mk s (.field isStatic) (key :: v))).1 = key := by
      cases hms _ hm <;> rfl
    cases isStatic with
    | false =>
      have hlowered := (hkey.key hk).1.lower hf (instanceContext (parentIdent parent?))
        (is_keyAsMember hk).1
      refine hlowered.trans (within_maker_stmt (initField_mem hm rfl) ?_)
      rw [lower_initField, hfirst]
      exact Within.first (Within.first (Within.second .refl))
    | true =>
      refine (hkey.key hk).1.trans (within_maker (mem_makerBody_static hm rfl) ?_)
      nth_rewrite 1 [← hfirst]
      exact Within.first (Within.first (Within.second .refl))
  cases hms m hm with
  | @ctor s sb key p stmts hk hp hb =>
    obtain ⟨y, hy, hcall⟩ := h.exists_kid (by simp)
    simp only [mem_cons, not_mem_nil, or_false] at hy
    rcases hy with rfl | rfl | rfl
    · obtain ⟨_, _, rfl, -⟩ := hcall.computed (hk.ofRole rfl)
      cases hk.2
    · exact hpart y (by simp [bodyOf]) hp.1 hcall
    · obtain ⟨st, hst, hcall⟩ := hcall.exists_kid (by simp)
      exact hpart st (by simp [bodyOf, hst]) (hb.1.kid hst) hcall
  | @method s sf kind isStatic a g key p b hk hp hb =>
    obtain ⟨y, hy, hcall⟩ := h.exists_kid (by simp)
    simp only [mem_cons, not_mem_nil, or_false] at hy
    rcases hy with rfl | rfl
    · exact (hcall.defineMethod hk).trans (within_maker (mem_makerBody_method hm rfl) .refl)
    · obtain ⟨z, hz, hcall⟩ := hcall.exists_kid (by simp)
      refine hpart z hz ?_ hcall
      simp only [mem_cons, not_mem_nil, or_false] at hz
      rcases hz with rfl | rfl
      · exact hp.1
      · exact hb.1
  | field hk => exact hfield rfl hk (h.only (by simp))
  | @fieldInit s isStatic key v hk hv =>
    obtain ⟨y, hy, hcall⟩ := h.exists_kid (by simp)
    simp only [mem_cons, not_mem_nil, or_false] at hy
    rcases hy with rfl | rfl
    · exact hfield rfl hk hcall
    · exact hpart y (by simp [bodyOf]) hv.1 hcall
  | empty =>
    obtain ⟨_, ⟨⟩, -⟩ := h.exists_kid (by simp)

end Maker

/-! ## Classes -/

/-- `Defines cls own n`: the node `n` defines the class `cls`, which has the name `own` if it has one. -/
inductive Defines (cls : Node) : Option String → Node → Prop
  | decl {s : Span} {i : Ident} : Defines cls (some i.name) (mk s (.classDecl i) [cls])
  | expr {s : Span} {i? : Option Ident} : Defines cls (i?.map Ident.name) (mk s (.classExpr i?) [cls])

lemma Defines.is {cls : Node} (h : Defines cls own n) (hn : n.WellFormed) : cls.Is .cls := by
  cases h with
  | decl => exact cls_of_def hn (.inl ⟨_, rfl⟩)
  | expr => exact cls_of_def hn (.inr ⟨_, rfl⟩)

/-- The class `cls'` that is made of a class when its parts are lowered, and the names that it is made
with: its own name or one that is drawn, and a name that is drawn for its parent. -/
structure Made (known : List String) (own : Option String) (cls : Node) (name : String)
    (parent? : Option String) (cls' : Node) : Prop extends NamedAs known own name parent? cls' where
  lowers : Lowers known cls cls'
  kept : Kept cls cls'
  derived : parent?.isSome = (heritage? cls).isSome
  apart : ∀ y ∈ parent?, y ≠ name ∧ y ∉ cls'.names

variable {known : List String}

lemma Lowers.kept (hL : Lowers known n n') (h : n.WellFormed) (hl : isLowered n = false) : Kept n n' := by
  cases hL with
  | node hks hkept hR =>
    have hl' := (isLowered_congr hkept h).trans hl
    cases hR with
    | keep => exact kept_mk hkept h
    | decl hc | named hc | anonymous hc =>
      rw [isLowered, hc] at hl'
      cases hl'

/-- The parts of a class when they are lowered. -/
lemma Lowers.cls {cls : Node} (hL : Lowers known cls cls') (h : cls.Is .cls) :
    ∃ s sm ms ms' hs hs', cls = mk s .cls (mk sm .members ms :: hs) ∧
      cls' = mk s .cls (mk sm .members ms' :: hs') ∧ Forall₂ (Lowers known) ms ms' ∧
      Forall₂ (Lowers known) hs hs' := by
  obtain ⟨s, sm, ms, hs, rfl, hm, -, -⟩ := cls_shape h
  obtain ⟨ks', rfl, hks⟩ := hL.keep h.1 rfl
  cases hks with
  | cons hmembers hhs =>
    obtain ⟨ms', rfl, hms⟩ := hmembers.keep hm.1 rfl
    exact ⟨s, sm, ms, ms', hs, _, rfl, rfl, hms, hhs⟩

/-- A call of what is sealed in a class stands in the call that builds the class. -/
lemma CalledIn.build {cls : Node} (hf : Sealed f) (h : cls.Is .cls) (hl : isLowerable cls = true) (name : String)
    (parent? : Option String) (hin : CalledIn f k cls) : CalledIn f k (build name parent? cls) := by
  obtain ⟨s, sm, ms, hs, rfl, hm, -, hlen⟩ := cls_shape h
  have hms := memberShapes h hl
  obtain ⟨x, hx, hcall⟩ := hin.exists_kid (by simp)
  rcases mem_cons.mp hx with rfl | hx
  · obtain ⟨m, hmem, hcall⟩ := hcall.exists_kid (by simp)
    have hmaker : CalledIn f k (maker name parent? ms) := hcall.maker_of_member hm.1 hms hf hmem
    exact hmaker.trans (Within.first (Within.first (Within.first .refl)))
  · match hs, hlen, hx with
    | [e], _, hx =>
      obtain rfl := mem_singleton.mp hx
      exact hcall.trans (Within.second .refl)

lemma exists_mem_of_forall₂ {α β : Type} {R : α → β → Prop} {l : List α} {l' : List β}
    (h : Forall₂ R l l') {a : α} (ha : a ∈ l) : ∃ b ∈ l', R a b := by
  induction h with
  | nil => cases ha
  | cons hab _ ih =>
    rcases mem_cons.mp ha with rfl | ha
    · exact ⟨_, mem_cons_self .., hab⟩
    · obtain ⟨b, hb, hR⟩ := ih ha
      exact ⟨b, mem_cons_of_mem _ hb, hR⟩

/-- Each class of a tree is made by a call in the lowered tree. -/
def CallsMakers (known : List String) (n n' : Node) : Prop := ∀ (d cls : Node) (own : Option String),
  d.Within n → Defines cls own d → isLowerable cls = true → ∃ name parent? cls',
    Made known own cls name parent? cls' ∧ CalledIn (paren (funcExpr
      (maker name parent? (membersOf cls')))) (heritage? cls).toList.length n'

lemma Defines.isLowered {cls : Node} (h : Defines cls own d) (hl : isLowerable cls = true) : isLowered d = true := by
  cases h with
  | decl | expr => exact hl

lemma length_heritage? {cls : Node} (hL : Lowers known cls cls') (h : cls.Is .cls) :
    (heritage? cls').toList.length = (heritage? cls).toList.length := by
  obtain ⟨s, sm, ms, ms', hs, hs', rfl, rfl, -, hhs⟩ := hL.cls h
  cases hhs with
  | nil | cons => rfl

lemma isSome_heritage? {cls : Node} (hL : Lowers known cls cls') (h : cls.Is .cls) :
    (heritage? cls').isSome = (heritage? cls).isSome := by
  have hlen := length_heritage? hL h
  cases hh : heritage? cls <;> cases hh' : heritage? cls' <;> simp [hh, hh'] at hlen ⊢

section Rule

variable {s : Span} {t : Tag} {ks ks' : List Node} {n' : Node} {ds : List String} {d : Nat}
  (hks : Forall₂ (Lowers known) ks ks') (hkept : Forall₂ Kept ks ks')
  (h : (mk s t ks).WellFormed) (hR : NamedRule (mk s t ks') n' ds d)

include hkept h hR in
/-- What is called in a child is called in the node that takes its parent's place. -/
lemma CalledIn.rule (hf : Sealed f) (hx : x ∈ ks') (hin : CalledIn f k x) : CalledIn f k n' := by
  have hw : (Node.mk s t ks').WellFormed := (kept_mk hkept h).is.1
  cases hR with
  | keep => exact hin.trans (.kid hx .refl)
  | @decl _ i cls _ hl =>
    obtain rfl := mem_singleton.mp hx
    exact (hin.build hf (cls_of_def hw (.inl ⟨i, rfl⟩)) hl _ _).trans (Within.first (Within.second .refl))
  | named hl | anonymous hl =>
    obtain rfl := mem_singleton.mp hx
    exact hin.build hf (cls_of_def hw (.inr ⟨_, rfl⟩)) hl _ _

include hks hkept h hR in
/-- The class that a node defines is made by a call in the node that takes its place. -/
lemma made_of_rule {cls : Node} (hfresh : ∀ y ∈ ds, y ∉ known ∧ ∀ k ∈ ks', y ∉ k.names) (hnodup : ds.Nodup)
    (hknown : ∀ x ∈ t.names, x ∈ known) (hdef : Defines cls own (mk s t ks)) (hl : isLowerable cls = true) :
    ∃ name parent? cls', Made known own cls name parent? cls' ∧
      CalledIn (paren (funcExpr (maker name parent? (membersOf cls'))))
        (heritage? cls).toList.length n' := by
  have hcls := hdef.is h
  have hlowered := (isLowered_congr hkept h).trans (hdef.isLowered hl)
  obtain rfl : ks = [cls] := by cases hdef <;> rfl
  obtain ⟨cls', rfl, hL, hkk⟩ : ∃ cls', ks' = [cls'] ∧ Lowers known cls cls' ∧ Kept cls cls' := by
    cases hks with
    | cons hL hnil =>
      cases hnil
      exact ⟨_, rfl, hL, (forall₂_cons.mp hkept).1⟩
  have hmade : ∀ {name : String} {parent? : Option String}, parent?.isSome = (heritage? cls').isSome →
      (∀ y ∈ parent?, y ∈ ds ∧ y ≠ name) → (own = some name ∨ own = none ∧ name ∈ ds) →
      Made known own cls name parent? cls' := by
    intro name parent? hp hy hname
    exact {
      own := hname.imp_right fun ⟨ho, hn⟩ => ⟨ho, (hfresh name hn).1, (hfresh name hn).2 cls' (by simp)⟩
      parent := fun y hmem => (hfresh y (hy y hmem).1).1
      lowers := hL
      kept := hkk
      derived := hp.trans (isSome_heritage? hL hcls)
      apart := fun y hmem => ⟨(hy y hmem).2, (hfresh y (hy y hmem).1).2 cls' (by simp)⟩ }
  have hbuild : ∀ name parent?, CalledIn (paren (funcExpr (maker name parent?
      (membersOf cls')))) (heritage? cls).toList.length (build name parent? cls') := fun name parent? =>
    ⟨(heritage? cls').toList, length_heritage? hL hcls, .refl⟩
  have hown : ∀ x ∈ t.names, ∀ y ∈ ds, y ≠ x := by
    rintro x hx y hy rfl
    exact (hfresh y hy).1 (hknown y hx)
  cases hR with
  | keep hn =>
    rw [hn] at hlowered
    cases hlowered
  | @decl _ i _ parent? _ hp =>
    cases hdef
    refine ⟨i.name, parent?, cls', hmade hp (fun y hy => ?_) (.inl rfl),
      (hbuild i.name parent?).trans (Within.first (Within.second .refl))⟩
    exact ⟨Option.mem_toList.mpr hy, hown _ (by simp [Tag.names]) y (Option.mem_toList.mpr hy)⟩
  | @named _ i _ parent? _ hp =>
    cases hdef
    refine ⟨i.name, parent?, cls', hmade hp (fun y hy => ?_) (.inl rfl), hbuild i.name parent?⟩
    exact ⟨Option.mem_toList.mpr hy, hown _ (by simp [Tag.names]) y (Option.mem_toList.mpr hy)⟩
  | @anonymous _ _ name parent? _ hp =>
    cases hdef
    refine ⟨name, parent?, cls', hmade hp (fun y hy => ?_) (.inr ⟨rfl, mem_cons_self ..⟩), hbuild name parent?⟩
    refine ⟨mem_cons_of_mem _ (Option.mem_toList.mpr hy), ?_⟩
    rintro rfl
    exact (nodup_cons.mp hnodup).1 (Option.mem_toList.mpr hy)

end Rule

/-- A part of a script is lowered, and its classes are made by calls. -/
def Produces (script : Script) (n n' : Node) (cs : List String) : Prop :=
  Descends script n n' cs ∧ (n.WellFormed → (∀ m, m.Within n → script.Contains m) →
    Drawn cs script.names → CallsMakers (vocabulary script) n n')

lemma produces_step {script : Script} {ks' : List Node} {cs ds : List String} {c d : Nat}
    (hE : EachNamed (fun k k' cs _ => (∃ w, (lower k w).1 = k') ∧ Produces script k k' cs) ks ks' cs c)
    (hR : NamedRule (mk s t ks') n' ds d) : Produces script (mk s t ks) n' (cs ++ ds) := by
  have hE' : EachNamed (fun k k' cs _ => (∃ w, (lower k w).1 = k') ∧ Descends script k k' cs) ks ks' cs c :=
    hE.mono fun k _ k' cs c hr => ⟨hr.1, hr.2.1⟩
  refine ⟨descends_step hE' hR, fun h hin hd x cls own hx hdef hl => ?_⟩
  obtain ⟨hks, hkept, hfresh⟩ := descends_kids hE' h hin hd
  rcases within_mk_iff.mp hx with rfl | ⟨k, hk, hxk⟩
  · refine made_of_rule hks hkept h hR hfresh (nodup_append.mp hd.nodup).2.1 (fun y hy => ?_) hdef hl
    exact mem_cons_of_mem _ (names_subset_of_contains (hin _ .refl) (mem_names_of_within .refl hy))
  · have hparts : Forall₂ (CallsMakers (vocabulary script)) ks ks' :=
      forall₂_of_drawn (hE.mono fun k hk k' cs c hr => hr.2.2 (h.kid hk) fun m hm => hin m (.kid hk hm))
        (hd.sub (sublist_append_left cs ds) (Subset.refl _))
    obtain ⟨k', hk', hcalls⟩ := exists_mem_of_forall₂ hparts hk
    obtain ⟨name, parent?, cls', hM, hcall⟩ := hcalls x cls own hxk hdef hl
    exact ⟨name, parent?, cls', hM, hcall.rule hkept h hR (sealed_maker _ _ _) hk'⟩

/-- **Each class is made by a call in the lowered script**, of a function that takes the parent if there is
one, with the members of the class when the classes in them are lowered. -/
theorem exists_made {s : Script} (h : s.WellFormed) {cls : Node} (hd : s.Contains d) (hdef : Defines cls own d)
    (hl : isLowerable cls = true) : ∃ name parent? cls' args, Made (vocabulary s) own cls name parent? cls' ∧
      args.length = (heritage? cls).toList.length ∧ (lowerScript s).1.Contains (call
        (paren (funcExpr (maker name parent? (membersOf cls')))) args) := by
  obtain ⟨cs, c, hm, hE⟩ := eachNamed_mapM Moves.refl Moves.trans lower s.body
    (R := fun k k' cs _ => Produces s k k' cs)
    (fun k _ => lower_named (fun _ _ _ _ _ _ _ _ _ hE hR => produces_step hE hR) k)
    { names := .ofScript s }
  obtain ⟨new, -, hdrawn, hperm⟩ := hm.names
  have hin : ∀ k ∈ s.body, ∀ m, m.Within k → s.Contains m := fun k hk m hm => ⟨k, hk, hm⟩
  have hkids : Forall₂ (CallsMakers (vocabulary s)) s.body (lowerScript s).1.body :=
    forall₂_of_drawn (hE.mono fun k hk k' cs c hr => hr.2 (h k hk).1 (hin k hk)) (hdrawn.perm hperm)
  obtain ⟨k, hk, hdk⟩ := hd
  obtain ⟨k', hk', hcalls⟩ := exists_mem_of_forall₂ hkids hk
  obtain ⟨name, parent?, cls', hM, args, hlen, hcall⟩ := hcalls d cls own hdk hdef hl
  exact ⟨name, parent?, cls', args, hM, hlen, k', hk', hcall⟩

/-- A member of a class that is made, before and after the classes in it are lowered. -/
structure LoweredMember (known : List String) (m m' : Node) : Prop where
  shape : MemberShape m
  wellFormed : m.WellFormed
  lowers : Lowers known m m'

namespace LoweredMember

variable {m m' : Node} (h : LoweredMember known m m')

include h in
lemma kept : Kept m m' := by
  refine h.lowers.kept h.wellFormed ?_
  cases h.shape <;> rfl

include h in
lemma tag : m'.tag = m.tag := by
  refine (h.lowers.member h.wellFormed ?_).1
  cases h.shape <;> rfl

include h in
lemma shape' : MemberShape m' := by
  have hrole : m.role.isMember = true := by cases h.shape <;> rfl
  have hplain : isPlainMember m = true := by
    cases h.shape with
    | method hk | field hk | fieldInit hk =>
      cases keyShape hk <;> rfl
    | ctor | empty => rfl
  refine memberShape h.kept.is.1 ?_
  rw [isPlainMember_eq, h.kept.member hrole, ← isPlainMember_eq]
  exact hplain

include h in
lemma contextOf_eq (name : String) (parent : Node) : contextOf name parent m' = contextOf name parent m := by
  have htag := h.tag
  obtain ⟨s, t, ks⟩ := m
  obtain ⟨s', t', ks'⟩ := m'
  obtain rfl : t' = t := htag
  cases t' with
  | field isStatic => cases isStatic <;> rfl
  | _ => rfl

include h in
/-- The code of a member is lowered part by part. -/
lemma forall₂_bodyOf : Forall₂ (Lowers known) (bodyOf m) (bodyOf m') := by
  have hw := h.wellFormed
  have hL := h.lowers
  cases h.shape with
  | ctor _ _ hb =>
    obtain ⟨_, rfl, hks⟩ := hL.keep hw rfl
    obtain ⟨key', _, -, hparts, rfl⟩ := forall₂_cons_left_iff.mp hks
    obtain ⟨ps', _, hps, hblock, rfl⟩ := forall₂_cons_left_iff.mp hparts
    obtain ⟨b', _, hbL, ⟨⟩, rfl⟩ := forall₂_cons_left_iff.mp hblock
    obtain ⟨stmts', rfl, hstmts⟩ := hbL.keep hb.1 rfl
    exact .cons hps hstmts
  | method =>
    obtain ⟨_, rfl, hks⟩ := hL.keep hw rfl
    obtain ⟨key', _, -, hparts, rfl⟩ := forall₂_cons_left_iff.mp hks
    obtain ⟨f', _, hf, ⟨⟩, rfl⟩ := forall₂_cons_left_iff.mp hparts
    obtain ⟨parts', rfl, hbody⟩ := hf.keep (hw.kid (by simp)) rfl
    exact hbody
  | field | fieldInit =>
    obtain ⟨_, rfl, hks⟩ := hL.keep hw rfl
    obtain ⟨key', v', -, hv, rfl⟩ := forall₂_cons_left_iff.mp hks
    exact hv
  | empty =>
    obtain ⟨_, rfl, -⟩ := hL.keep hw rfl
    exact .nil

end LoweredMember

lemma within_of_mem_bodyOf (h : part ∈ bodyOf m) : part.Within m := by
  unfold bodyOf at h
  split at h
  · rcases mem_cons.mp h with rfl | h
    · exact Within.second .refl
    · exact .kid (mem_cons_of_mem _ (mem_cons_of_mem _ (mem_cons_self ..))) (.kid h .refl)
  · exact Within.second (.kid h .refl)
  · exact .kid (mem_cons_of_mem _ h) .refl
  · cases h

/-- The members of a class that is made. -/
lemma Made.members {cls : Node} {parent? : Option String} (hM : Made known own cls name parent? cls')
    (h : cls.Is .cls) (hl : isLowerable cls = true) :
    ∃ sm, (Node.mk sm .members (membersOf cls)).WellFormed ∧ (Node.mk sm .members (membersOf cls')).WellFormed ∧
      Forall₂ (LoweredMember known) (membersOf cls) (membersOf cls') := by
  have hcls' : cls'.Is .cls := h.2 ▸ hM.kept.is
  obtain ⟨s, sm, ms, ms', hs, hs', rfl, rfl, hms, -⟩ := hM.lowers.cls h
  have hw : (Node.mk sm .members ms).WellFormed := h.1.kid (by simp)
  have hw' : (Node.mk sm .members ms').WellFormed := hcls'.1.kid (by simp)
  exact ⟨sm, hw, hw', forall₂_imp_mem hms fun m hm m' hL =>
    ⟨memberShape (hw.kid hm) (all_eq_true.mp hl m hm), hw.kid hm, hL⟩⟩

/-- No member names the parent before `super` is lowered. -/
lemma Made.parent_notMem {cls : Node} {parent : String} (hM : Made known own cls name (some parent) cls')
    (h : cls.Is .cls) : ∀ m ∈ membersOf cls', parent ∉ m.names := by
  intro m hm hmem
  obtain ⟨s, sm, ms, ms', hs, hs', rfl, rfl, -, -⟩ := hM.lowers.cls h
  refine (hM.apart parent rfl).2 (names_subset_of_within ?_ hmem)
  exact Within.first (k := Node.mk sm .members ms') (.kid hm .refl)

/-- The members of one kind. -/
lemma forall₂_filter {ms ms' : List Node} (h : Forall₂ (LoweredMember known) ms ms')
    (p : Tag → Bool) : Forall₂ (fun m m' => LoweredMember known m m' ∧ p m.tag = true)
      (ms.filter (p ·.tag)) (ms'.filter (p ·.tag)) := by
  induction h with
  | nil => exact .nil
  | @cons m m' ms ms' hm _ ih =>
    rw [filter_cons, filter_cons, hm.tag]
    split
    · rename_i hp
      exact .cons ⟨hm, hp⟩ ih
    · exact ih

end Class

end EcmaLower
