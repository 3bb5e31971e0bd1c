import EcmaLower.Proofs.ClassPass
import EcmaLower.Proofs.Mentions

/-!
# Names in lowered classes

The lowering of classes draws a name for the parent of a class, and one for a class that has none. Both
belong to the function that makes the class: the first is its parameter, and the second is the
constructor that it declares. This module follows these names through the tree. A class inside a class
is lowered first, and the code of the outer class then goes around the function that makes the inner
one and leaves it as it is.

## Main results

* `Class.confined_build` — the call that builds a class has no mentions that its parts do not
  have.
* `Class.count_bindings_maker` — the function that makes a class binds its names once.
* `Class.lowerScript_hygienic` — every name that is drawn stays in the functions that make the
  class that it was drawn for.
-/

namespace EcmaLower.Class

open Node List Build SuperContext

variable {s : Span} {t : Tag} {ks : List Node} {parent? : Option String} {isStatic : Bool} {cs ds : List String}
  {a b f k m n : Node} {name y : String} {w : Walk}

/-! ## Code that keeps names where they are -/

/-- The statements behind the constructor in the function that makes a class. -/
def makerRest (name : String) (parent? : Option String) (ms : List Node) : List Node :=
  (parent?.map (inherit name)).getD [] ++
    ((Parts.ofMembers ms).methods.map (defineMethod name (ident (parent?.getD "Object"))) ++
    ((Parts.ofMembers ms).staticFields.map (defineStatic name (ident (parent?.getD "Object"))) ++
    [returnStmt (ident name)]))

lemma maker_eq (name : String) (parent? : Option String) (ms : List Node) :
    maker name parent? ms = func (parent?.map binding).toList
      ([useStrict, funcDecl name (constructor (ident (parent?.getD "Object"))
        parent?.isSome (Parts.ofMembers ms))] ++ makerRest name parent? ms) := by
  simp only [maker, makerRest, append_assoc]

/-- No tag of generated expressions is `bad`, and the parts with the property `P` are not changed by a context. -/
structure Passive (bad : Tag → Prop) (P : Node → Prop) : Prop where
  generated : ∀ {t}, t.isNameless = true → ¬bad t
  this : ¬bad .this
  super : ∀ {n}, P n → ∀ w, n.tag ≠ .superMember w
  lower : ∀ {n}, P n → ∀ c : SuperContext, c.lower n = n

section Confined

variable {bad : Tag → Prop} {P : Node → Prop}

section Passive

variable (hP : Passive bad P)

include hP

lemma Passive.node (ht : t.isNameless = true) (h : ∀ k ∈ ks, k.Confined bad P) :
    (Node.mk s t ks).Confined bad P := .node (hP.generated ht) h

lemma Passive.two (ht : t.isNameless = true) (ha : a.Confined bad P) (hb : b.Confined bad P) :
    (Node.mk s t [a, b]).Confined bad P :=
  hP.node ht (forall_mem_cons.mpr ⟨ha, forall_mem_singleton.mpr hb⟩)

lemma Passive.key {w : Span} {key : Node} (h : (Node.mk s (.superMember w) [key]).Confined bad P) :
    key.Confined bad P := h.kids (fun h => hP.super h w rfl) key (mem_singleton_self key)

lemma confined_member (h : n.Confined bad P) (x : String) : (member n x).Confined bad P := by
  unfold member
  split
  · exact hP.two rfl h (hP.node rfl nofun)
  · exact hP.two rfl h (hP.node rfl (forall_mem_singleton.mpr (hP.node rfl nofun)))

lemma confined_call {args : List Node} (hf : f.Confined bad P) (h : ∀ k ∈ args, k.Confined bad P) :
    (call f args).Confined bad P :=
  hP.node rfl (forall_mem_cons.mpr ⟨hf, h⟩)

lemma confined_object {props : List (String × Node)} (h : ∀ x ∈ props, x.2.Confined bad P) :
    (object props).Confined bad P := by
  refine hP.node rfl fun k hk => ?_
  obtain ⟨x, hx, rfl⟩ := mem_map.mp hk
  exact hP.two rfl (hP.node rfl nofun) (h x hx)

/-! ## Code in a context -/

section Context

variable {c : SuperContext} (hp : c.parent.Confined bad P)
  (hr : ∀ r, c.receiver? = some r → r.Confined bad P)

include hr in
lemma confined_receiver : c.receiver.Confined bad P := by
  unfold receiver
  cases h : c.receiver? with
  | none => exact .node hP.this nofun
  | some r => exact hr r h

lemma confined_callOn {receiver : Node} {args : List Node} (hf : f.Confined bad P) (hr : receiver.Confined bad P)
    (ha : ∀ k ∈ args, k.Confined bad P) : (callOn f receiver args).Confined bad P := by
  unfold callOn
  split
  · refine confined_call hP (confined_member hP hf _) ?_
    exact forall_mem_cons.mpr ⟨hr, forall_mem_singleton.mpr (hP.node rfl ha)⟩
  · exact confined_call hP (confined_member hP hf _) (forall_mem_cons.mpr ⟨hr, ha⟩)

include hp in
lemma confined_home {key : Node} (hk : key.Confined bad P) : (c.home key).Confined bad P := by
  refine hP.two rfl ?_ hk
  split
  · exact hp
  · exact confined_member hP hp _

include hp hr in
lemma confined_store {op : AssignOp} {key value : Node} (hk : key.Confined bad P)
    (hv : value.Confined bad P) : (c.store op key value).Confined bad P := by
  have htarget : (access c.receiver key).Confined bad P := hP.two rfl (confined_receiver hP hr) hk
  have hhome := confined_home hP hp hk
  unfold store
  split
  · exact hP.two rfl htarget hv
  · split
    · exact hP.two rfl hhome (hP.node rfl (forall_mem_singleton.mpr (hP.two rfl htarget hv)))
    · exact hP.two rfl htarget (hP.two rfl hhome (hP.node rfl (forall_mem_singleton.mpr hv)))

include hp hr in
/-- **Code in a context has no other mentions.** -/
theorem confined_lower (n : Node) (h : n.Confined bad P) : (c.lower n).Confined bad P := by
  induction n using induct_within with
  | h s t ks ih =>
    cases h with
    | part hpart =>
      rw [hP.lower hpart]
      exact .part hpart
    | node ht hks =>
      -- A store looks two levels down, so the hypothesis is about all parts.
      have hlower : ∀ k ∈ ks, (c.lower k).Confined bad P := fun k hk => ih k hk k .refl (hks k hk)
      have hplain : (mk s t (ks.map c.lower)).Confined bad P := .node ht (forall_mem_map.mpr hlower)
      have hreceiver := confined_receiver hP hr
      have hshape := use_shape (mk s t ks)
      rw [lower_eq]
      generalize use (mk s t ks) = u at hshape
      cases hshape with
      | closed => exact .node ht hks
      | call => exact confined_callOn hP hp hreceiver (forall_mem_map.mpr hlower)
      | @methodCall _ sc w key args =>
        have hkey := hP.key (hks (.mk sc (.superMember w) [key]) (by simp))
        exact confined_callOn hP (confined_home hP hp hkey) hreceiver
          (forall_mem_map.mpr fun k hk => hlower k (by simp [hk]))
      | @store _ op st w key value =>
        have hkey := hP.key (hks (.mk st (.superMember w) [key]) (by simp))
        exact confined_store hP hp hr
          (ih (.mk st (.superMember w) [key]) (by simp) key (.kid (by simp) .refl) hkey)
          (hlower value (by simp))
      | read => exact confined_home hP hp (hlower _ (by simp))
      | this =>
        cases h : c.receiver? with
        | none => exact hplain
        | some r => exact hr r h
      | plain => exact hplain

end Context

end Passive

/-- Tags are `bad` for their names only, and the parts with the property `P` are expressions in
parentheses that no context changes. -/
structure Neutral (bad : Tag → Prop) (P : Node → Prop) : Prop where
  nameless : ∀ {t}, t.names = [] → ¬bad t
  paren : ∀ {n}, P n → n.tag = .paren
  lower : ∀ {n}, P n → ∀ c : SuperContext, c.lower n = n

variable (hN : Neutral bad P)

include hN

lemma Neutral.passive : Passive bad P where
  generated {t} ht := by
    refine hN.nameless ?_
    cases t with
    | funcExpr i => cases i <;> first | rfl | cases ht
    | _ => first | rfl | cases ht
  this := hN.nameless rfl
  super h w := by simp [hN.paren h]
  lower := hN.lower

lemma Neutral.node (ht : t.names = [])
    (h : ∀ k ∈ ks, k.Confined bad P) : (Node.mk s t ks).Confined bad P := .node (hN.nameless ht) h

lemma Neutral.leaf (ht : t.names = []) : (Node.mk s t []).Confined bad P := hN.node ht nofun

lemma Neutral.one (ht : t.names = []) (ha : a.Confined bad P) :
    (Node.mk s t [a]).Confined bad P := hN.node ht (forall_mem_singleton.mpr ha)

lemma Neutral.two (ht : t.names = []) (ha : a.Confined bad P) (hb : b.Confined bad P) :
    (Node.mk s t [a, b]).Confined bad P :=
  hN.node ht (forall_mem_cons.mpr ⟨ha, forall_mem_singleton.mpr hb⟩)

lemma Neutral.kids (h : (Node.mk s t ks).Confined bad P) (ht : t ≠ .paren) :
    ∀ k ∈ ks, k.Confined bad P := h.kids fun hP => ht (hN.paren hP)

lemma Neutral.mk_iff (ht : t.names = []) (hp : t ≠ .paren) :
    (Node.mk s t ks).Confined bad P ↔ ∀ k ∈ ks, k.Confined bad P := ⟨(hN.kids · hp), hN.node ht⟩

/-! ## Members -/

lemma confined_keyAsMember (hk : k.OfRole Role.isPublicKey) (h : k.Confined bad P) :
    (keyAsMember k).Confined bad P := by
  cases keyShape hk with
  | name | computed => exact h
  | str | num | bigInt => exact hN.one rfl (hN.leaf rfl)

lemma confined_keyAsExpr (hk : k.OfRole Role.isPublicKey) (h : k.Confined bad P) : (keyAsExpr k).Confined bad P := by
  cases keyShape hk with
  | name | str | num | bigInt => exact hN.leaf rfl
  | @computed _ e => exact hN.kids h (by simp) e (by simp)

/-- The key and the value of a field. -/
lemma confined_fieldParts (hm : MemberShape (mk s (.field isStatic) ks))
    (h : (Node.mk s (.field isStatic) ks).Confined bad P) :
    (fieldParts (.mk s (.field isStatic) ks)).1.Confined bad P ∧
      (fieldParts (.mk s (.field isStatic) ks)).2.Confined bad P := by
  have hks := hN.kids h (by simp)
  cases hm with
  | @field _ _ k hk => exact ⟨hks k (by simp), hN.one rfl (hN.leaf rfl)⟩
  | @fieldInit _ _ k v hk hv => exact ⟨hks k (by simp), hks v (by simp)⟩

section Maker

variable {name : String} {parent? : Option String} {ms : List Node}
  (hx : ∀ x ∈ [name, parent?.getD "Object", "Object", "arguments"], ¬bad (.ident x))
  (hms : ∀ m ∈ ms, MemberShape m) (hc : ∀ m ∈ ms, m.Confined bad P)

omit hN in
include hx in
lemma confined_ident {x : String} (h : x ∈ [name, parent?.getD "Object", "Object", "arguments"]) :
    (ident x).Confined bad P := .node (hx x h) nofun

include hx in
lemma confined_path (x : String) : (path ["Object", x]).Confined bad P :=
  confined_member hN.passive (confined_ident hx (by simp)) x

include hms hc in
lemma confined_fieldParts_of_mem (hm : m ∈ ms.filter (·.tag == .field isStatic)) :
    (fieldParts m).1.Confined bad P ∧ (fieldParts m).2.Confined bad P := by
  obtain ⟨hm, htag⟩ := mem_filter.mp hm
  obtain ⟨s, t, ks⟩ := m
  obtain rfl : t = .field isStatic := beq_iff_eq.mp htag
  exact confined_fieldParts hN (hms _ hm) (hc _ hm)

include hx hms hc in
lemma confined_constructor : (constructor (ident (parent?.getD "Object")) parent?.isSome
    (Parts.ofMembers ms)).Confined bad P := by
  have hparent : (ident (parent?.getD "Object")).Confined bad P := confined_ident hx (by simp)
  have hargs : (ident "arguments").Confined bad P := confined_ident hx (by simp)
  have hinits : ∀ k ∈ (Parts.ofMembers ms).fields.map (initField this), k.Confined bad P := by
    refine forall_mem_map.mpr fun m hm => ?_
    obtain ⟨hk, hv⟩ := confined_fieldParts_of_mem hN hms hc hm
    have hkey := confined_keyAsMember hN (fieldParts_of_mem hms hm).1 hk
    exact hN.one rfl (hN.two rfl (hN.two rfl (hN.leaf rfl) hkey) hv)
  have hcall : (exprStmt (call (member (ident (parent?.getD "Object")) "apply")
      [this, ident "arguments"])).Confined bad P :=
    hN.one rfl (confined_call hN.passive (confined_member hN.passive hparent _)
      (forall_mem_cons.mpr ⟨hN.leaf rfl, forall_mem_singleton.mpr hargs⟩))
  -- The parts hold what the members hold, and the context has no other mentions.
  let parts := constructorParts (ident (parent?.getD "Object")) parent?.isSome (Parts.ofMembers ms)
  suffices hparts : parts.1.Confined bad P ∧ ∀ k ∈ parts.2, k.Confined bad P by
    have hlower := confined_lower (c := instanceContext (ident (parent?.getD "Object"))) hN.passive
      hparent (by simp [instanceContext])
    exact hN.two rfl (hlower _ hparts.1)
      (hN.node rfl (forall_mem_map.mpr fun k hk => hlower k (hparts.2 k hk)))
  rcases ctor?_cases hms with ⟨-, hnone⟩ | ⟨s, sb, k, p, stmts, hsome, hmem, -, -⟩
  · simp only [parts, constructorParts, hnone]
    refine ⟨hN.leaf rfl, fun k hk => ?_⟩
    rcases mem_append.mp hk with hk | hk
    · split at hk
      · rw [mem_singleton.mp hk]
        exact hcall
      · cases hk
    · exact hinits k hk
  · have hks := hN.kids (hc _ hmem) (by simp)
    simp only [parts, constructorParts, hsome]
    refine ⟨hks p (by simp), fun k hk => ?_⟩
    rcases mem_insertAt.mp hk with hk | hk
    · exact hinits k hk
    · exact hN.kids (hks (.mk sb .block stmts) (by simp)) (by simp) k hk

include hx in
lemma confined_inherit {parentName : String} (hp : parent? = some parentName) :
    ∀ k ∈ inherit name parentName, k.Confined bad P := by
  subst hp
  have hname : (ident name).Confined bad P := confined_ident hx (by simp)
  have hparent : (ident parentName).Confined bad P := confined_ident hx (by simp)
  simp +decide [inherit, ifStmt, binary, block, exprStmt, call, assign, Build.cond, object, keyValue, nullLit,
    boolLit, make, hN.mk_iff, confined_member hN.passive, confined_path hN hx, hname, hparent]

include hx in
lemma confined_defineMethod (hm : MemberShape m) (hrole : m.role = .method) (h : m.Confined bad P) :
    (defineMethod name (Build.ident (parent?.getD "Object")) m).Confined bad P := by
  have hname : (Build.ident name).Confined bad P := confined_ident hx (by simp)
  have hparent : (Build.ident (parent?.getD "Object")).Confined bad P := confined_ident hx (by simp)
  cases hm with
  | @method s sf kind isStatic a g k p b hk hps hb =>
    have hks := hN.kids h (by simp)
    have hf : (Build.funcExpr (.mk sf (.func a g) ([p, b].map
        (SuperContext.lower { parent := Build.ident (parent?.getD "Object"), isStatic })))).Confined
          bad P := by
      refine hN.one rfl (hN.node rfl (forall_mem_map.mpr fun n hn => ?_))
      have hn := hN.kids (hks (.mk sf (.func a g) [p, b]) (by simp)) (by simp) n hn
      exact confined_lower (c := { parent := _, isStatic }) hN.passive hparent (by simp) n hn
    have htarget : (if isStatic then Build.ident name
        else Build.member (Build.ident name) "prototype").Confined bad P := by
      split
      · exact hname
      · exact confined_member hN.passive hname _
    have hexpr := confined_keyAsExpr hN hk (hks k (by simp))
    have hkey := confined_keyAsMember hN hk (hks k (by simp))
    cases kind with
    | method => exact hN.one rfl (hN.two rfl (hN.two rfl htarget hkey) hf)
    | getter | setter =>
      refine hN.one rfl (confined_call hN.passive (confined_path hN hx _) ?_)
      simp only [forall_mem_cons, not_mem_nil, false_imp_iff, implies_true, and_true]
      refine ⟨htarget, hexpr, confined_object hN.passive ?_⟩
      exact forall_mem_cons.mpr ⟨hf, forall_mem_singleton.mpr (hN.leaf rfl)⟩
  | ctor | field | fieldInit | empty => cases hrole

include hx hms hc in
lemma confined_defineStatic (hm : m ∈ (Parts.ofMembers ms).staticFields) :
    (defineStatic name (ident (parent?.getD "Object")) m).Confined bad P := by
  have hname : (ident name).Confined bad P := confined_ident hx (by simp)
  have hparent : (ident (parent?.getD "Object")).Confined bad P := confined_ident hx (by simp)
  obtain ⟨hk, hv⟩ := confined_fieldParts_of_mem hN hms hc hm
  have hkey := confined_keyAsMember hN (fieldParts_of_mem hms hm).1 hk
  have hvalue := confined_lower (c := staticContext name (ident (parent?.getD "Object"))) hN.passive
    hparent (fun r hr => Option.some_inj.mp hr ▸ hname) _ hv
  exact hN.one rfl (hN.two rfl (hN.two rfl hname hkey) hvalue)

include hx hms hc in
lemma confined_makerRest : ∀ k ∈ makerRest name parent? ms, k.Confined bad P := by
  intro k hk
  simp only [makerRest, mem_append, mem_map, mem_singleton] at hk
  rcases hk with hk | ⟨m, hm, rfl⟩ | ⟨m, hm, rfl⟩ | rfl
  · cases hparent : parent? <;> rw [hparent] at hk
    · cases hk
    · exact confined_inherit hN hx hparent k hk
  · obtain ⟨hmem, htag⟩ := mem_filter.mp hm
    refine confined_defineMethod hN hx (hms m hmem) ?_ (hc m hmem)
    obtain ⟨s, t, ks⟩ := m
    cases t <;> first | rfl | cases htag
  · exact confined_defineStatic hN hx hms hc hm
  · exact hN.one rfl (confined_ident hx (by simp))

end Maker

/-- **The call that builds a class has no mentions that its parts do not have**, its own names apart. -/
theorem confined_build {cls : Node} (h : cls.Is .cls) (hl : isLowerable cls = true) (hc : cls.Confined bad P)
    (hx : ∀ x ∈ [name, parent?.getD "Object", "Object", "arguments"], ¬bad (.ident x))
    (hname : ¬bad (.funcDecl ⟨name, .none⟩)) (hparent : ∀ x ∈ parent?, ¬bad (.binding x)) :
    (build name parent? cls).Confined bad P := by
  obtain ⟨s, sm, ms, hs, rfl, hm, -, -⟩ := cls_shape h
  have hms := memberShapes h hl
  have hks := hN.kids hc (by simp)
  have hcs : ∀ m ∈ ms, m.Confined bad P := hN.kids (hks (.mk sm .members ms) (by simp)) (by simp)
  have hparams : ∀ k ∈ (parent?.map binding).toList, k.Confined bad P := by
    intro k hk
    obtain ⟨x, hx, rfl⟩ := Option.map_eq_some_iff.mp (Option.mem_toList.mp hk)
    exact .node (hparent x hx) nofun
  have hctor := confined_constructor hN hx hms hcs
  refine confined_call hN.passive (hN.one rfl (hN.one rfl ?_)) fun k hk => ?_
  · change (maker name parent? ms).Confined bad P
    rw [maker_eq]
    refine hN.two rfl (hN.node rfl hparams) (hN.node rfl (forall_mem_append.mpr ⟨?_, confined_makerRest hN hx hms hcs⟩))
    exact forall_mem_cons.mpr ⟨hN.one rfl (hN.leaf rfl), forall_mem_singleton.mpr
      (.node hname (forall_mem_singleton.mpr hctor))⟩
  · exact hks k (mem_cons_of_mem _ (mem_of_mem_head? (Option.mem_toList.mp hk)))

end Confined

/-! ## The names of a class -/

/-- **The function that makes a class binds its names once**: the parent as its parameter and the class
as a function that it declares. -/
theorem count_bindings_maker {ms : List Node} (hms : ∀ m ∈ ms, MemberShape m) (hy : ∀ m ∈ ms, y ∉ m.names) :
    (maker name parent? ms).bindings.count y = (name :: parent?.toList).count y := by
  have hN : Neutral (y ∈ ·.bindings) fun _ => False :=
    ⟨fun {t} ht hy => by simpa [ht] using t.bindings_subset hy, False.elim, False.elim⟩
  have hc : ∀ m ∈ ms, m.Confined (y ∈ ·.bindings) fun _ => False := fun m hm =>
    confined_false_iff.mpr fun hmem => hy m hm (m.bindings_subset hmem)
  have hx : ∀ x ∈ [name, parent?.getD "Object", "Object", "arguments"],
      ¬y ∈ (Tag.ident x).bindings := fun _ _ => not_mem_nil
  have hctor : y ∉ (constructor (ident (parent?.getD "Object")) parent?.isSome
      (Parts.ofMembers ms)).bindings := confined_false_iff.mp (confined_constructor hN hx hms hc)
  have hrest : y ∉ (makerRest name parent? ms).flatMap bindings := by
    intro hmem
    obtain ⟨k, hk, hyk⟩ := mem_flatMap.mp hmem
    exact confined_false_iff.mp (confined_makerRest hN hx hms hc k hk) hyk
  have hparams : (parent?.map binding).toList.flatMap bindings = parent?.toList := by
    cases parent? <;> rfl
  rw [maker_eq]
  simp only [func, make, params, block, funcDecl, bindings_mk,
    flatMap_cons, flatMap_append, flatMap_nil, Tag.bindings, count_append,
    count_cons, count_nil, hparams, count_eq_zero_of_not_mem hctor,
    count_eq_zero_of_not_mem hrest]
  rw [show useStrict.bindings = [] from rfl]
  simp only [count_nil]
  omega

/-- Both names are variables of the function. -/
lemma mem_hoisted_maker (ms : List Node) (h : y ∈ name :: parent?.toList) :
    y ∈ (maker name parent? ms).kids.flatMap hoisted := by
  have hparams : (params (parent?.map binding).toList).hoisted = parent?.toList := by
    cases parent? <;> rfl
  rw [maker_eq, func, make, kids_mk, flatMap_cons, mem_append, hparams]
  rcases mem_cons.mp h with rfl | h
  · right
    simp [block, funcDecl, make, hoisted_mk, Tag.hasScope, Tag.isOwner, Tag.bindings]
  · exact .inl h

/-! ## The traversal -/

/-- A class of a script. -/
abbrev ClassOf (s : Script) : Type := { cls : Node // s.Contains cls ∧ cls.tag = .cls }

/-- `Makes cls y n`: the node `n` is a function that makes the class `cls`, in parentheses, and `y` is
one of its two names and bound by nothing else in it. -/
def Makes {s : Script} (cls : ClassOf s) (y : String) (n : Node) : Prop :=
  ∃ w name parent?, n = paren (funcExpr (maker name parent? (membersOf (lower cls.1 w).1))) ∧
    y ∈ name :: parent?.toList ∧
    (maker name parent? (membersOf (lower cls.1 w).1)).bindings.count y = 1

/-- The names that are written without being drawn. -/
def knownNames : List String := ["Object", "arguments"]

/-- A name that is drawn is no known name. -/
lemma notMem_knownNames {new taken : List String} (h : Drawn new taken) (hy : y ∈ new) : y ∉ knownNames := by
  simp only [knownNames, mem_cons, not_mem_nil, or_false, not_or]
  exact ⟨h.ne hy (by decide), h.ne hy (by decide)⟩

section Build

variable {s : Script} {P : Node → Prop} {y name : String} {parent? : Option String} {cls : Node}

lemma neutral_names (hP : P = (fun _ => False) ∨ ∃ cls : ClassOf s, P = Makes cls y) : Neutral (y ∈ ·.names) P := by
  have hnameless : ∀ {t : Tag}, t.names = [] → ¬y ∈ t.names := fun ht hy => by simp [ht] at hy
  rcases hP with rfl | ⟨cls, rfl⟩
  · exact ⟨hnameless, False.elim, False.elim⟩
  · refine ⟨hnameless, ?_, ?_⟩
    · rintro n ⟨w, name, parent?, rfl, -⟩
      rfl
    · rintro n ⟨w, name, parent?, rfl, -⟩ c
      exact lower_maker c _ _ _

/-- A name that is not one of the class stays where it is. -/
lemma confined_build_of_notMem (hP : P = (fun _ => False) ∨ ∃ cls : ClassOf s, P = Makes cls y)
    (h : cls.Is .cls) (hl : isLowerable cls = true) (hc : cls.Confined (y ∈ ·.names) P)
    (hk : y ∉ knownNames) (hy : y ∉ name :: parent?.toList) :
    (build name parent? cls).Confined (y ∈ ·.names) P := by
  simp only [knownNames, mem_cons, not_mem_nil, or_false, not_or] at hk
  rw [mem_cons, not_or] at hy
  have hparent : y ≠ parent?.getD "Object" := by
    cases parent? with
    | none => exact hk.1
    | some x => simpa using hy.2
  refine confined_build (neutral_names hP) h hl hc ?_ (by simpa [Tag.names] using hy.1) fun x hx => ?_
  · simp only [mem_cons, not_mem_nil, or_false, Tag.names]
    rintro x (rfl | rfl | rfl | rfl)
    · exact hy.1
    · exact hparent
    · exact hk.1
    · exact hk.2
  · intro hmem
    rw [Tag.names, mem_singleton] at hmem
    exact hy.2 (hmem ▸ Option.mem_toList.mpr hx)

/-- A name of the class stands in the function that makes it. -/
lemma confined_build_of_mem {a : ClassOf s} (ha : (lower a.1 w).1 = cls) (h : cls.Is .cls)
    (hl : isLowerable cls = true) (hc : y ∉ cls.names) (hy : (name :: parent?.toList).count y = 1) :
    (build name parent? cls).Confined (y ∈ ·.names) (Makes a y) := by
  obtain ⟨sc, sm, ms, hs, he, hm, -, -⟩ := cls_shape h
  have hms : ∀ m ∈ ms, MemberShape m := fun m hmem =>
    memberShape (hm.1.kid hmem) (all_eq_true.mp hl m (by rw [he]; exact hmem))
  have hnames : y ∉ ms.flatMap names ∧ y ∉ hs.flatMap names := by
    simpa [he, names_mk, Tag.names] using hc
  have hone : (maker name parent? ms).bindings.count y = 1 :=
    (count_bindings_maker hms fun m hmem hym =>
      hnames.1 (mem_flatMap.mpr ⟨m, hmem, hym⟩)).trans hy
  refine .node (by simp [Tag.names]) (forall_mem_cons.mpr ⟨.part ?_, fun k hk => ?_⟩)
  · have hmem : y ∈ name :: parent?.toList := count_pos_iff.mp (by omega)
    refine ⟨w, name, parent?, ?_, hmem, ?_⟩
    · rw [ha]
    · rw [ha, he]
      exact hone
  · refine confined_of_notMem fun hyk => hnames.2 (mem_flatMap.mpr ⟨k, ?_, hyk⟩)
    rw [he] at hk
    exact mem_of_mem_head? (Option.mem_toList.mp hk)

/-- The call that builds a class. Of the names of the class, `ns` are given with its definition `n`, and
`ds` are drawn. -/
lemma hygienic_build {a : ClassOf s} {ns : List String} (hn : n.names = ns ++ a.1.names)
    (hall : name :: parent?.toList = ns ++ ds) (ha : (lower a.1 w).1 = cls) (h : cls.Is .cls)
    (hl : isLowerable cls = true) (hk : HygienicKids (Makes (s := s)) knownNames [a.1] [cls] cs)
    (hd : Drawn (cs ++ ds) n.names) : Hygienic (Makes (s := s)) knownNames n (build name parent? cls) (cs ++ ds) := by
  obtain ⟨-, hds, hdisj⟩ := nodup_append.mp hd.nodup
  -- Names that are not in the parts of the class before are not there after.
  have hfree : ∀ y, y ∉ n.names → y ∉ cs → y ∉ knownNames → y ∉ ns ∧ y ∉ cls.names := by
    intro y hy hc hk'
    rw [hn, mem_append, not_or] at hy
    exact ⟨hy.1, hk.free y (by simpa using hy.2) hc hk' cls (by simp)⟩
  constructor
  · intro y hy hdrawn hknown
    rw [mem_append, not_or] at hdrawn
    obtain ⟨hns, hcls⟩ := hfree y hy hdrawn.1 hknown
    refine notMem_names_iff.mpr (confined_build_of_notMem (s := s) (.inl rfl) h hl
      (notMem_names_iff.mp hcls) hknown ?_)
    rw [hall, mem_append, not_or]
    exact ⟨hns, hdrawn.2⟩
  · intro y hy hknown
    have hfresh := hd.fresh y hy
    rcases mem_append.mp hy with hc | hc
    · obtain ⟨b, hb⟩ := hk.housed y hc hknown
      refine ⟨b, confined_build_of_notMem (.inr ⟨b, rfl⟩) h hl (hb cls (by simp)) hknown ?_⟩
      rw [hn, mem_append, not_or] at hfresh
      rw [hall, mem_append, not_or]
      exact ⟨hfresh.1, fun hmem => hdisj y hc y hmem rfl⟩
    · obtain ⟨hns, hcls⟩ := hfree y hfresh (fun hmem => hdisj y hmem y hc rfl) hknown
      refine ⟨a, confined_build_of_mem ha h hl hcls ?_⟩
      rw [hall, count_append, count_eq_zero_of_not_mem hns, Nat.zero_add]
      exact count_eq_one_of_mem hds hc

end Build

/-- What becomes of a part of a script, with the names that are drawn in it. -/
def Renders (script : Script) (n n' : Node) (cs : List String) : Prop :=
  n.WellFormed → (∀ m, m.Within n → script.Contains m) →
    Kept n n' ∧ (Drawn cs n.names → Hygienic (Makes (s := script)) knownNames n n' cs)

/-- **Each step is hygienic.** -/
lemma hygienic_step {script : Script} {ks' : List Node} {n' : Node} {c d : Nat}
    (hE : EachNamed (fun k k' cs _ => (∃ w, (lower k w).1 = k') ∧ Renders script k k' cs) ks ks' cs c)
    (hR : NamedRule (mk s t ks') n' ds d) : Renders script (mk s t ks) n' (cs ++ ds) := by
  intro h hin
  have hkid : ∀ k ∈ ks, k.WellFormed ∧ ∀ m, m.Within k → script.Contains m := fun k hk =>
    ⟨h.kid hk, fun m hm => hin m (.kid hk hm)⟩
  have hE' : Each (fun k k' _ => k.WellFormed → Kept k k') ks ks' c :=
    (hE.mono fun k hk k' cs c hr => (hr.2 (hkid k hk).1 (hkid k hk).2).1).each fun _ _ _ _ hr _ => hr
  refine ⟨kept_step hE' hR.ruled h, fun hd => ?_⟩
  have hw : (mk s t ks').WellFormed := (kept_mk (hE'.forall₂ fun k hk k' d hr => hr (h.kid hk)) h).is.1
  have hkids : HygienicKids (Makes (s := script)) knownNames ks ks' cs := by
    refine hygienic_kids (hE.mono fun k hk k' cs c hr => (hr.2 (hkid k hk).1 (hkid k hk).2).2) ?_
    exact hd.kids.sub (sublist_append_left cs ds) (Subset.refl _)
  -- Where a class is replaced, its definition has the class as its only child.
  have hdef : ∀ {cls' : Node}, ks' = [cls'] → cls'.Is .cls → ∃ (a : ClassOf script) (w : Walk),
      ks = [a.1] ∧ (lower a.1 w).1 = cls' := by
    rintro cls' rfl hcls'
    cases hE with
    | @cons cls _ _ _ _ _ _ _ hr hnil =>
      cases hnil
      obtain ⟨w, hlower⟩ := hr.1
      have hrole : cls.role = .cls := by
        rw [← (hr.2 (hkid cls (by simp)).1 (hkid cls (by simp)).2).1.is.2]
        exact hcls'.2
      obtain ⟨sc, cks, rfl⟩ := eq_of_role hrole rfl
      exact ⟨⟨_, hin _ (.kid (by simp) .refl), rfl⟩, w, rfl, hlower⟩
  cases hR with
  | keep =>
    rw [append_nil] at hd ⊢
    exact hygienic_mk hd hkids
  | @decl _ i cls' parent? hl =>
    have hcls := cls_of_def hw (.inl ⟨i, rfl⟩)
    obtain ⟨a, w, rfl, ha⟩ := hdef rfl hcls
    have hn : (mk s (.classDecl i) [a.1]).names = [i.name] ++ a.1.names := by simp [names_mk, Tag.names]
    have hbuild : Hygienic (Makes (s := script)) knownNames (mk s (.classDecl i) [a.1])
        (build i.name parent? cls') (cs ++ parent?.toList) := hygienic_build hn rfl ha hcls hl hkids hd
    have hpattern : ∀ k ∈ [binding i.name], k.names ⊆ (mk s (.classDecl i) [a.1]).names := by
      rw [hn, forall_mem_singleton]
      exact subset_append_left ..
    exact (hbuild.wrap [binding i.name] hd rfl hpattern).wrap [] hd rfl nofun
  | @named _ i cls' parent? hl =>
    have hcls := cls_of_def hw (.inr ⟨_, rfl⟩)
    obtain ⟨a, w, rfl, ha⟩ := hdef rfl hcls
    have hn : (mk s (.classExpr (some i)) [a.1]).names = [i.name] ++ a.1.names := by
      simp [names_mk, Tag.names]
    exact hygienic_build hn rfl ha hcls hl hkids hd
  | @anonymous _ cls' name parent? hl =>
    have hcls := cls_of_def hw (.inr ⟨_, rfl⟩)
    obtain ⟨a, w, rfl, ha⟩ := hdef rfl hcls
    have hn : (mk s (.classExpr none) [a.1]).names = [] ++ a.1.names := by simp [names_mk, Tag.names]
    exact hygienic_build hn rfl ha hcls hl hkids hd

/-! ## Scripts -/

/-- The state in which the lowering of a script ends. -/
def finish (s : Script) : Walk := ((s.body.mapM lower).run { names := .ofScript s }).2

/-- **Every name that is drawn stays in the functions that make the class that it was drawn for.** -/
theorem lowerScript_hygienic {s : Script} (h : s.WellFormed) : ∃ drawn,
    (finish s).names.taken = drawn ++ s.names ∧ Drawn drawn s.names ∧
    ∀ y ∈ drawn, ∃ cls : ClassOf s, (lowerScript s).1.tree.Confined (y ∈ ·.names) (Makes cls y) := by
  obtain ⟨cs, c, hm, hE⟩ := eachNamed_mapM Moves.refl Moves.trans lower s.body
    (R := fun k k' cs _ => Renders s k k' cs)
    (fun k _ => lower_named (fun _ _ _ _ _ _ _ _ _ hE hR => hygienic_step hE hR) k)
    { names := .ofScript s }
  obtain ⟨new, htaken, hdrawn, hperm⟩ := hm.names
  have hcs : Drawn cs (s.body.flatMap Node.names) := hdrawn.perm hperm
  have hkids := hygienic_kids (hE.mono fun k hk k' cs c hr =>
    (hr (h k hk).1 fun m hm => ⟨k, hk, hm⟩).2) hcs
  refine ⟨new, htaken, hdrawn, fun y hy => ?_⟩
  obtain ⟨cls, hcls⟩ := hkids.housed y (hperm.mem_iff.mp hy) (notMem_knownNames hdrawn hy)
  exact ⟨cls, .node (by simp [Tag.names]) hcls⟩

end EcmaLower.Class
