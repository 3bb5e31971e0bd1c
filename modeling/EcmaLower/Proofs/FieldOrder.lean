import EcmaLower.Proofs.SuperUses

/-!
# When the fields of an instance are initialized

In a derived class the fields of an instance are to be initialized when the parent constructor has run.
The lowering puts their initializers behind the first statement that is a call of the parent and nothing
else, and behind the directives if there is no such statement. A call of the parent may stand anywhere in
the constructor, though: in a declaration, in a branch, in an arrow. This module says when the place is the
right one.

The order of events is that of the paths through the constructor. A path takes the parameters and the
statements in order and may end early; within a statement the events that may happen there do, in any order
and number. What stands in an arrow may happen in any part of the code, since the arrow may be called there.

## Main results

* `Class.callsParent_rewritten` — the code that is written calls the parent where the member does.
* `Class.exists_runs_iff` — when one event comes before another one on some path.
* `Class.fields_follow_parent_iff` — when the fields are initialized in the right place.
-/

namespace EcmaLower

open Node Build SuperContext Option List

variable {n st n' ps ps' r : Node} {stmts args stmts' inits l new : List Node} {e : Event} {es : List Event} {i : Nat}

/-- Whether a node calls the parent constructor. -/
def Tag.isSuperCall : Tag → Bool
  | .superCall _ => true
  | _ => false

namespace Class

/-- Whether a node calls a function with a receiver of its own: `f.call(…)` or `f.apply(…)`. -/
def isCallOf (f : String) : Node → Bool
  | .mk _ .call (.mk _ .member [.mk _ (.ident x) _, .mk _ (.keyName k) _] :: _) =>
    x == f && (k == "call" || k == "apply")
  | _ => false

/-- Code of a member calls the parent constructor: where it runs, or in an arrow. -/
def CallsSuper (deferred : Bool) (n : Node) : Prop :=
  Finds ownParts (fun m a => a.tag.isSuperCall = true ∧ m.deferred = deferred) ⟨.read, false⟩ n

/-- The code that is written for a member calls the parent: where it runs, or in an arrow. -/
def CallsParent (parent : String) (deferred : Bool) (n : Node) : Prop :=
  Finds ownParts (fun m a => isCallOf parent a = true ∧ m.deferred = deferred) ⟨.read, false⟩ n

section Calls

variable {known : List String} {c : SuperContext} {parent : String} {deferred : Bool}

lemma isCallOf_member {x : String} (hx : isPlainName x = true) (h : x = "call" ∨ x = "apply") :
    isCallOf parent (call (member (ident parent) x) args) = true := by
  rw [member, if_pos hx]
  simpa [isCallOf, call, access, make, ident] using h

lemma isCallOf_callOn : isCallOf parent (callOn (ident parent) r args) = true := by
  unfold callOn
  split
  · exact isCallOf_member rfl (.inr rfl)
  · exact isCallOf_member rfl (.inl rfl)

lemma eq_of_isCallOf (h : isCallOf parent n = true) : ∃ s sm so sk x ks₁ ks₂ args, n = mk s .call (mk sm .member
      [mk so (.ident parent) ks₁, mk sk (.keyName x) ks₂] :: args) := by
  unfold isCallOf at h
  split at h
  · rename_i s sm so x ks₁ sk k ks₂ args
    simp only [Bool.and_eq_true, beq_iff_eq] at h
    exact ⟨s, sm, so, sk, k, ks₁, ks₂, args, by rw [h.1]⟩
  · cases h

lemma mem_names_of_isCallOf (h : isCallOf parent n = true) : parent ∈ n.names := by
  obtain ⟨_, _, _, _, _, _, _, _, rfl⟩ := eq_of_isCallOf h
  exact mem_names_of_within (.kid (mem_cons_self ..) (.kid (mem_cons_self ..) .refl))
    (mem_singleton.mpr rfl)

lemma tag_of_isCallOf (h : isCallOf parent n = true) : n.tag = .call := by
  obtain ⟨_, _, _, _, _, _, _, _, rfl⟩ := eq_of_isCallOf h
  rfl

lemma not_isCallOf {f : Node} (hf : f.tag ≠ .ident parent) : isCallOf parent (callOn f r args) = false := by
  refine eq_false_of_ne_true fun h => ?_
  obtain ⟨s, sm, so, sk, x, ks₁, ks₂, args', heq⟩ := eq_of_isCallOf h
  have hcallee : ∀ {y : String} {args : List Node}, isPlainName y = true →
      call (member f y) args ≠ mk s .call (mk sm .member
        [mk so (.ident parent) ks₁, mk sk (.keyName x) ks₂] :: args') := by
    intro y args hy heq
    rw [member, if_pos hy] at heq
    obtain ⟨-, -, hks⟩ := mk.inj heq
    obtain ⟨-, -, hmember⟩ := mk.inj (cons.inj hks).1
    exact hf (congrArg tag (cons.inj hmember).1)
  unfold callOn at heq
  split at heq
  · exact hcallee rfl heq
  · exact hcallee rfl heq

lemma tag_member_ne {o : Node} {x : String} : (member o x).tag ≠ .call := by
  unfold member
  split <;> exact nofun

lemma yields_call (hc : c.parent = ident parent) :
    Yields c (fun m a => a.tag.isSuperCall = true ∧ m.deferred = deferred)
      (fun m a => isCallOf parent a = true ∧ m.deferred = deferred) where
  tag {m a} h := by
    obtain ⟨s, t, ks⟩ := a
    cases t <;> first | rfl | cases h.1
  call h := finds_iff.mpr (.inl ⟨hc ▸ isCallOf_callOn, h.2⟩)
  methodCall h := by cases h.1
  store h := by cases h.1
  read _ h := by cases h.1

lemma stems_call (hrec : parent ∉ c.receiver.names) :
    Stems c parent (fun m a => a.tag.isSuperCall = true ∧ m.deferred = deferred)
      (fun m a => isCallOf parent a = true ∧ m.deferred = deferred) where
  tag m a h := .inl (tag_of_isCallOf h.1)
  names h := mem_names_of_isCallOf h.1
  call h := ⟨rfl, h.2⟩
  callee _ h := absurd (tag_of_isCallOf h.1) tag_member_ne
  methodCall {m key args} h := by
    have hhome : (c.home key).tag ≠ .ident parent := nofun
    rw [not_isCallOf hhome] at h
    cases h.1
  method h := absurd (tag_of_isCallOf h.1) tag_member_ne
  value h := by cases tag_of_isCallOf h.1
  proto h := by cases tag_of_isCallOf h.1
  target h := by cases tag_of_isCallOf h.1
  read _ h := by cases tag_of_isCallOf h.1
  plain {m s t ks} h hu hnames hQ := by
    obtain ⟨_, sm, so, sk, x, ks₁, ks₂, args, heq⟩ := eq_of_isCallOf hQ.1
    obtain ⟨-, rfl, hks⟩ := mk.inj heq
    cases ks with
    | nil => cases hks
    | cons callee args =>
      have hin : parent ∉ callee.names := fun hmem =>
        hnames (names_subset_of_within (.kid (mem_cons_self ..) .refl) hmem)
      obtain ⟨-, key, hkey⟩ := isStatic_of_lower hrec hin (cons.inj hks).1 rfl
      simp [use, hkey] at hu

/-- Lowering the classes in the code of a member keeps its calls of the parent. -/
lemma callsSuper_lowers (hL : Lowers known n n') (h : n.WellFormed) :
    CallsSuper deferred n' ↔ CallsSuper deferred n := by
  constructor
  · rintro ⟨m, a', hr, ha', hm⟩
    obtain ⟨s, t, ks⟩ := a'
    obtain ⟨a, haL, hr⟩ := reaches_of_lowers hr hL h (by cases t <;> first | rfl | cases ha')
    refine ⟨m, a, hr, ?_, hm⟩
    cases haL with
    | node _ _ hR _ =>
      cases hR with
      | keep => exact ha'
      | decl | named | anonymous => cases ha'
  · rintro ⟨m, a, hr, ha, hm⟩
    obtain ⟨a', haL, hr'⟩ := reaches_lowers hr hL h
    obtain ⟨s, t, ks⟩ := a
    obtain ⟨ks', rfl, -⟩ := haL.keep (h.within (within_of_reaches hr)) (by cases t <;> first | rfl | cases ha)
    exact ⟨m, _, hr', ha, hm⟩

lemma not_callsParent (h : parent ∉ n.names) : ¬CallsParent parent deferred n :=
  fun ⟨_, _, hr, ha, _⟩ => h (names_subset_of_within (within_of_reaches hr) (mem_names_of_isCallOf ha))

/-- The calls of the parent when `super` is lowered. -/
lemma callsParent_lower (hc : c.parent = ident parent) (hrec : parent ∉ c.receiver.names) (h : n.WellFormed)
    (hno : n.any isLowered = false) (hn : parent ∉ n.names) :
    CallsParent parent deferred (c.lower n) ↔ CallsSuper deferred n :=
  ⟨(stems_call hrec).finds_of_lower hc hrec h hno hn (.inl rfl), (yields_call hc).finds_lower h hno (.inl rfl)⟩

/-- **The calls of the parent** in the code that is written for a member are those of the member. -/
theorem callsParent_rewritten (hc : c.parent = ident parent) (hrec : parent ∉ c.receiver.names)
    (hL : Lowers known n n') (h : n.WellFormed) (hn : parent ∉ n'.names) :
    CallsParent parent deferred (c.lower n') ↔ CallsSuper deferred n :=
  (callsParent_lower hc hrec (hL.wellFormed h) (hL.not_isLowered h) hn).trans (callsSuper_lowers hL h)

/-! ## The initializers of fields -/

lemma not_callsSuper_leaf {s : Span} {t : Tag} (ht : isPlainTag t = true) (h : t.isSuperCall = false) :
    ¬CallsSuper deferred (mk s t []) := by
  rw [CallsSuper, finds_mk ht]
  rintro (⟨hcall, -⟩ | ⟨i, k, hk, -⟩)
  · rw [show t.isSuperCall = true from hcall] at h
    cases h
  · cases hk

lemma callsSuper_keyAsMember {k : Node} (hk : k.OfRole Role.isPublicKey) :
    CallsSuper deferred (keyAsMember k) ↔ CallsSuper deferred k := by
  have hcomputed : ∀ {s : Span} {t : Tag}, isPlainTag t = true → t.isSuperCall = false →
      ¬CallsSuper deferred (computedKey (mk s t [])) := by
    intro s t ht h hcalls
    rcases (finds_reading rfl rfl fun _ => rfl).mp hcalls with ⟨hcall, -⟩ | ⟨e, he, hcalls⟩
    · cases hcall
    · exact not_callsSuper_leaf ht h (mem_singleton.mp he ▸ hcalls)
  cases keyShape hk with
  | name | computed => rfl
  | str | num | bigInt => exact iff_of_false (hcomputed rfl rfl) (not_callsSuper_leaf rfl rfl)

lemma names_keyAsMember {k : Node} (hk : k.OfRole Role.isPublicKey) : (keyAsMember k).names ⊆ k.names := by
  cases keyShape hk <;> exact fun _ h => h

/-- The calls of the parent in the statement that initializes a field. -/
lemma callsParent_init {key value : Node} : CallsParent parent deferred (exprStmt (assign (access this key) value)) ↔
      CallsParent parent deferred key ∨ CallsParent parent deferred value := by
  have hnot : ∀ {m : Mark} {s : Span} {t : Tag} {ks : List Node}, t ≠ .call →
      ¬(isCallOf parent (mk s t ks) = true ∧ m.deferred = deferred) :=
    fun ht h => ht (tag_of_isCallOf h.1)
  have hthis : ∀ {m : Mark}, ¬Finds ownParts (fun m a => isCallOf parent a = true ∧ m.deferred = deferred) m
      this := by
    intro m
    rw [finds_iff]
    rintro (h | ⟨_, h, -⟩)
    · exact hnot (m := m) (t := .this) (by simp) h
    · cases h
  constructor
  · intro h
    obtain ⟨e, he, h⟩ := ((finds_reading rfl rfl fun _ => rfl).mp h).resolve_left (hnot (by simp))
    obtain rfl := mem_singleton.mp he
    rcases (finds_assign.mp h).resolve_left (hnot (by simp)) with h | h
    · exact .inl (((finds_access.mp h).resolve_left (hnot (by simp))).resolve_left hthis)
    · exact .inr h
  · intro h
    refine (finds_reading rfl rfl fun _ => rfl).mpr (.inr ⟨_, mem_singleton.mpr rfl, ?_⟩)
    refine finds_assign.mpr (.inr (h.imp_left fun h => ?_))
    exact finds_access.mpr (.inr (.inr h))

/-- **The statement that initializes a field calls the parent** iff the field does. -/
lemma callsParent_initField {m m' : Node} (hm : LoweredMember known m m') (ht : m.tag = .field false)
    (hn : parent ∉ m'.names) : CallsParent parent deferred ((instanceContext (ident parent)).lower
      (initField this m')) ↔ ∃ k ∈ m.kids, CallsSuper deferred k := by
  have hw := hm.wellFormed
  have hrec : parent ∉ (instanceContext (ident parent)).receiver.names := not_mem_nil
  obtain ⟨s, k, k', v, v', rfl, rfl, hkL, hvL, hk', hlen, hparts⟩ := field_parts hm ht
  have hin : ∀ {x : Node}, x ∈ k' :: v' → parent ∉ x.names := fun hx hmem =>
    hn (names_subset_of_within (.kid hx .refl) hmem)
  have hkey : CallsParent parent deferred ((instanceContext (ident parent)).lower (keyAsMember k')) ↔
      CallsSuper deferred k := by
    have hwk := hw.kid (mem_cons_self ..)
    have hno : (keyAsMember k').any isLowered = false := (any_keyAsMember hk').trans (hkL.not_isLowered hwk)
    rw [callsParent_lower rfl hrec (is_keyAsMember hk').1 hno fun h => hin (mem_cons_self ..)
      (names_keyAsMember hk' h), callsSuper_keyAsMember hk', callsSuper_lowers hkL hwk]
  rw [lower_initField, hparts, callsParent_init, hkey, kids_mk, exists_mem_cons_iff]
  refine or_congr_right ?_
  match v, v', hvL, hlen with
  | [], [], _, _ =>
    rw [head?_nil, getD_none, lower_undefined]
    refine iff_of_false (not_callsParent not_mem_nil) (by simp)
  | [x], [x'], .cons hx _, _ =>
    rw [head?_cons, getD_some, callsParent_rewritten rfl hrec hx (hw.kid (by simp)) (hin (by simp))]
    simp

end Calls

/-! ## Paths through a constructor -/

/-- What a constructor does, as far as the order of its fields goes. -/
inductive Event
  | parentCall
  | fieldInit
deriving DecidableEq, Repr

/-- A path through code with what happens on it. In each part of the code any of the events that may happen
there do, in any order and number; the path may end early. -/
inductive Runs {α : Type} (may : α → Event → Prop) : List α → List Event → Prop
  | stop {l : List α} : Runs may l []
  | step {x : α} {l : List α} {es es' : List Event} : (∀ e ∈ es, may x e) → Runs may l es' →
    Runs may (x :: l) (es ++ es')

section Runs

variable {α : Type} {may : α → Event → Prop} {l : List α}

lemma Runs.exists_of_mem (h : Runs may l es) (he : e ∈ es) : ∃ x ∈ l, may x e := by
  induction h with
  | stop => cases he
  | @step x l es es' hes _ ih =>
    rcases mem_append.mp he with he | he
    · exact ⟨x, mem_cons_self .., hes e he⟩
    · obtain ⟨y, hy, hmay⟩ := ih he
      exact ⟨y, mem_cons_of_mem _ hy, hmay⟩

lemma Runs.behind (h : Runs may l es) (l₀ : List α) : Runs may (l₀ ++ l) es := by
  induction l₀ with
  | nil => exact h
  | cons x l₀ ih =>
    have hnone : ∀ e ∈ ([] : List Event), may x e := by simp
    exact .step hnone ih

lemma runs_of_mem {x : α} (hx : x ∈ l) (hmay : may x e) : Runs may l [e] := by
  obtain ⟨l₁, l₂, rfl⟩ := append_of_mem hx
  have hone : ∀ e' ∈ [e], may x e' := fun e' he => mem_singleton.mp he ▸ hmay
  exact Runs.behind (.step hone .stop) l₁

/-- **Two events happen one after the other** on some path iff the second one may happen in the same part of
the code as the first one, or further on. -/
theorem exists_runs_iff {a b : Event} : (∃ es, Runs may l es ∧ [a, b].Sublist es) ↔
    ∃ l₁ x l₂, l = l₁ ++ x :: l₂ ∧ may x a ∧ ∃ y ∈ x :: l₂, may y b := by
  constructor
  · rintro ⟨es, hruns, hab⟩
    induction hruns with
    | stop => cases hab
    | @step x l es es' hes hruns ih =>
      obtain ⟨k₁, k₂, heq, h₁, h₂⟩ := sublist_append_iff.mp hab
      match k₁, heq with
      | [], heq =>
        obtain ⟨l₁, y, l₂, rfl, hy⟩ := ih (heq ▸ h₂)
        exact ⟨x :: l₁, y, l₂, rfl, hy⟩
      | [_], heq =>
        obtain ⟨rfl, rfl⟩ := cons.inj heq
        obtain ⟨y, hy, hmay⟩ := hruns.exists_of_mem (h₂.subset (mem_singleton.mpr rfl))
        exact ⟨[], x, l, rfl, hes _ (h₁.subset (mem_singleton.mpr rfl)), y, mem_cons_of_mem _ hy, hmay⟩
      | _ :: _ :: k, heq =>
        obtain ⟨rfl, hk⟩ := cons.inj heq
        obtain ⟨rfl, -⟩ := cons.inj hk
        exact ⟨[], x, l, rfl, hes _ (h₁.subset (by simp)), x, mem_cons_self .., hes _ (h₁.subset (by simp))⟩
  · rintro ⟨l₁, x, l₂, rfl, ha, y, hy, hb⟩
    rcases mem_cons.mp hy with rfl | hy
    · have hboth : ∀ e ∈ [a, b], may y e := by simp [ha, hb]
      exact ⟨[a, b], Runs.behind (.step hboth .stop) l₁, .refl _⟩
    · have hone : ∀ e ∈ [a], may x e := by simp [ha]
      exact ⟨[a, b], Runs.behind (.step hone (runs_of_mem hy hb)) l₁, .refl _⟩

end Runs

/-- The code of a constructor in the order in which it runs. The statements that initialize fields are
marked. -/
def constructorCode (params : Node) (before inits after : List Node) : List (Bool × Node) :=
  (false, params) :: (before.map (false, ·) ++ inits.map (true, ·) ++ after.map (false, ·))

/-- What may happen in a part of the code of a constructor. Arrows may be called anywhere. -/
def May (parent : String) (code : List (Bool × Node)) (x : Bool × Node) : Event → Prop
  | .parentCall => CallsParent parent false x.2 ∨ ∃ y ∈ code, CallsParent parent true y.2
  | .fieldInit => x.1 = true

/-- The fields are initialized directly after every statement that calls the parent, and on no path before
a call of the parent. -/
structure FieldsFollow (parent : String) (params : Node) (before inits after : List Node) : Prop where
  directly : ∀ i st, (before ++ inits ++ after)[i]? = some st → CallsParent parent false st → i + 1 = before.length
  paths : ∀ es, Runs (May parent (constructorCode params before inits after))
    (constructorCode params before inits after) es → ¬[Event.fieldInit, Event.parentCall].Sublist es

section Follow

variable {parent : String} {params : Node} {before inits after : List Node}

lemma map_snd_constructorCode (params : Node) (before inits after : List Node) :
    (constructorCode params before inits after).map (·.2) = params :: (before ++ inits ++ after) := by
  simp [constructorCode, Function.comp_def]

/-- The marked statements stand behind the first ones. -/
lemma lt_of_marked {x : Bool × Node} (hx : (constructorCode params before inits after)[i]? = some x)
    (h : x.1 = true) : before.length < i := by
  by_contra hle
  have hmem : x ∈ (false, params) :: before.map (false, ·) := by
    have hcode : constructorCode params before inits after = ((false, params) :: before.map (false, ·)) ++
        (inits.map (true, ·) ++ after.map (false, ·)) := by simp [constructorCode]
    rw [hcode, getElem?_append_left (by simp; omega)] at hx
    exact mem_of_getElem? hx
  have hfalse : ∀ y ∈ (false, params) :: before.map (false, ·), y.1 = false := by simp
  rw [hfalse x hmem] at h
  cases h

/-- If there are fields, no call of the parent can be put off. -/
lemma fieldsFollow_iff (hi : inits ≠ []) : FieldsFollow parent params before inits after ↔
    (∀ i st, (before ++ inits ++ after)[i]? = some st → CallsParent parent false st → i + 1 = before.length) ∧
      ∀ n ∈ params :: (before ++ inits ++ after), ¬CallsParent parent true n := by
  have hmap := map_snd_constructorCode params before inits after
  constructor
  · intro h
    refine ⟨h.directly, fun n hn hcalls => ?_⟩
    obtain ⟨x, hx, rfl⟩ := mem_map.mp (hmap ▸ hn)
    obtain ⟨init, inits', rfl⟩ := exists_cons_of_ne_nil hi
    have hsplit : constructorCode params before (init :: inits') after =
        ((false, params) :: before.map (false, ·)) ++ (true, init) ::
          (inits'.map (true, ·) ++ after.map (false, ·)) := by simp [constructorCode]
    set may := May parent (constructorCode params before (init :: inits') after)
    have hinit : may (true, init) .fieldInit := rfl
    have hcall : may (true, init) .parentCall := .inr ⟨x, hx, hcalls⟩
    obtain ⟨es, hruns, hsub⟩ := exists_runs_iff.mpr
      ⟨_, _, _, hsplit, hinit, _, mem_cons_self .., hcall⟩
    exact h.paths es hruns hsub
  · rintro ⟨hdirectly, hdeferred⟩
    refine ⟨hdirectly, fun es hruns hsub => ?_⟩
    obtain ⟨l₁, x, l₂, heq, hx, y, hy, hcalls⟩ := exists_runs_iff.mp ⟨es, hruns, hsub⟩
    have hlt : before.length < l₁.length := by
      have hfirst : (constructorCode params before inits after)[l₁.length]? = some x := by rw [heq]; simp
      exact lt_of_marked hfirst hx
    obtain ⟨k, hk⟩ := getElem?_of_mem hy
    have hat : (constructorCode params before inits after)[l₁.length + k]? = some y := by
      rw [heq, getElem?_append_right (Nat.le_add_right ..), Nat.add_sub_cancel_left]
      exact hk
    have hst : (before ++ inits ++ after)[l₁.length + k - 1]? = some y.2 := by
      have hsnd := congrArg (Option.map (·.2)) hat
      rw [← getElem?_map, hmap, show l₁.length + k = l₁.length + k - 1 + 1 by omega] at hsnd
      exact hsnd
    rcases hcalls with hcalls | ⟨z, hz, hcalls⟩
    · have := hdirectly _ _ hst hcalls
      omega
    · exact hdeferred z.2 (hmap ▸ mem_map_of_mem hz) hcalls

end Follow

/-! ## The place of the initializers -/

section Place

variable {known : List String}

lemma isSuperCall_iff : isSuperCall st = true ↔ ∃ s sc w args, st = mk s .exprStmt [mk sc (.superCall w) args] := by
  obtain ⟨s, t, ks⟩ := st
  constructor
  · intro h
    unfold isSuperCall at h
    split at h
    · rename_i htag hkids
      exact ⟨s, _, _, _, by rw [show t = .exprStmt from htag, show ks = [_] from hkids]⟩
    · cases h
  · rintro ⟨_, _, _, _, h⟩
    rw [h]
    rfl

lemma isSuperCall_lowers {st' : Node} (hL : Lowers known st st') (h : st.WellFormed) :
    isSuperCall st' = isSuperCall st := by
  refine Bool.eq_iff_iff.mpr ⟨fun hs => ?_, fun hs => ?_⟩
  · obtain ⟨s, sc, w, args, rfl⟩ := isSuperCall_iff.mp hs
    cases hL with
    | node hks _ hR _ =>
      cases hR with
      | keep =>
        obtain ⟨e, _, he, ⟨⟩, rfl⟩ := forall₂_cons_right_iff.mp hks
        cases he with
        | node _ _ hRe _ =>
          cases hRe with
          | keep => exact isSuperCall_iff.mpr ⟨_, _, _, _, rfl⟩
  · obtain ⟨s, sc, w, args, rfl⟩ := isSuperCall_iff.mp hs
    obtain ⟨_, rfl, hks⟩ := hL.keep h rfl
    obtain ⟨e', _, he, ⟨⟩, rfl⟩ := forall₂_cons_left_iff.mp hks
    obtain ⟨_, rfl, -⟩ := he.keep (h.kid (mem_singleton.mpr rfl)) rfl
    rfl

lemma fieldsIndex_lowers (hL : Forall₂ (Lowers known) stmts stmts') (hw : ∀ st ∈ stmts, st.WellFormed) :
    fieldsIndex stmts' = fieldsIndex stmts := by
  have hcalls : stmts'.map isSuperCall = stmts.map isSuperCall :=
    map_eq_of_forall₂ (forall₂_imp_mem hL fun st hst st' h => isSuperCall_lowers h (hw st hst)) fun _ _ h => h
  have hfind : stmts'.findIdx? isSuperCall = stmts.findIdx? isSuperCall := by
    have := congrArg (findIdx? id) hcalls
    simpa [findIdx?_map] using this
  have hdirectives : stmts'.takeWhile isDirective = stmts.takeWhile isDirective :=
    takeWhile_eq_of_forall₂ (forall₂_imp_mem hL fun st hst st' hL => hL.keepsDirective (hw st hst))
  rw [fieldsIndex, fieldsIndex, hfind, hdirectives]

lemma fieldsIndex_le (stmts : List Node) : fieldsIndex stmts ≤ stmts.length := by
  unfold fieldsIndex
  split
  · rename_i i hi
    exact (findIdx?_eq_some_iff_getElem.mp hi).1
  · exact (List.takeWhile_prefix isDirective).length_le

lemma getElem?_insertAt {n : Nat} (hn : n ≤ l.length) (i : Nat) : (insertAt n new l)[i]? = if i < n then l[i]? else
      if i < n + new.length then new[i - n]? else l[i - new.length]? := by
  grind [insertAt]

/-- A property holds of no more than the statement before those that are inserted. -/
lemma forall_insertAt {D : Node → Prop} {n : Nat} (hn : n ≤ l.length) :
    (∀ i st, (insertAt n new l)[i]? = some st → D st → i + 1 = n) ↔
      (∀ st ∈ new, ¬D st) ∧ ∀ i st, l[i]? = some st → D st → i + 1 = n := by
  constructor
  · intro h
    refine ⟨fun st hst hD => ?_, fun i st hi hD => ?_⟩
    · obtain ⟨j, hj⟩ := getElem?_of_mem hst
      have := h (n + j) st (by rw [getElem?_insertAt hn]; grind) hD
      omega
    · by_cases hlt : i < n
      · exact h i st (by rw [getElem?_insertAt hn, if_pos hlt]; exact hi) hD
      · have := h (i + new.length) st (by rw [getElem?_insertAt hn]; grind) hD
        omega
  · rintro ⟨hnew, hl⟩ i st hi hD
    rw [getElem?_insertAt hn] at hi
    split at hi
    · exact hl i st hi hD
    · split at hi
      · exact absurd hD (hnew st (mem_of_getElem? hi))
      · have := hl _ st hi hD
        omega

end Place

/-! ## The constructor -/

/-- The only statement of a constructor that calls the parent, where it runs, is the first one that does
nothing else; no arrow and no field of an instance calls it. -/
structure ParentFirst (ms : List Node) : Prop where
  fields : ∀ m ∈ ms, m.tag = .field false → ∀ k ∈ m.kids, ∀ deferred, ¬CallsSuper deferred k
  params : ∀ s sb key ps stmts, mk s .ctor [key, ps, mk sb .block stmts] ∈ ms → ¬CallsSuper true ps
  stmts : ∀ s sb key ps stmts, mk s .ctor [key, ps, mk sb .block stmts] ∈ ms → ∀ i st,
    stmts[i]? = some st → ¬CallsSuper true st ∧ (CallsSuper false st → stmts.findIdx? isSuperCall = some i)

section Constructor

variable {known : List String} {parent : String} {sm : Span} {ms ms' : List Node}

lemma not_callsSuper_directive {deferred : Bool} (h : st.WellFormed) (hd : isDirective st = true) :
    ¬CallsSuper deferred st := by
  obtain ⟨s, sv, v, ks, rfl⟩ := isDirective_iff.mp hd
  obtain rfl : ks = [] := (h.kid (mem_singleton.mpr rfl)).leaf rfl
  intro hcalls
  rcases (finds_reading rfl rfl fun _ => rfl).mp hcalls with ⟨hcall, -⟩ | ⟨e, he, hcalls⟩
  · cases hcall
  · exact not_callsSuper_leaf rfl rfl (mem_singleton.mp he ▸ hcalls)

/-- The statement before the initializers of the fields, if it calls the parent. -/
lemma fieldsIndex_eq_iff (hi : stmts[i]? = some st) (h : st.WellFormed) (hcalls : CallsSuper false st) :
    i + 1 = fieldsIndex stmts ↔ stmts.findIdx? isSuperCall = some i := by
  unfold fieldsIndex
  split
  · rename_i j hj
    rw [hj]
    constructor
    · intro heq
      rw [Nat.succ.inj heq]
    · intro heq
      rw [some_inj.mp heq]
  · rename_i hnone
    rw [hnone]
    refine iff_of_false (fun heq => ?_) (by simp)
    exact not_callsSuper_directive h (isDirective_of_lt hi (by omega)) hcalls

section Members

variable (hL : Forall₂ (LoweredMember known) ms ms') (hnames : ∀ m' ∈ ms', parent ∉ m'.names)

include hL hnames in
lemma exists_fieldInits {deferred : Bool} : (∃ st ∈ fieldInits (ident parent) (Parts.ofMembers ms').fields,
    CallsParent parent deferred st) ↔ ∃ m ∈ ms, m.tag = .field false ∧ ∃ k ∈ m.kids, CallsSuper deferred k := by
  have hfields := forall₂_filter hL (· == .field false)
  have hn : ∀ m' ∈ ms'.filter (·.tag == .field false), parent ∉ m'.names :=
    fun m' hm' => hnames m' (mem_of_mem_filter hm')
  constructor
  · rintro ⟨_, hst, hcalls⟩
    obtain ⟨_, hinit, rfl⟩ := mem_map.mp hst
    obtain ⟨m', hm', rfl⟩ := mem_map.mp hinit
    obtain ⟨m, hm, hmL, ht⟩ := exists_mem_of_forall₂ hfields.flip hm'
    have ht := beq_iff_eq.mp ht
    exact ⟨m, mem_of_mem_filter hm, ht, (callsParent_initField hmL ht (hn m' hm')).mp hcalls⟩
  · rintro ⟨m, hm, ht, hcalls⟩
    obtain ⟨m', hm', hmL, -⟩ := exists_mem_of_forall₂ hfields (mem_filter.mpr ⟨hm, beq_iff_eq.mpr ht⟩)
    exact ⟨_, mem_map_of_mem (mem_map_of_mem hm'), (callsParent_initField hmL ht (hn m' hm')).mpr hcalls⟩

include hL hnames in
/-- The initializers of the fields call the parent nowhere iff the fields do not. -/
lemma forall_fieldInits : (∀ st ∈ fieldInits (ident parent) (Parts.ofMembers ms').fields, ∀ deferred,
    ¬CallsParent parent deferred st) ↔
      ∀ m ∈ ms, m.tag = .field false → ∀ k ∈ m.kids, ∀ deferred, ¬CallsSuper deferred k := by
  constructor
  · intro h m hm ht k hk deferred hcalls
    obtain ⟨st, hst, hcalls⟩ := (exists_fieldInits hL hnames).mpr ⟨m, hm, ht, k, hk, hcalls⟩
    exact h st hst deferred hcalls
  · intro h st hst deferred hcalls
    obtain ⟨m, hm, ht, k, hk, hcalls⟩ := (exists_fieldInits hL hnames).mp ⟨st, hst, hcalls⟩
    exact h m hm ht k hk deferred hcalls

end Members

lemma not_deferred_parentCalls (hst : st ∈ parentCalls (ident parent) true) : ¬CallsParent parent true st := by
  obtain rfl := mem_singleton.mp hst
  have hQ : ForAccesses fun m a => isCallOf parent a = true ∧ m.deferred = true :=
    fun m a h => .inl (tag_of_isCallOf h.1)
  have hleaf : ∀ {m : Mark} (t : Tag), t ≠ .call → ownParts m (make t []) = [] →
      ¬Finds ownParts (fun m a => isCallOf parent a = true ∧ m.deferred = true) m (make t []) := by
    intro m t ht hparts
    rw [finds_iff, hparts]
    rintro (h | ⟨_, h, -⟩)
    · exact ht (tag_of_isCallOf h.1)
    · cases h
  intro h
  obtain ⟨e, he, h⟩ := ((finds_reading rfl rfl fun _ => rfl).mp h).resolve_left
    fun h => by cases tag_of_isCallOf h.1
  obtain rfl := mem_singleton.mp he
  rcases finds_call.mp h with ⟨-, hd⟩ | h | h
  · cases hd
  · rcases finds_member hQ rfl h with h | h
    · cases tag_of_isCallOf h.1
    · exact hleaf (.ident parent) (by simp) rfl h
  · rw [exists_mem_cons_iff, exists_mem_cons_iff] at h
    rcases h with h | h | ⟨_, h, -⟩
    · exact hleaf .this (by simp) rfl h
    · exact hleaf (.ident "arguments") (by simp) rfl h
    · cases h

/-- A class without a constructor calls the parent first. -/
lemma fieldsFollow_implicit (hi : inits ≠ []) :
    FieldsFollow parent (params []) (parentCalls (ident parent) true) inits [] ↔
      ∀ st ∈ inits, ∀ deferred, ¬CallsParent parent deferred st := by
  rw [fieldsFollow_iff hi, append_nil]
  constructor
  · rintro ⟨hdirectly, hdeferred⟩ st hst deferred hcalls
    cases deferred with
    | true => exact hdeferred st (by simp [hst]) hcalls
    | false =>
      obtain ⟨j, hj⟩ := getElem?_of_mem hst
      have := hdirectly (j + 1) st hj hcalls
      simp [parentCalls] at this
  · intro h
    refine ⟨fun i st hi hcalls => ?_, fun n hn => ?_⟩
    · cases i with
      | zero => rfl
      | succ i => exact absurd hcalls (h st (mem_of_getElem? hi) false)
    · rcases mem_cons.mp hn with rfl | hn
      · exact not_callsParent not_mem_nil
      · rcases mem_append.mp hn with hn | hn
        · exact not_deferred_parentCalls hn
        · exact h n hn true

/-- Fields that are put after the first statement that only calls the parent, among statements that call the
parent where the source calls `super`. -/
lemma fieldsFollow_inserted (hi : inits ≠ []) (hps : CallsParent parent true ps' ↔ CallsSuper true ps)
    (hstmts : Forall₂ (fun st st' => st.WellFormed ∧ ∀ deferred, CallsParent parent deferred st' ↔ CallsSuper deferred st) stmts stmts') :
    FieldsFollow parent ps' (stmts'.take (fieldsIndex stmts)) inits (stmts'.drop (fieldsIndex stmts)) ↔
    (∀ st ∈ inits, ∀ deferred, ¬CallsParent parent deferred st) ∧ ¬CallsSuper true ps ∧
      ∀ i st, stmts[i]? = some st → ¬CallsSuper true st ∧
        (CallsSuper false st → stmts.findIdx? isSuperCall = some i) := by
  have hle : fieldsIndex stmts ≤ stmts'.length := hstmts.length_eq ▸ fieldsIndex_le stmts
  have hinsert : stmts'.take (fieldsIndex stmts) ++ inits ++ stmts'.drop (fieldsIndex stmts) =
      insertAt (fieldsIndex stmts) inits stmts' := rfl
  rw [fieldsFollow_iff hi, hinsert, length_take_of_le hle, forall_insertAt hle]
  constructor
  · rintro ⟨⟨hinits, hdirectly⟩, hdeferred⟩
    refine ⟨fun st hst deferred => ?_, ?_, fun i st hst => ?_⟩
    · cases deferred with
      | true => exact hdeferred st (mem_cons_of_mem _ (mem_insertAt.mpr (.inl hst)))
      | false => exact hinits st hst
    · exact fun h => hdeferred _ (mem_cons_self ..) (hps.mpr h)
    · obtain ⟨st', hst', hw, hcalls⟩ := exists_getElem? hstmts hst
      refine ⟨fun h => ?_, fun h => ?_⟩
      · refine hdeferred st' (mem_cons_of_mem _ (mem_insertAt.mpr (.inr ?_))) ((hcalls true).mpr h)
        exact mem_of_getElem? hst'
      · exact (fieldsIndex_eq_iff hst hw h).mp (hdirectly i st' hst' ((hcalls false).mpr h))
  · rintro ⟨hinits, hparams, hsource⟩
    refine ⟨⟨fun st hst => hinits st hst false, fun i st' hst' h => ?_⟩, fun n hmem => ?_⟩
    · obtain ⟨st, hst, hw, hcalls⟩ := exists_getElem? hstmts.flip hst'
      have hsuper := (hcalls false).mp h
      exact (fieldsIndex_eq_iff hst hw hsuper).mpr ((hsource i st hst).2 hsuper)
    · rcases mem_cons.mp hmem with rfl | hmem
      · exact fun h => hparams (hps.mp h)
      · rcases mem_insertAt.mp hmem with hmem | hmem
        · exact hinits n hmem true
        · obtain ⟨i, hi⟩ := getElem?_of_mem hmem
          obtain ⟨st, hst, -, hcalls⟩ := exists_getElem? hstmts.flip hi
          exact fun h => (hsource i st hst).1 ((hcalls true).mp h)

/-- In a class with a constructor, the fields follow the first statement that only calls the parent. -/
lemma fieldsFollow_explicit (hi : inits ≠ []) (hps : Lowers known ps ps')
    (hstmts : Forall₂ (Lowers known) stmts stmts') (hpw : ps.WellFormed) (hsw : ∀ st ∈ stmts, st.WellFormed)
    (hn : ∀ k ∈ ps' :: stmts', parent ∉ k.names) : FieldsFollow parent ((instanceContext (ident parent)).lower ps')
      ((stmts'.map (instanceContext (ident parent)).lower).take (fieldsIndex stmts')) inits
      ((stmts'.map (instanceContext (ident parent)).lower).drop (fieldsIndex stmts')) ↔
    (∀ st ∈ inits, ∀ deferred, ¬CallsParent parent deferred st) ∧ ¬CallsSuper true ps ∧
      ∀ i st, stmts[i]? = some st → ¬CallsSuper true st ∧
        (CallsSuper false st → stmts.findIdx? isSuperCall = some i) := by
  have hrec : parent ∉ (instanceContext (ident parent)).receiver.names := not_mem_nil
  rw [fieldsIndex_lowers hstmts hsw]
  refine fieldsFollow_inserted hi (callsParent_rewritten rfl hrec hps hpw (hn ps' (mem_cons_self ..))) ?_
  rw [forall₂_map_right_iff]
  have hwell := forall₂_imp_mem hstmts (S := fun st st' => st.WellFormed ∧ Lowers known st st')
    fun st hst st' hL => ⟨hsw st hst, hL⟩
  refine (forall₂_imp_mem hwell.flip fun st' hst' st h => ?_).flip
  exact ⟨h.1, fun _ => callsParent_rewritten rfl hrec h.2 h.1 (hn st' (mem_cons_of_mem _ hst'))⟩

/-- The constructor that a class has itself is among its members. -/
lemma mem_of_ctor? {ctor : Node} (h : (Parts.ofMembers ms).ctor? = some ctor) : ctor ∈ ms :=
  mem_of_mem_filter (mem_of_getLast? h)

/-- **The fields of a derived class follow the call of the parent** iff the constructor calls it first. -/
theorem fieldsFollow_constructor (hw : (mk sm .members ms).WellFormed)
    (hL : Forall₂ (LoweredMember known) ms ms') (hnames : ∀ m' ∈ ms', parent ∉ m'.names)
    (hf : ∃ m ∈ ms, m.tag = .field false) :
    ∃ params before after, constructor (ident parent) true (Parts.ofMembers ms') =
        make (.func false false) [params, block
          (before ++ fieldInits (ident parent) (Parts.ofMembers ms').fields ++ after)] ∧
      (FieldsFollow parent params before (fieldInits (ident parent) (Parts.ofMembers ms').fields) after ↔
        ParentFirst ms) := by
  have hi : fieldInits (ident parent) (Parts.ofMembers ms').fields ≠ [] := by
    obtain ⟨m, hm, ht⟩ := hf
    obtain ⟨m', hm', -⟩ := exists_mem_of_forall₂ (forall₂_filter hL (· == .field false))
      (mem_filter.mpr ⟨hm, beq_iff_eq.mpr ht⟩)
    exact ne_nil_of_mem (mem_map_of_mem (mem_map_of_mem hm'))
  have hinits := forall_fieldInits hL hnames
  have hctor : ∀ {m : Node}, m.tag = .ctor → (m ∈ ms ↔ m ∈ ms.filter (·.tag == .ctor)) := by
    intro m ht
    rw [mem_filter, ht, beq_self_eq_true, and_iff_left rfl]
  rcases ctor_cases hw hL with ⟨hnil, hnone⟩ |
    ⟨s, sb, sb', key, key', ps, ps', stmts, stmts', hsource, hsome, hpsL, hstmts, hpw, hsw⟩
  · refine ⟨_, parentCalls (ident parent) true, [], ?_, (fieldsFollow_implicit hi).trans ?_⟩
    · rw [append_nil]
      exact constructor_implicit hnone (some parent) true
    · rw [hinits]
      rw [hnil] at hctor
      exact ⟨fun h => ⟨h, fun _ _ _ _ _ hmem => (by cases (hctor rfl).mp hmem),
        fun _ _ _ _ _ hmem => (by cases (hctor rfl).mp hmem)⟩, ParentFirst.fields⟩
  · have hn : ∀ k ∈ ps' :: stmts', parent ∉ k.names := by
      intro k hk hmem
      refine hnames _ (mem_of_ctor? hsome) (names_subset_of_within ?_ hmem)
      rcases mem_cons.mp hk with rfl | hk
      · exact .kid (mem_cons_of_mem _ (mem_cons_self ..)) .refl
      · exact .kid (mem_cons_of_mem _ (mem_cons_of_mem _ (mem_cons_self ..))) (.kid hk .refl)
    refine ⟨_, _, _, constructor_explicit hsome _ true, (fieldsFollow_explicit hi hpsL hstmts hpw hsw hn).trans ?_⟩
    rw [hinits]
    rw [hsource] at hctor
    constructor
    · rintro ⟨hfields, hps, hst⟩
      refine ⟨hfields, fun _ _ _ _ _ hmem => ?_, fun _ _ _ _ _ hmem => ?_⟩
      · cases mem_singleton.mp ((hctor rfl).mp hmem)
        exact hps
      · cases mem_singleton.mp ((hctor rfl).mp hmem)
        exact hst
    · intro h
      have hmem := (hctor rfl).mpr (mem_singleton.mpr rfl)
      exact ⟨h.fields, h.params _ _ _ _ _ hmem, h.stmts _ _ _ _ _ hmem⟩

end Constructor

/-! ## Scripts -/

/-- **The fields of a derived class are initialized when its parent has run** iff the constructor calls the
parent first: by a statement of its own, in no other statement, in no arrow and in no field. In each case
the fields are all initialized, in order and in a row. -/
theorem fields_follow_parent_iff {s : Script} (h : s.WellFormed) {d cls : Node} {own : Option String}
    (hd : s.Contains d) (hdef : Defines cls own d) (hl : isLowerable cls = true)
    (hh : (heritage? cls).isSome = true) (hf : ∃ m ∈ membersOf cls, m.tag = .field false) :
    ∃ (name parent : String) (params : Node) (before inits after rest args : List Node),
      (own = some name ∨ own = none ∧ name ∉ vocabulary s) ∧ parent ∉ vocabulary s ∧
      (lowerScript s).1.Contains (call (paren (funcExpr (func [binding parent]
        ([useStrict, funcDecl name (make (.func false false)
          [params, block (before ++ inits ++ after)])] ++ rest)))) args) ∧
      Forall₂ (IsInitializer (vocabulary s) name this (ident parent))
        ((membersOf cls).filter (·.tag == .field false)) inits ∧
      (FieldsFollow parent params before inits after ↔ ParentFirst (membersOf cls)) := by
  have hcls : cls.Is .cls := by
    obtain ⟨k, hk, hin⟩ := hd
    exact hdef.is ((h k hk).1.within hin)
  obtain ⟨name, parent?, cls', args, hM, -, hin⟩ := exists_made h hd hdef hl
  obtain ⟨parent, rfl⟩ := isSome_iff_exists.mp (hM.derived.trans hh)
  obtain ⟨sm, hw, hw', hms⟩ := hM.members hcls hl
  obtain ⟨params, before, after, hctor, hiff⟩ :=
    fieldsFollow_constructor hw hms (hM.parent_notMem hcls) hf
  refine ⟨name, parent, params, before, _, after, makerRest name (some parent) (membersOf cls'), args, ?_,
    hM.parent parent rfl, ?_,
    isInitializer_fields hms name _, hiff⟩
  · exact hM.own.imp_right fun ho => ⟨ho.1, ho.2.1⟩
  · rw [maker_eq] at hin
    rw [← hctor]
    exact hin

/-- `class B extends A { x = 1; constructor(a) { … } }`. -/
def withField (stmts : List Node) : Node := make .cls [make .members [
  make (.field false) [make (.keyName "x") [], natLit 1],
  make .ctor [make (.keyName "constructor") [], params [binding "a"],
    block stmts]], ident "A"]

/-- A constructor that starts with `super(a);`. -/
theorem fields_follow_parent_iff_plainCall :
    let cls := withField [exprStmt (make (.superCall .none) [ident "a"]),
      exprStmt (ident "a")]
    let s : Script := { body := [make (.classDecl ⟨"B", .none⟩) [cls]] }
    s.WellFormed ∧ ∃ (parent : String) (params : Node) (before inits after rest args : List Node),
      (lowerScript s).1.Contains (call (paren (funcExpr (func [binding parent]
        ([useStrict, funcDecl "B" (make (.func false false)
          [params, block (before ++ inits ++ after)])] ++ rest)))) args) ∧
      inits.length = 1 ∧ FieldsFollow parent params before inits after := by
  intro cls s
  have hw : s.WellFormed := by decide
  obtain ⟨name, parent, params, before, inits, after, rest, args, hname, -, hin, hinits, hiff⟩ :=
    fields_follow_parent_iff hw (d := make (.classDecl ⟨"B", .none⟩) [cls])
      ⟨_, mem_singleton.mpr rfl, .refl⟩ .decl (by decide) rfl ⟨_, mem_cons_self .., rfl⟩
  obtain rfl : "B" = name := by simpa using hname
  refine ⟨hw, parent, params, before, inits, after, rest, args, hin, hinits.length_eq.symm, hiff.mpr ?_⟩
  have hnone : ∀ {n : Node} {deferred : Bool}, search ownParts
      (fun m a => a.tag.isSuperCall = true ∧ m.deferred = deferred) true 5 ⟨.read, false⟩ n = false →
      ¬CallsSuper deferred n := not_finds_of_search
  refine ⟨?_, fun _ _ _ _ _ hm => ?_, fun _ _ _ _ _ hm i st hi => ?_⟩
  · intro m hm ht k hk deferred
    rcases mem_cons.mp hm with rfl | hm
    · rcases mem_cons.mp hk with rfl | hk
      · exact not_callsSuper_leaf rfl rfl
      · obtain rfl := mem_singleton.mp hk
        exact not_callsSuper_leaf rfl rfl
    · obtain rfl := mem_singleton.mp hm
      cases ht
  · cases mem_singleton.mp ((mem_cons.mp hm).resolve_left fun h => by cases h)
    exact hnone rfl
  · cases mem_singleton.mp ((mem_cons.mp hm).resolve_left fun h => by cases h)
    rcases i with _ | _ | i
    · obtain rfl := some_inj.mp hi
      exact ⟨hnone rfl, fun _ => rfl⟩
    · obtain rfl := some_inj.mp hi
      exact ⟨hnone rfl, fun h => absurd h (hnone rfl)⟩
    · cases hi

/-- **The fields are initialized before the parent is called**, if the call is not a statement of its own:
`constructor(a) { var b = super(); }` becomes `function B(a) { this.x = 1; var b = _super.call(this); }`. -/
theorem fields_initialized_before_parent :
    let s : Script := { body := [make (.classDecl ⟨"B", .none⟩) [withField [var
      [declarator (binding "b") (some (make (.superCall .none) []))]]]] }
    let inits := [exprStmt (assign (member this "x") (natLit 1))]
    let after := [var [declarator (binding "b")
      (some (call (member (ident "_super") "call") [this]))]]
    s.WellFormed ∧ (lowerScript s).1.Contains (funcDecl "B" (make (.func false false)
      [params [binding "a"], block ([] ++ inits ++ after)])) ∧
      ¬FieldsFollow "_super" (params [binding "a"]) [] inits after := by
  intro s inits after
  refine ⟨by decide, ⟨_, mem_cons_self .., within_of_at? (p := [0, 1, 0, 0, 0, 1, 1]) rfl⟩, fun h => ?_⟩
  have hcalls : ∀ st ∈ after, CallsParent "_super" false st := fun st hst =>
    mem_singleton.mp hst ▸ finds_of_search (d := 6) (by decide)
  cases h.directly 1 _ rfl (hcalls _ (mem_singleton.mpr rfl))

end Class

end EcmaLower
