import EcmaLower.Proofs.ClassScopes
import EcmaLower.Proofs.CodeDepths

/-!
# Code that is evaluated once

A class that is lowered becomes the call of a function, and the code of its members is moved into statements
of that function and of the constructor. This module says how often the code is evaluated afterwards: each node
of the source that is carried over stands in the lowered script under as many functions as before, with two
exceptions. The key of a compound assignment to a property of `super` is written twice, and the key of a field
of an instance is moved into the constructor, so that it is evaluated for each instance.

## Main results

* `Class.grows_member` — the code of a member is repeated only as said above.
* `Class.depths_build` — the call that builds a class holds the code of its members and its heritage.
* `Class.grows_lowers` — the same for trees in which classes are lowered all the way down.
* `Class.evaluated_once_iff` — when code is evaluated as often as before.
-/

namespace EcmaLower.Class

open Node List Build

variable {s sm : Span} {k m cls cls' n n' : Node} {t : Tag} {x : Setting} {v ks hs ks' : List Node} {d : ℕ}

/-! ## Members -/

/-- The code of a member is evaluated more often when the class is lowered. -/
inductive MemberRepeats (l : Origin) : Node → Prop
  /-- The computed key of a field of an instance is evaluated in the constructor. -/
  | key {s sk : Span} {e : Node} {value : List Node} : e.Has l →
    MemberRepeats l (.mk s (.field false) (.mk sk .keyComputed [e] :: value))
  /-- The key of a compound assignment to a property of `super` is evaluated twice. -/
  | copy {m part : Node} : part ∈ bodyOf m → Finds ownParts (Copied l) ⟨.read, false⟩ part → MemberRepeats l m

/-- The number of functions around the code of a member: what belongs to an instance is in the constructor. -/
def codeDepth (d : ℕ) (m : Node) : ℕ :=
  match m.tag with
  | .ctor | .field false => d + 1
  | _ => d

/-- The depths in the code that a member becomes. -/
def codeDepths (l : Origin) (name : String) (parent : Node) (d : ℕ) (m : Node) : Multiset ℕ :=
  ((memberCode name parent m).map (·.depths l ⟨codeDepth d m, false⟩)).sum

section Members

variable {l : Origin} {x : Setting} {name : String} {parent? : Option String}

/-- Members that are not fields of an instance repeat code only in their bodies. -/
lemma memberRepeats_iff_body (hm : m.tag ≠ .field false) : MemberRepeats l m ↔
    ∃ part ∈ bodyOf m, Finds ownParts (Copied l) ⟨.read, false⟩ part := by
  constructor
  · intro h
    cases h with
    | key => exact absurd rfl hm
    | copy hpart hf => exact ⟨_, hpart, hf⟩
  · exact fun ⟨part, hpart, hf⟩ => .copy hpart hf

lemma memberRepeats_field_iff :
    MemberRepeats l (mk s (.field false) (k :: v)) ↔ (∃ sk e, k = mk sk .keyComputed [e] ∧ e.Has l) ∨
      ∃ part ∈ v, Finds ownParts (Copied l) ⟨.read, false⟩ part := by
  constructor
  · intro h
    cases h with
    | key hk => exact .inl ⟨_, _, rfl, hk⟩
    | copy hpart hf => exact .inr ⟨_, hpart, hf⟩
  · rintro (⟨sk, e, rfl, hk⟩ | ⟨part, hpart, hf⟩)
    · exact .key hk
    · exact .copy hpart hf

lemma isWritten_instanceContext : (instanceContext (parentIdent parent?)).IsWritten :=
  ⟨depths_ident, depths_this, rfl⟩

lemma isWritten_staticContext : (staticContext name (parentIdent parent?)).IsWritten :=
  ⟨depths_ident, depths_ident, rfl⟩

lemma isWritten_methodContext {isStatic : Bool} : (SuperContext.mk (parentIdent parent?) isStatic none).IsWritten :=
  ⟨depths_ident, depths_this, rfl⟩

lemma depths_leaf_plain : (mk s t []).depths l x.plain = (mk s t []).depths l x := by
  rw [depths_mk, depths_mk]
  rfl

lemma depths_keyComputed {e : Node} : (mk s .keyComputed [e]).depths l x = e.depths l x.plain := by
  rw [depths_around rfl fun _ _ => ⟨rfl, rfl⟩]
  simp

/-- A literal that stands as a key and one that stands as an expression come from the same place. -/
lemma depths_literal (ht : (mk s t []).isCarried = (mk s t.asLiteral []).isCarried)
    (hl : t.asLiteral.asLiteral = t.asLiteral) :
    (mk s t.asLiteral []).depths l x = (mk s t []).depths l x := by
  rw [depths_mk, depths_mk, depthHere, depthHere, ← ht]
  simp only [span_mk, tag_mk, hl]
  rfl

lemma depths_keyAsMember (hk : k.OfRole Role.isPublicKey) : (keyAsMember k).depths l x = k.depths l x := by
  cases keyShape hk with
  | name | computed => rfl
  | str => exact (depths_computedKey.trans depths_leaf_plain).trans (depths_literal (t := .keyStr _) rfl rfl)
  | num => exact (depths_computedKey.trans depths_leaf_plain).trans (depths_literal (t := .keyNum _) rfl rfl)
  | bigInt =>
    exact (depths_computedKey.trans depths_leaf_plain).trans (depths_literal (t := .keyBigInt _) rfl rfl)

/-- The key of an accessor is an expression; a name becomes a string. -/
lemma depths_keyAsExpr (hk : k.OfRole Role.isPublicKey) (kind : MethodKind) (isStatic : Bool)
    (hkind : kind ≠ .method) : (keyAsExpr k).depths l x.plain =
      if (Tag.method kind isStatic).isCode 0 k.tag then k.depths l x.plain else 0 := by
  have hcode : ∀ {t : Tag}, (∀ y, t ≠ .keyName y) → (Tag.method kind isStatic).isCode 0 t = true := by
    intro t ht
    cases kind <;> cases t <;> first | rfl | exact absurd rfl (ht _)
  cases keyShape hk with
  | name =>
    cases kind with
    | method => exact absurd rfl hkind
    | getter | setter => exact depths_strLit
  | str => exact (depths_literal (t := .keyStr _) rfl rfl).trans (if_pos (hcode (by simp))).symm
  | num => exact (depths_literal (t := .keyNum _) rfl rfl).trans (if_pos (hcode (by simp))).symm
  | bigInt => exact (depths_literal (t := .keyBigInt _) rfl rfl).trans (if_pos (hcode (by simp))).symm
  | computed => exact depths_keyComputed.symm.trans (if_pos (hcode (by simp))).symm

/-- Code in a context grows part by part. -/
lemma grows_map_lower {c : SuperContext} (hc : c.IsWritten) (h : ∀ k ∈ ks, k.WellFormed)
    (hno : ∀ k ∈ ks, k.any isLowered = false) :
    Grows (∃ k ∈ ks, Finds ownParts (Copied l) ⟨.read, false⟩ k) (ks.map (·.depths l x)).sum
      ((ks.map c.lower).map (·.depths l x)).sum := by
  rw [map_map]
  refine Grows.sum_map (R := Eq) (forall₂_same.mpr fun k _ => rfl) ?_
  rintro k hk _ rfl
  exact grows_lower hc (h k hk) (hno k hk) (.inl rfl)

/-- The depths in a method and in its key, if it has one that is code. -/
lemma depths_method {kind : MethodKind} {isStatic : Bool} {f : Node} :
    (mk s (.method kind isStatic) [k, f]).depths l x =
      (if (Tag.method kind isStatic).isCode 0 k.tag then k.depths l x.plain else 0) + f.depths l x.plain := by
  have hfunc : ∀ kt, (Tag.method kind isStatic).isCode 1 kt = true := by
    intro kt
    cases kind <;> rfl
  rw [depths_of_not_carried rfl]
  simp [kidDepths, hfunc, Tag.settingAt]

/-- **The statement that defines a method** holds its key and its function. -/
lemma depths_defineMethod {sf : Span} {kind : MethodKind} {isStatic a g : Bool} {fks : List Node}
    (hk : k.OfRole Role.isPublicKey) : (defineMethod name (parentIdent parent?)
      (mk s (.method kind isStatic) [k, mk sf (.func a g) fks])).depths l x =
        (mk s (.method kind isStatic) [k, mk sf (.func a g)
          (fks.map (SuperContext.mk (parentIdent parent?) isStatic none).lower)]).depths l x := by
  have htarget : ∀ {x : Setting}, (if isStatic then ident name
      else member (ident name) "prototype").depths l x = 0 := by
    split <;> simp
  have hexpr := depths_keyAsExpr (l := l) (x := x) hk kind isStatic
  rw [depths_method]
  cases kind with
  | method => simp [defineMethod, htarget, depths_keyAsMember hk, Tag.isCode]
  | getter | setter =>
    rw [← hexpr (by simp)]
    simp [defineMethod, htarget, depths_path]

/-- The statement that initializes a static field holds its key and its value. -/
lemma depths_defineStatic (hk : (fieldParts m).1.OfRole Role.isPublicKey) :
    (defineStatic name (parentIdent parent?) m).depths l x = (fieldParts m).1.depths l x.plain +
      ((staticContext name (parentIdent parent?)).lower (fieldParts m).2).depths l x.plain := by
  simp [defineStatic, depths_keyAsMember hk, staticContext]

/-- The statement that initializes a field of an instance holds its key and its value. -/
lemma depths_lower_initField : ((instanceContext (parentIdent parent?)).lower (initField this m)).depths l x =
      ((instanceContext (parentIdent parent?)).lower (keyAsMember (fieldParts m).1)).depths l x.plain +
        ((instanceContext (parentIdent parent?)).lower (fieldParts m).2).depths l x.plain := by
  simp [lower_initField]

/-- The key of a field of an instance is moved into the constructor if it is computed. -/
lemma grows_instanceKey (hk : k.OfRole Role.isPublicKey) (hno : k.any isLowered = false) (d : ℕ) :
    Grows (∃ sk e, k = mk sk .keyComputed [e] ∧ e.Has l)
      (k.depths l ((Tag.field false).settingAt ⟨d, false⟩ 0 k.tag))
      (((instanceContext (parentIdent parent?)).lower (keyAsMember k)).depths l ⟨d + 1, false⟩) := by
  have hliteral : ∀ {s : Span} {t : Tag}, (∀ op, t ≠ .assign op) →
      ¬Finds ownParts (Copied l) ⟨.read, false⟩ (computedKey (mk s t [])) := by
    intro s t ht hf
    obtain ⟨e, he, hf⟩ := ((finds_reading rfl rfl fun _ => rfl).mp hf).resolve_left (not_copied (by simp))
    exact not_finds_leaf ht (mem_singleton.mp he ▸ hf)
  have hlower : Grows (Finds ownParts (Copied l) ⟨.read, false⟩ (keyAsMember k))
      ((keyAsMember k).depths l ⟨d + 1, false⟩)
      (((instanceContext (parentIdent parent?)).lower (keyAsMember k)).depths l ⟨d + 1, false⟩) :=
    grows_lower isWritten_instanceContext (is_keyAsMember hk).1 ((any_keyAsMember hk).trans hno) (.inl rfl)
  rw [depths_keyAsMember hk] at hlower
  cases keyShape hk with
  | name => exact hlower.congr (iff_of_false (not_finds_leaf (by simp)) (by simp))
  | str | num | bigInt => exact hlower.congr (iff_of_false (hliteral (by simp)) (by simp))
  | @computed s e he =>
    have hraise : (mk s .keyComputed [e]).depths l ⟨d + 1, false⟩ =
        ((mk s .keyComputed [e]).depths l ⟨d, false⟩).map (· + 1) := depths_raise _ ⟨d, false⟩
    have hmoved : Grows (e.Has l) ((mk s .keyComputed [e]).depths l ⟨d, false⟩)
        ((mk s .keyComputed [e]).depths l ⟨d + 1, false⟩) := by
      refine hraise ▸ (Grows.raise _).congr ?_
      rw [depths_keyComputed, depths_ne_zero_iff]
    refine (hmoved.trans hlower).congr ((or_iff_left_of_imp fun hf => ?_).trans ?_)
    · rw [← depths_ne_zero_iff, ← depths_keyComputed]
      exact hlower.ne_zero hf
    · exact ⟨fun he => ⟨s, e, rfl, he⟩, by rintro ⟨_, _, heq, he⟩; cases heq; exact he⟩

/-- The value of a field, which is undefined if it has none. -/
lemma depths_lower_value (c : SuperContext) (hlen : v.length ≤ 1) :
    (c.lower (v.head?.getD undefined)).depths l x = ((v.map c.lower).map (·.depths l x)).sum := by
  match v, hlen with
  | [], _ =>
    rw [head?_nil, Option.getD_none, SuperContext.lower_undefined]
    exact depths_undefined
  | [e], _ => simp

/-- The code of a field. -/
lemma grows_field {isStatic : Bool} (hm : MemberShape (mk s (.field isStatic) (k :: v)))
    (h : (mk s (.field isStatic) (k :: v)).WellFormed)
    (hno : (mk s (.field isStatic) (k :: v)).any isLowered = false) (d : ℕ) :
    Grows (MemberRepeats l (mk s (.field isStatic) (k :: v))) ((mk s (.field isStatic) (k :: v)).depths l ⟨d, false⟩)
      (codeDepths l name (parentIdent parent?) d (mk s (.field isStatic) (k :: v))) := by
  obtain ⟨hk, hlen, hparts⟩ : k.OfRole Role.isPublicKey ∧ v.length ≤ 1 ∧
      fieldParts (mk s (.field isStatic) (k :: v)) = (k, v.head?.getD undefined) := by
    cases hm with
    | field hk => exact ⟨hk, Nat.zero_le 1, rfl⟩
    | fieldInit hk => exact ⟨hk, le_rfl, rfl⟩
  have hkey : k.any isLowered = false := any_eq_false_of_within hno (.kid (mem_cons_self ..) .refl)
  have hvalue : ∀ {c : SuperContext} {x : Setting}, c.IsWritten →
      Grows (∃ e ∈ v, Finds ownParts (Copied l) ⟨.read, false⟩ e) (v.map (·.depths l x)).sum
        ((c.lower (v.head?.getD undefined)).depths l x) := by
    intro c x hc
    rw [depths_lower_value c hlen]
    have hin : ∀ e ∈ v, e.Within (mk s (.field isStatic) (k :: v)) := fun e he =>
      .kid (mem_cons_of_mem _ he) .refl
    exact grows_map_lower hc (fun e he => h.within (hin e he)) fun e he => any_eq_false_of_within hno (hin e he)
  rw [depths_of_not_carried rfl, codeDepths]
  cases isStatic with
  | false =>
    have hkids : kidDepths l (.field false) (k :: v) ⟨d, false⟩ =
        k.depths l ((Tag.field false).settingAt ⟨d, false⟩ 0 k.tag) + (v.map (·.depths l ⟨d + 1, false⟩)).sum := by
      match v, hlen with
      | [], _ | [e], _ => simp [kidDepths, Tag.isCode, Tag.settingAt, Setting.plain]
    rw [hkids, memberCode, map_singleton, sum_singleton, depths_lower_initField, hparts]
    exact ((grows_instanceKey hk hkey d).add (hvalue isWritten_instanceContext)).congr
      memberRepeats_field_iff.symm
  | true =>
    have hkids : kidDepths l (.field true) (k :: v) ⟨d, false⟩ =
        k.depths l ⟨d, false⟩ + (v.map (·.depths l ⟨d, false⟩)).sum :=
      kidDepths_plain fun _ _ => ⟨rfl, rfl⟩
    rw [hkids, memberCode, map_singleton, sum_singleton, depths_defineStatic (hparts ▸ hk), hparts]
    refine ((Grows.refl _).add (hvalue isWritten_staticContext)).congr ?_
    rw [false_or, memberRepeats_iff_body (by simp)]
    rfl

/-- **The code of a member is repeated** only in the keys of compound assignments to properties of `super`, and
in the keys of the fields of an instance. -/
theorem grows_member (hm : MemberShape m) (h : m.WellFormed) (hno : m.any isLowered = false) (d : ℕ) :
    Grows (MemberRepeats l m) (m.depths l ⟨d, false⟩)
      (codeDepths l name (parentIdent parent?) d m) := by
  have hpart : ∀ k ∈ bodyOf m, k.WellFormed ∧ k.any isLowered = false := by
    intro k hk
    have hin := within_of_mem_bodyOf hk
    exact ⟨h.within hin, any_eq_false_of_within hno hin⟩
  cases hm with
  | @ctor s sb k p stmts =>
    have hdepths : (mk s .ctor [k, p, mk sb .block stmts]).depths l ⟨d, false⟩ =
        ((p :: stmts).map (·.depths l ⟨d + 1, false⟩)).sum := by
      have hblock : (mk sb .block stmts).depths l ⟨d + 1, false⟩ = (stmts.map (·.depths l ⟨d + 1, false⟩)).sum := by
        rw [depths_around rfl fun _ _ => ⟨rfl, rfl⟩]
        rfl
      rw [depths_of_not_carried rfl]
      simp [kidDepths, Tag.isCode, Tag.settingAt, hblock]
    rw [hdepths]
    exact (grows_map_lower isWritten_instanceContext (fun k hk => (hpart k hk).1) fun k hk =>
      (hpart k hk).2).congr (memberRepeats_iff_body (by simp)).symm
  | @method s sf kind isStatic a g k p b hk =>
    have hhere : depthHere l (mk sf (.func a g) ([p, b].map (SuperContext.mk (parentIdent parent?) isStatic
        none).lower)) ⟨d, false⟩ = depthHere l (mk sf (.func a g) [p, b]) ⟨d, false⟩ :=
      depthHere_congr fun h => by cases h
    have hplain : Setting.plain ⟨d, false⟩ = ⟨d, false⟩ := rfl
    have hcode : codeDepth d (mk s (.method kind isStatic) [k, mk sf (.func a g) [p, b]]) = d := rfl
    rw [codeDepths, memberCode, map_singleton, sum_singleton, hcode, depths_defineMethod hk,
      depths_method, depths_method, hplain, depths_mk _ _ (.func a g), depths_mk _ _ (.func a g), kidDepths_func,
      kidDepths_func, hhere]
    refine ((Grows.refl _).add ((Grows.refl _).add (grows_map_lower isWritten_methodContext
      (fun k hk => (hpart k hk).1) fun k hk => (hpart k hk).2))).congr ?_
    rw [false_or, false_or, memberRepeats_iff_body (by simp), bodyOf]
  | field => exact grows_field (.field ‹_›) h hno d
  | fieldInit => exact grows_field (.fieldInit ‹_› ‹_›) h hno d
  | @empty s =>
    have hdepths : (mk s .emptyMember []).depths l ⟨d, false⟩ = 0 := depths_of_not_carried rfl
    rw [hdepths]
    refine (Grows.refl 0).congr (iff_of_false id ?_)
    rw [memberRepeats_iff_body (by simp)]
    rintro ⟨_, ⟨⟩, -⟩

end Members

/-! ## Classes -/

section Classes

variable {l : Origin} {name : String} {parent? : Option String} {ms : List Node} (hms : ∀ m ∈ ms, MemberShape m)
  (hone : (ms.filter (·.tag == .ctor)).length ≤ 1)

lemma sum_insertAt {i : ℕ} {new stmts : List Node} (f : Node → Multiset ℕ) :
    ((insertAt i new stmts).map f).sum = (new.map f).sum + (stmts.map f).sum := by
  have hsplit : (stmts.map f).sum = ((stmts.take i).map f).sum + ((stmts.drop i).map f).sum := by
    rw [← sum_append, ← map_append, take_append_drop]
  rw [insertAt, map_append, map_append, sum_append, sum_append, hsplit, ← add_assoc, add_comm (new.map f).sum]

lemma depths_inherit (name parent : String) (hk : k ∈ inherit name parent) : k.depths l x = 0 := by
  rcases mem_pair.mp hk with rfl | rfl
  · simp [depths_path]
  · simp [depths_path]

/-- The code of members that become one node each. -/
lemma sum_codeDepths {x : Setting} {f : Node → Node}
    (h : ∀ m ∈ ms, memberCode name (parentIdent parent?) m = [f m] ∧ x = ⟨codeDepth d m, false⟩) :
    ((ms.map f).map (·.depths l x)).sum = (ms.map (codeDepths l name (parentIdent parent?) d)).sum := by
  rw [map_map]
  refine congrArg sum (map_congr_left fun m hm => ?_)
  rw [codeDepths, (h m hm).1, map_singleton, sum_singleton, ← (h m hm).2]
  rfl

include hms hone in
/-- The constructor holds the code of the constructor of the class and of the fields of an instance. -/
lemma depths_constructor (derived : Bool) (d : ℕ) :
    (constructor (parentIdent parent?) derived (Parts.ofMembers ms)).depths l ⟨d, false⟩ =
      ((ms.filter (·.tag == .ctor)).map (codeDepths l name (parentIdent parent?) d)).sum +
        ((ms.filter (·.tag == .field false)).map (codeDepths l name (parentIdent parent?) d)).sum := by
  have hfunc : ∀ (ps : Node) (stmts : List Node), (make (.func false false) [ps, block stmts]).depths l ⟨d, false⟩ =
        ps.depths l ⟨d + 1, false⟩ + (stmts.map (·.depths l ⟨d + 1, false⟩)).sum := by
    intro ps stmts
    rw [depths_make, kidDepths_func]
    simp [Setting.body]
    rfl
  have hfields : ((fieldInits (parentIdent parent?) (Parts.ofMembers ms).fields).map
      (·.depths l ⟨d + 1, false⟩)).sum =
        ((ms.filter (·.tag == .field false)).map (codeDepths l name (parentIdent parent?) d)).sum := by
    rw [fieldInits, map_map (l := (Parts.ofMembers ms).fields)]
    refine sum_codeDepths fun m hm => ?_
    obtain ⟨sm, tm, km⟩ := m
    obtain rfl : tm = .field false := beq_iff_eq.mp (mem_filter.mp hm).2
    exact ⟨rfl, rfl⟩
  rcases ctor?_cases hms with ⟨hnil, hnone⟩ | ⟨s, sb, k, ps, stmts, hsome, hmem, -⟩
  · have hcalls : ((parentCalls (parentIdent parent?) derived).map (·.depths l ⟨d + 1, false⟩)).sum = 0 := by
      unfold parentCalls
      split
      · simp [parentIdent]
      · rfl
    rw [constructor_implicit hnone, hfunc, map_append, sum_append, hcalls, hfields, hnil]
    simp
  · have hctor : codeDepths l name (parentIdent parent?) d (mk s .ctor [k, ps, mk sb .block stmts]) =
        ((instanceContext (parentIdent parent?)).lower ps).depths l ⟨d + 1, false⟩ +
          ((stmts.map (instanceContext (parentIdent parent?)).lower).map (·.depths l ⟨d + 1, false⟩)).sum := by
      rw [codeDepths, memberCode, map_cons, map_cons, sum_cons]
      rfl
    rw [constructor_explicit hsome, hfunc, sum_insertAt, hfields, ctors_eq_singleton hone hmem rfl, map_singleton,
      sum_singleton, hctor, add_assoc, add_comm (sum _) (sum _)]

include hms in
/-- Every member becomes code of one kind. -/
lemma sum_members {f : Node → Multiset ℕ} (hempty : ∀ m ∈ ms, m.tag = .emptyMember → f m = 0) :
    (ms.map f).sum = ((ms.filter (·.tag == .ctor)).map f).sum + ((ms.filter (·.tag == .field false)).map f).sum +
      (((Parts.ofMembers ms).methods.map f).sum + ((ms.filter (·.tag == .field true)).map f).sum) := by
  induction ms with
  | nil => rfl
  | cons m ms ih =>
    have ih := ih (fun k hk => hms k (mem_cons_of_mem _ hk)) fun k hk => hempty k (mem_cons_of_mem _ hk)
    rw [map_cons, sum_cons, ih]
    cases hms m (mem_cons_self ..) with
    | ctor => simp [Parts.ofMembers, add_assoc]
    | method => simp [Parts.ofMembers, filter_cons, add_assoc, add_left_comm]
    | @field _ isStatic | @fieldInit _ isStatic =>
      cases isStatic with
      | false => simp [Parts.ofMembers, add_assoc, add_left_comm]
      | true => simp [Parts.ofMembers, add_left_comm]
    | empty => simp [Parts.ofMembers, hempty _ (mem_cons_self ..) rfl]

include hms hone in
/-- The function that makes a class, where it is called. -/
lemma depths_maker : (maker name parent? ms).depths l ⟨d, true⟩ =
    (ms.map (codeDepths l name (parentIdent parent?) d)).sum := by
  have hbinding : ((parent?.map binding).toList.map (·.depths l ⟨d, false⟩)).sum = 0 := by
    cases parent? <;> simp
  have hinherit : (((parent?.map (inherit name)).getD []).map (·.depths l ⟨d, false⟩)).sum = 0 := by
    cases parent? with
    | none => rfl
    | some parent =>
      refine sum_eq_zero fun a ha => ?_
      obtain ⟨k, hk, rfl⟩ := mem_map.mp ha
      exact depths_inherit name parent hk
  have hmethods : (((Parts.ofMembers ms).methods.map (defineMethod name (parentIdent parent?))).map
      (·.depths l ⟨d, false⟩)).sum =
        ((Parts.ofMembers ms).methods.map (codeDepths l name (parentIdent parent?) d)).sum := by
    refine sum_codeDepths fun m hm => ?_
    obtain ⟨hm, htag⟩ := mem_filter.mp hm
    cases hms m hm with
    | method => exact ⟨rfl, rfl⟩
    | ctor | field | fieldInit | empty => cases htag
  have hstatics : (((Parts.ofMembers ms).staticFields.map (defineStatic name (parentIdent parent?))).map
      (·.depths l ⟨d, false⟩)).sum =
        ((ms.filter (·.tag == .field true)).map (codeDepths l name (parentIdent parent?) d)).sum := by
    refine sum_codeDepths fun m hm => ?_
    obtain ⟨s, t, ks⟩ := m
    obtain rfl : t = .field true := beq_iff_eq.mp (mem_filter.mp hm).2
    exact ⟨rfl, rfl⟩
  have hbody : Setting.body ⟨d, true⟩ = ⟨d, false⟩ := rfl
  have hplain : Setting.plain ⟨d, false⟩ = ⟨d, false⟩ := rfl
  have hempty : ∀ m ∈ ms, m.tag = .emptyMember → codeDepths l name (parentIdent parent?) d m = 0 := by
    rintro ⟨s, t, ks⟩ - ht
    obtain rfl : t = .emptyMember := ht
    rfl
  rw [sum_members hms hempty, ← depths_constructor hms hone parent?.isSome d, maker_eq,
    show ident (parent?.getD "Object") = parentIdent parent? from rfl, depths_func, hbody, hbinding,
    makerRest]
  simp only [map_append, sum_append, hinherit, map_cons, map_nil, sum_cons,
    sum_nil, depths_useStrict, depths_funcDecl, hplain, depths_returnStmt,
    depths_ident, zero_add, add_zero]
  rw [show ident (parent?.getD "Object") = parentIdent parent? from rfl, hmethods, hstatics]

/-- **The call that builds a class holds the code of its members and its heritage**, each once, where the class
was defined. -/
theorem depths_build (h : (mk s .cls (mk sm .members ms :: hs)).Is .cls)
    (hl : isLowerable (mk s .cls (mk sm .members ms :: hs)) = true) :
    (build name parent? (mk s .cls (mk sm .members ms :: hs))).depths l x =
      (ms.map (codeDepths l name (parentIdent parent?) x.depth)).sum + (hs.map (·.depths l x.plain)).sum := by
  obtain ⟨_, _, _, _, ⟨⟩, hm, -, hlen⟩ := cls_shape h
  have hms := memberShapes h hl
  have hheritage : (heritage? (mk s .cls (mk sm .members ms :: hs))).toList = hs := by
    match hs, hlen with
    | [], _ | [e], _ => rfl
  rw [build, hheritage, depths_call, depths_paren, depths_funcExpr]
  exact congrArg (· + _) (depths_maker hms (ctor_length hm.1))

lemma depths_cls : (mk s .cls (mk sm .members ms :: hs)).depths l x =
      (ms.map (·.depths l x.plain)).sum + (hs.map (·.depths l x.plain)).sum := by
  have hmembers : (mk sm .members ms).depths l x.plain = (ms.map (·.depths l x.plain)).sum := by
    rw [depths_around rfl fun _ _ => ⟨rfl, rfl⟩]
    rfl
  rw [depths_around rfl fun _ _ => ⟨rfl, rfl⟩, map_cons, sum_cons, hmembers]

/-- The code of a class is repeated as that of its members. -/
lemma grows_build (h : cls.Is .cls) (hl : isLowerable cls = true) (hno : cls.any isLowered = false) :
    Grows (∃ m ∈ membersOf cls, MemberRepeats l m) (cls.depths l x.plain)
      ((build name parent? cls).depths l x) := by
  obtain ⟨s, sm, ms, hs, rfl, hm, -, -⟩ := cls_shape h
  rw [depths_build h hl, depths_cls, Setting.plain_plain]
  have hmembers : Grows (∃ m ∈ ms, MemberRepeats l m) (ms.map (·.depths l x.plain)).sum
      (ms.map (codeDepths l name (parentIdent parent?) x.depth)).sum := by
    refine Grows.sum_map (R := Eq) (forall₂_same.mpr fun m _ => rfl) ?_
    rintro m hmem _ rfl
    refine grows_member (memberShape (hm.1.kid hmem) (all_eq_true.mp hl m hmem)) (hm.1.kid hmem)
      (any_eq_false_of_within hno ?_) x.depth
    exact .kid (mem_cons_self ..) (.kid hmem .refl)
  exact (hmembers.add (.refl _)).congr (iff_of_eq (or_false _))

end Classes

/-! ## Trees -/

section Trees

variable {known : List String} {l : Origin}

/-- The code of a member that is lowered anywhere in a tree is evaluated more often. -/
def Repeated (l : Origin) (n : Node) : Prop := ∃ d cls own, d.Within n ∧ Defines cls own d ∧
  isLowerable cls = true ∧ ∃ m ∈ membersOf cls, MemberRepeats l m

lemma repeated_mk : Repeated l (mk s t ks) ↔
    (∃ cls own, Defines cls own (mk s t ks) ∧ isLowerable cls = true ∧ ∃ m ∈ membersOf cls, MemberRepeats l m) ∨
      ∃ k ∈ ks, Repeated l k := by
  constructor
  · rintro ⟨d, cls, own, hd, h⟩
    rcases within_mk_iff.mp hd with rfl | ⟨k, hk, hd⟩
    · exact .inl ⟨cls, own, h⟩
    · exact .inr ⟨k, hk, d, cls, own, hd, h⟩
  · rintro (⟨cls, own, h⟩ | ⟨k, hk, d, cls, own, hd, h⟩)
    · exact ⟨_, cls, own, .refl, h⟩
    · exact ⟨d, cls, own, .kid hk hd, h⟩

/-- Lowering a part of a tree neither makes nor destroys what comes from `l`. -/
def KeepsOrigin (l : Origin) (known : List String) (n : Node) : Prop :=
  ∀ k k', k.Within n → Lowers known k k' → (k'.Has l ↔ k.Has l)

/-- What is no call and no variable was there before. -/
lemma Lowers.eq_mk (hL : Lowers known n (mk s t ks')) (hc : t ≠ .call) (hv : t ≠ .varDecl .var) :
    ∃ ks, n = mk s t ks ∧ Forall₂ (Lowers known) ks ks' := by
  cases hL with
  | node hks _ hR _ =>
    generalize heq : mk s t ks' = n' at hR
    cases hR with
    | keep =>
      cases heq
      exact ⟨_, rfl, hks⟩
    | decl => exact absurd (congrArg tag heq) hv
    | named | anonymous => exact absurd (congrArg tag heq) hc

/-- Lowering the classes in the code of a member keeps the compound assignments. -/
lemma copied_lowers {a a' : Node} {m : Mark} (hL : Lowers known a a') (h : a.WellFormed)
    (hhas : KeepsOrigin l known a) : Copied l m a' ↔ Copied l m a := by
  constructor
  · rintro ⟨s, op, st, w, key', value', rfl, hop, hkey⟩
    obtain ⟨ks, rfl, hks⟩ := hL.eq_mk (by simp) (by simp)
    obtain ⟨target, _, htL, hvalue, rfl⟩ := forall₂_cons_right_iff.mp hks
    obtain ⟨value, _, -, ⟨⟩, rfl⟩ := forall₂_cons_right_iff.mp hvalue
    obtain ⟨kks, rfl, hkks⟩ := htL.eq_mk (by simp) (by simp)
    obtain ⟨key, _, hkL, ⟨⟩, rfl⟩ := forall₂_cons_right_iff.mp hkks
    exact ⟨s, op, st, w, key, value, rfl, hop, (hhas key key' (Within.first (Within.first .refl)) hkL).mp hkey⟩
  · rintro ⟨s, op, st, w, key, value, rfl, hop, hkey⟩
    obtain ⟨ks', rfl, hks⟩ := hL.keep h rfl
    obtain ⟨target, _, htL, hvalue, rfl⟩ := forall₂_cons_left_iff.mp hks
    obtain ⟨value', _, -, ⟨⟩, rfl⟩ := forall₂_cons_left_iff.mp hvalue
    obtain ⟨kks', rfl, hkks⟩ := htL.keep (h.kid (mem_cons_self ..)) rfl
    obtain ⟨key', _, hkL, ⟨⟩, rfl⟩ := forall₂_cons_left_iff.mp hkks
    exact ⟨s, op, st, w, key', value', rfl, hop, (hhas key key' (Within.first (Within.first .refl)) hkL).mpr hkey⟩

lemma finds_copied_lowers {m : Mark} (hL : Lowers known n n') (h : n.WellFormed) (hhas : KeepsOrigin l known n) :
    Finds ownParts (Copied l) m n' ↔ Finds ownParts (Copied l) m n := by
  have hin : ∀ {m' a}, Reaches ownParts m' a m n → a.WellFormed ∧ KeepsOrigin l known a := fun hr =>
    ⟨h.within (within_of_reaches hr), fun k k' hk => hhas k k' (hk.trans (within_of_reaches hr))⟩
  constructor
  · rintro ⟨m', a', hr, ha'⟩
    have hframe : isFrame a'.tag = false := by
      obtain ⟨_, _, _, _, _, _, rfl, -⟩ := ha'
      rfl
    obtain ⟨a, haL, hr⟩ := reaches_of_lowers hr hL h hframe
    exact ⟨m', a, hr, (copied_lowers haL (hin hr).1 (hin hr).2).mp ha'⟩
  · rintro ⟨m', a, hr, ha⟩
    obtain ⟨a', haL, hr'⟩ := reaches_lowers hr hL h
    exact ⟨m', a', hr', (copied_lowers haL (hin hr).1 (hin hr).2).mpr ha⟩

/-- Lowering the classes in a member keeps the code that is repeated. -/
lemma memberRepeats_lowers {m' : Node} (hm : LoweredMember known m m') (hhas : KeepsOrigin l known m) :
    MemberRepeats l m' ↔ MemberRepeats l m := by
  have hbody : (∃ part ∈ bodyOf m', Finds ownParts (Copied l) ⟨.read, false⟩ part) ↔
      ∃ part ∈ bodyOf m, Finds ownParts (Copied l) ⟨.read, false⟩ part := by
    refine exists_iff_of_forall₂ hm.forall₂_bodyOf fun part hpart part' hL => ?_
    have hin := within_of_mem_bodyOf hpart
    exact finds_copied_lowers hL (hm.wellFormed.within hin) fun k k' hk => hhas k k' (hk.trans hin)
  by_cases ht : m.tag = .field false
  · obtain ⟨s, k, k', v, v', rfl, rfl, hkL, -⟩ := field_parts hm ht
    rw [memberRepeats_field_iff, memberRepeats_field_iff]
    refine or_congr ⟨?_, ?_⟩ hbody
    · rintro ⟨sk, e', rfl, he⟩
      obtain ⟨_, rfl, hes⟩ := hkL.eq_mk (by simp) (by simp)
      obtain ⟨e, _, heL, ⟨⟩, rfl⟩ := forall₂_cons_right_iff.mp hes
      exact ⟨sk, e, rfl, (hhas e e' (Within.first (Within.first .refl)) heL).mp he⟩
    · rintro ⟨sk, e, rfl, he⟩
      obtain ⟨_, rfl, hes⟩ := hkL.keep (hm.wellFormed.kid (mem_cons_self ..)) rfl
      obtain ⟨e', _, heL, ⟨⟩, rfl⟩ := forall₂_cons_left_iff.mp hes
      exact ⟨sk, e', rfl, (hhas e e' (Within.first (Within.first .refl)) heL).mpr he⟩
  · rw [memberRepeats_iff_body ht, memberRepeats_iff_body (hm.tag ▸ ht), hbody]

/-- The members of a class that is lowered repeat code as they did before the classes in them are lowered. -/
lemma exists_memberRepeats_lowers (hL : Lowers known cls cls') (h : cls.Is .cls) (hl : isLowerable cls = true)
    (hhas : KeepsOrigin l known cls) :
    (∃ m ∈ membersOf cls', MemberRepeats l m) ↔ ∃ m ∈ membersOf cls, MemberRepeats l m := by
  obtain ⟨s, sm, ms, ms', hs, hs', rfl, rfl, hms, -⟩ := hL.cls h
  have hw : (mk sm .members ms).WellFormed := h.1.kid (mem_cons_self ..)
  refine exists_iff_of_forall₂ hms fun m hm m' hmL => ?_
  have hin : m.Within (mk s .cls (mk sm .members ms :: hs)) := Within.first (.kid hm .refl)
  exact memberRepeats_lowers ⟨memberShape (hw.kid hm) (all_eq_true.mp hl m hm), hw.kid hm, hmL⟩
    fun k k' hk => hhas k k' (hk.trans hin)

/-- A key stays what it is. -/
lemma Lowers.tag_key {k' : Node} (hL : Lowers known k k') (h : k.WellFormed) (hk : k.role.isKey = true) :
    k'.tag = k.tag := by
  obtain ⟨s, t, ks⟩ := k
  obtain ⟨_, rfl, -⟩ := hL.keep h (by cases t <;> first | rfl | cases hk)
  rfl

/-- A node without children defines no class. -/
lemma not_repeated_leaf : ¬Repeated l (mk s t []) := by
  rw [repeated_mk]
  rintro (⟨_, _, hdef, -⟩ | ⟨_, hk, -⟩)
  · cases hdef
  · cases hk

/-- A node grows with its children when they are lowered. -/
lemma grows_node (h : (mk s t ks).WellFormed) (hks : Forall₂ (Lowers known) ks ks')
    (hkid : ∀ k ∈ ks, ∀ {k' x}, Lowers known k k' → Grows (Repeated l k) (k.depths l x) (k'.depths l x)) :
    Grows (∃ k ∈ ks, Repeated l k) ((mk s t ks).depths l x) ((mk s t ks').depths l x) := by
  have hhere : depthHere l (mk s t ks') x = depthHere l (mk s t ks) x := by
    refine depthHere_congr fun _ => ?_
    cases hks with
    | nil => rfl
    | @cons k k' _ _ hk =>
      have hkey := hk.superKey?
      rw [head?_cons, head?_cons, Option.bind_some, Option.bind_some, ← Option.not_isSome, ← Option.not_isSome, hkey]
  have hsum : Grows (∃ (i : ℕ) (k : Node), ks[i]? = some k ∧ Repeated l k) (kidDepths l t ks x)
      (kidDepths l t ks' x) :=
    grows_kids h hks (fun hk hL => hL.tag_key (h.kid hk)) (fun _ => not_repeated_leaf)
      fun i k k' hi hL _ => hkid k (mem_of_getElem? hi) hL
  rw [depths_mk, depths_mk, hhere]
  refine ((Grows.refl _).add hsum).congr ?_
  simp only [false_or, mem_iff_getElem?, ← exists_and_right]
  exact exists_comm

/-- A class that is lowered grows with its members. -/
lemma grows_def {own parent? : Option String} {name : String} {x' : Setting} (h : (mk s t [cls]).WellFormed)
    (hdef : Defines cls own (mk s t [cls])) (hL : Lowers known cls cls') (hkept : Kept cls cls')
    (hl : isLowerable cls' = true) (hhas : KeepsOrigin l known cls)
    (hkids : Grows (∃ k ∈ [cls], Repeated l k) ((mk s t [cls]).depths l x) ((mk s t [cls']).depths l x))
    (hbuild : n'.depths l x = (build name parent? cls').depths l x') (hx : x'.plain = x.plain) :
    Grows (Repeated l (mk s t [cls])) ((mk s t [cls]).depths l x) (n'.depths l x) := by
  have hcls := hdef.is h
  have hcls' : cls'.Is .cls := hcls.2 ▸ hkept.is
  have hcls_depths : (mk s t [cls']).depths l x = cls'.depths l x'.plain := by
    have hplain : (kidDepths l t [cls'] x) = cls'.depths l x.plain := by
      cases hdef <;> simp [kidDepths, Tag.isCode, Tag.settingAt]
    rw [depths_of_not_carried (by cases hdef <;> rfl), hplain, hx]
  have hmembers : Grows (∃ m ∈ membersOf cls', MemberRepeats l m) ((mk s t [cls']).depths l x) (n'.depths l x) := by
    rw [hcls_depths, hbuild]
    exact grows_build hcls' hl (hL.not_isLowered hcls.1)
  have hl' : isLowerable cls = true := (hkept.cls hcls.2).symm.trans hl
  refine (hkids.trans hmembers).congr ?_
  rw [exists_memberRepeats_lowers hL hcls hl' hhas, repeated_mk, or_comm]
  refine or_congr_left ⟨fun hm => ⟨cls, own, hdef, hl', hm⟩, ?_⟩
  rintro ⟨_, _, hdef', -, hm⟩
  cases hdef' <;> exact hm

/-- **Lowering repeats the code of the members that are said to**, and no other. -/
theorem grows_lowers (hL : Lowers known n n') (h : n.WellFormed) :
    Grows (Repeated l n) (n.depths l x) (n'.depths l x) := by
  induction n using induct_within generalizing n' x with
  | h s t ks ih =>
    cases hL with
    | @node _ _ _ ks' _ _ _ hks hkept hR _ =>
      have hkids : Grows (∃ k ∈ ks, Repeated l k) ((mk s t ks).depths l x) ((mk s t ks').depths l x) :=
        grows_node h hks fun k hk _ _ hkL => ih k hk k .refl hkL (h.kid hk)
      have hhas : ∀ k ∈ ks, KeepsOrigin l known k := fun k hk a a' ha haL => by
        have hgrows := ih k hk a ha (x := ⟨0, false⟩) haL ((h.kid hk).within ha)
        exact not_congr hgrows.eq_zero_iff
      have hcls : ∀ {cls' : Node}, ks' = [cls'] → ∃ cls, ks = [cls] ∧ Lowers known cls cls' ∧ Kept cls cls' := by
        rintro cls' rfl
        obtain ⟨cls, _, hcL, ⟨⟩, rfl⟩ := forall₂_cons_right_iff.mp hks
        exact ⟨cls, rfl, hcL, (forall₂_cons.mp hkept).1⟩
      cases hR with
      | keep hn =>
        refine hkids.congr ?_
        rw [repeated_mk, or_iff_right]
        rintro ⟨cls, own, hdef, hl, -⟩
        rw [isLowered_congr hkept h, hdef.isLowered hl] at hn
        cases hn
      | @decl _ i cls' parent? hl =>
        obtain ⟨cls, rfl, hcL, hck⟩ := hcls rfl
        have hvar : (var [declarator (binding i.name) (some (build i.name parent?
            cls'))]).depths l x = (build i.name parent? cls').depths l x.plain := by simp
        exact grows_def h .decl hcL hck hl (hhas cls (mem_singleton.mpr rfl)) hkids hvar rfl
      | named hl | anonymous hl =>
        obtain ⟨cls, rfl, hcL, hck⟩ := hcls rfl
        exact grows_def h .expr hcL hck hl (hhas cls (mem_singleton.mpr rfl)) hkids rfl rfl

end Trees

/-! ## Scripts -/

/-- The depths of the nodes of a script that are carried over and come from `l`. -/
def scriptDepths (l : Origin) (s : Script) : Multiset ℕ := s.tree.depths l ⟨0, false⟩

lemma repeated_tree {l : Origin} {s : Script} : Repeated l s.tree ↔ ∃ d cls own m, s.Contains d ∧
    Defines cls own d ∧ isLowerable cls = true ∧ m ∈ membersOf cls ∧ MemberRepeats l m := by
  rw [Script.tree, repeated_mk, or_iff_right (by rintro ⟨_, _, hdef, -⟩; cases hdef)]
  constructor
  · rintro ⟨k, hk, d, cls, own, hd, hdef, hl, m, hm, hr⟩
    exact ⟨d, cls, own, m, ⟨k, hk, hd⟩, hdef, hl, hm, hr⟩
  · rintro ⟨d, cls, own, m, ⟨k, hk, hd⟩, hdef, hl, hm, hr⟩
    exact ⟨k, hk, d, cls, own, hd, hdef, hl, m, hm, hr⟩

/-- **When code is evaluated as often as before.** Lowering the classes of a script drops no code and makes none.
The nodes that come from a place of the source stand in the lowered script as often as before and under as many
functions, unless a member of a class that is lowered has them in the key of a compound assignment to a property of
`super`, or in the computed key of a field of an instance. -/
theorem evaluated_once_iff {s : Script} (h : s.WellFormed) (l : Origin) :
    (scriptDepths l s).card ≤ (scriptDepths l (lowerScript s).1).card ∧
      (scriptDepths l s = 0 → scriptDepths l (lowerScript s).1 = 0) ∧
      (scriptDepths l (lowerScript s).1 = scriptDepths l s ↔ ∀ d cls own m, s.Contains d → Defines cls own d →
        isLowerable cls = true → m ∈ membersOf cls → ¬MemberRepeats l m) := by
  have hgrows : Grows (Repeated l s.tree) (scriptDepths l s) (scriptDepths l (lowerScript s).1) :=
    grows_lowers (lowers_lowerScript h) (wellFormed_tree h)
  refine ⟨hgrows.card_le, hgrows.zero, eq_comm.trans (hgrows.eq_iff.trans ?_)⟩
  rw [repeated_tree]
  exact ⟨fun hnot d cls own m hd hdef hl hm hr => hnot ⟨d, cls, own, m, hd, hdef, hl, hm, hr⟩,
    fun hall ⟨d, cls, own, m, hd, hdef, hl, hm, hr⟩ => hall d cls own m hd hdef hl hm hr⟩

/-- The call of `k` at a place of the source. -/
def callAt (span : Span) : Node := .mk span .call [ident "k"]

/-- `class B extends A { [k()](a) { super[k()](k()); } }`: the key of the method is evaluated with the class, and
the key and the argument in the method with each call. -/
theorem evaluated_once_iff_calls :
    let key : Origin := ⟨⟨1, 4⟩, .call, by decide⟩
    let method : Origin := ⟨⟨5, 8⟩, .call, by decide⟩
    let argument : Origin := ⟨⟨9, 12⟩, .call, by decide⟩
    let cls := make .cls [make .members [make (.method .method false) [
      computedKey (callAt key.span), func [binding "a"] [exprStmt (call
        (make (.superMember .none) [computedKey (callAt method.span)]) [callAt argument.span])]]],
      ident "A"]
    let s : Script := { body := [make (.classDecl ⟨"B", .none⟩) [cls]] }
    s.WellFormed ∧ scriptDepths key (lowerScript s).1 = {0} ∧ scriptDepths method (lowerScript s).1 = {1} ∧
      scriptDepths argument (lowerScript s).1 = {1} ∧ ∀ m ∈ membersOf cls, ¬MemberRepeats key m := by
  intro key method argument cls s
  have hw : s.WellFormed := by decide
  refine ⟨hw, by decide +kernel, by decide +kernel, by decide +kernel, fun m hm => ?_⟩
  exact (evaluated_once_iff hw key).2.2.mp (by decide +kernel) _ cls (some "B") m
    ⟨_, mem_singleton.mpr rfl, .refl⟩ (.decl (i := ⟨"B", .none⟩)) (by decide) hm

/-- **Code is evaluated twice**: `super[k()] += 1` becomes `this[k()] = _super.prototype[k()] + (1)`. **Code is
evaluated for each instance**: `class A { [k()] = 1 }` becomes `function A() { this[k()] = 1; }`. -/
theorem key_evaluated_again :
    let l : Origin := ⟨⟨1, 4⟩, .call, by decide⟩
    let key := computedKey (callAt l.span)
    let store := make (.assign (.compound .add)) [make (.superMember .none) [key], natLit 1]
    let script (ms hs : List Node) : Script := { body := [make (.classDecl ⟨"B", .none⟩)
      [make .cls (make .members ms :: hs)]] }
    let twice := script [make (.method .method false) [make (.keyName "m") [],
      func [] [exprStmt store]]] [ident "A"]
    let often := script [make (.field false) [key, natLit 1]] []
    twice.WellFormed ∧ scriptDepths l twice = {1} ∧ scriptDepths l (lowerScript twice).1 = {1, 1} ∧
      often.WellFormed ∧ scriptDepths l often = {0} ∧ scriptDepths l (lowerScript often).1 = {1} := by
  intro l key store script twice often
  exact ⟨by decide, by decide +kernel, by decide +kernel, by decide, by decide +kernel, by decide +kernel⟩

end EcmaLower.Class
