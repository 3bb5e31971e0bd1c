import EcmaLower.Lower.Super
import EcmaLower.Proofs.LocalRules

/-!
# `super` in the code of a member

What `SuperContext.lower` does to one node depends on how that node uses the receiver or `super`.
This module gives that case distinction a name, states the traversal as one equation over it, and
derives that the traversal keeps trees well-formed and what a search for other syntax finds.

## Main results

* `SuperContext.lower_eq` — the traversal as an equation.
* `SuperContext.WellFormed.lower_is` — it keeps trees well-formed.
* `SuperContext.any_lower` — a search for other syntax finds the same before and after.
-/

namespace EcmaLower

open Node List Build

variable {args : List Node} {f key n receiver : Node} {s : Span} {t : Tag}

/-- Whether the code in a node has a `super` of its own. -/
def Tag.isFrame : Tag → Bool
  | .func .. | .getter | .setter | .cls => true
  | _ => false

namespace Node

/-- Whether a tag with property `p` occurs outside of the functions, accessors and classes of a tree. -/
def outside (p : Tag → Bool) (n : Node) : Bool := n.fold fun _ t ks => !t.isFrame && (p t || ks.any (·.2))

variable {s : Span} {t : Tag} {ks : List Node} {p : Tag → Bool}

lemma outside_mk : (mk s t ks).outside p = (!t.isFrame && (p t || ks.any (·.outside p))) := by
  rw [outside, fold_mk, any_map]
  rfl

/-- The part of a tree outside of its frames goes on into the children. -/
lemma outside_kid (ht : t.isFrame = false) (h : (mk s t ks).outside p = false) {k : Node} (hk : k ∈ ks) :
    k.outside p = false := by
  rw [outside_mk, ht] at h
  exact eq_false_of_ne_true (any_eq_false.mp (Bool.or_eq_false_iff.mp h).2 k hk)

lemma outside_here (ht : t.isFrame = false) (h : (mk s t ks).outside p = false) : p t = false := by
  rw [outside_mk, ht] at h
  exact (Bool.or_eq_false_iff.mp h).1

lemma outside_eq_false (h : n.any (p ·.tag) = false) : n.outside p = false := by
  induction n with
  | mk s t ks ih =>
    simp only [any_mk, tag_mk, Bool.or_eq_false_iff, any_eq_false, Bool.not_eq_true] at h
    rw [outside_mk, h.1, any_eq_false.mpr fun k hk => Bool.eq_false_iff.mp (ih k hk (h.2 k hk))]
    exact Bool.and_false _

end Node

namespace SuperContext

/-! ## The cases of the traversal -/

/-- How a node uses the receiver of a member. -/
inductive Use
  /-- A node with a receiver of its own. -/
  | closed
  /-- `super(args…)`. -/
  | call (args : List Node)
  /-- `super.key(args…)`. -/
  | methodCall (key : Node) (args : List Node)
  /-- `super.key op value`. -/
  | store (op : AssignOp) (key value : Node)
  /-- `super.key`, read. -/
  | read (key : Node)
  /-- `this`. -/
  | this
  /-- Not at all. -/
  | plain

/-- The case of a node. -/
def use : Node → Use
  | .mk _ t ks =>
    match t, ks with
    | .func .., _ | .getter, _ | .setter, _ | .cls, _ => .closed
    | .superCall _, args => .call args
    | .call, callee :: args =>
      match superKey? callee with
      | some key => .methodCall key args
      | none => .plain
    | .assign op, [target, value] =>
      match superKey? target with
      | some key => .store op key value
      | none => .plain
    | .this, _ => .this
    | .superMember _, [key] => .read key
    | _, _ => .plain

lemma superKey?_eq_some_iff : superKey? n = some key ↔ ∃ s w, n = Node.mk s (.superMember w) [key] := by
  unfold superKey?
  split
  · simp
  · rename_i hne
    simp only [reduceCtorEq, false_iff, not_exists]
    rintro s w rfl
    exact hne _ _ _ rfl

/-- The nodes of each case. -/
inductive UseShape : Node → Use → Prop
  | closed {s : Span} {t : Tag} {ks : List Node} : UseShape (.mk s t ks) .closed
  | call {s w : Span} {args : List Node} : UseShape (.mk s (.superCall w) args) (.call args)
  | methodCall {s sc w : Span} {key : Node} {args : List Node} :
    UseShape (.mk s .call (.mk sc (.superMember w) [key] :: args)) (.methodCall key args)
  | store {s : Span} {op : AssignOp} {st w : Span} {key value : Node} :
    UseShape (.mk s (.assign op) [.mk st (.superMember w) [key], value]) (.store op key value)
  | read {s w : Span} {key : Node} : UseShape (.mk s (.superMember w) [key]) (.read key)
  | this {s : Span} {ks : List Node} : UseShape (.mk s .this ks) .this
  | plain {s : Span} {t : Tag} {ks : List Node} : UseShape (.mk s t ks) .plain

lemma use_shape (n : Node) : UseShape n (use n) := by
  obtain ⟨s, t, ks⟩ := n
  simp only [use]
  split
  · exact .closed
  · exact .closed
  · exact .closed
  · exact .closed
  · exact .call
  · split
    · rename_i hkey
      obtain ⟨sc, w, rfl⟩ := superKey?_eq_some_iff.mp hkey
      exact .methodCall
    · exact .plain
  · split
    · rename_i hkey
      obtain ⟨st, w, rfl⟩ := superKey?_eq_some_iff.mp hkey
      exact .store
    · exact .plain
  · exact .this
  · exact .read
  · exact .plain

variable (c : SuperContext)

lemma fold_step_mk (s : Span) (t : Tag) (ks : List Node) :
    (Node.mk s t ks).fold c.step = c.step s t (ks.map fun k => (k, k.fold c.step)) := fold_mk _ s t ks

/-- A node that is stored to keeps its key, with `super` lowered in it. -/
lemma superKey?_within (n : Node) : superKey? (n.fold c.step).within = (superKey? n).map c.lower := by
  obtain ⟨s, t, ks⟩ := n
  rw [fold_step_mk]
  cases t with
  | superMember w =>
    rcases ks with _ | ⟨key, _ | ⟨_, _⟩⟩
    · rfl
    · rfl
    · rfl
  | call =>
    cases ks with
    | nil => rfl
    | cons callee args =>
      simp only [step, map_cons]
      split <;> rfl
  | assign op =>
    rcases ks with _ | ⟨a, _ | ⟨b, _ | ⟨_, _⟩⟩⟩
    · rfl
    · rfl
    · simp only [step, map_cons, map_nil]
      split <;> rfl
    · rfl
  | _ => rfl

/-- **The traversal, case by case.** -/
theorem lower_eq (n : Node) : c.lower n = match use n with
    | .closed => n
    | .call args => callOn c.parent c.receiver (args.map c.lower)
    | .methodCall key args => callOn (c.home key) c.receiver (args.map c.lower)
    | .store op key value => c.store op (c.lower key) (c.lower value)
    | .read key => c.home (c.lower key)
    | .this => c.receiver?.getD (Node.mk n.span n.tag (n.kids.map c.lower))
    | .plain => Node.mk n.span n.tag (n.kids.map c.lower) := by
  obtain ⟨s, t, ks⟩ := n
  have hwhole : ∀ l : List Node, (l.map fun k => (k, k.fold c.step)).map (·.2.whole) =
      l.map c.lower := fun l => map_map
  have hgiven : ∀ l : List Node, (l.map fun k => (k, k.fold c.step)).map (·.1) = l :=
    fun l => map_map.trans (map_id l)
  rw [lower, fold_step_mk]
  cases t with
  | call =>
    cases ks with
    | nil => rfl
    | cons callee args =>
      simp only [step, use, map_cons]
      cases superKey? callee with
      | none => simp only [hwhole, kids_mk, map_cons]; rfl
      | some key => simp only [hwhole]
  | assign op =>
    rcases ks with _ | ⟨target, _ | ⟨value, _ | ⟨_, _⟩⟩⟩
    · rfl
    · rfl
    · simp only [step, use, map_cons, map_nil, superKey?_within]
      cases superKey? target with
      | none | some key => rfl
    · simp only [step, use, map_cons, hwhole]
      rfl
  | superMember w =>
    rcases ks with _ | ⟨key, _ | ⟨_, _⟩⟩
    · rfl
    · rfl
    · simp only [step, use, map_cons, hwhole]
      rfl
  | _ => simp only [step, use, hwhole, hgiven, span_mk, tag_mk, kids_mk]

section Build

variable {c}

/-- A node that uses neither the receiver nor `super` is rebuilt around its children. -/
lemma lower_plain {ks : List Node} (h : use (.mk s t ks) = .plain) :
    c.lower (.mk s t ks) = .mk s t (ks.map c.lower) := by
  rw [lower_eq, h]
  rfl

lemma lower_closed (h : use n = .closed) : c.lower n = n := by
  rw [lower_eq, h]

lemma lower_leaf (h : use (.mk s t []) = .plain) : c.lower (.mk s t []) = .mk s t [] := lower_plain h

lemma lower_cls (h : n.role = .cls) : c.lower n = n := by
  obtain ⟨s, ks, rfl⟩ := eq_of_role h rfl
  exact lower_closed rfl

lemma lower_this (h : c.receiver? = none) : c.lower this = this := by
  rw [lower_eq, show use this = .this from rfl, h]
  rfl

variable {a b e v : Node} {x : String}

@[simp] lemma lower_exprStmt : c.lower (exprStmt e) = exprStmt (c.lower e) := lower_plain rfl

@[simp] lemma lower_access : c.lower (access a b) = access (c.lower a) (c.lower b) := lower_plain rfl

@[simp] lemma lower_assign :
    c.lower (assign (access a b) v) = assign (c.lower (access a b)) (c.lower v) := lower_plain rfl

@[simp] lemma lower_computedKey : c.lower (computedKey e) = computedKey (c.lower e) := lower_plain rfl

@[simp] lemma lower_undefined : c.lower undefined = undefined :=
  (lower_plain rfl).trans (congrArg (fun e => make (.unary .void) [e]) (lower_plain rfl))

@[simp] lemma lower_var : c.lower (var [declarator (binding x) (some e)]) =
    var [declarator (binding x) (some (c.lower e))] := by
  have hdecl : c.lower (declarator (binding x) (some e)) = declarator (binding x) (some (c.lower e)) :=
    (lower_plain rfl).trans (congrArg (make .declarator [·, c.lower e]) (lower_plain rfl))
  exact (lower_plain rfl).trans (congrArg (var [·]) hdecl)

end Build

/-! ## Shape -/

/-- A context of expressions. -/
structure WellFormed : Prop where
  parent : c.parent.Is .expr
  receiver : c.receiver.Is .expr

variable {c} in
lemma WellFormed.home (hc : c.WellFormed) (h : key.OfRole Role.isPublicKey) : (c.home key).Is .expr := by
  refine is_access.mpr ⟨?_, h.1, by simp [Role.isKey, h.2]⟩
  split
  · exact hc.parent
  · exact is_member.mpr hc.parent

lemma is_callOn (hf : f.Is .expr) (hr : receiver.Is .expr) (ha : ∀ k ∈ args, k.OfRole Role.isArgument) :
    (callOn f receiver args).Is .expr := by
  unfold callOn
  split
  · refine is_call.mpr ⟨is_member.mpr hf, ?_⟩
    simp only [forall_mem_cons, not_mem_nil, false_imp_iff, implies_true, and_true]
    refine ⟨hr.ofRole rfl, (is_array.mpr fun k hk => ⟨(ha k hk).1, ?_⟩).ofRole rfl⟩
    simp only [(ha k hk).2, Bool.true_or]
  · exact is_call.mpr ⟨is_member.mpr hf, forall_mem_cons.mpr ⟨hr.ofRole rfl, ha⟩⟩

variable {c} in
lemma WellFormed.store (hc : c.WellFormed) {op : AssignOp} {value : Node} (hk : key.OfRole Role.isPublicKey)
    (hv : value.Is .expr) : (c.store op key value).Is .expr := by
  have htarget : (access c.receiver key).Is .expr := is_access.mpr ⟨hc.receiver, hk.1, by simp [Role.isKey, hk.2]⟩
  have hhome := hc.home hk
  unfold SuperContext.store
  split
  · exact is_assign.mpr ⟨htarget.ofRole rfl, hv⟩
  · split
    · exact is_binary.mpr ⟨hhome, is_paren.mpr (is_assign.mpr ⟨htarget.ofRole rfl, hv⟩)⟩
    · exact is_assign.mpr ⟨htarget.ofRole rfl, is_binary.mpr ⟨hhome, is_paren.mpr hv⟩⟩

variable {c} in
/-- **The traversal keeps trees well-formed**, and every node its role. -/
theorem WellFormed.lower_is (hc : c.WellFormed) (n : Node) (h : n.WellFormed) : (c.lower n).Is n.role := by
  induction n using induct_within with
  | h s t ks ih =>
    -- A store looks two levels down, so the hypothesis is about all parts.
    have hkid : ∀ k ∈ ks, (c.lower k).Is k.role := fun k hk => ih k hk k .refl (h.kid hk)
    have hargs : ∀ args : List Node, (∀ k ∈ args, k ∈ ks ∧ k.role.isArgument = true) →
        ∀ k ∈ args.map c.lower, k.OfRole Role.isArgument := fun args hargs =>
      forall_mem_map.mpr fun k hk => (hkid k (hargs k hk).1).ofRole (hargs k hk).2
    have hplain : (Node.mk s t (ks.map c.lower)).Is t.role := ⟨h.map_kids hkid, rfl⟩
    have hroles := h.fits
    have hshape := use_shape (Node.mk s t ks)
    rw [lower_eq]
    generalize use (Node.mk s t ks) = u at hshape
    cases hshape with
    | closed => exact ⟨h, rfl⟩
    | call =>
      simp only [Tag.fits, all_map, all_eq_true, Function.comp_apply] at hroles
      exact is_callOn hc.parent hc.receiver (hargs _ fun k hk => ⟨hk, hroles k hk⟩)
    | methodCall =>
      rename_i sc w key args
      simp only [Tag.fits, map_cons, Bool.and_eq_true, all_map, all_eq_true, Function.comp_apply] at hroles
      have hcallee : (Node.mk sc (.superMember w) [key]).WellFormed := h.kid (by simp)
      have hkey : key.OfRole Role.isPublicKey := ⟨hcallee.kid (by simp), hcallee.fits⟩
      exact is_callOn (hc.home hkey) hc.receiver
        (hargs _ fun k hk => ⟨mem_cons_of_mem _ hk, hroles.2 k hk⟩)
    | store =>
      rename_i op st w key value
      simp only [Tag.fits, map_cons, map_nil, Bool.and_eq_true, beq_iff_eq] at hroles
      have htarget : (Node.mk st (.superMember w) [key]).WellFormed := h.kid (by simp)
      have hkey : (c.lower key).Is key.role :=
        ih (.mk st (.superMember w) [key]) (by simp) key (.kid (by simp) .refl) (htarget.kid (by simp))
      exact hc.store (hkey.ofRole htarget.fits) (hroles.2 ▸ hkid value (by simp))
    | read =>
      exact hc.home ((hkid _ (by simp)).ofRole hroles)
    | this =>
      have hreceiver := hc.receiver
      rw [SuperContext.receiver] at hreceiver
      cases hr : c.receiver? with
      | none => exact hplain
      | some r =>
        rw [hr] at hreceiver
        exact hreceiver
    | plain => exact hplain

variable {c} in
/-- Code that uses neither `super` nor a receiver that is replaced stays as it is. -/
lemma lower_eq_self_of_outside (hsuper : n.outside Tag.isSuper = false)
    (hthis : c.receiver?.isSome = true → n.outside (· == .this) = false) : c.lower n = n := by
  induction n with
  | mk s t ks ih =>
    cases ht : t.isFrame with
    | true =>
      refine lower_closed ?_
      cases t <;> first | rfl | cases ht
    | false =>
      have hkids : ks.map c.lower = ks :=
        (map_congr_left fun k hk => ih k hk (outside_kid ht hsuper hk)
          fun hr => outside_kid ht (hthis hr) hk).trans (map_id ks)
      have hhere := outside_here ht hsuper
      have hshape := use_shape (Node.mk s t ks)
      rw [lower_eq]
      generalize use (Node.mk s t ks) = u at hshape
      cases hshape with
      | closed => rfl
      | call | read => cases hhere
      | methodCall | store => cases outside_here rfl (outside_kid ht hsuper (mem_cons_self ..))
      | this =>
        cases hr : c.receiver? with
        | none => exact congrArg (Node.mk s .this) hkids
        | some r => cases outside_here ht (hthis (hr ▸ rfl))
      | plain => exact congrArg (Node.mk s t) hkids

variable {c} in
/-- Code without `super` stays as it is where `this` does. -/
lemma lower_eq_self (hr : c.receiver? = none) (n : Node) (h : n.any (·.tag.isSuper) = false) : c.lower n = n :=
  lower_eq_self_of_outside (outside_eq_false h) (by simp [hr])

/-! ## Searches -/

section Search

variable {p : Node → Bool} [Foreign p]

lemma any_callOn : (callOn f receiver args).any p = (f.any p || (receiver.any p || args.any (·.any p))) := by
  unfold callOn
  split <;> simp

variable {c}

lemma any_home (hp : c.parent.any p = false) (key : Node) : (c.home key).any p = key.any p := by
  unfold home
  split <;> simp [hp]

lemma any_store (hp : c.parent.any p = false) (hr : c.receiver.any p = false) (op : AssignOp)
    (key value : Node) : (c.store op key value).any p = (key.any p || value.any p) := by
  have hhome := any_home hp key
  unfold SuperContext.store
  split
  · simp [hr]
  · split <;> simp [hr, hhome]

/-- **A search for other syntax finds the same before and after**: what the traversal writes is
foreign to it, and nothing else gets lost. -/
theorem any_lower (hp : c.parent.any p = false) (hr : c.receiver.any p = false)
    (hkids : ∀ s t ks, (Node.mk s t ks).WellFormed → p (.mk s t (ks.map c.lower)) = p (.mk s t ks))
    (hs : ∀ n, n.tag.isSuper = true → p n = false)
    (ht : ∀ n, n.tag = .this → p n = false) (n : Node) (h : n.WellFormed) :
    (c.lower n).any p = n.any p := by
  induction n using induct_within with
  | h s t ks ih =>
    have hmap : ∀ l : List Node, (∀ k ∈ l, k ∈ ks) → (l.map c.lower).any (·.any p) = l.any (·.any p) := fun l hl => by
      rw [any_map]
      exact any_congr_mem fun k hk => ih k (hl k hk) k .refl (h.kid (hl k hk))
    have hplain : (Node.mk s t (ks.map c.lower)).any p = (Node.mk s t ks).any p := by
      rw [any_mk, any_mk, hmap ks fun _ h => h, hkids s t ks h]
    have hshape := use_shape (Node.mk s t ks)
    rw [lower_eq]
    generalize use (Node.mk s t ks) = u at hshape
    cases hshape with
    | closed => rfl
    | call =>
      rw [any_callOn, hp, hr, hmap _ fun _ h => h, any_mk, hs _ rfl]
      rfl
    | methodCall =>
      rename_i sc w key args
      simp only [any_callOn, any_home hp, hr, any_mk, any_cons, any_nil]
      rw [hmap _ fun k hk => mem_cons_of_mem _ hk, hs (.mk sc (.superMember w) [key]) rfl,
        Foreign.core (p := p) _ .call _ rfl]
      simp
    | store =>
      rename_i op st w key value
      have htarget : (Node.mk st (.superMember w) [key]).WellFormed := h.kid (by simp)
      simp only [any_store hp hr, any_mk, any_cons, any_nil]
      rw [ih (.mk st (.superMember w) [key]) (by simp) key (.kid (by simp) .refl)
          (htarget.kid (by simp)),
        ih value (by simp) value .refl (h.kid (by simp)), hs (.mk st (.superMember w) [key]) rfl,
        Foreign.core (p := p) _ (.assign op) _ rfl]
      simp
    | read =>
      rename_i w key
      simp only [any_home hp, any_mk, any_cons, any_nil]
      rw [ih key (by simp) key .refl (h.kid (by simp)), hs (.mk s (.superMember w) [key]) rfl]
      simp
    | this =>
      obtain rfl : ks = [] := h.leaf rfl
      rw [receiver] at hr
      cases hrec : c.receiver? with
      | none => exact hplain
      | some r =>
        rw [hrec] at hr
        rw [any_mk, ht _ rfl]
        exact hr
    | plain => exact hplain

end Search

end SuperContext

end EcmaLower
