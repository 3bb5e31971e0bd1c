import EcmaLower.Proofs.Places

/-!
# Where names are mentioned

A variable belongs to the innermost function around it that binds its name. This module says which
function that is, and gives two ways to find out: if a function binds a name once, every mention of the
name inside it means that binding, and if all mentions of a name are *confined* to certain parts of a
tree, it is enough to look at these parts.

A pass that draws names makes new mentions. What it makes of the children of a node is put together
here: a drawn name stays in the part of the tree that it was drawn for.

## Main results

* `Node.binder_of_count` — a name that a function binds once belongs to it everywhere inside.
* `Node.Confined.exists_part` — what stands at a place stands in one of the parts.
* `hygienic_kids` — a pass that is hygienic for each child is so for all of them.
-/

namespace EcmaLower

open List Option

variable {n m f k : Node} {ks ks' : List Node} {t : Tag} {p q : List Nat} {cs drawn : List String} {i : Nat}
  {s : Span} {x y : String}

/-- The variables that a node itself binds or assigns. -/
def Tag.bindings : Tag → List String
  | binding name => [name]
  | patName name | funcDecl name | classDecl name => [name.name]
  | funcExpr name | classExpr name => (name.map Ident.name).toList
  | _ => []

/-- A node that binds a name mentions it. -/
lemma Tag.bindings_subset (t : Tag) : t.bindings ⊆ t.names := by
  cases t <;> simp [bindings, names]

/-- Whether the variables that are bound below a node are not visible outside of it. -/
def Tag.hasScope : Tag → Bool
  | arrow _ => true
  | t => t.isOwner

lemma Tag.hasScope_of_isOwner (h : t.isOwner = true) : t.hasScope = true := by
  cases t <;> first | rfl | exact h

/-- An owner of words has no name of its own. -/
lemma Tag.names_of_isOwner (h : t.isOwner = true) : t.names = [] ∧ t.bindings = [] := by
  cases t <;> first | exact ⟨rfl, rfl⟩ | cases h

namespace Node

/-! ## Names and bindings -/

/-- The variables that a tree binds or assigns, as often as it does. -/
def bindings (n : Node) : List String := n.collect (·.tag.bindings)

lemma names_eq_collect (n : Node) : n.names = n.collect (·.tag.names) := rfl

lemma names_mk (s : Span) (t : Tag) (ks : List Node) :
    (mk s t ks).names = t.names ++ ks.flatMap names := collect_mk (·.tag.names) s t ks

lemma bindings_mk (s : Span) (t : Tag) (ks : List Node) :
    (mk s t ks).bindings = t.bindings ++ ks.flatMap bindings := collect_mk _ s t ks

lemma mem_names_of_within (h : m.Within n) (hx : x ∈ m.tag.names) : x ∈ n.names := by
  induction h with
  | refl =>
    obtain ⟨s, t, ks⟩ := m
    rw [names_mk]
    exact mem_append_left _ hx
  | kid hk _ ih =>
    rw [names_mk]
    exact mem_append_right _ (mem_flatMap.mpr ⟨_, hk, ih⟩)

lemma within_of_at? (h : n.at? p = some m) : m.Within n := by
  induction p generalizing n with
  | nil =>
    obtain rfl := some_inj.mp h
    exact .refl
  | cons i p ih =>
    obtain ⟨s, t, ks⟩ := n
    obtain ⟨k, hk, h⟩ := exists_kid_of_at? h
    exact .kid (mem_of_getElem? hk) (ih h)

/-- A name in a tree whose root has none is in one of the children. -/
lemma exists_kid_of_mention (hn : n.tag.names = []) (hm : n.at? p = some m) (hx : x ∈ m.tag.names) :
    ∃ i k r, p = i :: r ∧ n.kids[i]? = some k ∧ k.at? r = some m := by
  cases p with
  | nil =>
    obtain rfl := some_inj.mp hm
    rw [hn] at hx
    cases hx
  | cons i r =>
    obtain ⟨k, hk, hm⟩ := exists_kid_of_at? hm
    exact ⟨i, k, r, rfl, hk, hm⟩

lemma bindings_subset (n : Node) : n.bindings ⊆ n.names := by
  induction n with
  | mk s t ks ih =>
    intro x hx
    rw [bindings_mk] at hx
    rw [names_mk]
    rcases mem_append.mp hx with hx | hx
    · exact mem_append_left _ (t.bindings_subset hx)
    · obtain ⟨k, hk, hx⟩ := mem_flatMap.mp hx
      exact mem_append_right _ (mem_flatMap.mpr ⟨k, hk, ih k hk hx⟩)

/-! ## The function that a name belongs to -/

/-- The variables that a tree binds or assigns outside of the functions in it. -/
def hoisted (n : Node) : List String := n.fold fun _ t ks => if t.hasScope then [] else t.bindings ++ ks.flatMap (·.2)

lemma hoisted_mk (s : Span) (t : Tag) (ks : List Node) : (mk s t ks).hoisted =
    if t.hasScope then [] else t.bindings ++ ks.flatMap hoisted := by
  rw [hoisted, fold_mk, flatMap_map]
  rfl

/-- The place of the innermost function around a place that binds a name. -/
def binder (x : String) (n : Node) : List Nat → Option (List Nat)
  | [] => none
  | i :: p => n.kids[i]?.bind fun k => ((k.binder x p).map (i :: ·)).or
      (if n.tag.hasScope && (n.kids.flatMap hoisted).contains x then some [] else none)

lemma binder_cons (h : n.kids[i]? = some k) (x : String) (p : List Nat) :
    n.binder x (i :: p) = ((k.binder x p).map (i :: ·)).or
      (if n.tag.hasScope && (n.kids.flatMap hoisted).contains x then some [] else none) := by
  rw [binder, h, bind_some]

/-- What a part of a tree says of a name holds in the whole tree. -/
lemma binder_append {r : List Nat} (hq : n.at? q = some f) (h : f.binder x p = some r) :
    n.binder x (q ++ p) = some (q ++ r) := by
  induction q generalizing n with
  | nil =>
    obtain rfl := some_inj.mp hq
    exact h
  | cons i q ih =>
    obtain ⟨k, hk, hq⟩ := exists_kid_of_at? hq
    rw [cons_append, binder_cons hk, ih hq]
    rfl

section Count

variable {x : String}

lemma count_flatMap_le {f g : Node → List String} (h : ∀ k ∈ ks, (f k).count x ≤ (g k).count x) :
    (ks.flatMap f).count x ≤ (ks.flatMap g).count x := by
  induction ks with
  | nil => exact Nat.le_refl _
  | cons k ks ih =>
    rw [flatMap_cons, flatMap_cons, count_append, count_append]
    exact Nat.add_le_add (h k (by simp)) (ih fun k hk => h k (by simp [hk]))

lemma count_flatMap_lt {f g : Node → List String} (hk : k ∈ ks) (h : ∀ k ∈ ks, (f k).count x ≤ (g k).count x)
    (hlt : (f k).count x < (g k).count x) : (ks.flatMap f).count x < (ks.flatMap g).count x := by
  obtain ⟨l, r, rfl⟩ := append_of_mem hk
  have hl := count_flatMap_le fun k hk => h k (mem_append_left _ hk)
  have hr := count_flatMap_le fun k hk => h k (mem_append_right l (mem_cons_of_mem _ hk))
  simp only [flatMap_append, flatMap_cons, count_append]
  omega

lemma count_hoisted_le (n : Node) : n.hoisted.count x ≤ n.bindings.count x := by
  induction n with
  | mk s t ks ih =>
    rw [hoisted_mk, bindings_mk]
    split
    · exact Nat.zero_le _
    · rw [count_append, count_append]
      exact Nat.add_le_add_left (count_flatMap_le ih) _

/-- A name that belongs to a function inside a tree is bound there. -/
lemma count_hoisted_lt_of_binder (h : n.binder x p = some q) : n.hoisted.count x < n.bindings.count x := by
  induction p generalizing n q with
  | nil => cases h
  | cons i p ih =>
    obtain ⟨s, t, ks⟩ := n
    obtain ⟨k, hk, hor⟩ := bind_eq_some_iff.mp h
    have hmem : k ∈ ks := mem_of_getElem? hk
    have hkids := count_flatMap_le (x := x) fun k (_ : k ∈ ks) => k.count_hoisted_le
    rw [hoisted_mk, bindings_mk, count_append]
    rcases or_eq_some_iff.mp hor with hkid | ⟨-, hroot⟩
    · obtain ⟨r, hr, -⟩ := map_eq_some_iff.mp hkid
      have hlt := count_flatMap_lt (x := x) hmem (fun k _ => k.count_hoisted_le) (ih hr)
      split
      · rw [count_nil]
        omega
      · rw [count_append]
        omega
    · obtain ⟨hc, -⟩ := ite_none_right_eq_some.mp hroot
      obtain ⟨ht, hx⟩ := Bool.and_eq_true_iff.mp hc
      have hpos : 0 < (ks.flatMap hoisted).count x := count_pos_iff.mpr (contains_iff_mem.mp hx)
      rw [if_pos (show t.hasScope = true from ht), count_nil]
      omega

/-- **A name that a function binds once belongs to it everywhere inside**: a function further in that
binds the name would bind it a second time. -/
theorem binder_of_count (hf : f.tag.hasScope = true) (hx : x ∈ f.kids.flatMap hoisted)
    (hcount : f.bindings.count x = 1) (hp : f.at? (i :: p) = some m) : f.binder x (i :: p) = some [] := by
  obtain ⟨s, t, ks⟩ := f
  obtain ⟨k, hk, -⟩ := exists_kid_of_at? hp
  have hnone : k.binder x p = none := by
    by_contra hne
    obtain ⟨q, hq⟩ := ne_none_iff_exists'.mp hne
    have hmem : k ∈ ks := mem_of_getElem? hk
    have hlt := count_flatMap_lt (x := x) hmem (fun k _ => k.count_hoisted_le)
      (count_hoisted_lt_of_binder hq)
    have hpos : 0 < (ks.flatMap hoisted).count x := count_pos_iff.mpr hx
    rw [bindings_mk, count_append] at hcount
    omega
  rw [binder_cons hk, hnone, hf, contains_iff_mem.mpr hx]
  rfl

/-- A part of a tree binds a name no more often than the tree does. -/
lemma count_bindings_le_of_at? (h : n.at? q = some f) : f.bindings.count x ≤ n.bindings.count x := by
  induction q generalizing n with
  | nil =>
    obtain rfl := some_inj.mp h
    exact Nat.le_refl _
  | cons i q ih =>
    obtain ⟨s, t, ks⟩ := n
    obtain ⟨k, hk, hq⟩ := exists_kid_of_at? h
    obtain ⟨l, r, rfl⟩ := append_of_mem (mem_of_getElem? hk)
    have := ih hq
    rw [bindings_mk]
    simp only [flatMap_append, flatMap_cons, count_append]
    omega

end Count

/-! ## Confinement -/

/-- `n.Confined bad P`: in the tree `n`, nodes with a tag that is `bad` stand only inside of parts with
the property `P`. -/
inductive Confined (bad : Tag → Prop) (P : Node → Prop) : Node → Prop
  | part {n : Node} : P n → Confined bad P n
  | node {s : Span} {t : Tag} {ks : List Node} : ¬bad t → (∀ k ∈ ks, Confined bad P k) → Confined bad P (mk s t ks)

namespace Confined

variable {bad : Tag → Prop} {P : Node → Prop}

lemma mono {Q : Node → Prop} (h : n.Confined bad P) (hPQ : ∀ n, P n → Q n) : n.Confined bad Q := by
  induction h with
  | part hP => exact .part (hPQ _ hP)
  | node ht _ ih => exact .node ht ih

/-- The children of a node that is none of the parts. -/
lemma kids (h : (mk s t ks).Confined bad P) (hP : ¬P (mk s t ks)) : ∀ k ∈ ks, k.Confined bad P := by
  cases h with
  | part hn => exact absurd hn hP
  | node _ hks => exact hks

/-- **What stands at a place stands in one of the parts.** -/
theorem exists_part (h : n.Confined bad P) (hm : n.at? p = some m) (hbad : bad m.tag) :
    ∃ q f, q <+: p ∧ n.at? q = some f ∧ P f := by
  induction p generalizing n with
  | nil =>
    obtain rfl := some_inj.mp hm
    cases h with
    | part hP => exact ⟨[], n, nil_prefix, rfl, hP⟩
    | node ht _ => exact absurd hbad ht
  | cons i p ih =>
    cases h with
    | part hP => exact ⟨[], n, nil_prefix, rfl, hP⟩
    | node _ hks =>
      obtain ⟨k, hk, hm⟩ := exists_kid_of_at? hm
      obtain ⟨q, f, hq, hf, hP⟩ := ih (hks k (mem_of_getElem? hk)) hm
      exact ⟨i :: q, f, (prefix_cons_inj i).mpr hq, (at?_cons hk q).trans hf, hP⟩

end Confined

/-- Nothing is in a tree iff it is confined to no part. -/
lemma confined_false_iff {own : Tag → List String} :
    n.Confined (y ∈ own ·) (fun _ => False) ↔ y ∉ n.collect (own ·.tag) := by
  constructor
  · intro h
    induction h with
    | part h => exact h.elim
    | node ht _ ih =>
      rw [collect_mk, mem_append, mem_flatMap]
      rintro (hy | ⟨k, hk, hy⟩)
      · exact ht hy
      · exact ih k hk hy
  · intro h
    induction n with
    | mk s t ks ih =>
      rw [collect_mk, mem_append, not_or] at h
      exact .node h.1 fun k hk => ih k hk fun hy => h.2 (mem_flatMap.mpr ⟨k, hk, hy⟩)

lemma notMem_names_iff : y ∉ n.names ↔ n.Confined (y ∈ ·.names) (fun _ => False) := by
  rw [confined_false_iff, names_eq_collect]

/-- A tree that does not mention a name. -/
lemma confined_of_notMem {P : Node → Prop} (h : y ∉ n.names) :
    n.Confined (y ∈ ·.names) P := (notMem_names_iff.mp h).mono nofun

end Node

/-! ## Passes that draw names -/

section Hygiene

open Node

/-- Names that are drawn for a node are free in its children. -/
lemma Drawn.kids {new : List String} (h : Drawn new (Node.mk s t ks).names) : Drawn new (ks.flatMap names) := by
  rw [names_mk] at h
  exact h.sub (.refl _) (subset_append_right ..)

variable {α : Type} {House : α → String → Node → Prop} {known : List String}

/-- What a pass may do with names: it mentions no names but those that it draws and some that are
`known`, and each name that it draws stays in parts of the tree that house it. -/
structure Hygienic (House : α → String → Node → Prop) (known : List String) (n n' : Node)
    (drawn : List String) : Prop where
  free : ∀ y, y ∉ n.names → y ∉ drawn → y ∉ known → y ∉ n'.names
  housed : ∀ y ∈ drawn, y ∉ known → ∃ a, n'.Confined (y ∈ ·.names) (House a y)

/-- The same for lists of nodes. -/
structure HygienicKids (House : α → String → Node → Prop) (known : List String) (ks ks' : List Node)
    (drawn : List String) : Prop where
  free : ∀ y, y ∉ ks.flatMap names → y ∉ drawn → y ∉ known → ∀ k ∈ ks', y ∉ k.names
  housed : ∀ y ∈ drawn, y ∉ known → ∃ a, ∀ k ∈ ks', k.Confined (y ∈ ·.names) (House a y)

/-- More names may be known. -/
lemma Hygienic.mono {known' : List String} {n' : Node} (h : Hygienic House known n n' drawn) (hk : known ⊆ known') :
    Hygienic House known' n n' drawn :=
  ⟨fun y hn hd hy => h.free y hn hd fun hm => hy (hk hm), fun y hd hy => h.housed y hd fun hm => hy (hk hm)⟩

lemma HygienicKids.nil : HygienicKids House known [] [] [] := ⟨nofun, nofun⟩

/-- A name that is drawn for one child stays there, since no other child mentions it. -/
lemma HygienicKids.cons {k' : Node} {ks ks' : List Node} {cs ds : List String}
    (hd : Drawn (cs ++ ds) ((k :: ks).flatMap names)) (hk : Hygienic House known k k' cs)
    (hks : HygienicKids House known ks ks' ds) : HygienicKids House known (k :: ks) (k' :: ks') (cs ++ ds) where
  free y hn hy hknown := by
    rw [flatMap_cons, mem_append, not_or] at hn
    rw [mem_append, not_or] at hy
    exact forall_mem_cons.mpr ⟨hk.free y hn.1 hy.1 hknown, hks.free y hn.2 hy.2 hknown⟩
  housed y hy hknown := by
    have hfresh := hd.fresh y hy
    rw [flatMap_cons, mem_append, not_or] at hfresh
    rcases mem_append.mp hy with hc | hc
    · obtain ⟨a, ha⟩ := hk.housed y hc hknown
      have hds : y ∉ ds := fun hds => (nodup_append.mp hd.nodup).2.2 y hc y hds rfl
      refine ⟨a, forall_mem_cons.mpr ⟨ha, fun l hl => ?_⟩⟩
      exact confined_of_notMem (hks.free y hfresh.2 hds hknown l hl)
    · obtain ⟨a, ha⟩ := hks.housed y hc hknown
      have hcs : y ∉ cs := fun hcs => (nodup_append.mp hd.nodup).2.2 y hcs y hc rfl
      exact ⟨a, forall_mem_cons.mpr ⟨confined_of_notMem (hk.free y hfresh.1 hcs hknown), ha⟩⟩

/-- **A pass that is hygienic for each child is so for all of them.** -/
theorem hygienic_kids {c : Nat}
    (h : EachNamed (fun k k' cs _ => Drawn cs k.names → Hygienic House known k k' cs) ks ks' cs c)
    (hd : Drawn cs (ks.flatMap names)) : HygienicKids House known ks ks' cs := by
  induction h with
  | nil => exact .nil
  | @cons k k' ks ks' cs ds c d hk _ ih =>
    have hnames : (k :: ks).flatMap names = k.names ++ ks.flatMap names := flatMap_cons
    refine .cons hd (hk (hd.sub (sublist_append_left cs ds) ?_))
      (ih (hd.sub (sublist_append_right cs ds) ?_))
    · rw [hnames]
      exact subset_append_left ..
    · rw [hnames]
      exact subset_append_right ..

/-- A node with the names that its children have drawn. -/
lemma hygienic_mk {s' : Span} (hd : Drawn cs (mk s t ks).names) (h : HygienicKids House known ks ks' cs) :
    Hygienic House known (mk s t ks) (mk s' t ks') cs where
  free y hn hy hknown := by
    rw [names_mk, mem_append, not_or] at hn ⊢
    refine ⟨hn.1, fun hmem => ?_⟩
    obtain ⟨k, hk, hyk⟩ := mem_flatMap.mp hmem
    exact h.free y hn.2 hy hknown k hk hyk
  housed y hy hknown := by
    obtain ⟨a, ha⟩ := h.housed y hy hknown
    have hfresh := hd.fresh y hy
    rw [names_mk, mem_append, not_or] at hfresh
    exact ⟨a, .node hfresh.1 ha⟩

/-- A result that is wrapped into a node, behind nodes that mention nothing new. -/
lemma Hygienic.wrap (h : Hygienic House known n k drawn) (pre : List Node) (hd : Drawn drawn n.names)
    (ht : t.names = []) (hpre : ∀ k ∈ pre, k.names ⊆ n.names) :
    Hygienic House known n (Node.mk s t (pre ++ [k])) drawn where
  free y hn hy hknown := by
    rw [names_mk, ht, nil_append, mem_flatMap]
    rintro ⟨l, hl, hyl⟩
    rcases mem_append.mp hl with hl | hl
    · exact hn (hpre l hl hyl)
    · rw [mem_singleton.mp hl] at hyl
      exact h.free y hn hy hknown hyl
  housed y hy hknown := by
    obtain ⟨a, ha⟩ := h.housed y hy hknown
    refine ⟨a, .node (by simp [ht]) fun l hl => ?_⟩
    rcases mem_append.mp hl with hl | hl
    · exact confined_of_notMem fun hyl => hd.fresh y hy (hpre l hl hyl)
    · rw [mem_singleton.mp hl]
      exact ha

end Hygiene

end EcmaLower
