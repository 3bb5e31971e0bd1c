import EcmaLower.Proofs.ArrowNames
import EcmaLower.Proofs.ArrowOwners
import EcmaLower.Proofs.ClassNames

/-!
# Hygiene of generated names

The names that the compiler makes meet no name of the program and no other name that it makes. In what
a pass leaves, every mention of such a name belongs to the function that it was made for: a name that
is drawn for a class belongs to the function that makes the class, and one that holds `this` or
`arguments` belongs to the function whose word it holds, and stands in its body.

## Main results

* `Class.resolves_of_confined`, `Arrow.resolves_of_confined` — a name that is confined
  to such functions belongs to them.
* `drawn_names_resolve` — generated names are hygienic.
-/

namespace EcmaLower

open Node List Build

variable {s : Script} {y : String}

/-- `n.Mentions y p`: the node at the place `p` mentions the name `y`. -/
def Node.Mentions (n : Node) (y : String) (p : List Nat) : Prop := ∃ m, n.at? p = some m ∧ y ∈ m.tag.names

/-! ## Names of classes -/

lemma eq_of_getElem?_singleton {a b : Node} {i : Nat} (h : [a][i]? = some b) : i = 0 ∧ a = b := by
  cases i with
  | zero => exact ⟨rfl, Option.some_inj.mp h⟩
  | succ i => cases h

/-- Wherever a tree mentions the name `y`, the name belongs to a function that makes the class `cls`. It
is the parameter of this function or the constructor that it declares, and is bound once in it. -/
def Class.Resolves (n cls : Node) (y : String) : Prop :=
  ∀ p, n.Mentions y p → ∃ q w name parent?, n.binder y p = some q ∧
    n.at? q = some (maker name parent? (membersOf (lower cls w).1)) ∧ y ∈ name :: parent?.toList ∧
    (maker name parent? (membersOf (lower cls w).1)).bindings.count y = 1

/-- **The names of a class belong to the functions that make it.** -/
theorem Class.resolves_of_confined {cls : Class.ClassOf s} {n : Node}
    (h : n.Confined (y ∈ ·.names) (Class.Makes cls y)) : Class.Resolves n cls.1 y := by
  rintro p ⟨m, hm, hy⟩
  obtain ⟨q, f, ⟨r, rfl⟩, hq, w, name, parent?, rfl, hmem, hcount⟩ := h.exists_part hm hy
  rw [at?_append hq] at hm
  have hfunc : n.at? (q ++ [0, 0]) =
      some (Class.maker name parent? (Class.membersOf (Class.lower cls.1 w).1)) := at?_append hq _
  -- The parentheses, the expression and the function itself have no name, so the place is further in.
  obtain ⟨i, _, r, rfl, hi, hm⟩ := exists_kid_of_mention rfl hm hy
  obtain ⟨rfl, rfl⟩ := eq_of_getElem?_singleton hi
  obtain ⟨i, _, r, rfl, hi, hm⟩ := exists_kid_of_mention rfl hm hy
  obtain ⟨rfl, rfl⟩ := eq_of_getElem?_singleton hi
  obtain ⟨i, _, r, rfl, hi, -⟩ := exists_kid_of_mention rfl hm hy
  have hbinder := binder_append hfunc
    (binder_of_count rfl (Class.mem_hoisted_maker _ hmem) hcount hm)
  rw [append_assoc, append_nil] at hbinder
  exact ⟨q ++ [0, 0], w, name, parent?, hbinder, hfunc, hmem, hcount⟩

/-! ## Names of words -/

/-- The place of the body of a function or an accessor, or of the script. -/
def Script.bodyOf (s : Script) : Option (List Nat) → List Nat
  | none => []
  | some q => q ++ [((s.tree.at? q).map (·.kids.length - 1)).getD 0]

/-- Wherever a script mentions the name `y`, the name belongs to a function, or to the script itself, that
declares it for the word `w`, and the mention stands in the body of this function. -/
def Arrow.Resolves (s : Script) (w : ContextWord) (y : String) : Prop :=
  ∀ p, s.tree.Mentions y p → s.Holds (s.tree.binder y p) y w ∧ s.bodyOf (s.tree.binder y p) <+: p

lemma Arrow.hoisted_captures (sc : Arrow.Scope) : sc.captures.flatMap hoisted = sc.names := by
  unfold Arrow.Scope.captures Arrow.Scope.names
  cases sc.thisName <;> cases sc.argumentsName <;> rfl

/-- The variables of a scope are variables of the block that declares them. -/
lemma Arrow.mem_hoisted_declareIn {sc : Arrow.Scope} {body : Node} (h : y ∈ sc.names)
    (hb : body.tag = .block) : y ∈ (Arrow.declareIn sc.captures body).hoisted := by
  obtain ⟨s, t, stmts⟩ := body
  obtain rfl : t = .block := hb
  rw [← Arrow.hoisted_captures] at h
  obtain ⟨k, hk, hy⟩ := mem_flatMap.mp h
  rw [Arrow.declareIn, hoisted_mk]
  exact mem_append_right _
    (mem_flatMap.mpr ⟨k, mem_afterDirectives.mpr (.inl hk), hy⟩)

/-- **The names of words belong to the function whose words they hold**, and are mentioned in its body
only. -/
theorem Arrow.resolves_of_confined {w : ContextWord} (h : s.tree.Confined (y ∈ ·.names) (Arrow.Houses w y))
    (hcount : s.tree.bindings.count y = 1) : Arrow.Resolves s w y := by
  rintro p ⟨m, hm, hy⟩
  obtain ⟨q, f, ⟨r, rfl⟩, hq, ho, init, body, sc, hkids, hblock, hname, hinit⟩ := h.exists_part hm hy
  rw [at?_append hq] at hm
  obtain ⟨sf, tf, fks⟩ := f
  obtain rfl : fks = init ++ [declareIn sc.captures body] := hkids
  -- The function itself mentions no name, and neither does what stands before its body.
  obtain ⟨i, k, r, rfl, hk, hat⟩ := exists_kid_of_mention (Tag.names_of_isOwner ho).1 hm hy
  obtain rfl : i = init.length := by
    rw [kids_mk] at hk
    rcases Nat.lt_or_ge i init.length with hi | hi
    · rw [List.getElem?_append_left hi] at hk
      exact absurd (mem_names_of_within (within_of_at? hat) hy) (hinit k (List.mem_of_getElem? hk))
    · have hlt := (List.getElem?_eq_some_iff.mp hk).1
      rw [List.length_append, List.length_singleton] at hlt
      omega
  have hmem : y ∈ (init ++ [declareIn sc.captures body]).flatMap hoisted :=
    List.mem_flatMap.mpr ⟨_, List.mem_append_right _ (List.mem_singleton_self _),
      mem_hoisted_declareIn (Scope.mem_names hname) hblock⟩
  have hone : (Node.mk sf tf (init ++ [declareIn sc.captures body])).bindings.count y = 1 := by
    have hle := count_bindings_le_of_at? (x := y) hq
    have hkids : ((init ++ [declareIn sc.captures body]).flatMap hoisted).count y ≤
        ((init ++ [declareIn sc.captures body]).flatMap bindings).count y :=
      count_flatMap_le fun k _ => k.count_hoisted_le
    have hpos := List.count_pos_iff.mpr hmem
    rw [bindings_mk, List.count_append] at hle ⊢
    omega
  have hbinder := binder_append hq (binder_of_count (Tag.hasScope_of_isOwner ho) hmem hone hm)
  rw [List.append_nil] at hbinder
  rw [hbinder]
  have hstmts : s.statementsOf (some q) = afterDirectives sc.captures body.kids := by
    obtain ⟨sb, tb, stmts⟩ := body
    rw [Script.statementsOf, hq]
    simp [Node.statements, declareIn]
  refine ⟨holds_of_name hstmts hname, ?_⟩
  rw [Script.bodyOf, hq]
  simp

/-- A name that the script declares belongs to no function. -/
lemma Arrow.binder_eq_none {n : Node} (hn : y ∈ n.hoisted) (hcount : n.bindings.count y = 1) (p : List Nat) :
    n.binder y p = none := by
  by_contra hne
  obtain ⟨q, hq⟩ := Option.ne_none_iff_exists'.mp hne
  have hlt := count_hoisted_lt_of_binder hq
  have hpos := count_pos_iff.mpr hn
  omega

/-- **The names of words in a script.** -/
theorem Arrow.lowerScript_hygienic (h : s.WellFormed) : ∃ drawn,
    (Arrow.finish s).names.taken = drawn ++ s.names ∧ Drawn drawn s.names ∧
    ∀ y ∈ drawn, (Arrow.lowerScript s).1.tree.bindings.count y = 1 ∧
      ∃ w, Arrow.Resolves (Arrow.lowerScript s).1 w y := by
  obtain ⟨own, body', cs, new, hE, -, hout, htaken, hdrawn, hperm⟩ := Arrow.lowerScript_drawn Arrow.settles_step h
  refine ⟨new, htaken, hdrawn, fun y hy => ?_⟩
  have hall := hdrawn.perm hperm
  have hkids : Arrow.SettlesKids ("arguments" :: own.names) s.body body' cs :=
    Arrow.settles_kids (hE.mono fun _ _ _ _ _ hk => hk.2)
      (hall.sub (sublist_append_right ..) (Subset.refl _))
  -- The script is a block that declares what the script's own scope needs.
  have htree : (Arrow.lowerScript s).1.tree = Arrow.declareIn own.captures (.mk s.span .block body') := by
    rw [hout]
    rfl
  have hcount : (Arrow.lowerScript s).1.tree.bindings.count y = 1 := by
    rw [htree, Arrow.count_bindings_declareIn, bindings_mk,
      show Tag.block.bindings = [] from rfl, nil_append, hkids.count y (hdrawn.fresh y hy), ← count_append, ← hperm.count_eq]
    exact count_eq_one_of_mem hdrawn.nodup hy
  refine ⟨hcount, ?_⟩
  rcases mem_append.mp (hperm.mem_iff.mp hy) with ho | hc
  · obtain ⟨w, hw⟩ := Arrow.Scope.exists_name ho
    have hnone := Arrow.binder_eq_none (htree ▸ Arrow.mem_hoisted_declareIn ho rfl) hcount
    have hstmts : (Arrow.lowerScript s).1.statementsOf none = afterDirectives own.captures body' := by
      rw [hout]
      rfl
    refine ⟨w, fun p _ => ?_⟩
    rw [hnone p]
    exact ⟨Arrow.holds_of_name hstmts hw, nil_prefix⟩
  · have hown : y ∉ own.names := fun ho => (nodup_append.mp hall.nodup).2.2 y ho y hc rfl
    have hargs : y ≠ "arguments" := hdrawn.ne hy (by decide)
    obtain ⟨w, hw⟩ := hkids.housed y hc (by simp [hargs, hown])
    refine ⟨w, Arrow.resolves_of_confined ?_ hcount⟩
    rw [htree]
    exact Arrow.confined_declareIn (.node (by simp [Tag.names]) hw) rfl hown hargs

/-! ## Both passes -/

/-- The names that a run on a script draws: `taken` are the names that are taken in the end. No two of
them are the same, and no node of the script has one of them. -/
structure DrawnIn (s : Script) (taken drawn : List String) : Prop where
  taken : taken = drawn ++ s.names
  nodup : drawn.Nodup
  fresh : ∀ y ∈ drawn, ∀ n, s.Contains n → y ∉ n.tag.names

lemma Drawn.inScript {taken drawn : List String} (ht : taken = drawn ++ s.names) (h : Drawn drawn s.names) :
    DrawnIn s taken drawn := by
  refine ⟨ht, h.nodup, ?_⟩
  rintro y hy n ⟨k, hk, hn⟩ hmem
  exact h.fresh y hy (mem_flatMap.mpr ⟨k, hk, mem_names_of_within hn hmem⟩)

/-- **Generated names are hygienic.** A name is drawn as the first candidate that is free, and one of the
candidates up to the number of taken names is. The names that a pass draws are different from each other
and from every name in the script. After the lowering of classes, a name that was drawn for a class
belongs to the functions that make this class. After the lowering of arrows, a name that was drawn for a
word is bound once, belongs to the function or the script that declares it for the word, and is mentioned
in its body only. -/
theorem drawn_names_resolve {s : Script} (h : s.WellFormed) :
    (∀ (base : String) (names : NameSupply), ∃ i ≤ names.taken.length,
      (names.fresh base).1 = NameSupply.candidate base i ∧
      NameSupply.candidate base i ∉ names.taken ∧
      ∀ j < i, NameSupply.candidate base j ∈ names.taken) ∧
    (∃ drawn, DrawnIn s (Class.finish s).names.taken drawn ∧
      ∀ y ∈ drawn, ∃ cls, s.Contains cls ∧ cls.tag = .cls ∧
        Class.Resolves (Class.lowerScript s).1.tree cls y) ∧
    ∃ drawn, DrawnIn s (Arrow.finish s).names.taken drawn ∧
      ∀ y ∈ drawn, (Arrow.lowerScript s).1.tree.bindings.count y = 1 ∧
        ∃ w, Arrow.Resolves (Arrow.lowerScript s).1 w y := by
  refine ⟨fun base names => names.exists_fresh_eq_candidate base, ?_, ?_⟩
  · obtain ⟨drawn, htaken, hd, hconf⟩ := Class.lowerScript_hygienic h
    refine ⟨drawn, hd.inScript htaken, fun y hy => ?_⟩
    obtain ⟨cls, hcls⟩ := hconf y hy
    exact ⟨cls.1, cls.2.1, cls.2.2, Class.resolves_of_confined hcls⟩
  · obtain ⟨drawn, htaken, hd, hres⟩ := Arrow.lowerScript_hygienic h
    exact ⟨drawn, hd.inScript htaken, hres⟩

/-- `class A extends _super { m() { return () => this; } }` -/
def derivedWithArrow : Script where
  body := [make (.classDecl ⟨"A", .none⟩) [make .cls [make .members
    [make (.method .method false) [make (.keyName "m") [], func []
      [returnStmt (make (.arrow false) [params [], this])]]],
    ident "_super"]]]

/-- A derived class whose parent has the name that would be drawn first. The name that is drawn is
mentioned in the function that makes the class, and that of `this` in the body of the method. -/
theorem drawn_names_resolve_derivedWithArrow : derivedWithArrow.WellFormed ∧
    ((Class.lowerScript derivedWithArrow).1.tree.Mentions "_super1" [0, 0, 1, 0, 0, 0, 0, 0] ∧
      ∃ cls, derivedWithArrow.Contains cls ∧ cls.tag = .cls ∧
        Class.Resolves (Class.lowerScript derivedWithArrow).1.tree cls "_super1") ∧
    (Arrow.lowerScript derivedWithArrow).1.tree.Mentions "_this" [0, 0, 0, 0, 1, 1, 0, 0, 0] ∧
      ∃ w, Arrow.Resolves (Arrow.lowerScript derivedWithArrow).1 w "_this" := by
  have hs : derivedWithArrow.WellFormed := by decide
  have hclass : (Class.finish derivedWithArrow).names.taken = ["_super1"] ++ derivedWithArrow.names := by
    decide +kernel
  have harrow : (Arrow.finish derivedWithArrow).names.taken = ["_this"] ++ derivedWithArrow.names := by
    decide +kernel
  obtain ⟨-, ⟨cs, hcs, hresolve⟩, ds, hds, hresolve'⟩ := drawn_names_resolve hs
  obtain rfl : cs = ["_super1"] := append_cancel_right (hcs.taken.symm.trans hclass)
  obtain rfl : ds = ["_this"] := append_cancel_right (hds.taken.symm.trans harrow)
  refine ⟨hs, ⟨⟨_, rfl, by decide +kernel⟩, hresolve _ (by simp)⟩, ⟨_, rfl, by decide +kernel⟩, ?_⟩
  exact (hresolve' _ (by simp)).2

end EcmaLower
