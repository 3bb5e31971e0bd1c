import EcmaLower.Proofs.ClassBuild
import EcmaLower.Proofs.Exports
import EcmaLower.Proofs.Mentions

/-!
# Scopes

A reference asks for a name, for `this` or for `new.target`, and what it gets is decided by the scopes
around it: the innermost one that binds what it asks for. This module lists the scopes around a place of
a tree, and shows that code keeps its scopes where `super` is lowered in it.

A scope binds what is declared in it. A `var` is declared for the whole function, so all scopes between
the declaration and the function bind its name, and these count as one variable.

## Main results

* `Node.between_congr` — nodes whose children declare the same have the same scopes.
* `SuperContext.WellFormed.holds_lower` — code in which `super` is lowered keeps its scopes.
-/

namespace EcmaLower

open List Option

variable {n k k' key receiver value : Node} {l : Span × Tag} {i : Nat} {b : Bool} {S : List Frame} {x : String}
  {moved : Node → Bool} {ks args : List Node} {op : AssignOp} {f : Frame} {s s' : Span} {t : Tag}

/-- What a reference asks for. -/
inductive Ref
  | this
  | newTarget
  | name (x : String)
deriving DecidableEq, Repr

/-- What a node asks for, if it is a reference. -/
def Tag.ref? : Tag → Option Ref
  | this => some .this
  | newTarget => some .newTarget
  | ident x | shorthand x | binding x => some (.name x)
  | initShorthand x | patName x => some (.name x.name)
  | _ => none

/-- Whether a reference asks for a name that is known, or for no name. -/
def Ref.IsKnown (known : List String) : Ref → Prop
  | name x => x ∈ known
  | _ => True

/-- What a scope binds. -/
abbrev Frame := List Ref

namespace Frame

/-- The scope of variables. -/
def ofNames (xs : List String) : Frame := xs.map .name

@[simp] lemma name_mem_ofNames {xs : List String} : Ref.name x ∈ ofNames xs ↔ x ∈ xs := by
  simp [ofNames]

/-- What every function binds but an arrow. -/
def ofFunction : Frame := [.this, .newTarget, .name "arguments"]

@[simp] lemma name_mem_ofFunction : Ref.name x ∈ ofFunction ↔ x = "arguments" := by
  simp [ofFunction]

end Frame

/-- Whether a tag is that of a statement that holds statements, or of a part of one. -/
def Tag.isCompound : Tag → Bool
  | block | withStmt | labeled _ | ifStmt | switchStmt | caseClause | defaultClause | tryStmt
  | catchClause | whileStmt | doWhile | forStmt | forIn | forOf _ => true
  | _ => false

/-- The names that a node binds or assigns to itself. -/
def Tag.written : Tag → List String
  | binding name => [name]
  | patName name | initShorthand name | funcDecl name | classDecl name => [name.name]
  | funcExpr name? | classExpr name? => (name?.map Ident.name).toList
  | _ => []

namespace Node

/-! ## Declarations -/

/-- The names that a statement declares in a scope: all of them if it stands in the statement list of
this scope, and else those that are declared for the whole function. The classes of `moved` count as
variables. -/
def declares (moved : Node → Bool) (n : Node) : Bool → List String :=
  n.fold fun span t ks top =>
    let n := mk span t (ks.map (·.1))
    match t with
    | .varDecl .var => n.declaredNames
    | .varDecl _ | .funcDecl _ => if top then n.declaredNames else []
    | .classDecl _ => if top || moved n then n.declaredNames else []
    | .labeled _ => ks.flatMap (·.2 top)
    | t => if t.isCompound then ks.flatMap (·.2 false) else []

lemma declares_mk (moved : Node → Bool) (s : Span) (t : Tag) (ks : List Node) (top : Bool) :
    (mk s t ks).declares moved top = match t with
      | .varDecl .var => (mk s t ks).declaredNames
      | .varDecl _ | .funcDecl _ => if top then (mk s t ks).declaredNames else []
      | .classDecl _ => if top || moved (mk s t ks) then (mk s t ks).declaredNames else []
      | .labeled _ => ks.flatMap (·.declares moved top)
      | t => if t.isCompound then ks.flatMap (·.declares moved false) else [] := by
  rw [declares, fold_mk]
  simp only [List.map_map, Function.comp_def, List.map_id', List.flatMap_map]
  rfl

/-- The names that a body declares, if it is a block. -/
def bodyNames (moved : Node → Bool) (n : Node) : List String :=
  if n.role = .block then n.kids.flatMap (·.declares moved true) else []

lemma bodyNames_eq_nil (h : n.role ≠ .block) : n.bodyNames moved = [] := if_neg h

/-- The parameters of a function, an accessor or a handler. -/
def parameters (n : Node) : List String :=
  n.declaredNames ++ (n.kids.filter (·.role == .params)).flatMap declaredNames

/-- The scope of a block that stands in a statement. -/
def blockScope (moved : Node → Bool) (n : Node) : List Frame :=
  if n.role = .block then [.ofNames (n.bodyNames moved)] else []

/-! ## Scopes -/

/-- The scopes between a node and its child `k`, the `i`-th one, innermost first. The initializer of a
field is a method of its own: its `new.target` is that of no function, and its `this` is the object that
gets the field. -/
def between (moved : Node → Bool) (n : Node) (i : Nat) (k : Node) : List Frame :=
  match n.tag with
  | .func .. | .staticBlock => [.ofFunction ++ .ofNames (n.parameters ++ k.bodyNames moved)]
  | .ctor | .getter | .setter =>
    if i = 0 then [] else [.ofFunction ++ .ofNames (n.parameters ++ k.bodyNames moved)]
  | .arrow _ | .catchClause => [.ofNames (n.parameters ++ k.bodyNames moved)]
  | .field _ => if i = 0 then [] else [[.newTarget], [.this]]
  | .funcExpr x? => x?.toList.map fun x => .ofNames [x.name]
  | .classDecl x => [.ofNames [x.name]]
  | .classExpr x? => [.ofNames (x?.map Ident.name).toList]
  | .switchStmt => if i = 0 then []
    else [.ofNames (n.kids.tail.flatMap fun c => c.kids.flatMap (·.declares moved true))]
  | .forStmt | .forIn | .forOf _ =>
    k.blockScope moved ++ [.ofNames ((n.kids.take 1).flatMap (·.declares moved true))]
  | t => if t.isCompound then k.blockScope moved else []

/-- No class counts as a variable. -/
def never (_ : Node) : Bool := false

/-- The scopes around a place, innermost first. -/
def scopes (n : Node) : List Nat → List Frame
  | [] => []
  | i :: p =>
    match n.kids[i]? with
    | none => []
    | some k => k.scopes p ++ n.between never i k

lemma scopes_cons (h : n.kids[i]? = some k) (p : List Nat) :
    n.scopes (i :: p) = k.scopes p ++ n.between never i k := by
  rw [scopes, h]

/-! ## Nodes that declare the same -/

/-- `k'` declares what `k` does, where the classes of `moved` in `k` count as variables. -/
structure Declares (moved : Node → Bool) (k k' : Node) : Prop where
  role : k'.role = k.role
  bound : k.role.mayBind = true ∨ k.role = .params → k'.declaredNames = k.declaredNames
  stmt : ∀ top, k'.declares never top = k.declares moved top
  kids : k.role = .block ∨ k.role = .clause →
    k'.kids.flatMap (·.declares never true) = k.kids.flatMap (·.declares moved true)

lemma Declares.refl (n : Node) : Declares never n n := ⟨rfl, fun _ => rfl, fun _ => rfl, fun _ => rfl⟩

section Congr

variable {moved : Node → Bool} {s : Span} {t : Tag} {ks ks' : List Node}

lemma flatMap_eq_of_forall₂ {α : Type} {R : Node → Node → Prop} {f g : Node → List α}
    (h : Forall₂ R ks ks') (hm : ∀ k k', k ∈ ks → R k k' → g k' = f k) :
    ks'.flatMap g = ks.flatMap f := by
  induction h with
  | nil => rfl
  | cons hk _ ih =>
    rw [flatMap_cons, flatMap_cons, hm _ _ (by simp) hk,
      ih fun k k' hmem => hm k k' (by simp [hmem])]

/-- Of the children of one kind, each declares the same. -/
lemma flatMap_filter_congr (h : Forall₂ (Declares moved) ks ks') {p : Role → Bool}
    (hp : ∀ r, p r = true → r.mayBind = true ∨ r = .params) :
    (ks'.filter (p ·.role)).flatMap declaredNames = (ks.filter (p ·.role)).flatMap declaredNames := by
  induction h with
  | nil => rfl
  | @cons k k' _ _ hk _ ih =>
    cases hrole : p k.role with
    | false => rw [filter_cons_of_neg (by simp [hk.role, hrole]),
        filter_cons_of_neg (by simp [hrole]), ih]
    | true => rw [filter_cons_of_pos (by simp [hk.role, hrole]),
        filter_cons_of_pos (by simp [hrole]), flatMap_cons, flatMap_cons, ih,
        hk.bound (hp _ hrole)]

lemma declaredNames_congr (h : Forall₂ (Declares moved) ks ks') :
    (mk s' t ks').declaredNames = (mk s t ks).declaredNames := by
  rw [declaredNames_mk, declaredNames_mk, flatMap_filter_congr h fun r hr => .inl hr]

lemma parameters_congr (h : Forall₂ (Declares moved) ks ks') : (mk s' t ks').parameters = (mk s t ks).parameters := by
  rw [parameters, parameters, declaredNames_congr h, kids_mk, kids_mk,
    flatMap_filter_congr (p := (· == .params)) h fun r hr => .inr (beq_iff_eq.mp hr)]

/-- A node that stays declares what it did if its children do. -/
lemma declares_node (h : Forall₂ (Declares moved) ks ks')
    (hm : moved (mk s t ks) = false) : Declares moved (mk s t ks) (mk s t ks') where
  role := rfl
  bound _ := declaredNames_congr h
  stmt top := by
    have hnames : (mk s t ks').declaredNames = (mk s t ks).declaredNames := declaredNames_congr h
    have hkids : ∀ top, ks'.flatMap (·.declares never top) = ks.flatMap (·.declares moved top) :=
      fun top => flatMap_eq_of_forall₂ h fun k k' _ hk => hk.stmt top
    rw [declares_mk, declares_mk, hnames, hkids, hkids, hm]
    rfl
  kids _ := flatMap_eq_of_forall₂ h fun k k' _ hk => hk.stmt true

lemma Declares.bodyNames (h : Declares moved k k') : k'.bodyNames never = k.bodyNames moved := by
  unfold Node.bodyNames
  rw [h.role]
  split
  next hb => exact h.kids (.inl hb)
  next => rfl

lemma Declares.blockScope (h : Declares moved k k') : k'.blockScope never = k.blockScope moved := by
  rw [Node.blockScope, Node.blockScope, h.role, h.bodyNames]

/-- **Nodes whose children declare the same have the same scopes.** -/
theorem between_congr (hks : List.Forall₂ (Declares moved) ks ks') (h : (mk s t ks).WellFormed) (i : Nat)
    (hk : Declares moved k k') : (mk s t ks').between never i k' = (mk s t ks).between moved i k := by
  have hparams : (mk s t ks').parameters = (mk s t ks).parameters := parameters_congr hks
  have hhead : (ks'.take 1).flatMap (·.declares never true) = (ks.take 1).flatMap (·.declares moved true) := by
    cases hks with
    | nil => rfl
    | cons hk _ => simp only [List.take_succ_cons, List.take_zero, List.flatMap_singleton, hk.stmt]
  have hswitch : t = .switchStmt → ks'.tail.flatMap (fun c => c.kids.flatMap (·.declares never true)) =
        ks.tail.flatMap fun c => c.kids.flatMap (·.declares moved true) := by
    rintro rfl
    cases hks with
    | nil => rfl
    | cons _ hks =>
      have hroles := h.fits
      simp only [Tag.fits, List.map_cons, Bool.and_eq_true, List.all_map, List.all_eq_true,
        Function.comp_apply, beq_iff_eq] at hroles
      exact flatMap_eq_of_forall₂ hks fun c c' hc hd => hd.kids (.inr (hroles.2 c hc))
  unfold between
  rw [tag_mk, tag_mk, hparams, hk.bodyNames, hk.blockScope, kids_mk, kids_mk, hhead]
  cases t with
  | switchStmt => rw [hswitch rfl]
  | _ => rfl

end Congr

/-! ## Names in scopes -/

/-- The names that a tree binds or assigns to. -/
def written (n : Node) : List String := n.collect (·.tag.written)

lemma written_mk (s : Span) (t : Tag) (ks : List Node) :
    (mk s t ks).written = t.written ++ ks.flatMap written := collect_mk ..

lemma written_kid (hk : k ∈ ks) : k.written ⊆ (mk s t ks).written := by
  intro x hx
  rw [written_mk]
  exact mem_append_right _ (mem_flatMap.mpr ⟨k, hk, hx⟩)

lemma written_subset (n : Node) : n.written ⊆ n.names := by
  induction n with
  | mk s t ks ih =>
    have hown : t.written ⊆ t.names := by cases t <;> simp [Tag.written, Tag.names]
    rw [written_mk, names_mk]
    refine append_subset.mpr ⟨subset_append_of_subset_left _ hown, ?_⟩
    intro x hx
    obtain ⟨k, hk, hx⟩ := mem_flatMap.mp hx
    exact mem_append_right _ (mem_flatMap.mpr ⟨k, hk, ih k hk hx⟩)

lemma declaredNames_subset (n : Node) : n.declaredNames ⊆ n.written := by
  induction n with
  | mk s t ks ih =>
    have hown : t.boundName ⊆ t.written := by cases t <;> simp [Tag.boundName, Tag.written]
    rw [declaredNames_mk, written_mk]
    refine append_subset.mpr ⟨subset_append_of_subset_left _ hown, ?_⟩
    intro x hx
    obtain ⟨k, hk, hx⟩ := mem_flatMap.mp hx
    have hmem := (mem_filter.mp hk).1
    exact mem_append_right _ (mem_flatMap.mpr ⟨k, hmem, ih k hmem hx⟩)

/-- What is in the names of a child is in those of the node. -/
lemma names_kid (hk : k ∈ ks) : k.names ⊆ (mk s t ks).names := by
  intro x hx
  rw [names_mk]
  exact mem_append_right _ (mem_flatMap.mpr ⟨k, hk, hx⟩)

lemma declares_subset (moved : Node → Bool) (n : Node) (top : Bool) : n.declares moved top ⊆ n.written := by
  induction n generalizing top with
  | mk s t ks ih =>
    have hnames := (mk s t ks).declaredNames_subset
    have hkids : ∀ top, ks.flatMap (·.declares moved top) ⊆ (mk s t ks).written := by
      intro top x hx
      obtain ⟨k, hk, hx⟩ := mem_flatMap.mp hx
      exact written_kid hk (ih k hk top hx)
    rw [declares_mk]
    split
    · exact hnames
    · split
      · exact hnames
      · exact nil_subset _
    · split
      · exact hnames
      · exact nil_subset _
    · split
      · exact hnames
      · exact nil_subset _
    · exact hkids top
    · split
      · exact hkids false
      · exact nil_subset _

lemma parameters_subset (n : Node) : n.parameters ⊆ n.written := by
  obtain ⟨s, t, ks⟩ := n
  refine append_subset.mpr ⟨declaredNames_subset _, fun x hx => ?_⟩
  obtain ⟨k, hk, hx⟩ := mem_flatMap.mp hx
  exact written_kid (mem_filter.mp hk).1 (k.declaredNames_subset hx)

lemma bodyNames_subset (moved : Node → Bool) (n : Node) : n.bodyNames moved ⊆ n.written := by
  obtain ⟨s, t, ks⟩ := n
  unfold bodyNames
  split
  · intro x hx
    obtain ⟨k, hk, hx⟩ := mem_flatMap.mp hx
    exact written_kid hk (declares_subset moved k true hx)
  · exact nil_subset _

/-- The names that a scope binds are bound in the tree that makes the scope, or it is the scope of a
function, which binds `arguments` with `this`. -/
lemma mem_written_of_between (hk : k ∈ n.kids) (hf : f ∈ n.between moved i k) (hx : .name x ∈ f) :
    x = "arguments" ∧ .this ∈ f ∨ x ∈ n.written := by
  obtain ⟨s, t, ks⟩ := n
  have hkid : k.written ⊆ (mk s t ks).written := written_kid hk
  have hscope : x ∈ (mk s t ks).parameters ++ k.bodyNames moved → x ∈ (mk s t ks).written := by
    intro hx
    rcases mem_append.mp hx with hx | hx
    · exact parameters_subset _ hx
    · exact hkid (bodyNames_subset moved k hx)
  have hblock : f ∈ k.blockScope moved → x ∈ (mk s t ks).written := by
    unfold blockScope
    split
    · intro hf
      obtain rfl := mem_singleton.mp hf
      exact hkid (bodyNames_subset moved k (Frame.name_mem_ofNames.mp hx))
    · nofun
  have hkids : ∀ l ⊆ ks, x ∈ l.flatMap (·.declares moved true) → x ∈ (mk s t ks).written := by
    intro l hl hx
    obtain ⟨c, hc, hx⟩ := mem_flatMap.mp hx
    exact written_kid (hl hc) (declares_subset moved c true hx)
  have hfunction : f ∈ [Frame.ofFunction ++ .ofNames ((mk s t ks).parameters ++ k.bodyNames moved)] →
      x = "arguments" ∧ .this ∈ f ∨ x ∈ (mk s t ks).written := by
    intro hf
    obtain rfl := mem_singleton.mp hf
    rcases mem_append.mp hx with hx | hx
    · exact .inl ⟨Frame.name_mem_ofFunction.mp hx, mem_append_left _ (mem_cons_self ..)⟩
    · exact .inr (hscope (Frame.name_mem_ofNames.mp hx))
  have hown : ∀ xs ⊆ t.written, f = .ofNames xs → x ∈ (mk s t ks).written := by
    rintro xs hxs rfl
    rw [written_mk]
    exact mem_append_left _ (hxs (Frame.name_mem_ofNames.mp hx))
  cases t with
  | func | staticBlock => exact hfunction hf
  | ctor | getter | setter =>
    simp only [between, tag_mk] at hf
    split at hf
    · cases hf
    · exact hfunction hf
  | arrow | catchClause =>
    obtain rfl := mem_singleton.mp hf
    exact .inr (hscope (Frame.name_mem_ofNames.mp hx))
  | field =>
    simp only [between, tag_mk] at hf
    split at hf
    · cases hf
    · rcases mem_pair.mp hf with rfl | rfl <;> simp at hx
  | funcExpr y? =>
    obtain ⟨y, hy, rfl⟩ := mem_map.mp hf
    refine .inr (hown [y.name] ?_ rfl)
    rw [mem_toList.mp hy]
    exact Subset.refl _
  | classDecl y => exact .inr (hown [y.name] (Subset.refl _) (mem_singleton.mp hf))
  | classExpr y? =>
    exact .inr (hown (y?.map Ident.name).toList (Subset.refl _) (mem_singleton.mp hf))
  | switchStmt =>
    simp only [between, tag_mk] at hf
    split at hf
    · cases hf
    · obtain rfl := mem_singleton.mp hf
      obtain ⟨c, hc, hx⟩ := mem_flatMap.mp (Frame.name_mem_ofNames.mp hx)
      obtain ⟨sc, tc, cks⟩ := c
      obtain ⟨d, hd, hx⟩ := mem_flatMap.mp hx
      exact .inr (written_kid (mem_of_mem_tail hc) (written_kid hd (declares_subset moved d true hx)))
  | forStmt | forIn | forOf =>
    rcases mem_append.mp hf with hf | hf
    · exact .inr (hblock hf)
    · obtain rfl := mem_singleton.mp hf
      exact .inr (hkids _ (take_subset ..) (Frame.name_mem_ofNames.mp hx))
  | block | withStmt | labeled | ifStmt | caseClause | defaultClause | tryStmt | whileStmt | doWhile =>
    exact .inr (hblock hf)
  | _ => cases hf

/-- The names that a scope binds are mentioned in the tree that makes the scope. -/
lemma mem_names_of_between (hk : k ∈ n.kids) (hf : f ∈ n.between moved i k) (hx : .name x ∈ f) :
    x = "arguments" ∨ x ∈ n.names :=
  (mem_written_of_between hk hf hx).imp And.left (n.written_subset ·)

/-! ## Labels in scopes -/

/-- What a node is, without its children. -/
def label (n : Node) : Span × Tag := (n.span, n.tag)

/-- The label of what stands at a place. -/
def labelAt? (n : Node) (p : List Nat) : Option (Span × Tag) := (n.at? p).map label

/-- Whether the lowering of `super` does not go from a node to its `i`-th child. -/
def seals (n : Node) (i : Nat) : Bool :=
  match n.tag with
  | .func .. | .getter | .setter | .cls => true
  | .call => i == 0 && n.kids.head?.any fun k => (SuperContext.superKey? k).isSome
  | _ => false

/-- Whether the lowering of `super` does not come to a place. -/
def isSealed (n : Node) : List Nat → Bool
  | [] => false
  | i :: p => (n.kids[i]?.any (·.isSealed p)) || n.seals i

/-- A label stands somewhere in a tree, in the scopes `S`; `b` if the lowering of `super` does not come
there. -/
def Shows (n : Node) (l : Span × Tag) (b : Bool) (S : List Frame) : Prop :=
  ∃ p, n.labelAt? p = some l ∧ n.isSealed p = b ∧ n.scopes p = S

lemma Shows.root (n : Node) : n.Shows n.label false [] := ⟨[], rfl, rfl, rfl⟩

lemma Shows.kid {n k : Node} {i : Nat} {l : Span × Tag} {b : Bool} {S : List Frame}
    (h : k.Shows l b S) (hk : n.kids[i]? = some k) :
    n.Shows l (b || n.seals i) (S ++ n.between never i k) := by
  obtain ⟨p, hl, rfl, rfl⟩ := h
  refine ⟨i :: p, ?_, ?_, scopes_cons hk p⟩
  · rw [labelAt?, at?_cons hk]
    exact hl
  · rw [isSealed, hk, any_some]

/-- What stands in a tree is its root or stands in one of the children. -/
lemma Shows.cases (h : n.Shows l b S) :
    (l = n.label ∧ b = false ∧ S = []) ∨ ∃ i k b₁ S₁, n.kids[i]? = some k ∧ k.Shows l b₁ S₁ ∧
      b = (b₁ || n.seals i) ∧ S = S₁ ++ n.between never i k := by
  obtain ⟨p, hl, rfl, rfl⟩ := h
  cases p with
  | nil => exact .inl ⟨(some_inj.mp hl).symm, rfl, rfl⟩
  | cons i p =>
    obtain ⟨m, hm, rfl⟩ := map_eq_some_iff.mp hl
    obtain ⟨k, hk, hat⟩ := exists_kid_of_at? hm
    refine .inr ⟨i, k, _, _, hk, ⟨p, ?_, rfl, rfl⟩, ?_, scopes_cons hk p⟩
    · rw [labelAt?, hat, map_some]
    · rw [isSealed, hk, any_some]

/-- A reference in a tree whose root is none stands in one of the children. -/
lemma Shows.exists_kid (h : n.Shows l b S) (hl : l.2.ref?.isSome = true) (hn : n.tag.ref? = none) :
    ∃ i k b₁ S₁, n.kids[i]? = some k ∧ k.Shows l b₁ S₁ ∧ b = (b₁ || n.seals i) ∧ S = S₁ ++ n.between never i k := by
  rcases h.cases with ⟨rfl, -⟩ | h
  · rw [label, hn] at hl
    cases hl
  · exact h

/-- The same for a node that neither makes a scope nor stops the lowering of `super`. -/
lemma Shows.exists_kid_open (h : n.Shows l b S) (hl : l.2.ref?.isSome = true) (hn : n.tag.ref? = none)
    (hs : ∀ i, n.seals i = false) (hb : ∀ i k, n.between never i k = []) :
    ∃ (i : Nat) (k : Node), n.kids[i]? = some k ∧ k.Shows l b S := by
  obtain ⟨i, k, b₁, S₁, hk, hshows, rfl, rfl⟩ := h.exists_kid hl hn
  rw [hs, hb, Bool.or_false, append_nil]
  exact ⟨i, k, hk, hshows⟩

/-- The names that the scopes inside a tree bind are mentioned in it. -/
lemma Shows.mem_names (h : n.Shows l b S) (hf : f ∈ S) (hx : .name x ∈ f) : x = "arguments" ∨ x ∈ n.names := by
  induction n generalizing b S with
  | mk s t ks ih =>
    rcases h.cases with ⟨-, -, rfl⟩ | ⟨i, k, b₁, S₁, hk, h₁, -, rfl⟩
    · cases hf
    · have hmem : k ∈ ks := mem_of_getElem? hk
      rcases mem_append.mp hf with hf | hf
      · exact (ih k hmem h₁ hf).imp_right fun hx => names_kid hmem hx
      · exact mem_names_of_between hmem hf hx

/-- A label stands somewhere in a tree, in the scopes `S`. -/
def Holds (n : Node) (l : Span × Tag) (S : List Frame) : Prop := ∃ b, n.Shows l b S

section Holds

variable {n k : Node} {i : Nat} {l : Span × Tag} {b : Bool} {S : List Frame}

lemma Holds.kid (h : k.Holds l S) (hk : n.kids[i]? = some k) : n.Holds l (S ++ n.between never i k) := by
  obtain ⟨b, h⟩ := h
  exact ⟨_, h.kid hk⟩

/-- Most nodes make no scope. -/
lemma Holds.through (h : k.Holds l S) (hk : n.kids[i]? = some k) (hb : n.between never i k = []) : n.Holds l S := by
  have := h.kid hk
  rwa [hb, append_nil] at this

/-- Behind a node with a receiver of its own, `super` is not lowered. -/
lemma Holds.sealed (h : k.Holds l S) (hk : n.kids[i]? = some k) (hs : n.seals i = true) :
    n.Shows l true (S ++ n.between never i k) := by
  obtain ⟨b, h⟩ := h
  have := h.kid hk
  rwa [hs, Bool.or_true] at this

end Holds

end Node

/-! ## `super` -/

namespace SuperContext

open Node

/-- What becomes of a label that the lowering of `super` comes to, or does not. -/
def relabel (c : SuperContext) (isSealed : Bool) (l : Span × Tag) : Span × Tag :=
  if l.2 = .this ∧ isSealed = false then (c.receiver?.map label).getD l else l

variable {c : SuperContext}

lemma relabel_of_ne (h : l.2 ≠ .this) (b : Bool) : c.relabel b l = l := if_neg fun hl => h hl.1

lemma relabel_true (l : Span × Tag) : c.relabel true l = l := if_neg fun hl => nomatch hl.2

lemma relabel_of_receiver?_eq_none (h : c.receiver? = none) (b : Bool) (l : Span × Tag) : c.relabel b l = l := by
  rw [relabel, h]
  exact ite_self _

/-! ### What is declared -/

/-- Expressions declare nothing. -/
lemma declares_eq_nil (h : n.role = .expr) (top : Bool) : n.declares moved top = [] := by
  obtain ⟨s, t, ks⟩ := n
  rw [declares_mk]
  cases t <;> first | rfl | cases h

lemma declares_of_expr {n' : Node} (h : n.role = .expr) (h' : n'.role = .expr) : Declares moved n n' where
  role := h'.trans h.symm
  bound hb := by simp [h, Role.mayBind] at hb
  stmt top := by rw [declares_eq_nil h, declares_eq_nil h']
  kids hb := by simp [h] at hb

/-- **The lowering of `super` keeps what a node declares.** -/
lemma WellFormed.declares_lower (hc : c.WellFormed) (n : Node) (h : n.WellFormed) : Declares never n (c.lower n) := by
  induction n with
  | mk s t ks ih =>
    have his := hc.lower_is _ h
    have hshape := use_shape (Node.mk s t ks)
    rw [lower_eq] at his ⊢
    generalize use (Node.mk s t ks) = u at hshape his
    cases hshape with
    | closed => exact .refl _
    | plain =>
      refine declares_node ?_ rfl
      rw [kids_mk, forall₂_map_right_iff, forall₂_same]
      exact fun k hk => ih k hk (h.kid hk)
    | call | methodCall | store | read | this => exact declares_of_expr rfl his.2

/-! ### Where references stand -/

section Places

variable {l : Span × Tag} {S : List Frame}

lemma holds_member (h : n.Holds l S) (x : String) : (Build.member n x).Holds l S := by
  unfold Build.member
  split
  · exact h.through (i := 0) rfl rfl
  · exact h.through (i := 0) rfl rfl

lemma holds_callee {f : Node} (h : f.Holds l S) : (callOn f receiver args).Holds l S := by
  unfold callOn
  split
  · exact (holds_member h _).through (i := 0) rfl rfl
  · exact (holds_member h _).through (i := 0) rfl rfl

lemma holds_argument {f a : Node} (h : a.Holds l S) (ha : args[i]? = some a) :
    (callOn f receiver args).Holds l S := by
  unfold callOn
  split
  · exact (h.through (n := Build.array args) ha rfl).through (i := 2) rfl rfl
  · exact h.through (i := i + 2) ha rfl

lemma holds_home (h : key.Holds l S) : (c.home key).Holds l S := h.through (i := 1) rfl rfl

lemma holds_storeKey (h : key.Holds l S) : (c.store op key value).Holds l S := by
  have htarget : (Build.access c.receiver key).Holds l S := h.through (i := 1) rfl rfl
  unfold store
  split
  · exact htarget.through (i := 0) rfl rfl
  · split
    · exact (holds_home h).through (i := 0) rfl rfl
    · exact htarget.through (i := 0) rfl rfl

lemma holds_storeValue (h : value.Holds l S) : (c.store op key value).Holds l S := by
  unfold store
  split
  · exact h.through (i := 1) rfl rfl
  · split
    · refine Holds.through (i := 1) ?_ rfl rfl
      refine Holds.through (i := 0) ?_ rfl rfl
      exact h.through (i := 1) rfl rfl
    · refine Holds.through (i := 1) ?_ rfl rfl
      refine Holds.through (i := 1) ?_ rfl rfl
      exact h.through (i := 0) rfl rfl

end Places

lemma getElem?_map_of_eq {f : Node → Node} (h : ks[i]? = some k) : (ks.map f)[i]? = some (f k) := by
  rw [getElem?_map, h, map_some]

lemma seals_of_use_eq_closed (h : use n = .closed) : n.tag.ref? = none ∧ ∀ i, n.seals i = true := by
  obtain ⟨s, t, ks⟩ := n
  simp only [use] at h
  split at h
  case h_1 | h_2 | h_3 | h_4 => exact ⟨rfl, fun _ => rfl⟩
  case h_6 | h_7 => split at h <;> cases h
  all_goals cases h

lemma seals_of_use_eq_plain (h : use n = .plain) : n.tag ≠ .this ∧ ∀ i, n.seals i = false := by
  obtain ⟨s, t, ks⟩ := n
  cases t with
  | call =>
    refine ⟨by simp, fun i => ?_⟩
    cases ks with
    | nil => simp [seals]
    | cons callee args =>
      simp only [use] at h
      split at h
      · cases h
      · rename_i hkey
        simp [seals, hkey]
  | func | getter | setter | cls | this => cases h
  | _ => exact ⟨by simp, fun _ => rfl⟩

/-- **References keep their scopes** where `super` is lowered. A `this` that belongs to the member is
replaced, if it is to be. -/
theorem WellFormed.holds_lower (hc : c.WellFormed) (n : Node) (h : n.WellFormed)
    (hl : l.2.ref?.isSome = true) (hs : n.Shows l b S) : (c.lower n).Holds (c.relabel b l) S := by
  induction n using induct_within generalizing b S with
  | h s t ks ih =>
    have hkid : ∀ {i : Nat} {k : Node} {b : Bool} {S : List Frame}, ks[i]? = some k → k.Shows l b S →
        (c.lower k).Holds (c.relabel b l) S := fun hk hs =>
      ih _ (mem_of_getElem? hk) _ .refl (h.kid (mem_of_getElem? hk)) hs
    have hshape := use_shape (Node.mk s t ks)
    rw [lower_eq]
    generalize hu : use (Node.mk s t ks) = u at hshape
    cases hshape with
    | closed =>
      obtain ⟨hroot, hseals⟩ := seals_of_use_eq_closed hu
      obtain ⟨i, k, b₁, S₁, -, -, rfl, -⟩ := hs.exists_kid hl hroot
      rw [hseals, Bool.or_true] at hs ⊢
      rw [relabel_true]
      exact ⟨_, hs⟩
    | call =>
      obtain ⟨i, k, hk, hsk⟩ := hs.exists_kid_open hl rfl (fun _ => rfl) fun _ _ => rfl
      exact holds_argument (hkid hk hsk) (getElem?_map_of_eq hk)
    | @methodCall _ sc w key args =>
      obtain ⟨i, k, b₁, S₁, hk, hsk, rfl, rfl⟩ := hs.exists_kid hl rfl
      rw [show (Node.mk s .call _).between never i k = [] from rfl, append_nil]
      cases i with
      | zero =>
        -- The key of a method that is called is not lowered.
        obtain rfl : Node.mk sc (.superMember w) [key] = k := some_inj.mp hk
        obtain ⟨j, key', hj, hskey⟩ := hsk.exists_kid_open hl rfl (fun _ => rfl) fun _ _ => rfl
        obtain rfl := mem_singleton.mp (mem_of_getElem? hj)
        rw [show (Node.mk s .call _).seals 0 = true from rfl, Bool.or_true, relabel_true]
        exact holds_callee (holds_home ⟨_, hskey⟩)
      | succ i =>
        rw [show (Node.mk s .call _).seals (i + 1) = false from rfl, Bool.or_false]
        exact holds_argument (i := i) (hkid hk hsk) (getElem?_map_of_eq hk)
    | @store _ op st w key value =>
      obtain ⟨i, k, hk, hsk⟩ := hs.exists_kid_open hl rfl (fun _ => rfl) fun _ _ => rfl
      rcases mem_pair.mp (mem_of_getElem? hk) with rfl | rfl
      · obtain ⟨j, key', hj, hskey⟩ := hsk.exists_kid_open hl rfl (fun _ => rfl) fun _ _ => rfl
        obtain rfl := mem_singleton.mp (mem_of_getElem? hj)
        have hmem := mem_of_getElem? hk
        have hkey : key' ∈ [key'] := mem_singleton_self _
        exact holds_storeKey (ih _ hmem key' (.kid hkey .refl) ((h.kid hmem).kid hkey) hskey)
      · exact holds_storeValue (hkid hk hsk)
    | @read _ w key =>
      obtain ⟨i, k, hk, hsk⟩ := hs.exists_kid_open hl rfl (fun _ => rfl) fun _ _ => rfl
      obtain rfl := mem_singleton.mp (mem_of_getElem? hk)
      exact holds_home (hkid hk hsk)
    | this =>
      obtain rfl : ks = [] := h.leaf rfl
      rcases hs.cases with ⟨rfl, rfl, rfl⟩ | ⟨i, k, _, _, hk, -⟩
      · rw [relabel, if_pos ⟨rfl, rfl⟩]
        cases c.receiver? with
        | none => exact ⟨_, .root _⟩
        | some r => exact ⟨_, .root r⟩
      · cases hk
    | plain =>
      obtain ⟨hthis, hseals⟩ := seals_of_use_eq_plain hu
      rcases hs.cases with ⟨rfl, rfl, rfl⟩ | ⟨i, k, b₁, S₁, hk, hsk, rfl, rfl⟩
      · rw [relabel_of_ne hthis]
        exact ⟨_, .root (Node.mk s t (ks.map c.lower))⟩
      · have hkids : Forall₂ (Declares never) ks (ks.map c.lower) := by
          rw [forall₂_map_right_iff, forall₂_same]
          exact fun k hk => hc.declares_lower k (h.kid hk)
        have hbetween := between_congr hkids h i
          (hc.declares_lower k (h.kid (mem_of_getElem? hk)))
        rw [hseals, Bool.or_false, ← hbetween]
        exact (hkid hk hsk).kid (getElem?_map_of_eq hk)

end SuperContext

end EcmaLower
