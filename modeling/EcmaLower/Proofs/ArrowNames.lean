import EcmaLower.Proofs.ArrowPass
import EcmaLower.Proofs.Mentions

/-!
# Names in lowered arrows

The lowering of arrows draws a name for the `this` or the `arguments` of a function. The function
declares the variable in its body, and only what stands in its body reads it: the words in its
parameter list are not redirected. This module follows the names through the tree.
-/

namespace EcmaLower

open List Build

variable {y : String} {cs ds : List String} {n body body' k k' n' : Node} {s : Span} {sc own : Scope}
  {w : ContextWord} {ks ks' : List Node} {t : Tag}

/-- The variables that words at a site may be read from. -/
def Site.reads (x : Site Arrow.Scope) : List String :=
  if x.inParams then [] else x.owner.names

namespace Arrow

open Node

/-- `Houses w y f`: the function or accessor `f` declares the variable `y` for the word `w` in its body,
and mentions it nowhere else. -/
def Houses (w : ContextWord) (y : String) (f : Node) : Prop :=
  f.tag.isOwner = true ∧ ∃ init body sc, f.kids = init ++ [declareIn (Scope.captures sc) body] ∧
    body.tag = .block ∧ sc.name w = some y ∧ ∀ k ∈ init, y ∉ k.names

/-- What becomes of a tree, with the names `drawn` in it: each stays in the function that declares it,
and is bound once. The words of the tree may be read from variables that are `known`. -/
structure Settles (known : List String) (n n' : Node) (drawn : List String) : Prop
    extends Hygienic Houses known n n' drawn where
  count : ∀ y, y ∉ n.names → n'.bindings.count y = drawn.count y

/-- The same for lists of nodes. -/
structure SettlesKids (known : List String) (ks ks' : List Node) (drawn : List String) : Prop
    extends HygienicKids Houses known ks ks' drawn where
  count : ∀ y, y ∉ ks.flatMap names → (ks'.flatMap bindings).count y = drawn.count y

lemma count_bindings_eq_zero (h : y ∉ n.names) : n.bindings.count y = 0 :=
  count_eq_zero_of_not_mem fun hy => h (n.bindings_subset hy)

variable {known : List String}

/-- A tree that stays as it is. -/
lemma Settles.refl (n : Node) : Settles known n n [] :=
  ⟨⟨fun _ hn _ _ => hn, nofun⟩, fun _ hn => count_bindings_eq_zero hn⟩

lemma settles_kids {c : Nat} (h : EachNamed (fun k k' cs _ => Drawn cs k.names → Settles known k k' cs) ks ks' cs c)
    (hd : Drawn cs (ks.flatMap names)) : SettlesKids known ks ks' cs := by
  refine ⟨hygienic_kids (h.mono fun _ _ _ _ _ hk hd => (hk hd).toHygienic) hd, ?_⟩
  induction h with
  | nil => exact fun _ _ => rfl
  | @cons k k' ks ks' cs ds c d hk _ ih =>
    intro y hy
    have hnames : (k :: ks).flatMap names = k.names ++ ks.flatMap names := flatMap_cons
    rw [hnames] at hd hy
    rw [mem_append, not_or] at hy
    have hk := hk (hd.sub (sublist_append_left cs ds) (subset_append_left ..))
    have hks := ih (hd.sub (sublist_append_right cs ds) (subset_append_right ..)) y hy.2
    rw [flatMap_cons, count_append, count_append, hk.count y hy.1, hks]

lemma settles_one (h : Drawn cs k.names → Settles known k k' cs) (hd : Drawn cs ([k].flatMap names)) :
    SettlesKids known [k] [k'] cs := by
  rw [← append_nil cs] at hd ⊢
  exact settles_kids (.cons (c := 0) h .nil) hd

lemma settles_two {l l' : Node} (h : Drawn cs k.names → Settles known k k' cs)
    (h' : Drawn ds l.names → Settles known l l' ds) (hd : Drawn (cs ++ ds) ([k, l].flatMap names)) :
    SettlesKids known [k, l] [k', l'] (cs ++ ds) := by
  rw [← append_nil ds] at hd ⊢
  exact settles_kids (.cons (c := 0) h (.cons (c := 0) h' .nil)) hd

/-- A node that keeps its tag. -/
lemma settles_mk {s' : Span} (hd : Drawn cs (mk s t ks).names) (h : SettlesKids known ks ks' cs) :
    Settles known (mk s t ks) (mk s' t ks') cs := by
  refine ⟨hygienic_mk hd h.toHygienicKids, fun y hy => ?_⟩
  rw [names_mk, mem_append, not_or] at hy
  rw [bindings_mk, count_append, h.count y hy.2,
    count_eq_zero_of_not_mem fun hmem => hy.1 (t.bindings_subset hmem), Nat.zero_add]

/-- A result in a node without a name. -/
lemma Settles.wrap {drawn : List String} (hd : Drawn drawn n.names) (h : Settles known n k drawn)
    (ht : t.names = []) : Settles known n (Node.mk s t [k]) drawn := by
  refine ⟨h.toHygienic.wrap [] hd ht nofun, fun y hy => ?_⟩
  have hbindings : t.bindings = [] := eq_nil_iff_forall_not_mem.mpr fun x hx => by
    simpa [ht] using t.bindings_subset hx
  rw [bindings_mk, hbindings, nil_append, flatMap_cons, flatMap_nil, append_nil, h.count y hy]

/-! ## Declarations -/

lemma bindings_captures (sc : Scope) : sc.captures.flatMap bindings = sc.names := by
  unfold Scope.captures Scope.names
  cases sc.thisName <;> cases sc.argumentsName <;> rfl

lemma mem_names_captures (hk : k ∈ sc.captures) (hy : y ∈ k.names) : y ∈ sc.names ∨ y = "arguments" := by
  rw [Scope.captures_eq] at hk
  split at hk
  · cases hk
  · rw [mem_singleton.mp hk, var, make, names_mk] at hy
    obtain ⟨d, hd, hy⟩ := mem_flatMap.mp hy
    obtain ⟨w, x, hx, rfl⟩ := Scope.mem_declarators.mp hd
    have hnames : (declarator (binding x) (some w.node)).names = x :: w.node.names := by
      simp [declarator, binding, make, names_mk, Tag.names]
    rw [hnames] at hy
    rcases mem_cons.mp hy with rfl | hy
    · exact .inl (Scope.mem_names hx)
    · cases w with
      | this => cases hy
      | arguments => exact .inr (mem_singleton.mp hy)

/-- The names of a scope are those of its variables. -/
lemma Scope.exists_name (h : y ∈ sc.names) : ∃ w, sc.name w = some y := by
  rcases mem_append.mp h with h | h
  · exact ⟨.this, Option.mem_toList.mp h⟩
  · exact ⟨.arguments, Option.mem_toList.mp h⟩

lemma count_bindings_declareIn (sc : Scope) (body : Node) (y : String) :
    (declareIn sc.captures body).bindings.count y = sc.names.count y + body.bindings.count y := by
  obtain ⟨s, t, stmts⟩ := body
  have hstmts : (stmts.flatMap bindings).count y = ((stmts.takeWhile isDirective).flatMap bindings).count y +
        ((stmts.dropWhile isDirective).flatMap bindings).count y := by
    rw [← count_append, ← flatMap_append, takeWhile_append_dropWhile]
  rw [declareIn, afterDirectives, bindings_mk, bindings_mk]
  simp only [flatMap_append, count_append, bindings_captures, hstmts]
  omega

/-- A name that is not in a body and not in its scope is not mentioned when the body declares what the
scope needs. -/
lemma notMem_names_declareIn (hb : y ∉ body.names) (hs : y ∉ sc.names) (ha : y ≠ "arguments") :
    y ∉ (declareIn sc.captures body).names := by
  obtain ⟨s, t, stmts⟩ := body
  rw [names_mk, mem_append, not_or] at hb
  rw [declareIn, names_mk, mem_append, not_or]
  refine ⟨hb.1, fun hmem => ?_⟩
  obtain ⟨k, hk, hy⟩ := mem_flatMap.mp hmem
  rcases mem_afterDirectives.mp hk with hk | hk
  · exact (mem_names_captures hk hy).elim hs ha
  · exact hb.2 (mem_flatMap.mpr ⟨k, hk, hy⟩)

/-- A function or an accessor houses no name unless its tag says that it is one. -/
lemma not_houses (h : n.tag.isOwner = false) : ¬Houses w y n := by
  rintro ⟨ho, -⟩
  rw [h] at ho
  cases ho

lemma confined_declareIn (hb : body.Confined (y ∈ ·.names) (Houses w y)) (hblock : body.tag = .block)
    (hs : y ∉ sc.names) (ha : y ≠ "arguments") :
    (declareIn sc.captures body).Confined (y ∈ ·.names) (Houses w y) := by
  obtain ⟨s, t, stmts⟩ := body
  obtain rfl : t = .block := hblock
  refine .node (by simp [Tag.names]) fun k hk => ?_
  rcases mem_afterDirectives.mp hk with hk | hk
  · exact confined_of_notMem fun hy => (mem_names_captures hk hy).elim hs ha
  · exact hb.kids (not_houses rfl) k hk

/-! ## Functions -/

/-- **A function that declares the names of its scope.** What stands before the body does not mention
them. -/
theorem settles_scope (init init' : List Node) (ht : t.isOwner = true)
    (hd : Drawn (own.names ++ (cs ++ ds)) (mk s t (init ++ [body])).names) (hk : "arguments" ∈ known)
    (hi : Drawn cs (init.flatMap names) → SettlesKids known init init' cs)
    (hb : Drawn ds body.names → Settles ("arguments" :: own.names) body body' ds) (hblock : body'.tag = .block) :
    Settles known (mk s t (init ++ [body])) (mk s t (init' ++ [declareIn own.captures body']))
      (own.names ++ (cs ++ ds)) := by
  have htag := Tag.names_of_isOwner ht
  have hnames : (mk s t (init ++ [body])).names = init.flatMap names ++ body.names := by
    rw [names_mk, htag.1, flatMap_append, nil_append, flatMap_cons, flatMap_nil, append_nil]
  obtain ⟨hown, hparts, hdisj⟩ := nodup_append.mp hd.nodup
  obtain ⟨-, -, hdisj'⟩ := nodup_append.mp hparts
  have hi := hi (hd.sub ((sublist_append_left cs ds).trans (sublist_append_right ..))
    (hnames ▸ subset_append_left ..))
  have hb := hb (hd.sub ((sublist_append_right cs ds).trans (sublist_append_right ..))
    (hnames ▸ subset_append_right ..))
  -- What of the result does not mention a name that is drawn elsewhere or not at all.
  have hinit : ∀ y, y ∉ (mk s t (init ++ [body])).names → y ∉ cs → y ∉ known → ∀ k ∈ init', y ∉ k.names := by
    intro y hy hc hk'
    rw [hnames, mem_append, not_or] at hy
    exact hi.free y hy.1 hc hk'
  have hbody : ∀ y, y ∉ (mk s t (init ++ [body])).names → y ∉ own.names → y ∉ ds → y ∉ known →
      y ∉ (declareIn own.captures body').names := by
    intro y hy ho hds hk'
    have hargs : y ≠ "arguments" := fun he => hk' (he ▸ hk)
    rw [hnames, mem_append, not_or] at hy
    refine notMem_names_declareIn (hb.free y hy.2 hds ?_) ho hargs
    rw [mem_cons, not_or]
    exact ⟨hargs, ho⟩
  refine ⟨⟨fun y hy hdrawn hknown => ?_, fun y hy hknown => ?_⟩, fun y hy => ?_⟩
  · rw [mem_append, mem_append, not_or, not_or] at hdrawn
    rw [names_mk, htag.1, nil_append, mem_flatMap]
    rintro ⟨k, hmem, hyk⟩
    rcases mem_append.mp hmem with hmem | hmem
    · exact hinit y hy hdrawn.2.1 hknown k hmem hyk
    · rw [mem_singleton.mp hmem] at hyk
      exact hbody y hy hdrawn.1 hdrawn.2.2 hknown hyk
  · have hfresh := hd.fresh y hy
    have hargs : y ≠ "arguments" := fun he => hknown (he ▸ hk)
    have hnode : ∀ w, (∀ k ∈ init', k.Confined (y ∈ ·.names) (Houses w y)) →
        (declareIn own.captures body').Confined (y ∈ ·.names) (Houses w y) →
        (mk s t (init' ++ [declareIn own.captures body'])).Confined (y ∈ ·.names) (Houses w y) := by
      intro w hi' hb'
      refine .node (by simp [htag.1]) fun k hmem => ?_
      rcases mem_append.mp hmem with hmem | hmem
      · exact hi' k hmem
      · rw [mem_singleton.mp hmem]
        exact hb'
    rcases mem_append.mp hy with ho | hy
    · obtain ⟨w, hw⟩ := Scope.exists_name ho
      have hcs : y ∉ cs := fun hc => hdisj y ho y (mem_append_left _ hc) rfl
      exact ⟨w, .part ⟨ht, init', body', own, rfl, hblock, hw, hinit y hfresh hcs hknown⟩⟩
    · have ho : y ∉ own.names := fun ho => hdisj y ho y hy rfl
      rcases mem_append.mp hy with hc | hc
      · obtain ⟨w, hw⟩ := hi.housed y hc hknown
        have hds : y ∉ ds := fun hmem => hdisj' y hc y hmem rfl
        exact ⟨w, hnode w hw (confined_of_notMem (hbody y hfresh ho hds hknown))⟩
      · obtain ⟨w, hw⟩ := hb.housed y hc (by simp [hargs, ho])
        have hcs : y ∉ cs := fun hmem => hdisj' y hmem y hc rfl
        exact ⟨w, hnode w (fun k hmem => confined_of_notMem (hinit y hfresh hcs hknown k hmem))
          (confined_declareIn hw hblock ho hargs)⟩
  · rw [hnames, mem_append, not_or] at hy
    rw [bindings_mk, htag.2, flatMap_append]
    simp only [flatMap_cons, flatMap_nil, append_nil, nil_append,
      count_append, count_bindings_declareIn, hi.count y hy.1, hb.count y hy.2]
    omega

/-! ## Arrows -/

lemma names_blockOf (body : Node) : (blockOf body).names = body.names := by
  unfold blockOf
  split
  · rfl
  · simp [block, returnStmt, make, names_mk, Tag.names]

lemma bindings_blockOf (body : Node) : (blockOf body).bindings = body.bindings := by
  unfold blockOf
  split
  · rfl
  · simp [block, returnStmt, make, bindings_mk, Tag.bindings]

lemma confined_blockOf (h : body.Confined (y ∈ ·.names) (Houses w y)) :
    (blockOf body).Confined (y ∈ ·.names) (Houses w y) := by
  unfold blockOf
  split
  · exact h
  · refine .node (by simp [Tag.names]) (forall_mem_singleton.mpr ?_)
    exact .node (by simp [Tag.names]) (forall_mem_singleton.mpr h)

/-- The function that an arrow becomes mentions what the parts of the arrow mention. -/
lemma settles_toFunction {a : Bool} {p p' : Node} (hd : Drawn cs (mk s (.arrow a) [p, body]).names)
    (hp : p'.tag = .params) (h : SettlesKids known [p, body] [p', body'] cs) :
    Settles known (mk s (.arrow a) [p, body]) (toFunction s a p' body') cs := by
  obtain ⟨sp, ps, pks⟩ := p'
  obtain rfl : ps = .params := hp
  have hnames : (mk s (.arrow a) [p, body]).names = [p, body].flatMap names := names_mk ..
  have hparams : (params pks).names = (mk sp .params pks).names := rfl
  have hfunc : Settles known (mk s (.arrow a) [p, body])
      (mk s (.func a false) [params pks, blockOf body']) cs := by
    refine ⟨⟨fun y hy hdrawn hknown => ?_, fun y hy hknown => ?_⟩, fun y hy => ?_⟩
    · rw [hnames] at hy
      have hfree := h.free y hy hdrawn hknown
      simp only [forall_mem_cons, not_mem_nil, false_imp_iff, implies_true, and_true] at hfree
      rw [names_mk]
      simp [Tag.names, hparams, names_blockOf, hfree.1, hfree.2]
    · obtain ⟨w, hw⟩ := h.housed y hy hknown
      simp only [forall_mem_cons, not_mem_nil, false_imp_iff, implies_true, and_true] at hw
      refine ⟨w, .node (by simp [Tag.names]) ?_⟩
      refine forall_mem_cons.mpr ⟨.node (by simp [Tag.names]) ?_, forall_mem_singleton.mpr ?_⟩
      · exact hw.1.kids (not_houses rfl)
      · exact confined_blockOf hw.2
    · rw [hnames] at hy
      have hcount := h.count y hy
      rw [bindings_mk, ← hcount]
      simp only [flatMap_cons, bindings_blockOf]
      rfl
  exact hfunc.wrap hd rfl

/-! ## Steps -/

/-- What becomes of a tree at a site. -/
def Renders (x : Site Scope) (n n' : Node) (cs : List String) : Prop :=
  n'.Is n.role ∧ (Drawn cs n.names → Settles ("arguments" :: x.reads) n n' cs)

/-- The parameter list of a function reads none of its variables. -/
lemma Renders.params (h : Renders ⟨own, false, true⟩ n n' cs) (hk : "arguments" ∈ known) (hd : Drawn cs n.names) :
    Settles known n n' cs := by
  refine ⟨(h.2 hd).toHygienic.mono ?_, (h.2 hd).count⟩
  exact cons_subset.mpr ⟨hk, nil_subset _⟩

lemma Renders.block {x : Site Scope} (h : Renders x n n' cs) (hn : n.Is .block) : n'.tag = .block := by
  obtain ⟨s, stmts, rfl⟩ := eq_of_role (h.1.2.trans hn.2) rfl
  rfl

/-- A word that is read from a variable. -/
lemma settles_readFrom (hy : y ∈ known) (ht : t.contextWord? = some w) :
    Settles known (mk s t []) ((mk s t []).readFrom y) [] := by
  have hnames : ((mk s t []).readFrom y).names = [y] ∧ ((mk s t []).readFrom y).bindings = [] := by
    rcases Tag.eq_of_contextWord ht with ⟨rfl, -⟩ | ⟨rfl | rfl, -⟩ <;> exact ⟨rfl, rfl⟩
  refine ⟨⟨fun z _ _ hz hmem => ?_, nofun⟩, fun z _ => by rw [hnames.2]⟩
  rw [hnames.1, mem_singleton] at hmem
  exact hz (hmem ▸ hy)

/-- **Each step of the traversal keeps names in their functions.** -/
theorem settles_step (x : Site Scope) (n n' : Node) (cs : List String) (c : Nat) (h : n.WellFormed)
    (hstep : ScopedStep (fun x n n' cs _ => Renders x n n' cs) x n n' cs c) : Renders x n n' cs := by
  refine ⟨step_is _ n n' c h (hstep.step (·.1) h), fun hd => ?_⟩
  have hargs : "arguments" ∈ "arguments" :: x.reads := mem_cons_self ..
  cases hstep with
  | @func a g s p p' body body' cs ds c d own _ hp hb =>
    obtain ⟨_, _, ⟨⟩, -, hb'⟩ := h.func
    exact settles_scope [p] [p'] rfl hd hargs (settles_one (hp.params hargs))
      hb.2 (hb.block hb')
  | @ctor s key key' p p' body body' ks cs ds c d e own _ hk hp hb =>
    obtain ⟨_, _, _, ⟨⟩, -, -, hb'⟩ := h.ctor
    rw [← append_assoc ks cs ds] at hd ⊢
    exact settles_scope [key, p] [key', p'] rfl hd hargs
      (settles_two hk.2 (hp.params hargs)) hb.2 (hb.block hb')
  | @getter s key key' body body' ks ds c d own _ hk hb =>
    obtain ⟨_, _, ⟨⟩, -, hb'⟩ := h.getter
    exact settles_scope [key] [key'] rfl hd hargs (settles_one hk.2) hb.2
      (hb.block hb')
  | @setter s key key' p p' body body' ks cs ds c d e own _ hk hp hb =>
    obtain ⟨_, _, _, ⟨⟩, -, -, hb'⟩ := h.setter
    rw [← append_assoc ks cs ds] at hd ⊢
    exact settles_scope [key, p] [key', p'] rfl hd hargs
      (settles_two hk.2 (hp.params hargs)) hb.2 (hb.block hb')
  | field | staticBlock => exact .refl _
  | kept _ hp hb => exact settles_mk hd (settles_two hp.2 hb.2 hd.kids)
  | @lowered a s p p' body body' cs ds c d _ hp hb =>
    obtain ⟨_, _, ⟨⟩, hp', -⟩ := h.arrow
    obtain ⟨sp, pks, rfl⟩ := eq_of_role (hp.1.2.trans hp'.2) rfl
    exact settles_toFunction hd rfl (settles_two hp.2 hb.2 hd.kids)
  | @word s t w y hword hr _ hy =>
    refine settles_readFrom (mem_cons_of_mem _ ?_) hword
    have hparams : x.inParams = false := by simpa using (Bool.and_eq_true_iff.mp hr).2
    rw [Site.reads, hparams]
    exact Scope.mem_names hy
  | @exprStmt s e e' cs c he =>
    refine settles_mk hd (settles_one (fun hde => ?_) hd.kids)
    unfold asStatement
    split
    · exact (he.2 hde).wrap hde rfl
    · exact he.2 hde
  | @ordinary s t ks ks' cs c _ _ hE =>
    exact settles_mk hd (settles_kids (hE.mono fun _ _ _ _ _ hk => hk.2) hd.kids)

end Arrow

end EcmaLower
