import EcmaLower.Proofs.ArrowPass
import EcmaLower.Proofs.Places

/-!
# Owners of `this` and `arguments`

An arrow takes the meaning of `this` and `arguments` from the function or accessor around it, and a
function has its own. Where an arrow becomes a function, these words have to be read from variables
that their owner declares. This module follows every place of a tree to its place in the lowered tree
and shows that each word keeps its owner.

## Main results

* `Arrow.traced_mk` — a trace of a node from traces of its children.
* `Arrow.traced_step` — each step of the traversal has a trace.
* `Arrow.owners_kept` — every word keeps its owner.
-/

namespace EcmaLower

open List Build Option

variable {cs ds : List String} {w : ContextWord} {x : Site Scope} {y : String} {p q : List Nat}
  {m a a' b b' body body' k k' n : Node} {T T₀ T₁ : Trace} {s : Script} {ks ks' stmts : List Node} {i : Nat}
  {sc : Scope} {t : Tag}

/-- The statements of the body of a function or an accessor. -/
def Node.statements (n : Node) : List Node := (n.kids.getLast?.map Node.kids).getD []

namespace Arrow

open Node

/-! ## Traces -/

/-- Where the places of a tree are in the lowered tree, and the scopes of its functions and
accessors. -/
structure Trace where
  place : List Nat → List Nat
  scope : List Nat → Scope

/-- The scope of an owner, given the scope that the root stands in. -/
def Trace.scopeOf (T : Trace) (sc : Scope) (o : Option (List Nat)) : Scope := o.elim sc T.scope

/-- The site of the root of a tree that is looked at on its own. -/
def ownSite (x : Site Scope) : Site (Option (List Nat)) := x.map fun _ => none

/-- What becomes of a function or an accessor: its body declares what its scope needs. -/
structure Declares (f f' : Node) (sc : Scope) : Prop where
  hasArguments : sc.hasArguments = true
  tag : f'.tag = f.tag
  span : f'.span = f.span
  body : ∃ stmts, f'.statements = afterDirectives sc.captures stmts

/-- What becomes of a word: where it is to be redirected it is read from the variable of its owner,
and elsewhere it stays and keeps its owner. -/
structure WordTraced (x : Site Scope) (n n' : Node) (T : Trace) (p : List Nat) (m : Node)
    (w : ContextWord) : Prop where
  read : (n.site [] (ownSite x) p).redirects = true →
    ∃ y, (T.scopeOf x.owner (n.site [] (ownSite x) p).owner).name w = some y ∧
      n'.at? (T.place p) = some (m.readFrom y)
  stay : (n.site [] (ownSite x) p).redirects = false → n'.at? (T.place p) = some m ∧
      (n'.site [] topSite (T.place p)).owner = (n.site [] (ownSite x) p).owner.map T.place

/-- A trace is right for a tree at a site and its result. The scopes inside the tree declare names of
`cs`. -/
structure Traced (x : Site Scope) (n n' : Node) (cs : List String) (T : Trace) : Prop where
  order {p q : List Nat} : (n.at? p).isSome → (n.at? q).isSome → (T.place p <+: T.place q ↔ p <+: q)
  owner {q : List Nat} {f : Node} : n.at? q = some f → f.tag.isOwner = true →
    ∃ f', n'.at? (T.place q) = some f' ∧ Declares f f' (T.scope q)
  names {q : List Nat} {f : Node} : n.at? q = some f → f.tag.isOwner = true → ∀ y ∈ (T.scope q).names, y ∈ cs
  distinct {q q' : List Nat} {f f' : Node} {w w' : ContextWord} {y : String} : cs.Nodup →
    n.at? q = some f → f.tag.isOwner = true → n.at? q' = some f' → f'.tag.isOwner = true →
    (T.scope q).name w = some y → (T.scope q').name w' = some y → q = q' ∧ w = w'
  word {p : List Nat} {m : Node} {w : ContextWord} : n.at? p = some m → m.tag.contextWord? = some w →
    (T.scopeOf x.owner (n.site [] (ownSite x) p).owner).binds w = true → WordTraced x n n' T p m w

/-! ## Traces in larger trees -/

lemma tag_readFrom (y : String) (m : Node) : (m.readFrom y).tag ≠ .block ∧ (m.readFrom y).tag ≠ .params := by
  unfold Node.readFrom
  split <;> simp [keyValue, ident, make]

/-- A trace goes on into a tree that the result stands in. -/
lemma Traced.embed {f : List Nat → List Nat} (h : Traced x n k cs T) (hf : Embeds f k k') :
    Traced x n k' cs { T with place := f ∘ T.place } where
  order hp hq := hf.order.trans (h.order hp hq)
  owner hat ho := by
    obtain ⟨f', hf', hd⟩ := h.owner hat ho
    refine ⟨f', hf.same hf' ?_ ?_, hd⟩ <;>
    · intro ht
      rw [hd.tag] at ht
      rw [ht] at ho
      cases ho
  names := h.names
  distinct := h.distinct
  word {p m w} hat hw hb := by
    have hword := h.word hat hw hb
    refine ⟨fun hr => ?_, fun hr => ?_⟩
    · obtain ⟨y, hy, hread⟩ := hword.read hr
      exact ⟨y, hy, hf.same hread (tag_readFrom y m).1 (tag_readFrom y m).2⟩
    · obtain ⟨hstay, hown⟩ := hword.stay hr
      refine ⟨hf.same hstay ?_ ?_, ?_⟩
      · intro ht
        rw [ht] at hw
        cases hw
      · intro ht
        rw [ht] at hw
        cases hw
      · change (k'.site [] topSite (f (T.place p))).owner = Option.map (f ∘ T.place) _
        rw [hf.owner hstay, hown, Option.map_map]

/-! ## Nodes -/

/-- The trace of a node, from those of its children. -/
def Trace.node (own : Scope) (T : Nat → Trace) : Trace where
  place
    | [] => []
    | i :: p => i :: (T i).place p
  scope
    | [] => own
    | i :: p => (T i).scope p

/-- Traces of the children of a node. -/
def KidsTraced (x : Site Scope) (own : Scope) (t : Tag) (ks ks' : List Node)
    (css : List (List String)) (T : Nat → Trace) : Prop :=
  ∀ i k, ks[i]? = some k → ∃ k' cs, ks'[i]? = some k' ∧ css[i]? = some cs ∧ Traced (x.down own t i) k k' cs (T i)

/-- Every word of a tree that no function inside it owns is to be redirected. -/
def Redirected (x : Site Scope) (n : Node) : Prop :=
  ∀ p m w, n.at? p = some m → m.tag.contextWord? = some w →
    (n.site [] (ownSite x) p).owner = none → (n.site [] (ownSite x) p).redirects = true

/-- The site of a child, seen from the node and on its own. -/
lemma down_ownSite (x : Site Scope) (own : Scope) (t : Tag) (i : Nat) : ∃ o, (ownSite x).down (some []) t i =
      ⟨o, (x.down own t i).inArrow, (x.down own t i).inParams⟩ ∧
    (topSite.down (some []) t i).owner = o ∧ (o = none ∨ o = some []) ∧
    (x.down own t i).owner = o.elim x.owner fun _ => own := by
  unfold Site.down
  split <;> exact ⟨_, rfl, rfl, by simp [ownSite, Site.map], rfl⟩

lemma nodup_of_getElem? {css : List (List String)} (h : css.flatten.Nodup) (hi : css[i]? = some cs) : cs.Nodup :=
  (nodup_flatten.mp h).1 cs (mem_of_getElem? hi)

lemma eq_of_mem_of_nodup {css : List (List String)} {j : Nat} (h : css.flatten.Nodup) (hi : css[i]? = some cs)
    (hj : css[j]? = some ds) (hcs : y ∈ cs) (hds : y ∈ ds) : i = j := by
  have hpair := (nodup_flatten.mp h).2
  rw [pairwise_iff_getElem] at hpair
  obtain ⟨hi', rfl⟩ := List.getElem?_eq_some_iff.mp hi
  obtain ⟨hj', rfl⟩ := List.getElem?_eq_some_iff.mp hj
  rcases Nat.lt_trichotomy i j with hij | hij | hij
  · exact absurd hds (hpair i j hi' hj' hij hcs)
  · exact hij
  · exact absurd hcs (hpair j i hj' hi' hij hds)

/-- The two variables of a scope are different. -/
lemma Scope.eq_of_name {w' : ContextWord} (h : sc.names.Nodup) (hw : sc.name w = some y) (hw' : sc.name w' = some y) :
    w = w' := by
  have hdisj := (nodup_append.mp h).2.2
  cases w <;> cases w' <;> first | rfl | skip
  · exact absurd rfl (hdisj y (mem_toList.mpr hw) y (mem_toList.mpr hw'))
  · exact absurd rfl (hdisj y (mem_toList.mpr hw') y (mem_toList.mpr hw))

section Nodes

variable {x : Site Scope} {own : Scope} {s s' : Span} {t t' : Tag} {ks ks' : List Node}
  {css : List (List String)} {T : Nat → Trace}

/-- A word below a node. -/
lemma wordTraced_kid (hk : ks[i]? = some k) (hk' : ks'[i]? = some k') (hT : Traced (x.down own t i) k k' cs (T i))
    (hentry : (topSite.down (some []) t' i).owner = (topSite.down (some []) t i).owner ∨ Redirected (x.down own t i) k)
    (hat : k.at? p = some m) (hw : m.tag.contextWord? = some w)
    (hb : ((Trace.node own T).scopeOf x.owner ((mk s t ks).site [] (ownSite x) (i :: p)).owner).binds w = true) :
    WordTraced x (mk s t ks) (mk s' t' ks') (.node own T) (i :: p) m w := by
  obtain ⟨o, ho, htop, hnil, hscope⟩ := down_ownSite x own t i
  have hsite : (mk s t ks).site [] (ownSite x) (i :: p) =
      (k.site [] (ownSite (x.down own t i)) p).map (ownerFrom o [i]) := site_kid hk _ p ho
  -- The scope that the child knows its owner by is the one that the node knows it by.
  have hsame : (Trace.node own T).scopeOf x.owner ((mk s t ks).site [] (ownSite x) (i :: p)).owner =
      (T i).scopeOf (x.down own t i).owner (k.site [] (ownSite (x.down own t i)) p).owner := by
    rw [hsite, hscope]
    change (Trace.node own T).scopeOf x.owner (ownerFrom o [i] _) = _
    cases (k.site [] (ownSite (x.down own t i)) p).owner with
    | none => rcases hnil with rfl | rfl <;> rfl
    | some q => rfl
  have hflags : ((mk s t ks).site [] (ownSite x) (i :: p)).redirects =
      (k.site [] (ownSite (x.down own t i)) p).redirects := by rw [hsite]; rfl
  have hplace : ∀ q, (mk s' t' ks').at? ((Trace.node own T).place (i :: q)) = k'.at? ((T i).place q) :=
    fun q => at?_cons (n := mk s' t' ks') hk' _
  rw [hsame] at hb
  have hword := hT.word hat hw hb
  refine ⟨fun hr => ?_, fun hr => ?_⟩
  · rw [hflags] at hr
    obtain ⟨y, hy, hread⟩ := hword.read hr
    exact ⟨y, hsame ▸ hy, (hplace p).trans hread⟩
  · rw [hflags] at hr
    obtain ⟨hstay, hown⟩ := hword.stay hr
    refine ⟨(hplace p).trans hstay, ?_⟩
    rw [hsite]
    change ((mk s' t' ks').site [] topSite (i :: (T i).place p)).owner =
      (ownerFrom o [i] (k.site [] (ownSite (x.down own t i)) p).owner).map _
    obtain ⟨o', ho', htop', -⟩ := down_ownSite ⟨own, false, false⟩ own t' i
    have hsite' : ((mk s' t' ks').site [] topSite (i :: (T i).place p)).owner =
        ownerFrom o' [i] (k'.site [] topSite ((T i).place p)).owner := by
      rw [site_kid (n := mk s' t' ks') hk' topSite _ ho']
      refine congrArg (ownerFrom o' [i]) (site_owner_congr k' [] ?_ _)
      rfl
    rw [hsite', hown]
    cases hq : (k.site [] (ownSite (x.down own t i)) p).owner with
    | some q => rfl
    | none =>
      rcases hentry with hentry | hentry
      · rw [htop, htop'] at hentry
        subst hentry
        rcases hnil with rfl | rfl <;> rfl
      · rw [hentry p m w hat hw hq] at hr
        cases hr

/-- **A trace of a node from traces of its children.** -/
lemma traced_mk (hkids : KidsTraced x own t ks ks' css T) (hword : t.contextWord? = none)
    (howner : t.isOwner = true → Declares (mk s t ks) (mk s' t' ks') own)
    (hentry : ∀ i k, ks[i]? = some k → (topSite.down (some []) t' i).owner = (topSite.down (some []) t i).owner ∨
        Redirected (x.down own t i) k) :
    Traced x (mk s t ks) (mk s' t' ks') ((if t.isOwner then own.names else []) ++ css.flatten)
      (.node own T) where
  order {p q} hp hq := by
    cases p with
    | nil => exact iff_of_true nil_prefix nil_prefix
    | cons i p =>
      cases q with
      | nil => simp [Trace.node]
      | cons j q =>
        change i :: (T i).place p <+: j :: (T j).place q ↔ _
        rw [cons_prefix_cons, cons_prefix_cons]
        refine and_congr_right fun hij => ?_
        subst hij
        obtain ⟨m, hm⟩ := isSome_iff_exists.mp hp
        obtain ⟨m', hm'⟩ := isSome_iff_exists.mp hq
        obtain ⟨k, hk, hat⟩ := exists_kid_of_at? hm
        obtain ⟨l, hl, hat'⟩ := exists_kid_of_at? hm'
        obtain rfl : k = l := some_inj.mp (hk.symm.trans hl)
        obtain ⟨k', cs, -, -, hT⟩ := hkids i k hk
        exact hT.order (by rw [hat]; rfl) (by rw [hat']; rfl)
  owner {q f} hat ho := by
    cases q with
    | nil =>
      obtain rfl := some_inj.mp hat
      exact ⟨_, rfl, howner ho⟩
    | cons i q =>
      obtain ⟨k, hk, hat⟩ := exists_kid_of_at? hat
      obtain ⟨k', cs, hk', -, hT⟩ := hkids i k hk
      obtain ⟨f', hf', hd⟩ := hT.owner hat ho
      exact ⟨f', (at?_cons (n := mk s' t' ks') hk' _).trans hf', hd⟩
  names {q f} hat ho y hy := by
    cases q with
    | nil =>
      obtain rfl := some_inj.mp hat
      rw [tag_mk] at ho
      rw [if_pos ho]
      exact mem_append_left _ hy
    | cons i q =>
      obtain ⟨k, hk, hat⟩ := exists_kid_of_at? hat
      obtain ⟨k', cs, -, hcs, hT⟩ := hkids i k hk
      exact mem_append_right _
        (mem_flatten.mpr ⟨cs, mem_of_getElem? hcs, hT.names hat ho y hy⟩)
  distinct {q q' f f' w w' y} hnd hat ho hat' ho' hy hy' := by
    obtain ⟨hown, hflat, hdisj⟩ := nodup_append.mp hnd
    cases q with
    | nil =>
      obtain rfl := some_inj.mp hat
      rw [tag_mk] at ho
      rw [if_pos ho] at hown hdisj
      cases q' with
      | nil => exact ⟨rfl, Scope.eq_of_name hown hy hy'⟩
      | cons j q' =>
        obtain ⟨k, hk, hat'⟩ := exists_kid_of_at? hat'
        obtain ⟨k', cs, -, hcs, hT⟩ := hkids j k hk
        exact absurd rfl (hdisj y (Scope.mem_names hy) y (mem_flatten.mpr
          ⟨cs, mem_of_getElem? hcs, hT.names hat' ho' y (Scope.mem_names hy')⟩))
    | cons i q =>
      obtain ⟨k, hk, hat⟩ := exists_kid_of_at? hat
      obtain ⟨k', cs, -, hcs, hT⟩ := hkids i k hk
      have hmem : y ∈ cs := hT.names hat ho y (Scope.mem_names hy)
      cases q' with
      | nil =>
        obtain rfl := some_inj.mp hat'
        rw [tag_mk] at ho'
        rw [if_pos ho'] at hdisj
        exact absurd rfl (hdisj y (Scope.mem_names hy') y (mem_flatten.mpr ⟨cs, mem_of_getElem? hcs, hmem⟩))
      | cons j q' =>
        obtain ⟨l, hl, hat'⟩ := exists_kid_of_at? hat'
        obtain ⟨l', ds, -, hds, hT'⟩ := hkids j l hl
        obtain rfl : i = j := eq_of_mem_of_nodup hflat hcs hds hmem
          (hT'.names hat' ho' y (Scope.mem_names hy'))
        obtain rfl : k = l := some_inj.mp (hk.symm.trans hl)
        obtain ⟨rfl, rfl⟩ := hT.distinct (nodup_of_getElem? hflat hcs) hat ho hat' ho' hy hy'
        exact ⟨rfl, rfl⟩
  word {p m w} hat hw hb := by
    cases p with
    | nil =>
      obtain rfl := some_inj.mp hat
      rw [tag_mk, hword] at hw
      cases hw
    | cons i p =>
      obtain ⟨k, hk, hat⟩ := exists_kid_of_at? hat
      obtain ⟨k', cs, hk', -, hT⟩ := hkids i k hk
      exact wordTraced_kid hk hk' hT (hentry i k hk) hat hw hb

/-- A node without children. -/
lemma traced_leaf {n' : Node} (ht : t.isOwner = false)
    (hword : ∀ w, t.contextWord? = some w → x.owner.binds w = true →
      (x.redirects = true → ∃ y, x.owner.name w = some y ∧ n' = (mk s t []).readFrom y) ∧
      (x.redirects = false → n' = mk s t [])) :
    Traced x (mk s t []) n' [] ⟨id, fun _ => x.owner⟩ where
  order _ _ := Iff.rfl
  owner {q f} hat ho := by
    obtain ⟨-, rfl⟩ := eq_nil_of_at? rfl hat
    rw [tag_mk, ht] at ho
    cases ho
  names {q f} hat ho := by
    obtain ⟨-, rfl⟩ := eq_nil_of_at? rfl hat
    rw [tag_mk, ht] at ho
    cases ho
  distinct {q q' f f' w w' y} _ hat ho := by
    obtain ⟨-, rfl⟩ := eq_nil_of_at? rfl hat
    rw [tag_mk, ht] at ho
    cases ho
  word {p m w} hat hw hb := by
    obtain ⟨rfl, rfl⟩ := eq_nil_of_at? rfl hat
    obtain ⟨hread, hstay⟩ := hword w hw hb
    refine ⟨fun hr => ?_, fun hr => ?_⟩
    · obtain ⟨y, hy, rfl⟩ := hread hr
      exact ⟨y, hy, rfl⟩
    · rw [hstay hr]
      exact ⟨rfl, rfl⟩

lemma kidsTraced_pair (ha : Traced (x.down own t 0) a a' cs T₀) (hb : Traced (x.down own t 1) b b' ds T₁) :
    KidsTraced x own t [a, b] [a', b'] [cs, ds] fun i => if i = 0 then T₀ else T₁ := by
  intro i k hk
  rcases i with _ | _ | i
  · obtain rfl : a = k := by simpa using hk
    exact ⟨a', cs, rfl, rfl, ha⟩
  · obtain rfl : b = k := by simpa using hk
    exact ⟨b', ds, rfl, rfl, hb⟩
  · simp at hk

lemma kidsTraced_triple {c c' : Node} {es : List String} {T₂ : Trace} (ha : Traced (x.down own t 0) a a' cs T₀)
    (hb : Traced (x.down own t 1) b b' ds T₁) (hc : Traced (x.down own t 2) c c' es T₂) :
    KidsTraced x own t [a, b, c] [a', b', c'] [cs, ds, es]
      fun i => if i = 0 then T₀ else if i = 1 then T₁ else T₂ := by
  intro i k hk
  rcases i with _ | _ | _ | i
  · obtain rfl : a = k := by simpa using hk
    exact ⟨a', cs, rfl, rfl, ha⟩
  · obtain rfl : b = k := by simpa using hk
    exact ⟨b', ds, rfl, rfl, hb⟩
  · obtain rfl : c = k := by simpa using hk
    exact ⟨c', es, rfl, rfl, hc⟩
  · simp at hk

end Nodes

/-- A list of nodes at one site. -/
lemma kidsTraced_of_each {c : Nat} (ht : isOrdinary t = true ∨ t = .exprStmt)
    (h : EachNamed (fun k k' ds _ => ∃ T, Traced x k k' ds T) ks ks' cs c) :
    ∃ css T, css.flatten = cs ∧ KidsTraced x x.owner t ks ks' css T := by
  obtain ⟨css, hflat, hcss⟩ := h.exists_names
  have htrace : ∀ i, ∃ T, ∀ k, ks[i]? = some k → ∃ k' ds, ks'[i]? = some k' ∧ css[i]? = some ds ∧
      Traced (x.down x.owner t i) k k' ds T := by
    intro i
    cases hk : ks[i]? with
    | none => exact ⟨⟨id, fun _ => x.owner⟩, by simp⟩
    | some k =>
      obtain ⟨k', ds, -, hk', hds, T, hT⟩ := hcss i k hk
      refine ⟨T, fun l hl => ?_⟩
      obtain rfl := some_inj.mp hl
      rw [Site.down_of_ordinary ht]
      exact ⟨k', ds, hk', hds, hT⟩
  choose T hT using htrace
  exact ⟨css, T, hflat, fun i k hk => hT i k hk⟩

/-! ## Steps -/

/-- A tree and its result have a trace. -/
def HasTrace (x : Site Scope) (n n' : Node) (cs : List String) : Prop :=
  n.Plain → n.role.isClassPart = false → ∃ T, Traced x n n' cs T

/-- In the parts of an arrow that does not stay, every word of the owner around it is redirected. -/
lemma redirected_of_not_keeps {parts : List Node} (hkeep : keeps x.inParams parts = false) (hmem : k ∈ parts)
    (hk : k.Plain) (hwf : k.WellFormed) : Redirected { x with inArrow := true } k := by
  intro p m w hat hw ho
  obtain ⟨-, hp, ha⟩ := site_of_owner_eq_none hat ho
  rw [Site.redirects, ha rfl, hp, Bool.true_and, Bool.not_eq_true']
  change x.inParams = false
  refine eq_false_of_ne_true fun hx => ?_
  have huse : usesContext parts = true := any_eq_true.mpr ⟨k, hmem, ownUse_of_site hk hwf hat hw ho⟩
  rw [keeps, hx, huse] at hkeep
  simp at hkeep

/-- A body stands in the body with declarations behind its directives. -/
lemma Traced.declareIn (h : Traced x body body' cs T) (hb : body'.Is .block) (new : List Node) :
    ∃ T', Traced x body (declareIn new body') cs T' := by
  obtain ⟨s, stmts, rfl⟩ := eq_of_role hb.2 rfl
  exact ⟨_, h.embed (Embeds.afterDirectives new stmts)⟩

/-- The body of an arrow stands in the body of a function. -/
lemma Traced.blockOf (h : Traced x body body' cs T) : ∃ T', Traced x body (blockOf body') cs T' := by
  unfold Arrow.blockOf
  split
  · exact ⟨T, h⟩
  · exact ⟨_, (h.embed (Embeds.wrap (.inl rfl) body')).embed (Embeds.wrap (.inl rfl) _)⟩

/-- An expression stands in the expression that a statement can start with. -/
lemma Traced.asStatement {e e' : Node} (h : Traced x e e' cs T) : ∃ T', Traced x e (asStatement e') cs T' := by
  unfold Arrow.asStatement
  split
  · exact ⟨_, h.embed (Embeds.wrap (.inl rfl) e')⟩
  · exact ⟨T, h⟩

lemma exists_traced_mk {s s' : Span} {t' : Tag} {css : List (List String)} {T : Nat → Trace} (own : Scope)
    (hkids : KidsTraced x own t ks ks' css T) (hword : t.contextWord? = none)
    (howner : t.isOwner = true → Declares (mk s t ks) (mk s' t' ks') own)
    (hentry : ∀ i k, ks[i]? = some k → (topSite.down (some []) t' i).owner = (topSite.down (some []) t i).owner ∨ Redirected (x.down own t i) k)
    (hcs : (if t.isOwner then own.names else []) ++ css.flatten = cs) :
    ∃ T, Traced x (mk s t ks) (mk s' t' ks') cs T := by
  subst hcs
  exact ⟨_, traced_mk hkids hword howner hentry⟩

/-- **Each step of the traversal has a trace.** -/
lemma traced_step (x : Site Scope) (n n' : Node) (cs : List String) (c : Nat) (h : n.WellFormed)
    (hstep : ScopedStep (fun x n n' cs _ => n'.Is n.role ∧ HasTrace x n n' cs) x n n' cs c) :
    n'.Is n.role ∧ HasTrace x n n' cs := by
  refine ⟨step_is _ n n' c h (hstep.step (·.1) h), fun hn hpart => ?_⟩
  have hkid : ∀ {s : Span} {t : Tag} {ks : List Node} {k : Node}, n = mk s t ks → k ∈ ks →
      k.Plain ∧ k.role.isClassPart = false := by
    rintro s t ks k rfl hk
    exact ⟨hn.kid hk, h.not_isClassPart hn.ne_cls hpart hk⟩
  have htrace : ∀ {s : Span} {t : Tag} {ks : List Node} {y : Site Scope} {k k' : Node}
      {ds : List String}, HasTrace y k k' ds → n = mk s t ks → k ∈ ks → ∃ T, Traced y k k' ds T :=
    fun hT hn hk => hT (hkid hn hk).1 (hkid hn hk).2
  cases hstep with
  | func own ha hp hb =>
    obtain ⟨p, body, ⟨⟩, -, hb'⟩ := h.func
    obtain ⟨T₀, h₀⟩ := htrace hp.2 rfl (by simp)
    obtain ⟨T₁, h₁⟩ := htrace hb.2 rfl (by simp)
    have hblock := hb'.2 ▸ hb.1
    obtain ⟨T₂, h₂⟩ := h₁.declareIn hblock own.captures
    obtain ⟨s, stmts, rfl⟩ := eq_of_role hblock.2 rfl
    exact exists_traced_mk own (kidsTraced_pair h₀ h₂) rfl (fun _ => ⟨ha, rfl, rfl, stmts, rfl⟩)
      (fun _ _ _ => .inl rfl) (by simp [Tag.isOwner])
  | getter own ha hk hb =>
    obtain ⟨key, body, ⟨⟩, -, hb'⟩ := h.getter
    obtain ⟨T₀, h₀⟩ := htrace hk.2 rfl (by simp)
    obtain ⟨T₁, h₁⟩ := htrace hb.2 rfl (by simp)
    have hblock := hb'.2 ▸ hb.1
    obtain ⟨T₂, h₂⟩ := h₁.declareIn hblock own.captures
    obtain ⟨s, stmts, rfl⟩ := eq_of_role hblock.2 rfl
    exact exists_traced_mk own (kidsTraced_pair h₀ h₂) rfl (fun _ => ⟨ha, rfl, rfl, stmts, rfl⟩)
      (fun _ _ _ => .inl rfl) (by simp [Tag.isOwner])
  | setter own ha hk hp hb =>
    obtain ⟨key, p, body, ⟨⟩, -, -, hb'⟩ := h.setter
    obtain ⟨T₀, h₀⟩ := htrace hk.2 rfl (by simp)
    obtain ⟨T₁, h₁⟩ := htrace hp.2 rfl (by simp)
    obtain ⟨T₂, h₂⟩ := htrace hb.2 rfl (by simp)
    have hblock := hb'.2 ▸ hb.1
    obtain ⟨T₃, h₃⟩ := h₂.declareIn hblock own.captures
    obtain ⟨s, stmts, rfl⟩ := eq_of_role hblock.2 rfl
    exact exists_traced_mk own (kidsTraced_triple h₀ h₁ h₃) rfl
      (fun _ => ⟨ha, rfl, rfl, stmts, rfl⟩) (fun _ _ _ => .inl rfl) (by simp [Tag.isOwner])
  | ctor | field | staticBlock => cases hpart
  | kept _ hp hb =>
    obtain ⟨T₀, h₀⟩ := htrace hp.2 rfl (by simp)
    obtain ⟨T₁, h₁⟩ := htrace hb.2 rfl (by simp)
    exact exists_traced_mk x.owner (kidsTraced_pair h₀ h₁) rfl (by simp [Tag.isOwner])
      (fun _ _ _ => .inl rfl) (by simp [Tag.isOwner])
  | @lowered a s p p' body body' cs ds c d hkeep hp hb =>
    obtain ⟨T₀, h₀⟩ := htrace hp.2 rfl (by simp)
    obtain ⟨T₁, h₁⟩ := htrace hb.2 rfl (by simp)
    obtain ⟨_, _, ⟨⟩, hp', -⟩ := h.arrow
    obtain ⟨sp, ps, rfl⟩ := eq_of_role (hp'.2 ▸ hp.1.2) rfl
    obtain ⟨T₂, h₂⟩ := h₁.blockOf
    -- The function stands in the expression that takes the place of the arrow.
    obtain ⟨T, hT⟩ : ∃ T, Traced x (mk s (.arrow a) [p, body])
        (mk s (.func a false) [params ps, blockOf body']) (cs ++ ds) T :=
      exists_traced_mk x.owner (kidsTraced_pair (h₀.embed (Embeds.params rfl)) h₂) rfl
        (by simp [Tag.isOwner]) (fun i k hk => .inr (redirected_of_not_keeps hkeep
          (mem_of_getElem? hk) (hkid rfl (mem_of_getElem? hk)).1
          (h.kid (mem_of_getElem? hk)))) (by simp [Tag.isOwner])
    exact ⟨_, hT.embed (Embeds.wrap (.inl rfl) _)⟩
  | @word s t w y hword hr hbinds hy =>
    refine ⟨_, traced_leaf ?_ fun v hv _ => ⟨fun _ => ⟨y, ?_, rfl⟩, fun hne => ?_⟩⟩
    · rcases Tag.eq_of_contextWord hword with ⟨rfl, -⟩ | ⟨rfl | rfl, -⟩ <;> rfl
    · rwa [some_inj.mp (hv.symm.trans hword)]
    · rw [hr] at hne
      cases hne
  | @exprStmt s e e' cs c he =>
    obtain ⟨T₀, h₀⟩ := htrace he.2 rfl (by simp)
    obtain ⟨css, T, hflat, hT⟩ := kidsTraced_of_each (t := .exprStmt) (.inr rfl)
      (EachNamed.cons (c := 0) h₀.asStatement .nil)
    exact exists_traced_mk x.owner hT rfl (by simp [Tag.isOwner]) (fun _ _ _ => .inl rfl)
      (by simp [Tag.isOwner, hflat])
  | @ordinary s t ks ks' cs c ht hword hE =>
    cases hw : t.contextWord? with
    | some w =>
      obtain rfl : ks = [] := by
        rcases Tag.eq_of_contextWord hw with ⟨rfl, -⟩ | ⟨rfl | rfl, -⟩ <;> exact h.leaf rfl
      cases hE
      refine ⟨_, traced_leaf ?_ fun v hv hb => ⟨fun hr => ?_, fun _ => rfl⟩⟩
      · rcases Tag.eq_of_contextWord hw with ⟨rfl, -⟩ | ⟨rfl | rfl, -⟩ <;> rfl
      · have := hword v hv
        rw [hr, hb] at this
        cases this
    | none =>
      have hE' : EachNamed (fun k k' ds _ => ∃ T, Traced x k k' ds T) ks ks' cs c :=
        hE.mono fun k hk k' ds d hk' => htrace hk'.2 rfl hk
      obtain ⟨css, T, hflat, hT⟩ := kidsTraced_of_each (.inl ht) hE'
      have hnot : t.isOwner = false := by cases t <;> first | rfl | cases ht
      exact exists_traced_mk x.owner hT hw (by simp [hnot]) (fun _ _ _ => .inl rfl)
        (by simp [hnot, hflat])

end Arrow

/-! ## Scripts -/

namespace Script

/-- The owner of a place in a script, which is the script itself if it is no function or accessor, and
how the place lies in it. -/
def siteOf (s : Script) (p : List Nat) : Site (Option (List Nat)) := s.tree.site [] Node.topSite p

/-- A word stands at a place. The script has no `arguments` of its own. -/
structure WordAt (s : Script) (p : List Nat) (m : Node) (w : ContextWord) : Prop where
  place : s.tree.at? p = some m
  word : m.tag.contextWord? = some w
  owned : w = .arguments → (s.siteOf p).owner ≠ none

/-- The owner of a word is the script, or a function or an accessor. -/
lemma WordAt.exists_owner (hw : s.WordAt p m w) (hq : (s.siteOf p).owner = some q) :
    ∃ f, s.tree.at? q = some f ∧ f.tag.isOwner = true := by
  obtain ho | ⟨r, f, rfl, hf, hf'⟩ := Node.exists_owner hw.place hq
  · cases ho
  · exact ⟨f, hf, hf'⟩

/-- The statements in the body of an owner. -/
def statementsOf (s : Script) : Option (List Nat) → List Node
  | none => s.body
  | some q => ((s.tree.at? q).map Node.statements).getD []

/-- The body of an owner declares a variable that holds a word, in the one statement directly behind
its directives. -/
def Holds (s : Script) (o : Option (List Nat)) (x : String) (w : ContextWord) : Prop :=
  ∃ decls rest, s.statementsOf o = (s.statementsOf o).takeWhile isDirective ++ var decls :: rest ∧
    declarator (binding x) (some w.node) ∈ decls

/-- Every word of `s` has the same owner in `s'`, where `place` says where the places of `s` are and
`var` which variable holds a word of an owner. -/
structure KeepsOwners (s s' : Script) (place : List Nat → List Nat)
    (var : Option (List Nat) → ContextWord → String) : Prop where
  /-- What stands inside something else still does, and nothing more. -/
  order {p q : List Nat} : (s.tree.at? p).isSome → (s.tree.at? q).isSome → (place p <+: place q ↔ p <+: q)
  /-- Functions and accessors stay functions and accessors. -/
  owner {q : List Nat} {f : Node} : s.tree.at? q = some f → f.tag.isOwner = true →
    ∃ f', s'.tree.at? (place q) = some f' ∧ f'.tag = f.tag ∧ f'.span = f.span
  /-- A word in an arrow and not in the parameter list of its owner is read from a variable that its
  owner declares. -/
  read {p : List Nat} {m : Node} {w : ContextWord} : s.WordAt p m w → (s.siteOf p).redirects = true →
    s'.tree.at? (place p) = some (m.readFrom (var (s.siteOf p).owner w)) ∧
    s'.Holds ((s.siteOf p).owner.map place) (var (s.siteOf p).owner w) w
  /-- Every other word stays as it is and has the owner that it had. -/
  stay {p : List Nat} {m : Node} {w : ContextWord} : s.WordAt p m w → (s.siteOf p).redirects = false →
    s'.tree.at? (place p) = some m ∧ (s'.siteOf (place p)).owner = (s.siteOf p).owner.map place
  /-- The variables are new. -/
  fresh {p : List Nat} {m : Node} {w : ContextWord} : s.WordAt p m w →
    (s.siteOf p).redirects = true → var (s.siteOf p).owner w ∉ s.names
  /-- Different words, and words of different owners, have different variables. -/
  distinct {p q : List Nat} {m n : Node} {v w : ContextWord} : s.WordAt p m v → s.WordAt q n w →
    (s.siteOf p).redirects = true → (s.siteOf q).redirects = true →
    var (s.siteOf p).owner v = var (s.siteOf q).owner w → (s.siteOf p).owner = (s.siteOf q).owner ∧ v = w

end Script

namespace Arrow

open Node

/-- The declaration of a variable of a scope. -/
lemma Scope.exists_captures (h : sc.name w = some y) : ∃ decls, sc.captures = [var decls] ∧
      declarator (binding y) (some w.node) ∈ decls := by
  have hmem := Scope.mem_declarators.mpr ⟨w, y, h, rfl⟩
  rw [Scope.captures_eq, if_neg (by simpa using ne_nil_of_mem hmem)]
  exact ⟨_, rfl, hmem⟩

/-- What a scope needs is declared directly behind the directives. -/
lemma eq_takeWhile_append_of_captures {decls stmts' : List Node} (h : stmts' = afterDirectives [var decls] stmts) :
    stmts' = stmts'.takeWhile isDirective ++ var decls :: stmts.dropWhile isDirective := by
  have hwhile : stmts'.takeWhile isDirective = stmts.takeWhile isDirective := by
    rw [h, afterDirectives, append_assoc, takeWhile_append_of_pos (fun k hk => all_eq_true.mp all_takeWhile k hk)]
    simp [isDirective, directive?, var, make]
  rw [hwhile, h, afterDirectives, append_assoc]
  rfl

/-- A variable of a scope is declared in a body that declares what the scope needs. -/
lemma holds_of_name {o : Option (List Nat)} (hbody : s.statementsOf o = afterDirectives sc.captures stmts)
    (hy : sc.name w = some y) : s.Holds o y w := by
  obtain ⟨decls, hdecls, hmem⟩ := Scope.exists_captures hy
  rw [hdecls] at hbody
  exact ⟨decls, _, eq_takeWhile_append_of_captures hbody, hmem⟩

/-- A trace of a script, whose own scope is `own`. -/
structure ScriptTraced (s : Script) (own : Scope) (cs : List String) (T : Trace) : Prop where
  traced : Traced ⟨own, false, false⟩ s.tree (lowerScript s).1.tree cs T
  body : ∃ stmts, (lowerScript s).1.body = afterDirectives own.captures stmts
  nodup : (own.names ++ cs).Nodup
  fresh : ∀ y ∈ own.names ++ cs, y ∉ s.names

/-- **A script has a trace.** -/
lemma exists_scriptTraced (h : s.WellFormed) (hplain : ∀ n ∈ s.body, n.Plain) :
    ∃ own cs T, ScriptTraced s own cs T := by
  obtain ⟨own, body', cs, hE, -, hbody, hnodup, hfresh⟩ := lowerScript_scoped traced_step h
  have hE' : EachNamed (fun k k' ds _ => ∃ T, Traced ⟨own, false, false⟩ k k' ds T) s.body body' cs
      (lowerScript s).2 := hE.mono fun k hk k' ds _ hk' => by
    refine hk'.2 (hplain k hk) ?_
    have hrole := (h k hk).2
    cases hr : k.role <;> first | rfl | (rw [hr] at hrole; cases hrole)
  obtain ⟨css, T, hflat, hT⟩ := kidsTraced_of_each (t := .block) (.inl rfl) hE'
  obtain ⟨T', hT'⟩ : ∃ T', Traced ⟨own, false, false⟩ s.tree (mk s.span .block body') cs T' :=
    exists_traced_mk own hT rfl (by simp [Tag.isOwner]) (fun _ _ _ => .inl rfl)
      (by simp [Tag.isOwner, hflat])
  have hout := hT'.embed (Embeds.afterDirectives own.captures body')
  exact ⟨own, cs, _, by rw [hbody]; exact hout, ⟨body', congrArg Script.body hbody⟩, hnodup, hfresh⟩

namespace ScriptTraced

variable {s : Script} {own : Scope} {cs : List String} {T : Trace} (h : ScriptTraced s own cs T)

include h

lemma word {p : List Nat} {m : Node} {w : ContextWord} (hw : s.WordAt p m w) :
    WordTraced ⟨own, false, false⟩ s.tree (lowerScript s).1.tree T p m w := by
  refine h.traced.word hw.place hw.word ?_
  change (T.scopeOf own (s.siteOf p).owner).binds w = true
  cases w with
  | this => rfl
  | arguments =>
    obtain ⟨q, hq⟩ := ne_none_iff_exists'.mp (hw.owned rfl)
    obtain ⟨f, hf, hf'⟩ := hw.exists_owner hq
    obtain ⟨f', -, hd⟩ := h.traced.owner hf hf'
    rw [hq]
    exact hd.hasArguments

/-- The body of the owner of a word declares what the owner's scope needs. -/
lemma statementsOf (hw : s.WordAt p m w) : ∃ stmts, (lowerScript s).1.statementsOf ((s.siteOf p).owner.map T.place) =
      afterDirectives (T.scopeOf own (s.siteOf p).owner).captures stmts := by
  cases ho : (s.siteOf p).owner with
  | none => exact h.body
  | some q =>
    obtain ⟨f, hf, hf'⟩ := hw.exists_owner ho
    obtain ⟨f', hat, hd⟩ := h.traced.owner hf hf'
    rw [map_some, Script.statementsOf, hat]
    exact hd.body

lemma mem_names (hw : s.WordAt p m w) (hy : (T.scopeOf own (s.siteOf p).owner).name w = some y) :
    y ∈ own.names ++ cs := by
  cases ho : (s.siteOf p).owner with
  | none =>
    rw [ho] at hy
    exact mem_append_left _ (Scope.mem_names hy)
  | some q =>
    rw [ho] at hy
    obtain ⟨f, hf, hf'⟩ := hw.exists_owner ho
    exact mem_append_right _ (h.traced.names hf hf' y (Scope.mem_names hy))

/-- A variable belongs to one owner and one word. -/
lemma distinct {v : ContextWord} (hp : s.WordAt p m v) (hq : s.WordAt q n w)
    (hy : (T.scopeOf own (s.siteOf p).owner).name v = some y)
    (hy' : (T.scopeOf own (s.siteOf q).owner).name w = some y) : (s.siteOf p).owner = (s.siteOf q).owner ∧ v = w := by
  obtain ⟨hown, hcs, hdisj⟩ := nodup_append.mp h.nodup
  cases ho : (s.siteOf p).owner with
  | none =>
    rw [ho] at hy
    cases ho' : (s.siteOf q).owner with
    | none =>
      rw [ho'] at hy'
      exact ⟨rfl, Scope.eq_of_name hown hy hy'⟩
    | some q' =>
      rw [ho'] at hy'
      obtain ⟨f, hf, hf'⟩ := hq.exists_owner ho'
      exact absurd rfl
        (hdisj y (Scope.mem_names hy) y (h.traced.names hf hf' y (Scope.mem_names hy')))
  | some p' =>
    rw [ho] at hy
    obtain ⟨f, hf, hf'⟩ := hp.exists_owner ho
    cases ho' : (s.siteOf q).owner with
    | none =>
      rw [ho'] at hy'
      exact absurd rfl
        (hdisj y (Scope.mem_names hy') y (h.traced.names hf hf' y (Scope.mem_names hy)))
    | some q' =>
      rw [ho'] at hy'
      obtain ⟨g, hg, hg'⟩ := hq.exists_owner ho'
      obtain ⟨rfl, rfl⟩ := h.traced.distinct hcs hf hf' hg hg' hy hy'
      exact ⟨rfl, rfl⟩

end ScriptTraced

/-- **Every word keeps its owner.** In a script without classes and without computed keys of accessors,
a `this`, and an `arguments` that a function or an accessor owns, is read from a variable of its owner
if it stands in an arrow and not in the owner's parameter list. Every other one stays and has the same
owner as before. -/
theorem owners_kept {s : Script} (h : s.WellFormed) (hplain : ∀ n ∈ s.body, n.Plain) :
    ∃ place var, s.KeepsOwners (lowerScript s).1 place var := by
  obtain ⟨own, cs, T, hT⟩ := exists_scriptTraced h hplain
  refine ⟨T.place, fun o w => ((T.scopeOf own o).name w).getD "", hT.traced.order, fun hq hf => ?_,
    fun hw hr => ?_, fun hw hr => (hT.word hw).stay hr, fun hw hr => ?_, fun hp hq hr hr' heq => ?_⟩
  · obtain ⟨f', hf', hd⟩ := hT.traced.owner hq hf
    exact ⟨f', hf', hd.tag, hd.span⟩
  · obtain ⟨y, hy, hread⟩ := (hT.word hw).read hr
    obtain ⟨stmts, hstmts⟩ := hT.statementsOf hw
    change (T.scopeOf own (s.siteOf _).owner).name _ = some y at hy
    rw [hy]
    exact ⟨hread, holds_of_name hstmts hy⟩
  · obtain ⟨y, hy, -⟩ := (hT.word hw).read hr
    change (T.scopeOf own (s.siteOf _).owner).name _ = some y at hy
    rw [hy]
    exact hT.fresh y (hT.mem_names hw hy)
  · obtain ⟨y, hy, -⟩ := (hT.word hp).read hr
    obtain ⟨z, hz, -⟩ := (hT.word hq).read hr'
    change (T.scopeOf own (s.siteOf _).owner).name _ = some y at hy
    change (T.scopeOf own (s.siteOf _).owner).name _ = some z at hz
    rw [hy, hz] at heq
    obtain rfl : y = z := heq
    exact hT.distinct hp hq hy hz

/-- `function f(a = () => this) { "use strict"; return () => [this, { arguments }]; }` -/
def arrowsInFunction : Script where
  body := [funcDecl "f" (make (.func false false) [
    params [make .assignPat
      [binding "a", make (.arrow false) [params [], this]]],
    block [useStrict, returnStmt (make (.arrow false) [params [],
      array [this, make .object [make (.shorthand "arguments") []]]])]])]

/-- A function with an arrow in its parameter list and one in its body, which uses both words. -/
theorem owners_kept_arrowsInFunction : arrowsInFunction.WellFormed ∧
    (∀ n ∈ arrowsInFunction.body, n.Plain) ∧
    (arrowsInFunction.WordAt [0, 0, 0, 0, 1, 1] this .this ∧
      arrowsInFunction.siteOf [0, 0, 0, 0, 1, 1] = ⟨some [0, 0], true, true⟩) ∧
    (arrowsInFunction.WordAt [0, 0, 1, 1, 0, 1, 1, 0] (make (.shorthand "arguments") [])
        .arguments ∧
      arrowsInFunction.siteOf [0, 0, 1, 1, 0, 1, 1, 0] = ⟨some [0, 0], true, false⟩) ∧
    ∃ place var, arrowsInFunction.KeepsOwners (lowerScript arrowsInFunction).1 place var := by
  have hs : arrowsInFunction.WellFormed := by decide
  have hp : ∀ n ∈ arrowsInFunction.body, n.Plain := by decide
  have hthis : arrowsInFunction.siteOf [0, 0, 0, 0, 1, 1] = ⟨some [0, 0], true, true⟩ := rfl
  have harguments : arrowsInFunction.siteOf [0, 0, 1, 1, 0, 1, 1, 0] = ⟨some [0, 0], true, false⟩ :=
    rfl
  exact ⟨hs, hp, ⟨⟨rfl, rfl, by simp [hthis]⟩, hthis⟩, ⟨⟨rfl, rfl, by simp [harguments]⟩, harguments⟩,
    owners_kept hs hp⟩

end Arrow

end EcmaLower
