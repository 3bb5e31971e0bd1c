import EcmaLower.Proofs.Alike
import EcmaLower.Proofs.ArrowScopes

/-!
# Lowering of arrows

What becomes of a node while arrows are lowered depends on its site, but of that only one bit decides
what becomes of an arrow: whether it stands in the parameter list of the innermost function. This
module states what the traversal can do at a node as a relation over that bit, and derives that trees
stay well-formed and keep the syntax of other families.

## Main results

* `Arrow.lowerScript_rel` — a relation that is closed under the steps holds of every
  statement of a script and its result.
* `Arrow.lowerScript_wellFormed` — scripts stay well-formed.
* `Arrow.any_lowerScript` — a search for syntax of other families finds the same.
-/

namespace EcmaLower.Arrow

open Node List Build Bool

variable {b a : Bool} {body n n' : Node} {ks : List Node} {q : Tag → Bool} {x : Bool × Node}
  {S : Bool → Node → Node → Nat → Prop} {c : Nat} {s : Span} {t : Tag}

/-! ## Marks -/

/-- The children that the traversal visits, each with its mark: whether it stands in the parameter
list of the innermost function. Functions and accessors mark their own parameters and not their
bodies. Field initializers and static blocks are not visited. -/
def visited (b : Bool) : Node → List (Bool × Node)
  | .mk _ (.func ..) [p, body] => [(true, p), (false, body)]
  | .mk _ .ctor [key, p, body] => [(b, key), (true, p), (false, body)]
  | .mk _ .getter [key, body] => [(b, key), (false, body)]
  | .mk _ .setter [key, p, body] => [(b, key), (true, p), (false, body)]
  | .mk _ (.field _) _ | .mk _ .staticBlock _ => []
  | .mk _ _ ks => ks.map (b, ·)

lemma visited_ordinary (ht : isOrdinary t = true) : visited b (mk s t ks) = ks.map (b, ·) := by
  cases t <;> first | rfl | cases ht

/-- What is visited below a node is one of its children. -/
lemma mem_kids_of_mem_visited (hx : x ∈ visited b (mk s t ks)) : x.2 ∈ ks := by
  unfold visited at hx
  split at hx
  all_goals
    simp only [mk.injEq] at *
    grind

lemma within_of_reaches_visited {b₀ : Bool} {a : Node} (h : Reaches visited b a b₀ n) : a.Within n := by
  induction h with
  | here => exact .refl
  | @step b₀ b₁ n k hk _ ih =>
    obtain ⟨s, t, ks⟩ := n
    exact .kid (mem_kids_of_mem_visited hk) ih

/-! ## Steps -/

variable {R : Bool → Node → Node → Nat → Prop}

/-- Whether a node is a scope of its own. -/
def isScope : Tag → Bool
  | .func .. | .ctor | .getter | .setter => true
  | _ => false

lemma mark_of_mem_visited (ht : isScope t = false) (hx : x ∈ visited b (mk s t ks)) : x.1 = b := by
  have hmap : x ∈ ks.map (b, ·) → x.1 = b := by
    intro hx
    obtain ⟨k, -, rfl⟩ := mem_map.mp hx
    rfl
  cases t <;> first | exact hmap hx | (cases ht; done) | cases hx

/-- The children of a node with their marks, and what stands in their places: what became of them. The
body of a scope also declares variables. -/
inductive Parts (R : Bool → Node → Node → Nat → Prop) (t : Tag) : List (Bool × Node) → List Node → Nat → Prop
  | nil : Parts R t [] [] 0
  | kid {m : Bool} {k k' : Node} {xs : List (Bool × Node)} {ks' : List Node} {c d : Nat} : R m k k' c →
    Parts R t xs ks' d → Parts R t ((m, k) :: xs) (k' :: ks') (c + d)
  | body {k k' : Node} {xs : List (Bool × Node)} {ks' : List Node} {c d : Nat} (sc : Scope) :
    isScope t = true → k.Is .block → R false k k' c → Parts R t xs ks' d →
    Parts R t ((false, k) :: xs) (declareIn sc.captures k' :: ks') (c + d)

namespace Parts

variable {t : Tag} {xs : List (Bool × Node)} {ks' : List Node} {c : Nat}

lemma of_each (h : Each (R b) ks ks' c) : Parts R t (ks.map (b, ·)) ks' c := by
  induction h with
  | nil => exact .nil
  | cons hk _ ih => exact .kid hk ih

lemma mono (hRS : ∀ b n n' c, R b n n' c → S b n n' c) (h : Parts R t xs ks' c) : Parts S t xs ks' c := by
  induction h with
  | nil => exact .nil
  | kid hr _ ih => exact .kid (hRS _ _ _ _ hr) ih
  | body sc ht hk hr _ ih => exact .body sc ht hk (hRS _ _ _ _ hr) ih

/-- What holds of all children and their results holds of what stands in their places. -/
lemma forall₂_visited {P : Bool × Node → Node → Prop} (h : Parts R t xs ks' c)
    (hkid : ∀ x ∈ xs, ∀ e d, d ≤ c → R x.1 x.2 e d → P x e)
    (hbody : isScope t = true → ∀ (sc : Scope) k e, k.Is .block → P (false, k) e →
      P (false, k) (declareIn sc.captures e)) : Forall₂ P xs ks' := by
  induction h with
  | nil => exact .nil
  | kid hr _ ih =>
    exact .cons (hkid _ (mem_cons_self ..) _ _ (Nat.le_add_right ..) hr)
      (ih fun x hx e d hd => hkid x (mem_cons_of_mem _ hx) e d (by omega))
  | body sc ht hk hr _ ih =>
    exact .cons (hbody ht sc _ _ hk (hkid _ (mem_cons_self ..) _ _ (Nat.le_add_right ..) hr))
      (ih fun x hx e d hd => hkid x (mem_cons_of_mem _ hx) e d (by omega))

lemma forall₂ {P : Node → Node → Prop} (h : Parts R t xs ks' c) (hkids : xs.map (·.2) = ks)
    (hkid : ∀ x ∈ xs, ∀ e d, d ≤ c → R x.1 x.2 e d → P x.2 e)
    (hbody : ∀ (sc : Scope) k e, k.Is .block → P k e → P k (declareIn sc.captures e)) :
    Forall₂ P ks ks' :=
  hkids ▸ forall₂_map_left_iff.mpr (h.forall₂_visited hkid fun _ => hbody)

lemma exists_right (h : Parts R t xs ks' c) (hx : x ∈ xs) : ∃ k' ∈ ks', ∃ e d,
    R x.1 x.2 e d ∧ (k' = e ∨ x.2.Is .block ∧ ∃ sc : Scope, k' = declareIn sc.captures e) := by
  induction h with
  | nil => cases hx
  | kid hr _ ih =>
    rcases mem_cons.mp hx with rfl | hx
    · exact ⟨_, mem_cons_self .., _, _, hr, .inl rfl⟩
    · exact (ih hx).imp fun _ h => ⟨mem_cons_of_mem _ h.1, h.2⟩
  | body sc _ hk hr _ ih =>
    rcases mem_cons.mp hx with rfl | hx
    · exact ⟨_, mem_cons_self .., _, _, hr, .inr ⟨hk, sc, rfl⟩⟩
    · exact (ih hx).imp fun _ h => ⟨mem_cons_of_mem _ h.1, h.2⟩

lemma count_eq_zero_iff {P : Bool × Node → Prop} (h : Parts R t xs ks' c)
    (hkid : ∀ x e d, R x.1 x.2 e d → (d = 0 ↔ P x)) : c = 0 ↔ ∀ x ∈ xs, P x := by
  induction h with
  | nil => simp
  | kid hr _ ih | body _ _ _ hr _ ih => rw [Nat.add_eq_zero_iff, hkid (_, _) _ _ hr, ih, forall_mem_cons]

end Parts

/-- What can become of a node: `b` says whether it stands in the parameter list of the innermost
function, and the number is that of the arrows lowered in it. Most nodes only get the results of their
children in their places. -/
inductive Step (R : Bool → Node → Node → Nat → Prop) : Bool → Node → Node → Nat → Prop
  | rebuilt {b : Bool} {s : Span} {t : Tag} {ks ks' : List Node} {c : Nat} :
    (visited b (mk s t ks)).map (·.2) = ks → Parts R t (visited b (mk s t ks)) ks' c → t ≠ .exprStmt →
    (∀ a, t = .arrow a → keeps b ks = true) → Step R b (mk s t ks) (mk s t ks') c
  | field {b isStatic : Bool} {s : Span} {ks : List Node} :
    Step R b (mk s (.field isStatic) ks) (mk s (.field isStatic) ks) 0
  | staticBlock {b : Bool} {s : Span} {ks : List Node} : Step R b (mk s .staticBlock ks) (mk s .staticBlock ks) 0
  | lowered {b a : Bool} {s : Span} {p p' body body' : Node} {c d : Nat} : keeps b [p, body] = false →
    p.Is .params → (body.Is .expr ∨ body.Is .block) → R b p p' c → R b body body' d →
    Step R b (mk s (.arrow a) [p, body]) (toFunction s a p' body') (c + d + 1)
  | word {s : Span} {t : Tag} {w : ContextWord} {x : String} : t.contextWord? = some w →
    Step R false (mk s t []) ((mk s t []).readFrom x) 0
  | statement {b : Bool} {s : Span} {e e' : Node} {c : Nat} : e.Is .expr → R b e e' c →
    Step R b (mk s .exprStmt [e]) (mk s .exprStmt [asStatement e']) c

lemma Step.mono (hRS : ∀ b n n' c, R b n n' c → S b n n' c) (h : Step R b n n' c) : Step S b n n' c := by
  cases h with
  | rebuilt hkids hparts hne harrow => exact .rebuilt hkids (hparts.mono hRS) hne harrow
  | field => exact .field
  | staticBlock => exact .staticBlock
  | lowered hk hps hbody hp hb => exact .lowered hk hps hbody (hRS _ _ _ _ hp) (hRS _ _ _ _ hb)
  | word hw => exact .word hw
  | statement he hr => exact .statement he (hRS _ _ _ _ hr)

/-- A step without its names. -/
lemma ScopedStep.step {S : Site Scope → Node → Node → List String → Nat → Prop} {x : Site Scope} {cs : List String}
    (hSR : ∀ {x n n' cs c}, S x n n' cs c → R x.inParams n n' c) (h : n.WellFormed) (hs : ScopedStep S x n n' cs c) :
    Step R x.inParams n n' c := by
  cases hs with
  | func own _ hp hb =>
    obtain ⟨p, body, ⟨⟩, -, hbody⟩ := h.func
    exact .rebuilt rfl (.kid (hSR hp) (.body own rfl hbody (hSR hb) .nil)) nofun nofun
  | ctor own _ hk hp hb =>
    obtain ⟨key, p, body, ⟨⟩, -, -, hbody⟩ := h.ctor
    exact .rebuilt rfl (.kid (hSR hk) (.kid (hSR hp) (.body own rfl hbody (hSR hb) .nil))) nofun nofun
  | getter own _ hk hb =>
    obtain ⟨key, body, ⟨⟩, -, hbody⟩ := h.getter
    exact .rebuilt rfl (.kid (hSR hk) (.body own rfl hbody (hSR hb) .nil)) nofun nofun
  | setter own _ hk hp hb =>
    obtain ⟨key, p, body, ⟨⟩, -, -, hbody⟩ := h.setter
    exact .rebuilt rfl (.kid (hSR hk) (.kid (hSR hp) (.body own rfl hbody (hSR hb) .nil))) nofun nofun
  | field => exact .field
  | staticBlock => exact .staticBlock
  | kept hkeep hp hb =>
    have hp := hSR hp
    have hb := hSR hb
    exact .rebuilt rfl (.kid hp (.kid hb .nil)) nofun fun _ _ => hkeep
  | lowered hkeep hp hb =>
    obtain ⟨p, body, ⟨⟩, hparams, hbody⟩ := h.arrow
    have hp := hSR hp
    have hb := hSR hb
    exact .lowered hkeep hparams hbody hp hb
  | word hword hr =>
    rw [show x.inParams = false by simpa using (and_eq_true_iff.mp hr).2]
    exact .word hword
  | exprStmt he =>
    obtain ⟨e, ⟨⟩, hexpr⟩ := h.single rfl
    exact .statement hexpr (hSR he)
  | ordinary ht _ hE =>
    refine .rebuilt ?_ (visited_ordinary ht ▸ .of_each (hE.each fun _ _ _ _ h => hSR h)) ?_ ?_
    · rw [visited_ordinary ht, map_map]
      exact map_id _
    · rintro rfl
      cases ht
    · rintro a rfl
      cases ht

/-! ## Scripts -/

/-- **All that the traversal can do.** A relation that is closed under the steps holds of every
statement of a script and its result, and behind the directives of the statements the script declares
what it needs. -/
lemma lowerScript_rel (hstep : ∀ b n n' c, n.WellFormed → Step R b n n' c → R b n n' c) {s : Script}
    (h : s.WellFormed) : ∃ sc body' c, Each (R false) s.body body' c ∧
      (lowerScript s).1.body = afterDirectives (Scope.captures sc) body' ∧ (lowerScript s).2 = c := by
  obtain ⟨own, body', cs, hE, -, hbody, -⟩ := lowerScript_scoped
    (R := fun x n n' _ c => R x.inParams n n' c)
    (fun _ _ _ _ _ hn hs => hstep _ _ _ _ hn (hs.step id hn)) h
  exact ⟨own, body', _, hE.each fun _ _ _ _ h => h, congrArg Script.body hbody, rfl⟩

/-! ## Shape -/

lemma is_captures (sc : Scope) : ∀ k ∈ sc.captures, k.Is .stmt := by
  intro k hk
  rw [Scope.captures_eq] at hk
  split at hk
  · cases hk
  · rw [mem_singleton.mp hk]
    refine is_var.mpr fun d hd => ?_
    obtain ⟨w, x, -, rfl⟩ := Scope.mem_declarators.mp hd
    refine is_declarator.mpr ⟨is_binding.ofRole rfl, ?_⟩
    cases w with
    | this => exact is_this
    | arguments => exact is_ident

lemma forall_afterDirectives {sc : Scope} {stmts : List Node} (h : ∀ k ∈ stmts, k.OfRole Role.isStatement) :
    ∀ k ∈ afterDirectives sc.captures stmts, k.OfRole Role.isStatement := by
  intro k hk
  rcases mem_afterDirectives.mp hk with hk | hk
  · exact (is_captures sc k hk).ofRole rfl
  · exact h k hk

lemma is_declareIn (h : body.Is .block) (sc : Scope) : (declareIn sc.captures body).Is .block := by
  obtain ⟨sb, stmts, rfl⟩ := eq_of_role h.2 rfl
  refine (is_mk rfl).mpr (forall_ofRole.mp (forall_afterDirectives ?_))
  exact forall_ofRole.mpr (wellFormed_mk.mp h.1)

/-- The body of an arrow as the body of a function. -/
def blockOf (body : Node) : Node :=
  match body.tag with
  | .block => body
  | _ => block [returnStmt body]

lemma toFunction_eq (s : Span) (a : Bool) (p body : Node) : toFunction s a p body =
    funcExpr (mk s (.func a false) [params p.kids, blockOf body]) := rfl

lemma is_blockOf (h : body.Is .expr ∨ body.Is .block) : (blockOf body).Is .block := by
  rcases h with h | h
  · have hne : body.tag ≠ .block := by
      intro ht
      have hrole := h.2
      rw [role, ht] at hrole
      cases hrole
    unfold blockOf
    split
    · exact absurd ‹_› hne
    · exact is_block.mpr (forall_mem_singleton.mpr ((is_returnStmt.mpr h).ofRole rfl))
  · obtain ⟨sb, stmts, rfl⟩ := eq_of_role h.2 rfl
    exact h

lemma is_toFunction {p : Node} (hp : p.Is .params) (hb : body.Is .expr ∨ body.Is .block) :
    (toFunction s a p body).Is .expr := by
  obtain ⟨sp, ps, rfl⟩ := eq_of_role hp.2 rfl
  have hps : (params ps).Is .params := ⟨hp.1.of_roles rfl fun k hk => hp.1.kid hk, rfl⟩
  exact is_funcExpr.mpr (is_of_roles (.cons hps (.cons (is_blockOf hb) .nil)) rfl rfl)

lemma is_asStatement {e : Node} (h : e.Is .expr) : (asStatement e).Is .expr := by
  unfold asStatement
  split
  · exact is_paren.mpr h
  · exact h

/-- Each step keeps nodes well-formed. -/
lemma step_is (b : Bool) (n n' : Node) (c : Nat) (h : n.WellFormed)
    (hs : Step (fun _ n n' _ => n'.Is n.role) b n n' c) : n'.Is n.role := by
  cases hs with
  | rebuilt hkids hparts =>
    have hks := hparts.forall₂ (P := fun k e => e.Is k.role) hkids (fun _ _ _ _ _ hk => hk)
      fun sc k e hk he => hk.2.symm ▸ is_declareIn (hk.2 ▸ he) sc
    obtain ⟨hroles, hw⟩ := roles_of_forall₂ (forall₂_map_right_iff.mpr hks.flip)
    exact ⟨h.of_roles hroles hw, rfl⟩
  | field | staticBlock => exact ⟨h, rfl⟩
  | lowered _ hp hb hp' hb' =>
    rcases hb with hb | hb
    · exact is_toFunction (hp.2 ▸ hp') (.inl (hb.2 ▸ hb'))
    · exact is_toFunction (hp.2 ▸ hp') (.inr (hb.2 ▸ hb'))
  | word hword =>
    rcases Tag.eq_of_contextWord hword with ⟨rfl, -⟩ | ⟨rfl | rfl, -⟩
    · exact is_ident
    · exact is_ident
    · exact is_keyValue.mpr ⟨⟨rfl, rfl⟩, is_ident⟩
  | statement he he' => exact is_of_roles (.cons (is_asStatement (he.2 ▸ he')) .nil) rfl rfl

/-- **Lowering keeps scripts well-formed.** -/
theorem lowerScript_wellFormed {s : Script} (h : s.WellFormed) : (lowerScript s).1.WellFormed := by
  obtain ⟨sc, body', c, hE, hbody, -⟩ := lowerScript_rel step_is h
  rw [Script.WellFormed, hbody]
  refine forall_afterDirectives (hE.forall_right fun k hk k' d hr => ?_)
  exact hr.ofRole (h k hk).2

/-! ## Captures -/

section Captures

variable {p : Node → Bool} [Foreign p]

lemma any_captures (sc : Scope) : sc.captures.any (·.any p) = false := by
  unfold Scope.captures
  cases sc.thisName <;> cases sc.argumentsName <;> simp

lemma any_declareIn (sc : Scope) (h : body.Is .block) : (declareIn sc.captures body).any p = body.any p := by
  obtain ⟨s, stmts, rfl⟩ := eq_of_role h.2 rfl
  rw [declareIn, Build.any_core rfl, Build.any_core rfl, any_afterDirectives, any_captures, Bool.false_or]

lemma any_blockOf (body : Node) : (blockOf body).any p = body.any p := by
  unfold blockOf
  split <;> simp

lemma any_toFunction (hf : ∀ s a g ks, p (mk s (.func a g) ks) = false) {ps : Node} (hps : ps.Is .params) :
    (toFunction s a ps body).any p = (ps.any p || body.any p) := by
  obtain ⟨sp, ks, rfl⟩ := eq_of_role hps.2 rfl
  rw [toFunction_eq, any_funcExpr, any_mk, hf, any_core (s := sp) rfl]
  simp only [List.any_cons, List.any_nil, kids_mk, Build.any_params, any_blockOf, Bool.or_false, Bool.false_or]

lemma any_asStatement (e : Node) : (asStatement e).any p = e.any p := by
  unfold asStatement
  split <;> simp

end Captures

lemma usesSuper_captures (sc : Scope) : usesSuper sc.captures = false := by
  have := any_captures (p := fun n => n.tag.isSuper) sc
  rw [any_eq_false] at this
  exact usesSuper_eq_false fun k hk => eq_false_of_ne_true (this k hk)

/-- Declarations use no `super`. -/
lemma usesSuper_declareIn (sc : Scope) (h : body.Is .block) :
    (declareIn sc.captures body).ownUse Tag.isSuper = body.ownUse Tag.isSuper := by
  obtain ⟨s, stmts, rfl⟩ := eq_of_role h.2 rfl
  rw [declareIn, ownUse_mk, ownUse_mk]
  simp only [Tag.sharing, Tag.isUse, any_afterDirectives]
  rw [show sc.captures.any (·.ownUse Tag.isSuper) = false from usesSuper_captures sc, Bool.false_or]

lemma alike_declareIn (sc : Scope) {body' : Node} (hb : body.Is .block) (h : Alike body body') :
    Alike body (declareIn sc.captures body') := by
  have hb' : body'.Is .block := hb.2 ▸ h.is
  refine alike_of_is (hb.2 ▸ is_declareIn hb' sc) ?_ ?_ ?_ ?_ ?_
  · rw [hb.2]
    rfl
  · simp [hb.2]
  · simp [hb.2]
  · simp [hb.2]
  · rw [usesSuper_declareIn sc hb', h.own (by rw [hb.2]; rfl)]

/-! ## Uses -/

/-- The words that an arrow with mark `b` is kept for. -/
def Stays (b : Bool) (q : Tag → Bool) : Prop := q = Tag.isSuper ∨ (b = true ∧ q = Tag.isContext)

lemma Stays.areWords (h : Stays b q) : Tag.AreWords q := by
  rcases h with h | ⟨-, h⟩
  · exact .inl h
  · exact .inr h

/-- An arrow that is lowered does not use the words it would be kept for. -/
lemma Stays.not_used (h : Stays b q) {parts : List Node} (hk : keeps b parts = false) :
    parts.any (·.ownUse q) = false := by
  rw [keeps, or_eq_false_iff] at hk
  obtain rfl | ⟨rfl, rfl⟩ := h
  · exact hk.1
  · exact hk.2

lemma ownUse_asStatement (hq : Tag.AreWords q) (e : Node) : (asStatement e).ownUse q = e.ownUse q := by
  unfold asStatement
  split
  · rw [Bool.eq_iff_iff]
    exact finds_paren (.ofWords hq)
  · rfl

/-- Each step keeps the uses of the words that arrows are kept for. -/
lemma own_step (b : Bool) (n n' : Node) (c : Nat) (h : n.WellFormed)
    (hstep : Step (fun b n n' _ => Stays b q → n.role.isClassPart = false → n'.ownUse q = n.ownUse q) b n n' c) :
    Stays b q → n.role.isClassPart = false → n'.ownUse q = n.ownUse q := by
  intro hq hr
  cases hstep with
  | @rebuilt _ s t ks ks' _ hkids hparts =>
    have hmark : isScope t = false → (mk s t ks').ownUse q = (mk s t ks).ownUse q := by
      intro ht
      have hks := hparts.forall₂_visited (P := fun x e => x.2.role.isClassPart = false →
        e.ownUse q = x.2.ownUse q) (fun x hx _ _ _ hk => hk (mark_of_mem_visited ht hx ▸ hq))
        fun hs => absurd hs (ne_true_of_eq_false ht)
      exact ownUse_congr (hkids ▸ forall₂_map_left_iff.mpr hks) h hr
    cases t with
    | func | getter | setter => rfl
    | ctor => cases hr
    | _ => exact hmark rfl
  | field | staticBlock => rfl
  | @lowered _ a s p p' body body' _ _ hk =>
    have harrow : q (.arrow a) = false := by obtain rfl | rfl := hq.areWords <;> rfl
    rw [toFunction_eq, funcExpr, ownUse_mk, ownUse_mk]
    simp only [Tag.sharing, Tag.isUse, hq.not_used hk, harrow, hq.areWords.nameless (t := .funcExpr none) rfl]
    rfl
  | word hword =>
    obtain rfl | ⟨hb, -⟩ := hq
    · rcases Tag.eq_of_contextWord hword with ⟨rfl, -⟩ | ⟨rfl | rfl, -⟩ <;> rfl
    · cases hb
  | statement _ he =>
    refine ownUse_congr (.cons (fun hp => ?_) .nil) h hr
    rw [ownUse_asStatement hq.areWords, he hq hp]

/-- What a node with mark `b` and its result have in common. -/
structure AlikeAt (b : Bool) (n n' : Node) : Prop extends Alike n n' where
  context : b = true → n.role.isClassPart = false → n'.ownUse Tag.isContext = n.ownUse Tag.isContext

/-- Each step keeps what the later passes keep. -/
lemma alike_step (b : Bool) (n n' : Node) (c : Nat) (h : n.WellFormed)
    (hstep : Step (fun b n n' _ => AlikeAt b n n') b n n' c) : AlikeAt b n n' := by
  have his : n'.Is n.role := step_is b n n' c h (hstep.mono fun _ _ _ _ h => h.is)
  have hsuper := own_step (q := Tag.isSuper) b n n' c h
    (hstep.mono fun _ _ _ _ h _ => h.own) (.inl rfl)
  have hcontext : b = true → n.role.isClassPart = false →
      n'.ownUse Tag.isContext = n.ownUse Tag.isContext := fun hb =>
    own_step (q := Tag.isContext) b n n' c h
      (hstep.mono fun b _ _ _ h hs => h.context (hs.resolve_left (by
        intro he
        have := congrFun he .this
        cases this)).1) (.inr ⟨hb, rfl⟩)
  refine ⟨?_, hcontext⟩
  cases hstep with
  | rebuilt hkids hparts =>
    exact alike_mk (hparts.forall₂ hkids (fun _ _ _ _ _ hk => hk.toAlike)
      fun sc _ _ hk he => alike_declareIn sc hk he) h
  | field | staticBlock => exact .refl h
  | lowered | statement => exact alike_of_is his rfl nofun nofun nofun (hsuper rfl)
  | word hword =>
    rcases Tag.eq_of_contextWord hword with ⟨rfl, -⟩ | ⟨rfl | rfl, -⟩ <;>
    exact alike_of_is his rfl nofun nofun nofun (hsuper rfl)

/-! ## Searches -/

/-- A way to compare what a search finds before and after: as equal, or as no more than before. -/
structure Compares (le : Bool → Bool → Prop) : Prop where
  refl : ∀ a, le a a
  or : ∀ {a a' b b'}, le a a' → le b b' → le (a || b) (a' || b')

lemma compares_eq : Compares Eq := ⟨fun _ => rfl, by rintro a _ b _ rfl rfl; rfl⟩

lemma compares_imp : Compares fun a a' => a = true → a' = true :=
  ⟨fun _ => id, by simp only [or_eq_true]; exact fun h h' => Or.imp h h'⟩

section Search

variable {p : Node → Bool} {le : Bool → Bool → Prop}

lemma Compares.any {ks' : List Node} (hle : Compares le)
    (hks : Forall₂ (fun k k' => le (k'.any p) (k.any p)) ks ks') :
    le (ks'.any (·.any p)) (ks.any (·.any p)) := by
  induction hks with
  | nil => exact hle.refl _
  | cons hk _ ih =>
    rw [any_cons, any_cons]
    exact hle.or hk ih

variable [Foreign p]

/-- **Each step leaves a search for other syntax alone.** The search may be for functions only where
no arrow is lowered. -/
lemma any_step (hle : Compares le) (hp : Respects p) (ha : ∀ s a ks, p (mk s (.arrow a) ks) = false)
    (ht : ∀ s ks, p (mk s .this ks) = false) (hs : ∀ s x, le false (p (mk s (.shorthand x) [])))
    (b : Bool) (n n' : Node) (c : Nat) (h : n.WellFormed)
    (hstep : Step (fun b n n' c => AlikeAt b n n' ∧
      ((∀ s a g ks, p (mk s (.func a g) ks) = false) ∨ c = 0 → le (n'.any p) (n.any p))) b n n' c) :
    AlikeAt b n n' ∧ ((∀ s a g ks, p (mk s (.func a g) ks) = false) ∨ c = 0 → le (n'.any p) (n.any p)) := by
  refine ⟨alike_step b n n' c h (hstep.mono fun _ _ _ _ h => h.1), fun hc => ?_⟩
  have hsum : ∀ {d : Nat}, d ≤ c → (∀ s a g ks, p (mk s (.func a g) ks) = false) ∨ d = 0 :=
    fun hd => hc.imp_right fun h0 => by omega
  have hnil : le (false || false) (false || false) := hle.refl _
  cases hstep with
  | @rebuilt _ s t ks ks' _ hkids hparts =>
    have hks := hparts.forall₂ (P := fun k e => Alike k e ∧ le (e.any p) (k.any p)) hkids
      (fun _ _ _ _ hd hk => ⟨hk.1.toAlike, hk.2 (hsum hd)⟩) fun sc k e hk he =>
        ⟨alike_declareIn sc hk he.1, by rw [any_declareIn sc (hk.2 ▸ he.1.is)]; exact he.2⟩
    rw [any_mk, any_mk, hp s t ks ks' h (hks.imp fun _ _ hk => hk.1)]
    exact hle.or (hle.refl _) (hle.any (hks.imp fun _ _ hk => hk.2))
  | field | staticBlock => exact hle.refl _
  | lowered _ hps _ hp' hb =>
    have hf := hc.resolve_right (Nat.succ_ne_zero _)
    rw [any_toFunction hf (hps.2 ▸ hp'.1.is), any_mk, ha]
    simp only [List.any_cons, List.any_nil, Bool.or_false, Bool.false_or]
    exact hle.or (hp'.2 (.inl hf)) (hb.2 (.inl hf))
  | word hword =>
    rcases Tag.eq_of_contextWord hword with ⟨rfl, -⟩ | ⟨rfl | rfl, -⟩
    · rw [any_mk, ht]
      simpa [Node.readFrom] using hnil
    · rw [any_core rfl, Node.readFrom]
      simpa using hnil
    · simpa [Node.readFrom, any_make (p := p) (t := .keyName "arguments") rfl] using hs _ _
  | statement _ he =>
    rw [any_core rfl, any_core rfl]
    simp only [any_cons, any_nil, any_asStatement]
    exact hle.or (he.2 hc) (hle.refl _)

/-- **A search for other syntax finds the same before and after**, or no more than before. -/
theorem any_lowerScript (hle : Compares le) (hp : Respects p)
    (ha : ∀ s a ks, p (mk s (.arrow a) ks) = false) (ht : ∀ s ks, p (mk s .this ks) = false)
    (hs : ∀ s x, le false (p (mk s (.shorthand x) []))) {s : Script} (h : s.WellFormed)
    (hc : (∀ s a g ks, p (mk s (.func a g) ks) = false) ∨ (lowerScript s).2 = 0) :
    le ((lowerScript s).1.body.any (·.any p)) (s.body.any (·.any p)) := by
  obtain ⟨sc, body', c, hE, hbody, hcount⟩ := lowerScript_rel (any_step hle hp ha ht hs) h
  rw [hbody, any_afterDirectives, any_captures, Bool.false_or]
  apply hle.any
  rcases hc with hf | h0
  · exact hE.forall₂ fun k _ k' d hk => hk.2 (.inl hf)
  · exact (hE.forall₂_of_count_eq_zero (hcount.symm.trans h0)).imp fun _ _ hk => hk.2 (.inr rfl)

end Search

end EcmaLower.Arrow
