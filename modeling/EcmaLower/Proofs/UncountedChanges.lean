import EcmaLower.Proofs.PassCounts
import EcmaLower.Proofs.Places

/-!
# Changes that are not counted

A text comes back as it is if the passes count nothing. Four of the passes then leave the tree as it is. The
lowering of arrows does not: an arrow that is kept for its `super` still has its `this` and `arguments` read from
variables, which the function around it declares. This module says exactly which scripts are changed without
anything being counted.

## Main results

* `Arrow.lower_eq_self` — a tree in which nothing is lowered or altered stays as it is.
* `Arrow.grown_step` — a tree in which something is altered grows, or the function around it does.
* `runPasses_eq_self_iff` — when passes that count nothing change nothing.
* `downlevel_unchanged_iff` — the same for a text, which comes back as it is.
-/

namespace EcmaLower

open Node List Bool

variable {s : Script} {ks ks' : List Node} {ps : List Pass} {g : StateM Walk Node} {t : Tag} {w : Walk}

namespace Arrow

/-! ## Alterations -/

/-- Whether a node is altered at a site, where the owner says whether it binds `arguments`: a word is read from a
variable, or a statement gets parentheses. -/
def altersAt (x : Site Bool) (t : Tag) (ks : List Node) : Bool :=
  match t.contextWord? with
  | some .this => x.redirects
  | some .arguments => x.redirects && x.owner
  | none => t == .exprStmt && ks.any startsLikeDeclaration

/-- Whether the traversal comes to the children of a node. -/
def isVisited : Tag → Bool
  | .field _ | .staticBlock => false
  | _ => true

/-- Whether something is altered in a tree at a site. -/
def alters (n : Node) : Site Bool → Bool := n.fold fun _ t ks x =>
  altersAt x t (ks.map (·.1)) || (isVisited t && ks.zipIdx.any fun y => y.1.2 (x.down true t y.2))

end Arrow

/-- Whether the lowering of arrows changes something in a script that it does not count. -/
def Script.alters (s : Script) : Bool := s.body.any (Arrow.alters · ⟨false, false, false⟩)

namespace Arrow

lemma alters_mk (s : Span) (t : Tag) (ks : List Node) (x : Site Bool) : alters (mk s t ks) x =
    (altersAt x t ks || (isVisited t && ks.zipIdx.any fun y => alters y.1 (x.down true t y.2))) := by
  rw [alters, fold_mk, zipIdx_map, any_map, map_map]
  simp only [Function.comp_def, map_id']
  rfl

section Kids

variable {s : Span} {x : Site Bool} {key p body e : Node}

lemma alters_func {a g : Bool} : alters (mk s (.func a g) [p, body]) x =
    (alters p ⟨true, false, true⟩ || alters body ⟨true, false, false⟩) := by
  rw [alters_mk]
  exact congrArg (alters p _ || ·) (or_false _)

lemma alters_method (ht : t = .ctor ∨ t = .setter) : alters (mk s t [key, p, body]) x =
    (alters key x || (alters p ⟨true, false, true⟩ || alters body ⟨true, false, false⟩)) := by
  rcases ht with rfl | rfl <;>
  · rw [alters_mk]
    exact congrArg (fun r => alters key x || (alters p _ || r)) (or_false _)

lemma alters_getter : alters (mk s .getter [key, body]) x = (alters key x || alters body ⟨true, false, false⟩) := by
  rw [alters_mk]
  exact congrArg (alters key x || ·) (or_false _)

lemma alters_arrow {a : Bool} : alters (mk s (.arrow a) [p, body]) x =
    (alters p { x with inArrow := true } || alters body { x with inArrow := true }) := by
  rw [alters_mk]
  exact congrArg (alters p _ || ·) (or_false _)

lemma alters_exprStmt : alters (mk s .exprStmt [e]) x = (startsLikeDeclaration e || alters e x) := by
  rw [alters_mk]
  exact congrArg₂ (· || ·) (or_false _) (or_false _)

lemma alters_ordinary (ht : isOrdinary t = true) (ks : List Node) :
    alters (mk s t ks) x = (altersAt x t ks || ks.any (alters · x)) := by
  have hvisited : isVisited t = true := by cases t <;> first | rfl | cases ht
  have hdown : ∀ i, x.down true t i = x := Site.down_of_ordinary (.inl ht)
  rw [alters_mk, hvisited, Bool.true_and]
  simp only [hdown]
  congr 1
  nth_rewrite 2 [← List.zipIdx_map_fst 0 ks]
  rw [List.any_map]
  rfl

end Kids

/-! ## Without alterations -/

/-- The site of the current node. -/
def Walk.here (w : Walk) : Site Bool := ⟨w.scope.hasArguments, w.depth > 0, w.inParams⟩

/-- The state at the start of the parameter list or the body of a function. -/
def Walk.inside (w : Walk) (inParams : Bool) : Walk :=
  { w with scopes := { hasArguments := true } :: w.scopes, depth := 0, inParams }

lemma declareIn_nil (body : Node) : declareIn [] body = body := by
  obtain ⟨s, t, stmts⟩ := body
  rw [declareIn, afterDirectives_nil]

/-- A scope in which nothing happens declares nothing. -/
lemma inScope_eq_self {f : StateM Walk Node} {p body : Node} (hf : f (w.inside true) = (p, w.inside true))
    (hg : g (w.inside false) = (body, w.inside false)) : inScope f g w = ((p, body), w) := by
  change (((f (w.inside true)).1, declareIn
      (leave ⟨w.depth, w.inParams⟩ (g { (f (w.inside true)).2 with inParams := false }).2).1
      (g { (f (w.inside true)).2 with inParams := false }).1),
    (leave ⟨w.depth, w.inParams⟩ (g { (f (w.inside true)).2 with inParams := false }).2).2) = _
  have hmark : { (f (w.inside true)).2 with inParams := false } = w.inside false := by
    rw [hf]
    rfl
  rw [hmark, hf, hg]
  exact congrArg (fun b => ((p, b), w)) (declareIn_nil body)

lemma inBareScope_eq_self {body : Node} (hg : g (w.inside false) = (body, w.inside false)) :
    inBareScope g w = (body, w) := by
  change (declareIn (leave ⟨w.depth, w.inParams⟩ (g (w.inside false)).2).1 (g (w.inside false)).1,
    (leave ⟨w.depth, w.inParams⟩ (g (w.inside false)).2).2) = _
  rw [hg]
  exact congrArg (fun b => (b, w)) (declareIn_nil body)

lemma mapM_eq_self {σ : Type} {f : Node → StateM σ Node} {w : σ} (h : ∀ k ∈ ks, f k w = (k, w)) :
    (ks.mapM f) w = (ks, w) := by
  induction ks with
  | nil => rfl
  | cons k ks ih =>
    obtain ⟨hk, hks⟩ := forall_mem_cons.mp h
    rw [mapM_cons]
    change (((f k w).1 :: ((ks.mapM f) (f k w).2).1), ((ks.mapM f) (f k w).2).2) = _
    rw [hk, ih hks]

/-- `arguments` stays where it is that of the place, or where the innermost scope has none. -/
lemma step_arguments_eq_self {s : Span} (ht : t = .shorthand "arguments" ∨ t = .ident "arguments")
    (h : (w.redirects && w.scope.hasArguments) = false) : step s t [] w = (mk s t [], w) := by
  rw [step_arguments ht]
  split
  next hr =>
    have hnone : lexicalArguments w = (none, w) := by
      rw [hr, Bool.true_and, Walk.scope] at h
      unfold lexicalArguments
      cases hs : w.scopes with
      | nil => rfl
      | cons sc outer =>
        rw [hs] at h
        exact if_neg (ne_true_of_eq_false h)
    rw [hnone]
    rfl
  next => rfl

/-- **A tree in which nothing is lowered or altered stays as it is**, and so does the state. -/
theorem lower_eq_self (n : Node) (h : n.WellFormed) (w : Walk) (hl : ¬Finds visited Lowers w.inParams n)
    (ha : alters n w.here = false) : lower n w = (n, w) := by
  induction n generalizing w with
  | mk s t ks ih =>
    have hkid : ∀ (w' : Walk) (k : Node), k ∈ ks → (w'.inParams, k) ∈ visited w.inParams (mk s t ks) →
        alters k w'.here = false → lower k w' = (k, w') := fun _ _ hk hv hak =>
      ih _ hk (h.kid hk) _ (fun hf => hl (finds_iff.mpr (.inr ⟨_, hv, hf⟩))) hak
    have hordinary : isOrdinary t = true → (ks.mapM lower) w = (ks, w) := by
      intro ht
      rw [alters_ordinary ht, or_eq_false_iff, any_eq_false] at ha
      refine mapM_eq_self fun k hk => hkid w k hk ?_ (eq_false_of_ne_true (ha.2 k hk))
      rw [visited_ordinary ht]
      exact mem_map_of_mem hk
    have hlist : isOrdinary t = true → step s t (ks.map fun k => (k, lower k)) =
        ((ks.map fun k => (k, lower k)).mapM (·.2) >>= fun ks' => pure (mk s t ks')) →
        step s t (ks.map fun k => (k, lower k)) w = (mk s t ks, w) := by
      intro ht hs
      rw [hs, mapM_snd]
      change (mk s t ((ks.mapM lower) w).1, ((ks.mapM lower) w).2) = _
      rw [hordinary ht]
    have hmethod : t = .ctor ∨ t = .setter → ∀ {key p body : Node}, ks = [key, p, body] →
        step s t (ks.map fun k => (k, lower k)) w = (mk s t ks, w) := by
      rintro ht key p body rfl
      rw [alters_method ht, or_eq_false_iff, or_eq_false_iff] at ha
      rcases ht with rfl | rfl <;>
      · have hk := hkid w key (by simp) (by simp [visited]) ha.1
        have hp := hkid (w.inside true) p (by simp) (by simp [visited, Walk.inside]) ha.2.1
        have hb := hkid (w.inside false) body (by simp) (by simp [visited, Walk.inside]) ha.2.2
        change (mk s _ [(lower key w).1, (inScope (lower p) (lower body) (lower key w).2).1.1,
          (inScope (lower p) (lower body) (lower key w).2).1.2],
          (inScope (lower p) (lower body) (lower key w).2).2) = _
        rw [hk, inScope_eq_self hp hb]
    rw [lower_mk]
    cases t with
    | func a g =>
      obtain ⟨p, body, rfl, -, -⟩ := h.func
      rw [alters_func, or_eq_false_iff] at ha
      have hp := hkid (w.inside true) p (by simp) (by simp [visited, Walk.inside]) ha.1
      have hb := hkid (w.inside false) body (by simp) (by simp [visited, Walk.inside]) ha.2
      change (mk s (.func a g) [(inScope (lower p) (lower body) w).1.1, (inScope (lower p) (lower body) w).1.2],
        (inScope (lower p) (lower body) w).2) = _
      rw [inScope_eq_self hp hb]
    | ctor =>
      obtain ⟨key, p, body, hks, -⟩ := h.ctor
      exact hmethod (.inl rfl) hks
    | getter =>
      obtain ⟨key, body, rfl, -, -⟩ := h.getter
      rw [alters_getter, or_eq_false_iff] at ha
      have hk := hkid w key (by simp) (by simp [visited]) ha.1
      have hb := hkid (w.inside false) body (by simp) (by simp [visited, Walk.inside]) ha.2
      change (mk s .getter [(lower key w).1, (inBareScope (lower body) (lower key w).2).1],
        (inBareScope (lower body) (lower key w).2).2) = _
      rw [hk, inBareScope_eq_self hb]
    | setter =>
      obtain ⟨key, p, body, hks, -⟩ := h.setter
      exact hmethod (.inr rfl) hks
    | field | staticBlock =>
      change (mk s _ ((ks.map fun k => (k, lower k)).map (·.1)), w) = _
      rw [map_map, show ((·.1) ∘ fun k => (k, lower k)) = id from rfl, map_id]
    | arrow a =>
      obtain ⟨p, body, rfl, -, -⟩ := h.arrow
      have hkeep : keeps w.inParams [p, body] = true := by
        by_contra hk
        exact hl (finds_iff.mpr (.inl ⟨⟨a, rfl⟩, eq_false_of_ne_true hk⟩))
      let w₁ : Walk := { w with depth := w.depth + 1 }
      have hhere : w₁.here = { w.here with inArrow := true } := by simp [Walk.here, w₁, Walk.scope]
      rw [alters_arrow, or_eq_false_iff, ← hhere] at ha
      have hp := hkid w₁ p (by simp) (by simp [visited, w₁]) ha.1
      have hb := hkid w₁ body (by simp) (by simp [visited, w₁]) ha.2
      change (if keeps w.inParams [p, body] then
          pure (mk s (.arrow a) [(lower p w₁).1, (lower body (lower p w₁).2).1])
        else (modify fun w => { w with lowered := w.lowered + 1 }) >>= fun _ =>
          pure (toFunction s a (lower p w₁).1 (lower body (lower p w₁).2).1) : StateM Walk Node)
            { (lower body (lower p w₁).2).2 with depth := (lower body (lower p w₁).2).2.depth - 1 } = _
      rw [if_pos hkeep, hp, hb]
      rfl
    | this =>
      obtain rfl : ks = [] := h.leaf rfl
      have hr : w.redirects = false := (or_eq_false_iff.mp (alters_mk s .this [] _ ▸ ha)).1
      change (if w.redirects then lexicalThis else pure (mk s .this [])) w = _
      rw [hr]
      rfl
    | shorthand x | ident x =>
      obtain rfl : ks = [] := h.leaf rfl
      by_cases hx : x = "arguments"
      · subst hx
        exact step_arguments_eq_self (by simp) (or_eq_false_iff.mp (alters_mk s _ [] _ ▸ ha)).1
      · refine hlist rfl ?_
        unfold step
        split <;> simp_all
    | exprStmt =>
      obtain ⟨e, rfl, -⟩ := h.single rfl
      rw [alters_exprStmt, or_eq_false_iff] at ha
      have he := hkid w e (by simp) (by simp [visited]) ha.2
      change (mk s .exprStmt [asStatement (lower e w).1], (lower e w).2) = _
      rw [he, asStatement, ha.1]
      rfl
    | _ => exact hlist rfl rfl

/-- A script in which nothing is lowered or altered stays as it is. -/
lemma lowerScript_eq_self (h : s.WellFormed) (hc : (lowerScript s).2 = 0) (ha : s.alters = false) :
    (lowerScript s).1 = s := by
  let w : Walk := { names := .ofScript s, scopes := [{ hasArguments := false }] }
  have hbody : (s.body.mapM lower) w = (s.body, w) := by
    refine mapM_eq_self fun n hn => lower_eq_self n (h n hn).1 w ?_ ?_
    · exact (lowerScript_count_eq_zero_iff h).mp hc n hn
    · exact eq_false_of_ne_true (any_eq_false.mp ha n hn)
  change { s with body := afterDirectives (leave ⟨0, false⟩ ((s.body.mapM lower) w).2).1 ((s.body.mapM lower) w).1 } = s
  rw [hbody]
  exact congrArg (fun body => { s with body }) (afterDirectives_nil s.body)

/-! ## With alterations -/

/-- What becomes of a node at a site if no arrow is lowered in it: it does not shrink, and where something is
altered it grows, or the owner of the site declares a variable. -/
structure Grown (x : Site Scope) (n n' : Node) : Prop where
  size_le : n.size ≤ n'.size
  like : startsLikeDeclaration n' = startsLikeDeclaration n
  grows : alters n (x.map Scope.hasArguments) = true → n.size < n'.size ∨ x.owner.captures ≠ []

lemma size_pos (n : Node) : 0 < n.size := by
  obtain ⟨s, t, ks⟩ := n
  rw [size_mk]
  omega

lemma total_size_pos (h : ks ≠ []) : 0 < total size ks := by
  obtain ⟨k, ks, rfl⟩ := exists_cons_of_ne_nil h
  have := size_pos k
  rw [total]
  omega

lemma size_declareIn (decls : List Node) (body : Node) :
    (declareIn decls body).size = total size decls + body.size := by
  obtain ⟨s, t, stmts⟩ := body
  rw [declareIn, size_mk, size_mk, total_afterDirectives]
  omega

lemma size_asStatement (e : Node) : (asStatement e).size = e.size + (startsLikeDeclaration e).toNat := by
  unfold asStatement
  split
  · rename_i h
    rw [h, Build.paren, Build.make, size_mk, total, total]
    simp only [toNat_true]
    omega
  · rename_i h
    rw [eq_false_of_ne_true h]
    rfl

/-- A scope that holds a word in a variable declares it. -/
lemma Scope.captures_ne_nil {sc : Scope} {w : ContextWord} {y : String} (h : sc.name w = some y) :
    sc.captures ≠ [] := by
  have hmem := mem_declarators.mpr ⟨w, y, h, rfl⟩
  rw [captures_eq, if_neg fun hempty => ne_nil_of_mem hmem (isEmpty_iff.mp hempty)]
  exact cons_ne_nil _ _

/-- What starts like a declaration is told by the first operand. -/
lemma startsLikeDeclaration_congr {s : Span}
    (hks : Forall₂ (fun k k' => startsLikeDeclaration k' = startsLikeDeclaration k) ks ks') :
    startsLikeDeclaration (mk s t ks') = startsLikeDeclaration (mk s t ks) := by
  rw [startsLikeDeclaration, startsLikeDeclaration, fold_mk, fold_mk]
  cases t with
  | seq | binary | cond | member | call | tagged =>
    cases hks with
    | nil => rfl
    | cons hk _ => exact hk
  | _ => rfl

section Kids

variable {x : Site Scope} {ks ks' : List Node} (hks : Forall₂ (Grown x) ks ks')

include hks

lemma total_size_le : total size ks ≤ total size ks' := by
  induction hks with
  | nil => exact Nat.le_refl _
  | cons hk _ ih =>
    have := hk.size_le
    rw [total, total]
    omega

lemma total_size_lt (h : ks.any (alters · (x.map Scope.hasArguments)) = true) :
    total size ks < total size ks' ∨ x.owner.captures ≠ [] := by
  induction hks with
  | nil => cases h
  | @cons k k' ks ks' hk hks ih =>
    have hle := hk.size_le
    have hles := total_size_le hks
    rw [any_cons, or_eq_true] at h
    rw [total, total]
    rcases h with h | h
    · exact (hk.grows h).imp_left fun hlt => by omega
    · exact (ih h).imp_left fun hlt => by omega

end Kids

section Owner

variable {x : Site Scope} {own : Scope} (ho : own.hasArguments = true)

include ho

/-- What is altered inside a function makes it grow, if only by a declaration. -/
lemma total_size_lt_inside {b : Bool} (hks : Forall₂ (Grown ⟨own, false, b⟩) ks ks')
    (ha : ks.any (alters · ⟨true, false, b⟩) = true) :
    total size ks < total size ks' ∨ 0 < total size own.captures := by
  refine (total_size_lt hks ?_).imp_right total_size_pos
  rw [Site.map, ho]
  exact ha

/-- A function, a constructor or an accessor grows if something is altered in it, unless that is in its key, which
belongs to the function around it. -/
lemma grown_owner {s : Span} (keys params : List Node) {keys' params' : List Node} {body body' : Node}
    (ht : t.isOwner = true) (hkeys : Forall₂ (Grown x) keys keys')
    (hparams : Forall₂ (Grown ⟨own, false, true⟩) params params') (hbody : Grown ⟨own, false, false⟩ body body')
    (halters : alters (mk s t (keys ++ (params ++ [body]))) (x.map Scope.hasArguments) = (keys.any (alters · (x.map Scope.hasArguments)) || (params.any (alters · ⟨true, false, true⟩) || alters body ⟨true, false, false⟩))) :
    Grown x (mk s t (keys ++ (params ++ [body])))
      (mk s t (keys' ++ (params' ++ [declareIn own.captures body']))) := by
  have hkeysLe := total_size_le hkeys
  have hparamsLe := total_size_le hparams
  have hbodyLe := hbody.size_le
  refine ⟨?_, ?_, fun ha => ?_⟩
  · simp only [size_mk, total_append, total, size_declareIn]
    omega
  · rw [startsLikeDeclaration, startsLikeDeclaration, fold_mk, fold_mk]
    cases t <;> first | rfl | cases ht
  · rw [halters, or_eq_true, or_eq_true] at ha
    simp only [size_mk, total_append, total, size_declareIn]
    rcases ha with ha | ha | ha
    · exact (total_size_lt hkeys ha).imp_left fun hlt => by omega
    · have := total_size_lt_inside ho hparams ha
      exact .inl (by omega)
    · have hlt : body.size < body'.size ∨ 0 < total size own.captures := by
        simpa [total] using total_size_lt_inside ho (.cons hbody .nil) (by simpa using ha)
      exact .inl (by omega)

end Owner

/-- **A tree in which something is altered grows**, or the function around it does. -/
theorem grown_step (x : Site Scope) (n n' : Node) (cs : List String) (c : Nat)
    (hstep : ScopedStep (fun x n n' _ c => c = 0 → Grown x n n') x n n' cs c) : c = 0 → Grown x n n' := by
  intro hc
  cases hstep with
  | func own ho hp hb =>
    obtain ⟨rfl, rfl⟩ := Nat.add_eq_zero_iff.mp hc
    refine grown_owner ho [] [_] rfl .nil (.cons (hp rfl) .nil) (hb rfl) ?_
    simpa using alters_func
  | ctor own ho hk hp hb =>
    simp only [Nat.add_eq_zero_iff] at hc
    refine grown_owner ho [_] [_] rfl (.cons (hk hc.1) .nil) (.cons (hp hc.2.1) .nil)
      (hb hc.2.2) ?_
    simpa using alters_method (.inl rfl)
  | getter own ho hk hb =>
    simp only [Nat.add_eq_zero_iff] at hc
    refine grown_owner ho [_] [] rfl (.cons (hk hc.1) .nil) .nil (hb hc.2) ?_
    simpa using alters_getter
  | setter own ho hk hp hb =>
    simp only [Nat.add_eq_zero_iff] at hc
    refine grown_owner ho [_] [_] rfl (.cons (hk hc.1) .nil) (.cons (hp hc.2.1) .nil)
      (hb hc.2.2) ?_
    simpa using alters_method (.inr rfl)
  | field | staticBlock =>
    refine ⟨Nat.le_refl _, rfl, fun ha => ?_⟩
    rw [alters_mk] at ha
    cases ha
  | @kept a s p p' body body' _ _ _ _ _ hp hb =>
    obtain ⟨rfl, rfl⟩ := Nat.add_eq_zero_iff.mp hc
    have hp := hp rfl
    have hb := hb rfl
    have hks : List.Forall₂ (Grown { x with inArrow := true }) [p, body] [p', body'] := .cons hp (.cons hb .nil)
    refine ⟨?_, startsLikeDeclaration_congr (hks.imp fun _ _ hk => hk.like), fun ha => ?_⟩
    · have := total_size_le hks
      rw [size_mk, size_mk]
      omega
    · rw [alters_arrow] at ha
      rw [size_mk, size_mk]
      refine (total_size_lt hks ?_).imp_left fun hlt => by omega
      rw [List.any_cons, List.any_cons, List.any_nil, Bool.or_false]
      exact ha
  | lowered => cases hc
  | @word s t w y hword _ _ hname =>
    refine ⟨?_, ?_, fun _ => .inr (Scope.captures_ne_nil hname)⟩
    · have := size_pos ((mk s t []).readFrom y)
      rw [size_mk, total]
      omega
    · rcases Tag.eq_of_contextWord hword with ⟨rfl, -⟩ | ⟨rfl | rfl, -⟩ <;> rfl
  | exprStmt he =>
    have he := he hc
    have hle := he.size_le
    refine ⟨?_, ?_, fun ha => ?_⟩
    · simp only [size_mk, total, size_asStatement]
      omega
    · rw [startsLikeDeclaration, startsLikeDeclaration, fold_mk, fold_mk]
    · rw [alters_exprStmt, Bool.or_eq_true] at ha
      simp only [size_mk, total, size_asStatement, he.like]
      rcases ha with ha | ha
      · rw [ha, Bool.toNat_true]
        exact .inl (by omega)
      · exact (he.grows ha).imp_left fun hlt => by omega
  | @ordinary s t ks ks' _ _ ht hword hE =>
    have hks : List.Forall₂ (Grown x) ks ks' :=
      ((hE.each (S := fun k k' c => c = 0 → Grown x k k') fun _ _ _ _ h => h).forall₂_of_count_eq_zero hc).imp
        fun _ _ hk => hk rfl
    refine ⟨?_, startsLikeDeclaration_congr (hks.imp fun _ _ hk => hk.like), fun ha => ?_⟩
    · have := total_size_le hks
      rw [size_mk, size_mk]
      omega
    · have hself : altersAt (x.map Scope.hasArguments) t ks = false := by
        unfold altersAt
        split
        · exact (Bool.and_true _).symm.trans (hword .this ‹_›)
        · exact hword .arguments ‹_›
        · cases t <;> first | rfl | cases ht
      rw [alters_ordinary ht, hself, Bool.false_or] at ha
      rw [size_mk, size_mk]
      exact (total_size_lt hks ha).imp_left fun hlt => by omega

/-- A script in which no arrow is lowered does not shrink, and it grows if something is altered. -/
lemma lowerScript_grows (h : s.WellFormed) (hc : (lowerScript s).2 = 0) :
    s.size ≤ (lowerScript s).1.size ∧ (s.alters = true → s.size < (lowerScript s).1.size) := by
  obtain ⟨own, body', cs, hE, hargs, hout, -⟩ :=
    lowerScript_scoped (fun x n n' cs c _ hstep => grown_step x n n' cs c hstep) h
  have hks : Forall₂ (Grown ⟨own, false, false⟩) s.body body' :=
    ((hE.each (S := fun k k' c => c = 0 → Grown ⟨own, false, false⟩ k k')
      fun _ _ _ _ h => h).forall₂_of_count_eq_zero hc).imp fun _ _ hk => hk rfl
  have hsize : (lowerScript s).1.size = total size own.captures + total size body' := by
    rw [hout, Script.size, total_afterDirectives]
  have hle := total_size_le hks
  rw [hsize, Script.size]
  refine ⟨by omega, fun ha => ?_⟩
  have hlt : total size s.body < total size body' ∨ own.captures ≠ [] := by
    refine total_size_lt hks ?_
    rw [Site.map, hargs]
    exact ha
  have := hlt.imp_right total_size_pos
  omega

end Arrow

/-! ## The passes -/

namespace Pass

lemma run_wellFormed (h : s.WellFormed) (pass : Pass) : (pass.run s).1.WellFormed := by
  cases pass with
  | classes => exact Class.lowerScript_wellFormed h
  | arrowFunctions => exact Arrow.lowerScript_wellFormed h
  | objectShorthand => exact s.applyRule_wellFormed Shorthand.keepsShape h
  | restParameters => exact s.applyRule_wellFormed Rest.keepsShape h
  | templateLiterals => exact s.applyRule_wellFormed Template.keepsShape h

/-- A pass that counts nothing changes nothing, but for what the lowering of arrows alters. -/
lemma run_eq_self (h : s.WellFormed) {pass : Pass} (hc : (pass.run s).2 = 0)
    (ha : pass = arrowFunctions → s.alters = false) : (pass.run s).1 = s := by
  cases pass with
  | classes => exact (Class.lowerScript_count_eq_zero_iff h).2 hc
  | arrowFunctions => exact Arrow.lowerScript_eq_self h hc (ha rfl)
  | objectShorthand | restParameters | templateLiterals => exact Script.applyRule_eq_self hc

/-- A script for which a pass counts nothing does not shrink. -/
lemma size_le_run (h : s.WellFormed) {pass : Pass} (hc : (pass.run s).2 = 0) : s.size ≤ (pass.run s).1.size := by
  by_cases hp : pass = arrowFunctions
  · subst hp
    exact (Arrow.lowerScript_grows h hc).1
  · exact Nat.le_of_eq (congrArg Script.size (run_eq_self h hc fun he => absurd he hp).symm)

end Pass

lemma runPasses_cons (p : Pass) (ps : List Pass) (s : Script) : runPasses (p :: ps) s =
    ((runPasses ps (p.run s).1).1, (p.run s).2 + (runPasses ps (p.run s).1).2) := rfl

/-- A script for which passes count nothing does not shrink. -/
lemma size_le_runPasses (h : s.WellFormed) (hc : (runPasses ps s).2 = 0) : s.size ≤ (runPasses ps s).1.size := by
  induction ps generalizing s with
  | nil => exact Nat.le_refl _
  | cons p ps ih =>
    rw [runPasses_cons] at hc ⊢
    obtain ⟨hp, hps⟩ := Nat.add_eq_zero_iff.mp hc
    exact Nat.le_trans (p.size_le_run h hp) (ih (p.run_wellFormed h) hps)

/-- Passes that count nothing change nothing unless arrows are lowered and something is altered. What has been
altered stays so, since no pass that counts nothing makes a script smaller. -/
lemma runPasses_eq_self_iff (h : s.WellFormed) (hc : (runPasses ps s).2 = 0) :
    (runPasses ps s).1 = s ↔ (.arrowFunctions ∈ ps → s.alters = false) := by
  induction ps with
  | nil => exact iff_of_true rfl fun hmem => absurd hmem not_mem_nil
  | cons p ps ih =>
    rw [runPasses_cons] at hc ⊢
    obtain ⟨hp, hps⟩ := Nat.add_eq_zero_iff.mp hc
    by_cases ha : p = .arrowFunctions → s.alters = false
    · rw [p.run_eq_self h hp ha] at hps ⊢
      rw [ih hps, mem_cons]
      exact ⟨fun htail hmem => hmem.elim (fun he => ha he.symm) htail, fun hall hmem => hall (.inr hmem)⟩
    · rw [Classical.not_imp, not_eq_false] at ha
      obtain ⟨rfl, halters⟩ := ha
      -- The first lowering of arrows makes the script larger, and so it remains.
      have hgrows := (Arrow.lowerScript_grows h hp).2 halters
      have hle := size_le_runPasses (Pass.run_wellFormed h .arrowFunctions) hps
      refine iff_of_false (fun he => ?_) fun hall => ?_
      · rw [he] at hle
        exact absurd (Nat.lt_of_lt_of_le hgrows hle) (Nat.lt_irrefl _)
      · rw [hall mem_cons_self] at halters
        cases halters

/-- **A text in which nothing is counted comes back as it is, but its tree need not.** Passes in any order leave
the tree of such a text as it is exactly if arrows are not lowered or nothing is altered by it: a kept arrow with
`this` or `arguments` in it, not in a parameter list, is changed although it is not counted.

**Proof sketch.** Without alterations the traversal for arrows returns its tree and its state
(`Arrow.lower_eq_self`), and with one the tree grows (`Arrow.grown_step`). The other passes return the tree
itself, so passes that count nothing never make a tree smaller again. -/
theorem downlevel_unchanged_iff {text : String} {p : Parsed Node} (hp : parseScript text = .ok p)
    {ps : List Pass} (hc : (runPasses ps p.script).2 = 0) :
    downlevel ps text = .ok text ∧
      ((runPasses ps p.script).1 = p.script ↔ (.arrowFunctions ∈ ps → p.script.alters = false)) := by
  refine ⟨?_, runPasses_eq_self_iff (wellFormed_of_parseScript hp) hc⟩
  rw [downlevel_of_parseScript ps hp, if_pos hc]

/-- Two kept arrows: one that reads `this`, in a parameter list, and one that does not, in a body. -/
theorem downlevel_unchanged_iff_parameters : ∃ p,
    parseScript "var o = \x7b m(f = () => super.m(this)) \x7b return () => super.x; \x7d \x7d;" = .ok p ∧
    (runPasses [.arrowFunctions, .templateLiterals, .arrowFunctions] p.script).2 = 0 ∧
    (runPasses [.arrowFunctions, .templateLiterals, .arrowFunctions] p.script).1 = p.script := by
  obtain ⟨p, hp, hP⟩ := exists_of_any_toOption (e := parseScript
      "var o = \x7b m(f = () => super.m(this)) \x7b return () => super.x; \x7d \x7d;")
    (P := fun p => (runPasses [.arrowFunctions, .templateLiterals, .arrowFunctions] p.script).2 == 0 &&
      !p.script.alters) (by decide +kernel)
  simp only [and_eq_true, beq_iff_eq, not_eq_true'] at hP
  exact ⟨p, hp, hP.1, (downlevel_unchanged_iff hp hP.1).2.mpr fun _ => hP.2⟩

/-- A kept arrow that reads `this` in the body of a method: nothing is counted and the text comes back, but the
tree has a declaration more, and the text of the tree is another one. -/
theorem downlevel_altered_unprinted : ∃ p,
    parseScript "var o = \x7b m() \x7b return () => super.m(this); \x7d \x7d;" = .ok p ∧
    (runPasses [.arrowFunctions] p.script).2 = 0 ∧
    (runPasses [.arrowFunctions] p.script).1 ≠ p.script ∧
    downlevel [.arrowFunctions] "var o = \x7b m() \x7b return () => super.m(this); \x7d \x7d;" =
      .ok "var o = \x7b m() \x7b return () => super.m(this); \x7d \x7d;" ∧
    (runPasses [.arrowFunctions] p.script).1.print .es5 p.comments ≠ p.script.print .es5 p.comments := by
  obtain ⟨p, hp, hP⟩ := exists_of_any_toOption (e := parseScript
      "var o = \x7b m() \x7b return () => super.m(this); \x7d \x7d;")
    (P := fun p => (runPasses [.arrowFunctions] p.script).2 == 0 &&
      (runPasses [.arrowFunctions] p.script).1.print .es5 p.comments != p.script.print .es5 p.comments)
    (by decide +kernel)
  simp only [and_eq_true, beq_iff_eq, bne_iff_ne] at hP
  obtain ⟨hc, hprint⟩ := hP
  refine ⟨p, hp, hc, fun he => hprint (by rw [he]), ?_, hprint⟩
  rw [downlevel_of_parseScript _ hp, if_pos hc]

end EcmaLower
