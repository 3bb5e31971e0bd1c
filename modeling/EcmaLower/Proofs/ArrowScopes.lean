import EcmaLower.Lower.Arrow
import EcmaLower.Proofs.Names
import EcmaLower.Proofs.Traversal
import EcmaLower.Proofs.WellFormed

/-!
# Scopes in the lowering of arrows

While arrows are lowered, a stack of scopes says what `this` and `arguments` mean, and a scope gets a
name for each of them when an arrow first needs it. The nodes that come before such an arrow are done
by then, so what becomes of a node depends on names that may be drawn later.

This module takes the state out of the traversal. It states what can become of a node as a relation
over the scope that the node stands in, with the names that this scope has in the end. Beside it stand
the names that the scopes inside the node declare: all of them were free, and no two are the same.
-/

namespace EcmaLower

open Build

variable {t : Tag} {w : Walk} {sc : Scope}

/-! ## Words and sites -/

/-- The words whose meaning an arrow takes from the function around it. -/
inductive ContextWord
  | this | arguments
deriving DecidableEq, Repr

/-- The word that a node is. -/
def Tag.contextWord? : Tag → Option ContextWord
  | .this => some .this
  | .ident n | .shorthand n => if n = "arguments" then some .arguments else none
  | _ => none

lemma Tag.eq_of_contextWord {w : ContextWord} (h : t.contextWord? = some w) :
    t = .this ∧ w = .this ∨ (t = .ident "arguments" ∨ t = .shorthand "arguments") ∧ w = .arguments := by
  cases t <;> simp_all [contextWord?]

/-- The expression for a word. -/
def ContextWord.node : ContextWord → Node
  | this => Build.this
  | arguments => Build.ident "arguments"

/-- What stands for a word that is read from a variable. -/
def Node.readFrom (x : String) (n : Node) : Node :=
  match n.tag with
  | .shorthand k => keyValue (make (.keyName k) []) (ident x)
  | _ => ident x

/-- Where a node stands: in which function or accessor, or in the script, whether in an arrow of it,
and whether in its parameter list. -/
structure Site (α : Type) where
  owner : α
  inArrow : Bool
  inParams : Bool
deriving DecidableEq, Repr

namespace Site

variable {α : Type}

/-- Whether the words at a site are read from variables. -/
def redirects (x : Site α) : Bool := x.inArrow && !x.inParams

/-- The site of a child of a node, by its tag and the number of the child; `own` is the node as an
owner. The keys of accessors and of constructors stand where the node stands. -/
def down (x : Site α) (own : α) : Tag → Nat → Site α
  | .func .., 0 | .ctor, 1 | .setter, 1 => ⟨own, false, true⟩
  | .func .., _ | .ctor, 2 | .setter, 2 | .getter, 1 => ⟨own, false, false⟩
  | .arrow _, _ => { x with inArrow := true }
  | _, _ => x

end Site

namespace Arrow

open Node

/-! ## Scopes -/

namespace Scope

/-- Whether a scope gives a word its meaning. -/
def binds (sc : Scope) : ContextWord → Bool
  | .this => true
  | .arguments => sc.hasArguments

/-- The variable that holds a word. -/
def name (sc : Scope) : ContextWord → Option String
  | .this => sc.thisName
  | .arguments => sc.argumentsName

/-- The variables of a scope. -/
def names (sc : Scope) : List String := sc.thisName.toList ++ sc.argumentsName.toList

lemma mem_names {w : ContextWord} {x : String} (h : sc.name w = some x) : x ∈ sc.names := by
  cases w with
  | this => exact List.mem_append_left _ (Option.mem_toList.mpr h)
  | arguments => exact List.mem_append_right _ (Option.mem_toList.mpr h)

/-- The declarations of the variables. -/
def declarators (sc : Scope) : List Node :=
  (sc.thisName.map fun n => declarator (binding n) (some this)).toList ++
  (sc.argumentsName.map fun n =>
    declarator (binding n) (some (ident "arguments"))).toList

lemma captures_eq (sc : Scope) : sc.captures = if sc.declarators.isEmpty then [] else [var sc.declarators] := rfl

lemma mem_declarators {d : Node} : d ∈ sc.declarators ↔
    ∃ w x, sc.name w = some x ∧ d = Build.declarator (Build.binding x) (some w.node) := by
  simp only [declarators, List.mem_append, Option.mem_toList, Option.map_eq_some_iff]
  constructor
  · rintro (⟨x, hx, rfl⟩ | ⟨x, hx, rfl⟩)
    · exact ⟨.this, x, hx, rfl⟩
    · exact ⟨.arguments, x, hx, rfl⟩
  · rintro ⟨w, x, hx, rfl⟩
    cases w with
    | this => exact .inl ⟨x, hx, rfl⟩
    | arguments => exact .inr ⟨x, hx, rfl⟩

/-- The second scope is the first one at a later time. -/
structure Grows (sc sc' : Scope) : Prop where
  hasArguments : sc'.hasArguments = sc.hasArguments
  name {w : ContextWord} {x : String} : sc.name w = some x → sc'.name w = some x

lemma Grows.refl (sc : Scope) : sc.Grows sc := ⟨rfl, id⟩

lemma Grows.trans {a b c : Scope} (h : a.Grows b) (h' : b.Grows c) : a.Grows c :=
  ⟨h'.hasArguments.trans h.hasArguments, fun hx => h'.name (h.name hx)⟩

end Scope

/-! ## Steps -/

/-- Whether an arrow, given by its parts, stays an arrow; `b` says whether it stands in a parameter
list. -/
def keeps (b : Bool) (parts : List Node) : Bool := usesSuper parts || (b && usesContext parts)

/-- Whether the children of a tag are visited in order, and nothing else happens to them. -/
def isOrdinary : Tag → Bool
  | .func .. | .ctor | .getter | .setter | .field _ | .staticBlock | .arrow _ | .exprStmt => false
  | _ => true

/-- What can become of a node at a site. The list holds the names that the scopes inside the node
declare, and the number is that of the arrows lowered in it. -/
inductive ScopedStep (R : Site Scope → Node → Node → List String → Nat → Prop) :
    Site Scope → Node → Node → List String → Nat → Prop
  | func {x : Site Scope} {a g : Bool} {s : Span} {p p' body body' : Node} {cs ds : List String}
    {c d : Nat} (own : Scope) : own.hasArguments = true → R ⟨own, false, true⟩ p p' cs c →
    R ⟨own, false, false⟩ body body' ds d → ScopedStep R x (mk s (.func a g) [p, body])
      (mk s (.func a g) [p', declareIn own.captures body']) (own.names ++ (cs ++ ds)) (c + d)
  | ctor {x : Site Scope} {s : Span} {key key' p p' body body' : Node} {ks cs ds : List String}
    {c d e : Nat} (own : Scope) : own.hasArguments = true → R x key key' ks c →
    R ⟨own, false, true⟩ p p' cs d → R ⟨own, false, false⟩ body body' ds e →
    ScopedStep R x (mk s .ctor [key, p, body]) (mk s .ctor [key', p', declareIn own.captures body'])
      (own.names ++ (ks ++ (cs ++ ds))) (c + (d + e))
  | getter {x : Site Scope} {s : Span} {key key' body body' : Node} {ks ds : List String}
    {c d : Nat} (own : Scope) : own.hasArguments = true → R x key key' ks c →
    R ⟨own, false, false⟩ body body' ds d → ScopedStep R x (mk s .getter [key, body])
      (mk s .getter [key', declareIn own.captures body']) (own.names ++ (ks ++ ds)) (c + d)
  | setter {x : Site Scope} {s : Span} {key key' p p' body body' : Node} {ks cs ds : List String}
    {c d e : Nat} (own : Scope) : own.hasArguments = true → R x key key' ks c →
    R ⟨own, false, true⟩ p p' cs d → R ⟨own, false, false⟩ body body' ds e →
    ScopedStep R x (mk s .setter [key, p, body])
      (mk s .setter [key', p', declareIn own.captures body'])
      (own.names ++ (ks ++ (cs ++ ds))) (c + (d + e))
  | field {x : Site Scope} {isStatic : Bool} {s : Span} {ks : List Node} :
    ScopedStep R x (mk s (.field isStatic) ks) (mk s (.field isStatic) ks) [] 0
  | staticBlock {x : Site Scope} {s : Span} {ks : List Node} :
    ScopedStep R x (mk s .staticBlock ks) (mk s .staticBlock ks) [] 0
  | kept {x : Site Scope} {a : Bool} {s : Span} {p p' body body' : Node} {cs ds : List String}
    {c d : Nat} : keeps x.inParams [p, body] = true → R { x with inArrow := true } p p' cs c →
    R { x with inArrow := true } body body' ds d → ScopedStep R x (mk s (.arrow a) [p, body])
      (mk s (.arrow a) [p', body']) (cs ++ ds) (c + d)
  | lowered {x : Site Scope} {a : Bool} {s : Span} {p p' body body' : Node} {cs ds : List String}
    {c d : Nat} : keeps x.inParams [p, body] = false → R { x with inArrow := true } p p' cs c →
    R { x with inArrow := true } body body' ds d → ScopedStep R x (mk s (.arrow a) [p, body])
      (toFunction s a p' body') (cs ++ ds) (c + d + 1)
  | word {x : Site Scope} {s : Span} {t : Tag} {w : ContextWord} {y : String} :
    t.contextWord? = some w → x.redirects = true → x.owner.binds w = true →
    x.owner.name w = some y → ScopedStep R x (mk s t []) ((mk s t []).readFrom y) [] 0
  | exprStmt {x : Site Scope} {s : Span} {e e' : Node} {cs : List String} {c : Nat} :
    R x e e' cs c → ScopedStep R x (mk s .exprStmt [e]) (mk s .exprStmt [asStatement e']) cs c
  | ordinary {x : Site Scope} {s : Span} {t : Tag} {ks ks' : List Node} {cs : List String} {c : Nat} :
    isOrdinary t = true →
    (∀ w, t.contextWord? = some w → (x.redirects && x.owner.binds w) = false) →
    EachNamed (R x) ks ks' cs c → ScopedStep R x (mk s t ks) (mk s t ks') cs c

/-! ## The state -/

/-- The innermost scope. -/
def Walk.scope (w : Walk) : Scope := w.scopes.headD { hasArguments := false }

/-- The site of the current node, given the innermost scope as it is in the end. -/
def Walk.site (w : Walk) (final : Scope) : Site Scope := ⟨final, w.depth > 0, w.inParams⟩

/-- What the traversal of a node does to the state: it lowers `c` arrows, and each name that it draws
goes to the innermost scope or to one inside the node, whose names make up `cs`. -/
structure Moves (w w' : Walk) (cs : List String) (c : Nat) : Prop where
  depth : w'.depth = w.depth
  inParams : w'.inParams = w.inParams
  lowered : w'.lowered = w.lowered + c
  outer : w'.scopes.tail = w.scopes.tail
  nonempty : w'.scopes ≠ []
  grows : w.scope.Grows w'.scope
  names : ∃ new, w'.names.taken = new ++ w.names.taken ∧ Drawn new w.names.taken ∧
    ∀ x, w'.scope.names.count x + cs.count x = w.scope.names.count x + new.count x

namespace Moves

variable {w w' w'' : Walk} {cs ds : List String} {c d : Nat}

lemma refl (h : w.scopes ≠ []) : Moves w w [] 0 where
  depth := rfl
  inParams := rfl
  lowered := rfl
  outer := rfl
  nonempty := h
  grows := .refl _
  names := ⟨[], rfl, .nil _, fun _ => rfl⟩

lemma trans (h : Moves w w' cs c) (h' : Moves w' w'' ds d) : Moves w w'' (cs ++ ds) (c + d) where
  depth := h'.depth.trans h.depth
  inParams := h'.inParams.trans h.inParams
  lowered := by
    rw [h'.lowered, h.lowered, Nat.add_assoc]
  outer := h'.outer.trans h.outer
  nonempty := h'.nonempty
  grows := h.grows.trans h'.grows
  names := by
    obtain ⟨new, htaken, hdrawn, hcount⟩ := h.names
    obtain ⟨new', htaken', hdrawn', hcount'⟩ := h'.names
    rw [htaken] at htaken' hdrawn'
    refine ⟨new' ++ new, by rw [htaken', List.append_assoc], hdrawn.append hdrawn', fun x => ?_⟩
    have := hcount x
    have := hcount' x
    simp only [List.count_append]
    omega

/-- The order of the names does not count. -/
lemma congr (h : Moves w w' cs c) (hc : ∀ x, cs.count x = ds.count x) : Moves w w' ds c where
  __ := h
  names := by
    obtain ⟨new, htaken, hdrawn, hcount⟩ := h.names
    exact ⟨new, htaken, hdrawn, fun x => by rw [← hc]; exact hcount x⟩

lemma site (h : Moves w w' cs c) (final : Scope) : w'.site final = w.site final := by
  rw [Walk.site, Walk.site, h.depth, h.inParams]

end Moves

/-- Leaving a scope gives its declarations. -/
lemma leave_of_cons {outer : Outer} {rest : List Scope} (h : w.scopes = sc :: rest) : leave outer w = (sc.captures,
      { w with scopes := w.scopes.tail, depth := outer.depth, inParams := outer.inParams }) := by
  unfold leave
  split
  · simp_all
  · simp_all

/-- **A scope inside the current one.** What is done in a new scope leaves the current one as it is,
and the names of the new scope join those of the scopes inside it. -/
lemma moves_scope {w₁ w₂ : Walk} {own : Scope} {cs : List String} {c : Nat} (hw : w.scopes ≠ [])
    (hnames : w₁.names = w.names) (hlow : w₁.lowered = w.lowered)
    (hscopes : w₁.scopes = { hasArguments := true } :: w.scopes) (h : Moves w₁ w₂ cs c)
    (hown : w₂.scope = own) :
    own.hasArguments = true ∧ Moves w { w₂ with
      scopes := w₂.scopes.tail, depth := w.depth, inParams := w.inParams } (own.names ++ cs) c := by
  subst hown
  have hinit : w₁.scope = { hasArguments := true } := by rw [Walk.scope, hscopes]; rfl
  have htail : w₂.scopes.tail = w.scopes := by rw [h.outer, hscopes]; rfl
  have hback : Walk.scope { w₂ with
      scopes := w₂.scopes.tail, depth := w.depth, inParams := w.inParams } = w.scope := by
    rw [Walk.scope, Walk.scope, htail]
  refine ⟨by rw [h.grows.hasArguments, hinit], rfl, rfl, ?_, by rw [htail], by rw [htail]; exact hw,
    by rw [hback]; exact .refl _, ?_⟩
  · rw [← hlow]
    exact h.lowered
  · obtain ⟨new, htaken, hdrawn, hcount⟩ := h.names
    rw [hnames] at htaken hdrawn
    refine ⟨new, htaken, hdrawn, fun x => ?_⟩
    have hx := hcount x
    rw [hinit, show Scope.names { hasArguments := true } = [] from rfl, List.count_nil] at hx
    rw [hback, List.count_append]
    omega

/-! ## The traversal -/

lemma lower_mk (s : Span) (t : Tag) (ks : List Node) :
    lower (mk s t ks) = step s t (ks.map fun k => (k, lower k)) := fold_mk _ s t ks

/-- What a traversal gives: the state moves, and the node and its result are related at the site that
the node has in the end. -/
def Gives (R : Site Scope → Node → Node → List String → Nat → Prop) (n : Node) (f : StateM Walk Node) : Prop :=
  ∀ w : Walk, w.scopes ≠ [] → ∃ cs c, Moves w (f w).2 cs c ∧
    ∀ final, (f w).2.scope.Grows final → R (w.site final) n (f w).1 cs c

variable {R : Site Scope → Node → Node → List String → Nat → Prop}

/-- A list of nodes. -/
lemma gives_list {ks : List Node} (hkid : ∀ k ∈ ks, Gives R k (lower k)) (hw : w.scopes ≠ []) :
    ∃ cs c, Moves w ((ks.mapM lower) w).2 cs c ∧ ∀ final, ((ks.mapM lower) w).2.scope.Grows final →
        EachNamed (R (w.site final)) ks ((ks.mapM lower) w).1 cs c := by
  induction ks generalizing w with
  | nil => exact ⟨[], 0, .refl hw, fun _ _ => .nil⟩
  | cons k ks ih =>
    obtain ⟨cs, c, hm, hR⟩ := hkid k (by simp) w hw
    obtain ⟨ds, d, hm', hE⟩ := ih (fun k hmem => hkid k (by simp [hmem])) hm.nonempty
    have hrun : ((k :: ks).mapM lower) w = ((lower k w).1 :: ((ks.mapM lower) (lower k w).2).1,
        ((ks.mapM lower) (lower k w).2).2) := by
      rw [List.mapM_cons]
      rfl
    rw [hrun]
    refine ⟨cs ++ ds, c + d, hm.trans hm', fun final hf => .cons (hR final (hm'.grows.trans hf)) ?_⟩
    rw [← hm.site final]
    exact hE final hf

section Bodies

variable {p body : Node} (hp : Gives R p (lower p)) (hb : Gives R body (lower body))

include hb in
/-- A body without parameters, in a scope of its own. -/
lemma gives_bareScope (hw : w.scopes ≠ []) : ∃ own body' cs c,
    Moves w (inBareScope (lower body) w).2 (own.names ++ cs) c ∧ own.hasArguments = true ∧
    (inBareScope (lower body) w).1 = declareIn (Scope.captures own) body' ∧
    R ⟨own, false, false⟩ body body' cs c := by
  let w₁ : Walk := { w with
    scopes := { hasArguments := true } :: w.scopes, depth := 0, inParams := false }
  obtain ⟨cs, c, hm, hR⟩ := hb w₁ (List.cons_ne_nil _ _)
  obtain ⟨own, rest, hs⟩ := List.exists_cons_of_ne_nil hm.nonempty
  have hown : (lower body w₁).2.scope = own := by rw [Walk.scope, hs]; rfl
  have hrun : inBareScope (lower body) w = (declareIn own.captures (lower body w₁).1,
      { (lower body w₁).2 with
        scopes := (lower body w₁).2.scopes.tail, depth := w.depth, inParams := w.inParams }) := by
    change (declareIn (leave ⟨w.depth, w.inParams⟩ (lower body w₁).2).1 (lower body w₁).1,
      (leave ⟨w.depth, w.inParams⟩ (lower body w₁).2).2) = _
    rw [leave_of_cons hs]
  obtain ⟨hargs, hmoves⟩ := moves_scope hw (show w₁.names = w.names from rfl) rfl rfl hm hown
  rw [hrun]
  exact ⟨own, _, cs, c, hmoves, hargs, rfl, hR own (hown ▸ .refl _)⟩

include hp hb in
/-- A parameter list and a body, in a scope of their own. -/
lemma gives_scope (hw : w.scopes ≠ []) : ∃ own p' body' cs ds c d,
    Moves w (inScope (lower p) (lower body) w).2 (own.names ++ (cs ++ ds)) (c + d) ∧
    own.hasArguments = true ∧
    (inScope (lower p) (lower body) w).1 = (p', declareIn (Scope.captures own) body') ∧
    R ⟨own, false, true⟩ p p' cs c ∧ R ⟨own, false, false⟩ body body' ds d := by
  let w₁ : Walk := { w with
    scopes := { hasArguments := true } :: w.scopes, depth := 0, inParams := true }
  let w₂ : Walk := { (lower p w₁).2 with inParams := false }
  obtain ⟨cs, c, hm, hR⟩ := hp w₁ (List.cons_ne_nil _ _)
  obtain ⟨ds, d, hm', hR'⟩ := hb w₂ hm.nonempty
  obtain ⟨own, rest, hs⟩ := List.exists_cons_of_ne_nil hm'.nonempty
  have hown : (lower body w₂).2.scope = own := by rw [Walk.scope, hs]; rfl
  have hrun : inScope (lower p) (lower body) w =
      (((lower p w₁).1, declareIn own.captures (lower body w₂).1), { (lower body w₂).2 with
        scopes := (lower body w₂).2.scopes.tail, depth := w.depth, inParams := w.inParams }) := by
    change (((lower p w₁).1, declareIn (leave ⟨w.depth, w.inParams⟩ (lower body w₂).2).1 (lower body w₂).1),
      (leave ⟨w.depth, w.inParams⟩ (lower body w₂).2).2) = _
    rw [leave_of_cons hs]
  -- The mark of the parameters is off again in the body, and `Moves` would keep it.
  have hmark : Moves { w₁ with inParams := false } w₂ cs c :=
    ⟨hm.depth, rfl, hm.lowered, hm.outer, hm.nonempty, hm.grows, hm.names⟩
  have hnames : Walk.names { w₁ with inParams := false } = w.names := rfl
  obtain ⟨hargs, hmoves⟩ := moves_scope hw hnames rfl rfl (hmark.trans hm') hown
  have hsite : w₂.site own = ⟨own, false, false⟩ := by
    have hdepth : w₂.depth = 0 := hm.depth
    rw [Walk.site, hdepth]
    rfl
  rw [hrun]
  refine ⟨own, _, _, cs, ds, c, d, hmoves, hargs, rfl, ?_, ?_⟩
  · exact hR own (hown ▸ hm'.grows)
  · rw [← hsite]
    exact hR' own (hown ▸ .refl _)

end Bodies

section Words

variable {w : Walk} (hw : w.scopes ≠ [])

include hw

/-- The `this` of the innermost scope is read from its variable, which is drawn if need be. -/
lemma lexicalThis_spec : ∃ y, (lexicalThis w).1 = ident y ∧
    (lexicalThis w).2.scope.name .this = some y ∧ Moves w (lexicalThis w).2 [] 0 := by
  obtain ⟨sc, rest, hs⟩ := List.exists_cons_of_ne_nil hw
  have hsc : w.scope = sc := by rw [Walk.scope, hs]; rfl
  unfold lexicalThis
  rw [hs]
  cases hx : sc.thisName with
  | some y =>
    simp only [hx]
    exact ⟨y, rfl, by rw [hsc]; exact hx, .refl hw⟩
  | none =>
    refine ⟨(w.names.fresh "_this").1, by simp [hx], by simp [hx, Walk.scope, Scope.name], ?_⟩
    simp only [hx]
    refine ⟨rfl, rfl, rfl, by rw [hs]; rfl, List.cons_ne_nil _ _, ?_, [(w.names.fresh "_this").1], rfl,
      .one rfl w.names, fun x => ?_⟩
    · rw [hsc]
      refine ⟨rfl, fun {v y} hy => ?_⟩
      cases v with
      | this => rw [Scope.name, hx] at hy; cases hy
      | arguments => exact hy
    · rw [hsc]
      simp only [Walk.scope, List.headD_cons, Scope.names, hx, Option.toList, List.count_append, List.count_nil]
      omega

/-- The `arguments` of the innermost scope, if it has them. -/
lemma lexicalArguments_spec : if w.scope.hasArguments then
      ∃ y, (lexicalArguments w).1 = some (ident y) ∧
        (lexicalArguments w).2.scope.name .arguments = some y ∧ Moves w (lexicalArguments w).2 [] 0
    else lexicalArguments w = (none, w) := by
  obtain ⟨sc, rest, hs⟩ := List.exists_cons_of_ne_nil hw
  have hsc : w.scope = sc := by rw [Walk.scope, hs]; rfl
  unfold lexicalArguments
  rw [hs, hsc]
  cases ha : sc.hasArguments with
  | false => simp [ha]
  | true =>
    rw [if_pos rfl]
    cases hx : sc.argumentsName with
    | some y =>
      simp only [hx, ha, if_true]
      exact ⟨y, rfl, by rw [hsc]; exact hx, .refl hw⟩
    | none =>
      refine ⟨(w.names.fresh "_arguments").1, by simp [hx, ha],
        by simp [hx, ha, Walk.scope, Scope.name], ?_⟩
      simp only [hx, ha, if_true]
      refine ⟨rfl, rfl, rfl, by rw [hs]; rfl, List.cons_ne_nil _ _, ?_,
        [(w.names.fresh "_arguments").1], rfl, .one rfl w.names, fun x => ?_⟩
      · rw [hsc]
        refine ⟨by rw [ha]; rfl, fun {v y} hy => ?_⟩
        cases v with
        | this => exact hy
        | arguments => rw [Scope.name, hx] at hy; cases hy
      · rw [hsc]
        simp only [Walk.scope, List.headD_cons, Scope.names, hx, Option.toList, List.count_append, List.count_nil]
        omega

end Words

section Steps

variable {s : Span} {ks : List Node}

lemma gives_ordinary (hkid : ∀ k ∈ ks, Gives R k (lower k)) (ht : isOrdinary t = true)
    (hword : t.contextWord? = none) (hs : step s t (ks.map fun k => (k, lower k)) =
      (ks.map fun k => (k, lower k)).mapM (·.2) >>= fun ks' => pure (mk s t ks')) :
    Gives (ScopedStep R) (mk s t ks) (step s t (ks.map fun k => (k, lower k))) := by
  intro w hw
  obtain ⟨cs, c, hm, hE⟩ := gives_list hkid hw
  rw [hs, mapM_snd]
  exact ⟨cs, c, hm, fun final hf => .ordinary ht (by simp [hword]) (hE final hf)⟩

/-- A word that is left where it is. -/
lemma scopedStep_leaf {x : Site Scope} (ht : isOrdinary t = true)
    (hx : ∀ w, t.contextWord? = some w → (x.redirects && x.owner.binds w) = false) :
    ScopedStep R x (mk s t []) (mk s t []) [] 0 := .ordinary ht hx .nil

lemma gives_this : Gives (ScopedStep R) (mk s .this []) (step s .this []) := by
  intro w hw
  have hrun : step s .this [] w = (if w.redirects then lexicalThis else pure (mk s .this [])) w := rfl
  rw [hrun]
  by_cases hr : w.redirects = true
  · obtain ⟨y, he, hy, hm⟩ := lexicalThis_spec hw
    rw [if_pos hr, he]
    exact ⟨[], 0, hm, fun final hf => .word rfl hr rfl (hf.name hy)⟩
  · rw [if_neg hr]
    refine ⟨[], 0, .refl hw, fun final _ => scopedStep_leaf rfl fun v _ => ?_⟩
    rw [show (w.site final).redirects = false from eq_false_of_ne_true hr, Bool.false_and]

/-- Both forms of `arguments` become the node that reads them from a variable. -/
lemma step_arguments (ht : t = .shorthand "arguments" ∨ t = .ident "arguments") (w : Walk) :
    step s t [] w = if w.redirects then
      (((lexicalArguments w).1.elim (mk s t []) fun e => match t with
        | .shorthand k => keyValue (make (.keyName k) []) e
        | _ => e), (lexicalArguments w).2) else (mk s t [], w) := by
  rcases hlex : lexicalArguments w with ⟨_ | value, w'⟩ <;> rcases ht with rfl | rfl <;>
  · unfold step
    simp only [bind, StateT.bind, get, getThe, MonadStateOf.get, StateT.get, pure]
    split
    · simp only [StateT.bind, hlex]
      rfl
    · rfl

lemma gives_arguments (ht : t = .shorthand "arguments" ∨ t = .ident "arguments") :
    Gives (ScopedStep R) (mk s t []) (step s t []) := by
  have hordinary : isOrdinary t = true := by rcases ht with rfl | rfl <;> rfl
  have hword : t.contextWord? = some .arguments := by rcases ht with rfl | rfl <;> rfl
  intro w hw
  rw [step_arguments ht]
  by_cases hr : w.redirects = true
  · rw [if_pos hr]
    have hspec := lexicalArguments_spec hw
    split at hspec
    next ha =>
      obtain ⟨y, he, hy, hm⟩ := hspec
      refine ⟨[], 0, hm, fun final hfin => ?_⟩
      have hstep := ScopedStep.word (R := R) (s := s) (x := w.site final) hword hr
        ((hm.grows.trans hfin).hasArguments.trans ha) (hfin.name hy)
      rw [he]
      cases t <;> exact hstep
    next ha =>
      rw [hspec]
      refine ⟨[], 0, .refl hw, fun final hfin => scopedStep_leaf hordinary fun v hv => ?_⟩
      obtain rfl : v = .arguments := Option.some_inj.mp (hv.symm.trans hword)
      rw [show (w.site final).owner.binds .arguments = w.scope.hasArguments from hfin.hasArguments,
        eq_false_of_ne_true ha, Bool.and_false]
  · rw [if_neg hr]
    refine ⟨[], 0, .refl hw, fun final _ => scopedStep_leaf hordinary fun v _ => ?_⟩
    rw [show (w.site final).redirects = false from eq_false_of_ne_true hr, Bool.false_and]

/-- An arrow: its parts stand in an arrow of the same scope, and it is kept or lowered. -/
lemma gives_arrow {a : Bool} {p body : Node} (hp : Gives R p (lower p))
    (hb : Gives R body (lower body)) : Gives (ScopedStep R) (mk s (.arrow a) [p, body])
      (step s (.arrow a) [(p, lower p), (body, lower body)]) := by
  intro w hw
  let w₁ : Walk := { w with depth := w.depth + 1 }
  let w₂ : Walk := (lower body (lower p w₁).2).2
  obtain ⟨cs, c, hm, hR⟩ := hp w₁ hw
  obtain ⟨ds, d, hm', hR'⟩ := hb (lower p w₁).2 hm.nonempty
  have hboth : Moves w₁ w₂ (cs ++ ds) (c + d) := hm.trans hm'
  have hmoves : Moves w { w₂ with depth := w₂.depth - 1 } (cs ++ ds) (c + d) :=
    ⟨by change w₂.depth - 1 = w.depth; rw [hboth.depth]; rfl, hboth.inParams, hboth.lowered,
      hboth.outer, hboth.nonempty, hboth.grows, hboth.names⟩
  have hsite : ∀ final, w₁.site final = { w.site final with inArrow := true } := fun _ => by
    simp [Walk.site, w₁]
  have hparts : ∀ final, w₂.scope.Grows final → R { w.site final with inArrow := true } p (lower p w₁).1 cs c ∧
      R { w.site final with inArrow := true } body (lower body (lower p w₁).2).1 ds d := by
    intro final hf
    rw [← hsite final]
    refine ⟨hR final (hm'.grows.trans hf), ?_⟩
    rw [← hm.site final]
    exact hR' final hf
  have hrun : step s (.arrow a) [(p, lower p), (body, lower body)] w = (if keeps w.inParams [p, body] then
        pure (mk s (.arrow a) [(lower p w₁).1, (lower body (lower p w₁).2).1])
      else (modify fun w => { w with lowered := w.lowered + 1 }) >>= fun _ =>
        pure (toFunction s a (lower p w₁).1 (lower body (lower p w₁).2).1) : StateM Walk Node)
          { w₂ with depth := w₂.depth - 1 } := by
    rfl
  rw [hrun]
  by_cases hk : keeps w.inParams [p, body] = true
  · rw [if_pos hk]
    exact ⟨cs ++ ds, c + d, hmoves, fun final hf => .kept hk (hparts final hf).1 (hparts final hf).2⟩
  · rw [if_neg hk]
    refine ⟨cs ++ ds, c + d + 1, ⟨hmoves.depth, hmoves.inParams, ?_, hmoves.outer, hmoves.nonempty,
      hmoves.grows, hmoves.names⟩, fun final hf =>
        .lowered (eq_false_of_ne_true hk) (hparts final hf).1 (hparts final hf).2⟩
    change w₂.lowered + 1 = w.lowered + (c + d + 1)
    have : w₂.lowered = w.lowered + (c + d) := hboth.lowered
    omega

end Steps

/-- **All that the traversal can do.** A relation that is closed under the steps holds of every
well-formed tree and its result. -/
theorem lower_scoped (hstep : ∀ x n n' cs c, n.WellFormed → ScopedStep R x n n' cs c → R x n n' cs c) (n : Node)
    (h : n.WellFormed) : Gives R n (lower n) := by
  induction n with
  | mk s t ks ih =>
    have hkid : ∀ k ∈ ks, Gives R k (lower k) := fun k hk => ih k hk (h.kid hk)
    suffices hgives : Gives (ScopedStep R) (mk s t ks) (lower (mk s t ks)) by
      intro w hw
      obtain ⟨cs, c, hm, hs⟩ := hgives w hw
      exact ⟨cs, c, hm, fun final hf => hstep _ _ _ _ _ h (hs final hf)⟩
    rw [lower_mk]
    have hmethod : t = .ctor ∨ t = .setter → ∀ {key p body : Node}, ks = [key, p, body] →
        Gives (ScopedStep R) (mk s t ks) (step s t (ks.map fun k => (k, lower k))) := by
      rintro ht key p body rfl w hw
      obtain ⟨ks, e, hmk, hk⟩ := hkid key (by simp) w hw
      obtain ⟨own, p', body', cs, ds, c, d, hm, ha, hr, hp, hb⟩ :=
        gives_scope (hkid p (by simp)) (hkid body (by simp)) hmk.nonempty
      refine ⟨own.names ++ (ks ++ (cs ++ ds)), e + (c + d), ?_, fun final hf => ?_⟩
      · rcases ht with rfl | rfl <;>
        · refine (hmk.trans hm).congr ?_
          simp only [List.count_append]
          omega
      have hk := hk final (hm.grows.trans (by rcases ht with rfl | rfl <;> exact hf))
      rcases ht with rfl | rfl <;>
        change ScopedStep R _ _ (mk s _ [(lower key w).1, (inScope (lower p) (lower body) (lower key w).2).1.1,
          (inScope (lower p) (lower body) (lower key w).2).1.2]) _ _ <;> rw [hr]
      · exact .ctor own ha hk hp hb
      · exact .setter own ha hk hp hb
    cases t with
    | func a g =>
      obtain ⟨p, body, rfl, -, -⟩ := h.func
      intro w hw
      obtain ⟨own, p', body', cs, ds, c, d, hm, ha, hr, hp, hb⟩ :=
        gives_scope (hkid p (by simp)) (hkid body (by simp)) hw
      refine ⟨_, _, hm, fun final _ => ?_⟩
      change ScopedStep R _ _ (mk s (.func a g) [(inScope (lower p) (lower body) w).1.1,
        (inScope (lower p) (lower body) w).1.2]) _ _
      rw [hr]
      exact .func own ha hp hb
    | ctor =>
      obtain ⟨key, p, body, hks, -⟩ := h.ctor
      exact hmethod (.inl rfl) hks
    | getter =>
      obtain ⟨key, body, rfl, -, -⟩ := h.getter
      intro w hw
      obtain ⟨ks, e, hmk, hk⟩ := hkid key (by simp) w hw
      obtain ⟨own, body', ds, d, hm, ha, hr, hb⟩ := gives_bareScope (hkid body (by simp)) hmk.nonempty
      refine ⟨own.names ++ (ks ++ ds), _, (hmk.trans hm).congr ?_, fun final hf => ?_⟩
      · simp only [List.count_append]
        omega
      change ScopedStep R _ _ (mk s .getter [(lower key w).1, (inBareScope (lower body) (lower key w).2).1]) _ _
      rw [hr]
      exact .getter own ha (hk final (hm.grows.trans hf)) hb
    | setter =>
      obtain ⟨key, p, body, hks, -⟩ := h.setter
      exact hmethod (.inr rfl) hks
    | field | staticBlock =>
      intro w hw
      refine ⟨[], 0, .refl hw, fun final _ => ?_⟩
      change ScopedStep R _ _ (mk s _ ((ks.map fun k => (k, lower k)).map (·.1))) _ _
      rw [List.map_map, show ((·.1) ∘ fun k => (k, lower k)) = id from rfl, List.map_id]
      constructor
    | arrow a =>
      obtain ⟨p, body, rfl, -, -⟩ := h.arrow
      exact gives_arrow (hkid p (by simp)) (hkid body (by simp))
    | shorthand x | ident x =>
      obtain rfl : ks = [] := h.leaf rfl
      by_cases hx : x = "arguments"
      · subst hx
        exact gives_arguments (by simp)
      · refine gives_ordinary hkid rfl (if_neg hx) ?_
        unfold step
        split <;> simp_all
    | this =>
      obtain rfl : ks = [] := h.leaf rfl
      exact gives_this
    | exprStmt =>
      obtain ⟨e, rfl, -⟩ := h.single rfl
      intro w hw
      obtain ⟨cs, c, hm, he⟩ := hkid e (by simp) w hw
      exact ⟨cs, c, hm, fun final hf => .exprStmt (he final hf)⟩
    | _ => exact gives_ordinary hkid rfl rfl rfl

/-! ## Scripts -/

/-- The state in which the lowering of a script ends. -/
def finish (s : Script) : Walk := ((lowerBody s.body).run { names := .ofScript s }).2

/-- **The names of a script.** The statements of a script are lowered in a scope that has no
`arguments`, and behind their directives the script declares what it needs. The names that its scopes
declare are those that were drawn. -/
theorem lowerScript_drawn
    (hstep : ∀ x n n' cs c, n.WellFormed → ScopedStep R x n n' cs c → R x n n' cs c) {s : Script}
    (h : s.WellFormed) : ∃ own body' cs new, EachNamed (R ⟨own, false, false⟩) s.body body' cs (lowerScript s).2 ∧
      own.hasArguments = false ∧
      (lowerScript s).1 = { s with body := afterDirectives (Scope.captures own) body' } ∧
      (finish s).names.taken = new ++ s.names ∧ Drawn new s.names ∧ new.Perm (own.names ++ cs) := by
  let w : Walk := { names := .ofScript s, scopes := [{ hasArguments := false }] }
  obtain ⟨cs, c, hm, hE⟩ := gives_list (w := w) (fun k hk => lower_scoped hstep k (h k hk).1)
    (List.cons_ne_nil _ _)
  let w' : Walk := ((s.body.mapM lower) w).2
  obtain ⟨own, rest, hs⟩ := List.exists_cons_of_ne_nil hm.nonempty
  have hown : w'.scope = own := by rw [Walk.scope, hs]; rfl
  have hrun : lowerScript s = (
      { s with body := afterDirectives (leave ⟨0, false⟩ w').1 ((s.body.mapM lower) w).1 },
      (leave ⟨0, false⟩ w').2.lowered) := rfl
  have hfinish : finish s = (leave ⟨0, false⟩ w').2 := rfl
  have hcount : (lowerScript s).2 = c := by
    rw [hrun, leave_of_cons hs]
    exact hm.lowered.trans (Nat.zero_add c)
  obtain ⟨new, htaken, hdrawn, hnames⟩ := hm.names
  -- The names of the scopes are those that were drawn, each as often as it was drawn.
  have hperm : new.Perm (own.names ++ cs) := by
    refine List.perm_iff_count.mpr fun x => ?_
    have hx := hnames x
    rw [hown, show w.scope.names = [] from rfl, List.count_nil] at hx
    rw [List.count_append]
    omega
  refine ⟨own, ((s.body.mapM lower) w).1, cs, new, ?_, ?_, ?_, ?_, hdrawn, hperm⟩
  · rw [hcount]
    exact hE own (hown ▸ .refl _)
  · rw [← hown]
    exact hm.grows.hasArguments
  · rw [hrun, leave_of_cons hs]
  · rw [hfinish, leave_of_cons hs]
    exact htaken

/-- All names that the scopes of a script declare are different, and no name of the script is among
them. -/
theorem lowerScript_scoped
    (hstep : ∀ x n n' cs c, n.WellFormed → ScopedStep R x n n' cs c → R x n n' cs c) {s : Script}
    (h : s.WellFormed) : ∃ own body' cs, EachNamed (R ⟨own, false, false⟩) s.body body' cs (lowerScript s).2 ∧
      own.hasArguments = false ∧
      (lowerScript s).1 = { s with body := afterDirectives (Scope.captures own) body' } ∧
      (own.names ++ cs).Nodup ∧ ∀ x ∈ own.names ++ cs, x ∉ s.names := by
  obtain ⟨own, body', cs, new, hE, hargs, hbody, -, hdrawn, hperm⟩ := lowerScript_drawn hstep h
  have hall := hdrawn.perm hperm
  exact ⟨own, body', cs, hE, hargs, hbody, hall.nodup, hall.fresh⟩

end Arrow

end EcmaLower
