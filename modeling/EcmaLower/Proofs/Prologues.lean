import EcmaLower.Proofs.ArrowPass
import EcmaLower.Proofs.MemberStatements

/-!
# Directive prologues

The directives of a body are the string literals at its start, and they decide how the whole body is read.
Three passes put statements into bodies, one moves bodies to other functions, and one writes string literals.
This module follows the body of every function through each pass and says what its directives are
afterwards.

A function is followed by its place in the source. A constructor becomes a function that has no place, but
its parameters keep theirs, and so it is followed by the place of its parameters.

## Main results

* `isBody_congr` — functions whose parts follow each other have the same directives.
* `Pass.prologue_of_every_body` — the directives of every body after each of the passes.
-/

namespace EcmaLower

open Node List Build

variable {p : Pass} {n n' a b ps : Node} {s : Span} {t : Tag} {ks ks' stmts ms : List Node} {d : Nat}

/-! ## Bodies -/

/-- Whether a tag is that of a function, an arrow, an accessor or a constructor. -/
def Tag.isFunction : Tag → Bool
  | .func .. | .ctor | .getter | .setter | .arrow _ => true
  | _ => false

namespace Node

/-- The statements of the body of a function. An arrow whose body is an expression has none. -/
def bodyStatements (n : Node) : List Node :=
  match n.kids.getLast? with
  | some (.mk _ .block stmts) => stmts
  | _ => []

/-- The place by which a function is followed. -/
def sourceSpan : Node → Span
  | .mk s (.func ..) (params :: _) => if s = .none then params.span else s
  | .mk _ .ctor (_ :: params :: _) => params.span
  | n => n.span

/-- The string literal that an expression is. -/
def literal? (e : Node) : Option Node :=
  match e.tag with
  | .str _ => some e
  | _ => none

end Node

/-- The directive that a statement is, if `literal` gives the string literal that an expression is. -/
def directiveBy (literal : Node → Option Node) : Node → Option Node
  | .mk s .exprStmt [e] => (literal e).map fun e => .mk s .exprStmt [e]
  | _ => none

/-- The directives at the start of a list of statements, if `literal` gives the string literal that an
expression is. -/
def prologueBy (literal : Node → Option Node) : List Node → List Node
  | [] => []
  | st :: stmts =>
    match directiveBy literal st with
    | some d => d :: prologueBy literal stmts
    | none => []

/-- The string literal that an expression is after a pass: a template without substitutions becomes one. -/
def Pass.literal? : Pass → Node → Option Node
  | .templateLiterals, .mk _ (.template quasis) [] => some (Template.concat quasis [])
  | _, e => e.literal?

/-- The directives of a body after a pass. -/
def Pass.prologue (p : Pass) : List Node → List Node := prologueBy p.literal?

/-- Whether a statement is nothing but a template without substitutions. -/
def isPlainTemplate : Node → Bool
  | .mk _ .exprStmt [.mk _ (.template _) []] => true
  | _ => false

lemma directiveBy_literal? (n : Node) : directiveBy Node.literal? n = if isDirective n then some n else none := by
  by_cases h : isDirective n = true
  · obtain ⟨s, sv, v, ks, rfl⟩ := Class.isDirective_iff.mp h
    rfl
  · rw [if_neg h]
    unfold directiveBy
    split
    · rename_i s e
      obtain ⟨se, t, ks⟩ := e
      cases t <;> first | rfl | exact absurd rfl h
    · rfl

lemma prologueBy_literal? (stmts : List Node) : prologueBy Node.literal? stmts = stmts.takeWhile isDirective := by
  induction stmts with
  | nil => rfl
  | cons st stmts ih =>
    rw [prologueBy, directiveBy_literal?, takeWhile_cons, ih]
    cases isDirective st <;> rfl

lemma Pass.literal?_eq (hp : p ≠ .templateLiterals) : p.literal? = Node.literal? := by
  funext e
  cases p <;> first | rfl | exact absurd rfl hp

/-- Statements that are the same directives make the same prologue. -/
lemma prologueBy_congr {L L' : Node → Option Node} {stmts' : List Node}
    (h : Forall₂ (fun st st' => directiveBy L' st' = directiveBy L st) stmts stmts') :
    prologueBy L' stmts' = prologueBy L stmts := by
  induction h with
  | nil => rfl
  | cons hd _ ih => rw [prologueBy, prologueBy, hd, ih]

/-- What is put behind the directives is none of them. -/
lemma takeWhile_afterDirectives {new : List Node} (hnew : ∀ k ∈ new, isDirective k = false) :
    (afterDirectives new stmts).takeWhile isDirective = stmts.takeWhile isDirective := by
  have htake := prefix_iff_eq_take.mp (List.takeWhile_prefix isDirective (l := stmts))
  have hdrop : stmts.drop (stmts.takeWhile isDirective).length = stmts.dropWhile isDirective := by
    nth_rewrite 2 [← takeWhile_append_dropWhile (p := isDirective) (l := stmts)]
    exact drop_left
  have hinsert : afterDirectives new stmts = Class.insertAt (stmts.takeWhile isDirective).length new stmts := by
    rw [afterDirectives, Class.insertAt, ← htake, hdrop]
  rw [hinsert]
  exact Class.takeWhile_insertAt hnew le_rfl

/-! ## What is followed -/

/-- What a node and its result after a pass have in common, as far as directives go. -/
structure Follows (p : Pass) (n n' : Node) : Prop where
  is : n'.Is n.role
  literal : n'.literal? = p.literal? n
  directive : directiveBy Node.literal? n' = directiveBy p.literal? n
  params : n.role = .params → n'.span = n.span
  block : n.role = .block → prologueBy Node.literal? n'.kids = p.prologue n.kids

/-- The tags of nodes that have no part in a directive, a list of parameters or a body. -/
def Tag.isSilent : Tag → Bool
  | .str _ | .template _ | .exprStmt | .params | .block => false
  | _ => true

lemma literal?_of_isSilent (h : n.tag.isSilent = true) (p : Pass) : n.literal? = none ∧ p.literal? n = none := by
  obtain ⟨s, t, ks⟩ := n
  cases t <;> first | (cases p <;> exact ⟨rfl, rfl⟩) | cases h

lemma directiveBy_of_ne (h : n.tag ≠ .exprStmt) (L : Node → Option Node) : directiveBy L n = none := by
  unfold directiveBy
  split
  · exact absurd rfl h
  · rfl

lemma follows_of_isSilent (his : n'.Is n.role) (h : n.tag.isSilent = true) (h' : n'.tag.isSilent = true) :
    Follows p n n' := by
  have hne : ∀ {n : Node}, n.tag.isSilent = true → n.tag ≠ .exprStmt := by
    intro n h ht
    rw [ht] at h
    cases h
  refine ⟨his, ?_, ?_, fun hr => ?_, fun hr => ?_⟩
  · rw [(literal?_of_isSilent h' p).1, (literal?_of_isSilent h p).2]
  · rw [directiveBy_of_ne (hne h'), directiveBy_of_ne (hne h)]
  · obtain ⟨s, ks, rfl⟩ := eq_of_role hr rfl
    cases h
  · obtain ⟨s, ks, rfl⟩ := eq_of_role hr rfl
    cases h

/-- Only a template changes what literal a node is. -/
lemma Pass.literal?_mk (h : p = .templateLiterals → ∀ qs, t ≠ .template qs) :
    p.literal? (mk s t ks) = (mk s t ks).literal? := by
  by_cases hp : p = .templateLiterals
  · subst hp
    cases t with
    | template qs => exact absurd rfl (h rfl qs)
    | _ => rfl
  · rw [Pass.literal?_eq hp]

lemma wellFormed_of_follows (hks : Forall₂ (Follows p) ks ks') (h : (mk s t ks).WellFormed) :
    (mk s t ks').WellFormed := by
  refine h.of_roles ?_ (forall_of_forall₂ hks fun _ _ hk => hk.is.1)
  have hroles : Forall₂ (· = ·) (ks'.map role) (ks.map role) :=
    forall₂_map_left_iff.mpr (forall₂_map_right_iff.mpr (hks.imp fun _ _ hk => hk.is.2).flip)
  exact forall₂_eq_eq_eq ▸ hroles

/-- A node is followed if its children are. -/
lemma follows_mk (ht : p = .templateLiterals → ∀ qs, t ≠ .template qs) (hks : Forall₂ (Follows p) ks ks')
    (h : (mk s t ks).WellFormed) : Follows p (mk s t ks) (mk s t ks') := by
  have hw := wellFormed_of_follows hks h
  by_cases hsilent : t.isSilent = true
  · exact follows_of_isSilent ⟨hw, rfl⟩ hsilent hsilent
  refine ⟨⟨hw, rfl⟩, ?_, ?_, fun _ => rfl, fun _ => ?_⟩
  · rw [Pass.literal?_mk ht]
    cases t with
    | str v =>
      obtain rfl : ks = [] := h.leaf rfl
      cases hks
      rfl
    | _ => rfl
  · by_cases hstmt : t = .exprStmt
    · subst hstmt
      obtain ⟨e, rfl, -⟩ := h.single rfl
      obtain ⟨e', _, he, hnil, rfl⟩ := forall₂_cons_left_iff.mp hks
      cases hnil
      rw [directiveBy, directiveBy, he.literal]
    · rw [directiveBy_of_ne (n := mk s t ks') hstmt, directiveBy_of_ne (n := mk s t ks) hstmt]
  · exact prologueBy_congr (hks.imp fun _ _ hk => hk.directive)

lemma Follows.refl (hp : p ≠ .templateLiterals) (h : n.WellFormed) : Follows p n n where
  is := ⟨h, rfl⟩
  literal := by rw [Pass.literal?_eq hp]
  directive := by rw [Pass.literal?_eq hp]
  params _ := rfl
  block _ := by rw [Pass.prologue, Pass.literal?_eq hp]

lemma Follows.trans (hp : p ≠ .templateLiterals) {c : Node} (h : Follows p a b) (h' : Follows p b c) :
    Follows p a c where
  is := h.is.2 ▸ h'.is
  literal := by rw [h'.literal, Pass.literal?_eq hp, h.literal, Pass.literal?_eq hp]
  directive := by rw [h'.directive, Pass.literal?_eq hp, h.directive, Pass.literal?_eq hp]
  params hr := by rw [h'.params (h.is.2.trans hr), h.params hr]
  block hr := by
    rw [h'.block (h.is.2.trans hr), Pass.prologue, Pass.literal?_eq hp, h.block hr, Pass.prologue,
      Pass.literal?_eq hp]

lemma follows_params (hr : n.role = .params) (his : n'.Is .params) (hs : n'.span = n.span) : Follows p n n' := by
  obtain ⟨s, ks, rfl⟩ := eq_of_role hr rfl
  obtain ⟨s', ks', rfl⟩ := eq_of_role his.2 rfl
  refine ⟨his, ?_, rfl, fun _ => hs, fun h => ?_⟩
  · cases p <;> rfl
  · cases h

lemma follows_block (hp : p ≠ .templateLiterals) (hr : n.role = .block) (his : n'.Is .block)
    (h : n'.kids.takeWhile isDirective = n.kids.takeWhile isDirective) : Follows p n n' := by
  obtain ⟨s, ks, rfl⟩ := eq_of_role hr rfl
  obtain ⟨s', ks', rfl⟩ := eq_of_role his.2 rfl
  refine ⟨his, ?_, rfl, fun h => ?_, fun _ => ?_⟩
  · cases p <;> rfl
  · cases h
  · rw [Pass.prologue, Pass.literal?_eq hp, prologueBy_literal?, prologueBy_literal?]
    exact h

/-! ## Bodies that are followed -/

/-- Whether a node is a function at a place, with directives of which `P` holds. -/
def isBody (literal : Node → Option Node) (P : List Node → Bool) (x : Span) (n : Node) : Bool :=
  n.tag.isFunction && n.sourceSpan == x && P (prologueBy literal n.bodyStatements)

instance (L : Node → Option Node) (P : List Node → Bool) (x : Span) : Foreign (isBody L P x) where
  core s t ks ht := by
    cases t <;> first | rfl | cases ht
  this := rfl

lemma prologueBy_bodyStatements (hks : Forall₂ (Follows p) ks ks') :
    prologueBy Node.literal? (mk s t ks').bodyStatements = p.prologue (mk s t ks).bodyStatements := by
  have hlast : ∀ {n n' : Node}, Follows p n n' →
      prologueBy Node.literal? (mk s t [n']).bodyStatements = p.prologue (mk s t [n]).bodyStatements := by
    intro n n' h
    by_cases hr : n.role = .block
    · have hr' := h.is.2.trans hr
      have hb := h.block hr
      obtain ⟨sb, stmts, rfl⟩ := eq_of_role hr rfl
      obtain ⟨sb', stmts', rfl⟩ := eq_of_role hr' rfl
      exact hb
    · have hnone : ∀ {n : Node}, n.role ≠ .block → (mk s t [n]).bodyStatements = [] := by
        rintro ⟨sn, tn, kn⟩ hr
        cases tn <;> first | rfl | exact absurd rfl hr
      rw [hnone hr, hnone (fun hr' => hr (h.is.2.symm.trans hr'))]
      rfl
  induction hks with
  | nil => rfl
  | cons h htail ih =>
    cases htail with
    | nil => exact hlast h
    | cons => exact ih

lemma sourceSpan_congr (hks : Forall₂ (Follows p) ks ks') (h : (mk s t ks).WellFormed) :
    (mk s t ks').sourceSpan = (mk s t ks).sourceSpan := by
  cases t with
  | func a g =>
    obtain ⟨ps, body, rfl, hps, -⟩ := h.func
    obtain ⟨ps', _, hp, -, rfl⟩ := forall₂_cons_left_iff.mp hks
    rw [sourceSpan, sourceSpan, hp.params hps.2]
  | ctor =>
    obtain ⟨key, ps, body, rfl, -, hps, -⟩ := h.ctor
    obtain ⟨key', _, -, hrest, rfl⟩ := forall₂_cons_left_iff.mp hks
    obtain ⟨ps', _, hp, -, rfl⟩ := forall₂_cons_left_iff.mp hrest
    exact hp.params hps.2
  | _ => rfl

/-- **Functions whose parts follow each other have the same directives.** -/
lemma isBody_congr {P : List Node → Bool} {x : Span} (hks : Forall₂ (Follows p) ks ks') (h : (mk s t ks).WellFormed) :
    isBody Node.literal? P x (mk s t ks') = isBody p.literal? P x (mk s t ks) := by
  rw [isBody, isBody, sourceSpan_congr hks h, prologueBy_bodyStatements hks]
  rfl

/-- How a search after a pass compares to one before it, for functions at a place: what has no place may be
new. -/
structure Carries (x : Span) (before after : Bool) : Prop where
  kept : before = true → after = true
  only : x ≠ .none → after = true → before = true

namespace Carries

variable {x : Span} {a b a' b' c : Bool}

lemma of_eq (h : a' = a) : Carries x a a' := ⟨fun ha => h ▸ ha, fun _ ha => h ▸ ha⟩

lemma or (h : Carries x a a') (h' : Carries x b b') : Carries x (a || b) (a' || b') where
  kept hab := Bool.or_eq_true_iff.mpr ((Bool.or_eq_true_iff.mp hab).imp h.kept h'.kept)
  only hx hab := Bool.or_eq_true_iff.mpr ((Bool.or_eq_true_iff.mp hab).imp (h.only hx) (h'.only hx))

lemma trans (h : Carries x a b) (h' : Carries x b c) : Carries x a c :=
  ⟨fun ha => h'.kept (h.kept ha), fun hx hc => h.only hx (h'.only hx hc)⟩

lemma any {f g : Node → Bool} {l l' : List Node}
    (h : Forall₂ (fun k k' => Carries x (f k) (g k')) l l') : Carries x (l.any f) (l'.any g) := by
  induction h with
  | nil => exact of_eq rfl
  | cons hk _ ih => exact hk.or ih

end Carries

/-- A node is followed, and so are the functions in it. -/
structure Prologues (p : Pass) (n n' : Node) : Prop extends Follows p n n' where
  bodies : ∀ P x, Carries x (n.any (isBody p.literal? P x)) (n'.any (isBody Node.literal? P x))

/-- The functions in a node are followed if those in its children are. -/
lemma prologues_mk (ht : p = .templateLiterals → ∀ qs, t ≠ .template qs)
    (hks : Forall₂ (Prologues p) ks ks') (h : (mk s t ks).WellFormed) :
    Prologues p (mk s t ks) (mk s t ks') := by
  have hfollows : Forall₂ (Follows p) ks ks' := hks.imp fun _ _ hk => hk.toFollows
  refine ⟨follows_mk ht hfollows h, fun P x => ?_⟩
  rw [any_mk, any_mk]
  exact (Carries.of_eq (isBody_congr hfollows h)).or (Carries.any (hks.imp fun _ _ hk => hk.bodies P x))

section Steps

variable {p : Pass} (hp : p ≠ .templateLiterals)
include hp

lemma Prologues.refl (h : n.WellFormed) : Prologues p n n :=
  ⟨.refl hp h, fun _ _ => .of_eq (by rw [Pass.literal?_eq hp])⟩

lemma Prologues.trans {c : Node} (h : Prologues p a b) (h' : Prologues p b c) : Prologues p a c := by
  refine ⟨h.toFollows.trans hp h'.toFollows, fun P x => (h.bodies P x).trans ?_⟩
  have hbodies := h'.bodies P x
  rwa [Pass.literal?_eq hp] at hbodies

/-- A node is replaced by one that holds the same functions. -/
lemma Follows.prologues (h : Follows p n n')
    (hany : ∀ P x, n'.any (isBody Node.literal? P x) = n.any (isBody Node.literal? P x)) :
    Prologues p n n' := by
  refine ⟨h, fun P x => .of_eq ?_⟩
  rw [hany, Pass.literal?_eq hp]

end Steps

/-! ## Local rules -/

lemma prologues_ruled {rule : Node → Option Node}
    (hkeep : p = .templateLiterals → ∀ s qs ks, rule (mk s (.template qs) ks) ≠ none)
    (hrule : ∀ s t ks ks' new, (mk s t ks).WellFormed → Forall₂ (Prologues p) ks ks' →
      rule (mk s t ks') = some new → Prologues p (mk s t ks) new) (n : Node) (h : n.WellFormed) :
    Prologues p n (n.ruled rule) := by
  induction n with
  | mk s t ks ih =>
    have hks : Forall₂ (Prologues p) ks (ks.map (ruled rule)) :=
      forall₂_map_right_iff.mpr (forall₂_same.mpr fun k hk => ih k hk (h.kid hk))
    obtain ⟨new, hn, he⟩ | ⟨hn, he⟩ := ruled_cases rule s t ks
    · rw [he]
      exact hrule s t ks _ new h hks hn
    · rw [he]
      refine prologues_mk (fun hp qs ht => ?_) hks h
      subst ht
      exact hkeep hp s qs _ hn

/-- A rule that makes no literals is followed if it is at each node where it fires. -/
lemma prologues_ruled_of_rule {rule : Node → Option Node} (hp : p ≠ .templateLiterals)
    (hrule : ∀ n new, n.WellFormed → rule n = some new → Prologues p n new) (n : Node) (h : n.WellFormed) :
    Prologues p n (n.ruled rule) := by
  refine prologues_ruled (fun h => absurd h hp) (fun s t ks ks' new hw hks hnew => ?_) n h
  have hmk := prologues_mk (fun h => absurd h hp) hks hw
  exact hmk.trans hp (hrule _ new hmk.is.1 hnew)

namespace Shorthand

lemma prologues_rule {new : Node} (hn : n.WellFormed) (h : rule n = some new) : Prologues .objectShorthand n new := by
  refine Follows.prologues (by simp) ?_ fun P x => any_rule (fun _ _ _ => rfl) (fun _ _ => rfl) hn h
  have his := keepsShape n new hn h
  obtain ⟨s, name, ks, rfl, rfl⟩ | ⟨s, key, f, rfl, -, rfl⟩ := rule_cases h
  · exact follows_of_isSilent his rfl rfl
  · exact follows_of_isSilent his rfl rfl

end Shorthand

namespace Rest

lemma prologues_rule {new : Node} (hn : n.WellFormed) (h : rule n = some new) : Prologues .restParameters n new := by
  cases moves_of_rule hn h with
  | @intro s sp sr sb t before stmts pat keys _ hp hb =>
    obtain ⟨hbefore, hpat⟩ := targets_of_params hp
    have hblock : Follows .restParameters (mk sb .block stmts)
        (mk sb .block (afterDirectives [slice pat before.length] stmts)) :=
      follows_block (by simp) rfl (is_moved hb hpat) (takeWhile_afterDirectives (forall_mem_singleton.mpr rfl))
    have hkids : Forall₂ (Follows .restParameters)
        (keys ++ [mk sp .params (before ++ [mk sr .restPat [pat]]), mk sb .block stmts])
        (keys ++ [mk sp .params before, mk sb .block (afterDirectives [slice pat before.length] stmts)]) :=
      rel_append (forall₂_same.mpr fun k hk => .refl (by simp) (hn.kid (by simp [hk])))
        (.cons (follows_params rfl (is_params hbefore) rfl) (.cons hblock .nil))
    refine (follows_mk (by simp) hkids hn).prologues (by simp) fun P x => ?_
    rw [any_mk _ s, any_mk _ s, isBody_congr hkids hn, any_moved (fun _ _ => rfl)]
    rfl

end Rest

namespace Template

/-- A template without substitutions becomes a string literal. -/
lemma literal?_concat {qs : List Quasi} {es es' : List Node} (h : es'.length = es.length) :
    (concat qs es').literal? = Pass.literal? .templateLiterals (mk s (.template qs) es) := by
  cases es with
  | nil =>
    obtain rfl : es' = [] := length_eq_zero_iff.mp h
    have hstr : ∃ v, (concat qs []).tag = .str v := by
      rw [concat]
      cases hhead : qs.head?.bind cooked with
      | none => exact ⟨_, rfl⟩
      | some e =>
        obtain ⟨c, -, hc⟩ := Option.bind_eq_some_iff.mp hhead
        obtain ⟨u, -, rfl⟩ := Option.map_eq_some_iff.mp hc
        exact ⟨_, rfl⟩
    obtain ⟨v, hv⟩ := hstr
    rw [Node.literal?, hv]
    rfl
  | cons e es =>
    obtain ⟨e', es', rfl⟩ := exists_cons_of_length_pos (l := es') (by simp [h])
    rfl

lemma prologues_rule {new : Node} (hn : (mk s t ks).WellFormed)
    (hks : Forall₂ (Prologues .templateLiterals) ks ks') (h : rule (mk s t ks') = some new) :
    Prologues .templateLiterals (mk s t ks) new := by
  have hw := wellFormed_of_follows (hks.imp fun _ _ hk => hk.toFollows) hn
  have his := keepsShape _ new hw h
  have hfollows : Follows .templateLiterals (mk s t ks) new ∧ t.isFunction = false := by
    obtain ⟨_, qs, es, he, rfl⟩ | ⟨_, sq, qs, tag, es, he, rfl⟩ := rule_cases h
    · cases he
      have hstmt : (concat qs ks').tag ≠ .exprStmt := by
        intro ht
        have hrole := his.2
        rw [role, ht] at hrole
        cases hrole
      refine ⟨⟨his, literal?_concat hks.length_eq.symm, ?_, ?_, ?_⟩, rfl⟩
      · rw [directiveBy_of_ne hstmt, directiveBy_of_ne (by simp)]
      · intro hr
        cases hr
      · intro hr
        cases hr
    · cases he
      exact ⟨follows_of_isSilent his rfl rfl, rfl⟩
  refine ⟨hfollows.1, fun P x => ?_⟩
  rw [any_rule hw h, any_mk, show isBody _ P x (mk s t ks) = false by simp [isBody, hfollows.2],
    Bool.false_or]
  exact Carries.any (hks.imp fun _ _ hk => hk.bodies P x)

end Template

/-! ## Arrows -/

namespace Arrow

lemma isDirective_captures (sc : Scope) : ∀ k ∈ sc.captures, isDirective k = false := by
  intro k hk
  rw [Scope.captures_eq] at hk
  split at hk
  · cases hk
  · rw [mem_singleton.mp hk]
    rfl

/-- Declarations stand behind the directives of a body. -/
lemma prologues_declareIn (sc : Scope) {body : Node} (h : body.Is .block) :
    Prologues .arrowFunctions body (declareIn sc.captures body) := by
  refine (follows_block (by simp) h.2 (is_declareIn h sc) ?_).prologues (by simp)
    fun P x => any_declareIn sc h
  obtain ⟨sb, stmts, rfl⟩ := eq_of_role h.2 rfl
  exact takeWhile_afterDirectives (isDirective_captures sc)

/-- No literal is put in parentheses. -/
lemma prologues_asStatement {e : Node} (h : e.Is .expr) : Prologues .arrowFunctions e (asStatement e) := by
  unfold asStatement
  split
  · rename_i hstarts
    refine (follows_of_isSilent (h.2 ▸ is_paren.mpr h) ?_ rfl).prologues (by simp)
      fun P x => any_paren
    obtain ⟨s, t, ks⟩ := e
    rw [startsLikeDeclaration, fold_mk] at hstarts
    cases t <;> first | rfl | cases hstarts
  · exact .refl (by simp) h.1

/-- The body of an arrow becomes the body of a function. -/
lemma prologues_toFunction {a : Bool} {body : Node} (h : (mk s (.arrow a) [ps, body]).WellFormed) :
    Prologues .arrowFunctions (mk s (.arrow a) [ps, body]) (toFunction s a ps body) := by
  obtain ⟨_, _, he, hps, hb⟩ := h.arrow
  cases he
  refine Follows.prologues (by simp) (follows_of_isSilent (is_toFunction hps hb) rfl rfl) fun P x => ?_
  obtain ⟨sp, pks, rfl⟩ := eq_of_role hps.2 rfl
  have hspan : (mk s (.func a false) [params pks, blockOf body]).sourceSpan = s := by
    rw [sourceSpan]
    split
    · rename_i hs
      exact hs.symm
    · rfl
  have hstmts : prologueBy Node.literal? (mk s (.func a false) [params pks, blockOf body]).bodyStatements =
      prologueBy Node.literal? (mk s (.arrow a) [mk sp .params pks, body]).bodyStatements := by
    obtain ⟨sb, tb, stmts⟩ := body
    cases tb <;> rfl
  have hfunc : isBody Node.literal? P x (mk s (.func a false) [params pks, blockOf body]) =
      isBody Node.literal? P x (mk s (.arrow a) [mk sp .params pks, body]) := by
    rw [isBody, isBody, hspan, hstmts]
    rfl
  rw [toFunction_eq, any_funcExpr, any_mk, any_mk, kids_mk, hfunc]
  simp [any_blockOf, any_core (p := isBody Node.literal? P x) (s := sp) (t := .params) rfl]

lemma prologues_step (b : Bool) (n n' : Node) (c : Nat) (h : n.WellFormed)
    (hs : Step (fun _ n n' _ => n.WellFormed → Prologues .arrowFunctions n n') b n n' c) :
    Prologues .arrowFunctions n n' := by
  have hmk : ∀ {s : Span} {t : Tag} {ks ks' : List Node}, (mk s t ks).WellFormed →
      Forall₂ (Prologues .arrowFunctions) ks ks' → Prologues .arrowFunctions (mk s t ks) (mk s t ks') :=
    fun h hks => prologues_mk (by simp) hks h
  have hbody : ∀ (sc : Scope) {body body' : Node}, body.Is .block → Prologues .arrowFunctions body body' →
      Prologues .arrowFunctions body (declareIn sc.captures body') :=
    fun sc _ _ hb hr => hr.trans (by simp) (prologues_declareIn sc (hb.2 ▸ hr.is))
  cases hs with
  | rebuilt hkids hparts =>
    exact hmk h (hparts.forall₂ hkids (fun x hx e d _ hk => hk (h.kid (mem_kids_of_mem_visited hx)))
      fun sc k e hk he => hbody sc hk he)
  | field | staticBlock => exact .refl (by simp) h
  | lowered _ _ _ hp hb =>
    have hkids := hmk h (.cons (hp (h.kid (by simp))) (.cons (hb (h.kid (by simp))) .nil))
    exact hkids.trans (by simp) (prologues_toFunction hkids.is.1)
  | word hword =>
    rcases Tag.eq_of_contextWord hword with ⟨rfl, -⟩ | ⟨rfl | rfl, -⟩
    · exact Follows.prologues (by simp) (follows_of_isSilent is_ident rfl rfl) fun _ _ => rfl
    · exact Follows.prologues (by simp) (follows_of_isSilent is_ident rfl rfl) fun _ _ => rfl
    · refine Follows.prologues (by simp) (follows_of_isSilent ?_ rfl rfl) fun _ _ => rfl
      exact is_keyValue.mpr ⟨⟨rfl, rfl⟩, is_ident⟩
  | statement he he' =>
    have hr := he' he.1
    exact hmk h (.cons (hr.trans (by simp) (prologues_asStatement (he.2 ▸ hr.is))) .nil)

end Arrow

/-! ## Classes -/

namespace SuperContext

/-- Nodes with a part in directives are only rebuilt. -/
lemma use_of_not_isSilent (h : n.tag.isSilent = false) : use n = .plain := by
  obtain ⟨s, t, ks⟩ := n
  cases t <;> first | rfl | cases h

lemma isSilent_lower {c : SuperContext} (hr : ∀ r ∈ c.receiver?, r.tag.isSilent = true)
    (h : n.tag.isSilent = true) : (c.lower n).tag.isSilent = true := by
  have hcall : ∀ f r args, (callOn f r args).tag.isSilent = true := by
    intro f r args
    unfold callOn
    split <;> rfl
  have hshape := use_shape n
  rw [lower_eq]
  generalize use n = u at hshape
  cases hshape with
  | closed => exact h
  | call | methodCall => exact hcall _ _ _
  | store =>
    dsimp only
    unfold store
    split
    · rfl
    · split <;> rfl
  | read => rfl
  | this =>
    dsimp only
    cases hreceiver : c.receiver? with
    | none => rfl
    | some r => exact hr r hreceiver
  | plain => exact h

/-- A member keeps its directives where its `super` is lowered. -/
lemma follows_lower {c : SuperContext} (hc : c.WellFormed) (hr : ∀ r ∈ c.receiver?, r.tag.isSilent = true)
    (n : Node) (h : n.WellFormed) : Follows .classes n (c.lower n) := by
  induction n with
  | mk s t ks ih =>
    by_cases ht : t.isSilent = true
    · exact follows_of_isSilent (hc.lower_is _ h) ht (isSilent_lower hr ht)
    · have hplain : c.lower (Node.mk s t ks) = Node.mk s t (ks.map c.lower) := by
        rw [lower_eq, use_of_not_isSilent (n := Node.mk s t ks) (eq_false_of_ne_true ht)]
        rfl
      rw [hplain]
      refine follows_mk (by simp) ?_ h
      exact forall₂_map_right_iff.mpr (forall₂_same.mpr fun k hk => ih k hk (h.kid hk))

end SuperContext

namespace Class

/-- The contexts of members. -/
lemma follows_lower_member (parent : String) (isStatic : Bool) (receiver? : Option String) (h : n.WellFormed) :
    Follows .classes n (SuperContext.lower ⟨ident parent, isStatic, receiver?.map ident⟩ n) := by
  refine SuperContext.follows_lower ⟨is_ident, ?_⟩ (fun r hr => ?_) n h
  · cases receiver? with
    | none => exact is_this
    | some x => exact is_ident
  · obtain ⟨x, -, rfl⟩ := Option.map_eq_some_iff.mp hr
    rfl

lemma carried_isBody (P : List Node → Bool) (x : Span) : Carried (isBody Node.literal? P x) where
  super n hn := by
    obtain ⟨s, t, ks⟩ := n
    cases t <;> first | rfl | cases hn
  this n hn := by
    obtain ⟨s, t, ks⟩ := n
    obtain rfl : t = .this := hn
    rfl
  kids parent isStatic receiver? s t ks h :=
    isBody_congr (p := .classes) (forall₂_map_right_iff.mpr (forall₂_same.mpr fun _ hk =>
      follows_lower_member parent isStatic receiver? (h.kid hk))) h

/-- What is made without a place is found at no place. -/
lemma isBody_eq_false {P : List Node → Bool} {x : Span} (h : n.sourceSpan = .none) (hx : x ≠ .none) :
    isBody Node.literal? P x n = false := by
  simp [isBody, h, hx.symm]

/-- **The constructor keeps its directives.** The fields are initialized behind them. -/
lemma isBody_constructor {sb : Span} {key : Node}
    (hctor : (Parts.ofMembers ms).ctor? = some (mk s .ctor [key, ps, mk sb .block stmts])) (hps : ps.Is .params)
    (hb : (mk sb .block stmts).Is .block) (parentName : String) (derived : Bool) (P : List Node → Bool) (x : Span) :
    isBody Node.literal? P x (constructor (ident parentName) derived (Parts.ofMembers ms)) =
      isBody Node.literal? P x (mk s .ctor [key, ps, mk sb .block stmts]) := by
  have hlower : ∀ {n : Node}, n.WellFormed → Follows .classes n ((instanceContext (ident parentName)).lower n) :=
    follows_lower_member parentName false none
  have hstmts : (stmts.map (instanceContext (ident parentName)).lower).takeWhile isDirective =
      stmts.takeWhile isDirective := by
    rw [← prologueBy_literal?, ← prologueBy_literal?]
    exact prologueBy_congr (forall₂_map_right_iff.mpr (forall₂_same.mpr fun st hst =>
      (hlower (hb.1.kid hst)).directive))
  have hinits : ∀ k ∈ fieldInits (ident parentName) (Parts.ofMembers ms).fields, isDirective k = false := by
    intro k hk
    obtain ⟨_, hmem, rfl⟩ := mem_map.mp hk
    obtain ⟨m, -, rfl⟩ := mem_map.mp hmem
    rw [lower_initField]
    rfl
  have hprologue : prologueBy Node.literal? (insertAt (fieldsIndex stmts)
      (fieldInits (ident parentName) (Parts.ofMembers ms).fields)
      (stmts.map (instanceContext (ident parentName)).lower)) = prologueBy Node.literal? stmts := by
    rw [prologueBy_literal?, prologueBy_literal?,
      takeWhile_insertAt hinits (hstmts ▸ length_le_fieldsIndex stmts), hstmts]
  rw [constructor_explicit hctor]
  have hspan := (hlower hps.1).params hps.2
  simp only [isBody, Tag.isFunction, make, tag_mk, sourceSpan, bodyStatements, kids_mk, hspan,
    getLast?_cons_cons, getLast?_singleton, block, hprologue, if_true]

/-- Of the members, the constructor has a body of its own. -/
lemma any_isBody_members (hms : ∀ m ∈ ms, MemberShape m) (P : List Node → Bool) (x : Span) :
    ms.any (isBody Node.literal? P x) = (ms.filter (·.tag == .ctor)).any (isBody Node.literal? P x) := by
  rw [any_filter]
  refine any_congr_mem fun m hm => ?_
  cases hms m hm with
  | ctor | method | field | fieldInit | empty => rfl

/-- The functions of a class are those of the call that builds it. -/
lemma carries_build {cls : Node} (h : cls.Is .cls) (hl : isLowerable cls = true) (name : String)
    (parent? : Option String) (P : List Node → Bool) (x : Span) :
    Carries x (cls.any (isBody Node.literal? P x)) ((build name parent? cls).any (isBody Node.literal? P x)) := by
  obtain ⟨s, sm, ms, hs, rfl, hm, -, -⟩ := cls_shape h
  have hms := memberShapes h hl
  obtain ⟨rest, hbuild, hkids⟩ := any_build_carried (carried_isBody P x) h hl name parent?
  have hcls : (mk s .cls (mk sm .members ms :: hs)).any (isBody Node.literal? P x) =
      (ms.any (isBody Node.literal? P x) || rest) := by
    rw [any_mk, ← hkids]
    rfl
  have hmaker : x ≠ .none → isBody Node.literal? P x (maker name parent? ms) = false := isBody_eq_false rfl
  rw [hcls, hbuild, any_isBody_members hms]
  refine Carries.or ?_ (.of_eq rfl)
  rcases ctor?_cases hms with ⟨hnil, hnone⟩ | ⟨sc, sb, key, ps, stmts, hsome, hmem, hps, hb⟩
  · have himplicit : x ≠ .none → isBody Node.literal? P x
        (constructor (ident (parent?.getD "Object")) parent?.isSome (Parts.ofMembers ms)) = false := by
      have hctor := constructor_implicit hnone parent? parent?.isSome
      refine isBody_eq_false ?_
      exact (congrArg sourceSpan hctor).trans rfl
    rw [hnil, any_nil]
    refine ⟨fun hany => absurd hany Bool.false_ne_true, fun hx hany => ?_⟩
    rwa [hmaker hx, himplicit hx] at hany
  · rw [ctors_eq_singleton (ctor_length hm.1) hmem rfl, isBody_constructor hsome hps hb, any_cons, any_nil,
      Bool.or_false]
    refine ⟨fun hany => by rw [hany, Bool.or_true], fun hx hany => ?_⟩
    rwa [hmaker hx, Bool.false_or] at hany

lemma prologues_ruled (hR : Ruled n n' d) (h : n.WellFormed) : Prologues .classes n n' := by
  have his := hR.is h
  cases hR with
  | keep => exact .refl (by simp) h
  | @decl s i cls parent? hl =>
    refine ⟨follows_of_isSilent his rfl rfl, fun P x => ?_⟩
    have hcls := carries_build (cls_of_def h (.inl ⟨i, rfl⟩)) hl i.name parent? P x
    rw [Pass.literal?_eq (by simp), any_mk, show isBody _ P x (mk s (.classDecl i) [cls]) = false from rfl]
    simpa using hcls
  | @expr s i? cls name parent? hl =>
    refine ⟨follows_of_isSilent his rfl rfl, fun P x => ?_⟩
    have hcls := carries_build (cls_of_def h (.inr ⟨i?, rfl⟩)) hl name parent? P x
    rw [Pass.literal?_eq (by simp), any_mk, show isBody _ P x (mk s (.classExpr i?) [cls]) = false from rfl]
    simpa using hcls

lemma prologues_step {c : Nat} (hE : Each (fun n n' _ => n.WellFormed → Prologues .classes n n') ks ks' c)
    (hR : Ruled (mk s t ks') n' d) (h : (mk s t ks).WellFormed) : Prologues .classes (mk s t ks) n' := by
  have hkids := prologues_mk (by simp) (hE.forall₂ fun k hk k' d hr => hr (h.kid hk)) h
  exact hkids.trans (by simp) (prologues_ruled hR hkids.is.1)

end Class

/-! ## Scripts -/

namespace Pass

/-- The other passes only replace the statements of a script. -/
lemma forall₂_run (hp : p ≠ .arrowFunctions) {s : Script} (h : s.WellFormed) :
    Forall₂ (Prologues p) s.body (p.run s).1.body := by
  have hruled : ∀ rule, (∀ n : Node, n.WellFormed → Prologues p n (n.ruled rule)) →
      Forall₂ (Prologues p) s.body (s.applyRule rule).1.body := by
    intro rule hrule
    rw [Script.applyRule_body]
    exact forall₂_map_right_iff.mpr (forall₂_same.mpr fun n hn => hrule n (h n hn).1)
  cases p with
  | classes =>
    have hE := Class.lowerScript_rel (R := fun n n' _ => n.WellFormed → Prologues .classes n n')
      (fun s t ks ks' n' c d hE hR hw => Class.prologues_step hE hR hw) s
    exact hE.forall₂ fun k hk k' d hr => hr (h k hk).1
  | arrowFunctions => exact absurd rfl hp
  | objectShorthand => exact hruled _ (prologues_ruled_of_rule (by simp) fun _ _ => Shorthand.prologues_rule)
  | restParameters => exact hruled _ (prologues_ruled_of_rule (by simp) fun _ _ => Rest.prologues_rule)
  | templateLiterals =>
    refine hruled _ (EcmaLower.prologues_ruled (fun _ _ _ _ h => ?_) fun _ _ _ _ _ => Template.prologues_rule)
    cases h

/-- **All that a pass does to directives.** The statements of a script are followed, and what else the pass
puts behind the directives holds no function. -/
lemma run_prologues (p : Pass) {s : Script} (h : s.WellFormed) : ∃ new body',
    Forall₂ (Prologues p) s.body body' ∧ (p.run s).1.body = afterDirectives new body' ∧
    (∀ k ∈ new, isDirective k = false) ∧ ∀ P x, new.any (·.any (isBody Node.literal? P x)) = false := by
  by_cases hp : p = .arrowFunctions
  · subst hp
    obtain ⟨sc, body', c, hE, hbody, -⟩ := Arrow.lowerScript_rel
      (R := fun _ n n' _ => n.WellFormed → Prologues .arrowFunctions n n')
      (fun b n n' c _ hs hw => Arrow.prologues_step b n n' c hw hs) h
    exact ⟨sc.captures, body', hE.forall₂ fun k hk k' d hr => hr (h k hk).1, hbody,
      Arrow.isDirective_captures sc, fun P x => Arrow.any_captures sc⟩
  · exact ⟨[], _, forall₂_run hp h, (afterDirectives_nil _).symm, by simp, fun _ _ => rfl⟩

/-- A search finds the functions of a script, and those of the result of a pass. -/
lemma carries_run (p : Pass) {s : Script} (h : s.WellFormed) (P : List Node → Bool) (x : Span) :
    Carries x (s.body.any (·.any (isBody p.literal? P x)))
      ((p.run s).1.body.any (·.any (isBody Node.literal? P x))) := by
  obtain ⟨new, body', hbody, hrun, -, hnew⟩ := p.run_prologues h
  rw [hrun, any_afterDirectives, hnew, Bool.false_or]
  exact Carries.any (hbody.imp fun _ _ hk => hk.bodies P x)

/-- Besides the directives, templates without substitutions become directives. -/
lemma directiveBy_templateLiterals {st : Node} (h : isDirective st = false) :
    (directiveBy (literal? .templateLiterals) st).isSome = isPlainTemplate st := by
  unfold directiveBy
  split
  · rename_i s e
    obtain ⟨se, t, ks⟩ := e
    cases t with
    | str v => cases h
    | template qs => cases ks <;> rfl
    | _ => rfl
  · rename_i hne
    unfold isPlainTemplate
    split
    · exact absurd rfl (hne _ _)
    · rfl

/-- The directives of a body stay as they are, unless the pass makes another statement one of them. -/
lemma prologue_eq_iff (p : Pass) (stmts : List Node) :
    p.prologue stmts = stmts.takeWhile isDirective ↔ (p = .templateLiterals →
      ∀ st ∈ (stmts.dropWhile isDirective).head?, isPlainTemplate st = false) := by
  by_cases hp : p = .templateLiterals
  · subst hp
    simp only [true_imp_iff]
    induction stmts with
    | nil => simp [prologue, prologueBy]
    | cons st stmts ih =>
      rw [prologue, prologueBy, takeWhile_cons, dropWhile_cons]
      by_cases hd : isDirective st = true
      · have hsame : directiveBy (literal? .templateLiterals) st = some st := by
          obtain ⟨s, sv, v, ks, rfl⟩ := Class.isDirective_iff.mp hd
          rfl
        rw [hsame, if_pos hd, if_pos hd, cons_inj_right]
        exact ih
      · have hplain := directiveBy_templateLiterals (eq_false_of_ne_true hd)
        rw [if_neg hd, if_neg hd, head?_cons]
        cases hst : directiveBy (literal? .templateLiterals) st with
        | none | some d => simpa [hst] using hplain
  · simp only [hp, false_imp_iff, iff_true]
    rw [prologue, literal?_eq hp, prologueBy_literal?]

/-- **The directives of every body after each of the passes.** A script and every function of it keep the
directives they have, except that a template without substitutions right behind them becomes one of them
when templates are lowered. -/
theorem prologue_of_every_body (p : Pass) {s : Script} (h : s.WellFormed) :
    (p.run s).1.body.takeWhile isDirective = p.prologue s.body ∧
    (∀ f, s.Contains f → f.tag.isFunction = true → ∃ f', (p.run s).1.Contains f' ∧
      f'.tag.isFunction = true ∧ f'.sourceSpan = f.sourceSpan ∧
      f'.bodyStatements.takeWhile isDirective = p.prologue f.bodyStatements) ∧
    (∀ f', (p.run s).1.Contains f' → f'.tag.isFunction = true → f'.sourceSpan ≠ .none →
      ∃ f, s.Contains f ∧ f.tag.isFunction = true ∧ f.sourceSpan = f'.sourceSpan ∧
        f'.bodyStatements.takeWhile isDirective = p.prologue f.bodyStatements) ∧
    ∀ stmts, p.prologue stmts = stmts.takeWhile isDirective ↔ (p = .templateLiterals →
      ∀ st ∈ (stmts.dropWhile isDirective).head?, isPlainTemplate st = false) := by
  classical
  have hbody : ∀ (L : Node → Option Node) (ds : List Node) (x : Span) (f : Node),
      isBody L (fun l => decide (l = ds)) x f = true ↔
        f.tag.isFunction = true ∧ f.sourceSpan = x ∧ prologueBy L f.bodyStatements = ds := by
    intro L ds x f
    simp [isBody, and_assoc]
  refine ⟨?_, fun f hf hfun => ?_, fun f' hf' hfun hx => ?_, prologue_eq_iff p⟩
  · obtain ⟨new, body', hstmts, hrun, hnew, -⟩ := p.run_prologues h
    rw [hrun, takeWhile_afterDirectives hnew, ← prologueBy_literal?]
    exact prologueBy_congr (hstmts.imp fun _ _ hk => hk.directive)
  · have hfound := (p.carries_run h (fun l => decide (l = p.prologue f.bodyStatements)) f.sourceSpan).kept
      ((s.any_body_iff _).mpr ⟨f, hf, (hbody _ _ _ f).mpr ⟨hfun, rfl, rfl⟩⟩)
    obtain ⟨f', hf', hbody'⟩ := (Script.any_body_iff _ _).mp hfound
    obtain ⟨hfun', hx, hds⟩ := (hbody _ _ _ f').mp hbody'
    exact ⟨f', hf', hfun', hx, by rw [← prologueBy_literal?, hds]⟩
  · have hfound := (p.carries_run h (fun l => decide (l = f'.bodyStatements.takeWhile isDirective))
      f'.sourceSpan).only hx ((Script.any_body_iff _ _).mpr
        ⟨f', hf', (hbody _ _ _ f').mpr ⟨hfun, rfl, prologueBy_literal? _⟩⟩)
    obtain ⟨f, hf, hbody'⟩ := (s.any_body_iff _).mp hfound
    obtain ⟨hfun', hx', hds⟩ := (hbody _ _ _ f).mp hbody'
    exact ⟨f, hf, hfun', hx', hds.symm⟩

/-- `function f() { … }`, which stands at 1. -/
def functionAt1 (body : List Node) : Node := mk ⟨1, 90⟩ (.func false false) [params [], block body]

/-- A template without substitutions, as a statement. -/
def textStmt (text : String) : Node := exprStmt (make (.template [⟨text, some (Units.ofString text)⟩]) [])

/-- A string literal as a statement. -/
def stringStmt (text : String) : Node := exprStmt (strLit text)

/-- A constructor keeps its directives before the field of its class. In
`` function f() { "a"; `b`; c; `d`; } `` one of the templates becomes a directive. -/
theorem prologue_of_every_body_constructorAndTemplates :
    let ctor := make .ctor [make (.keyName "constructor") [], mk ⟨5, 8⟩ .params [],
      block [stringStmt "use strict", exprStmt (ident "b")]]
    let cls : Script := { body := [make (.classDecl ⟨"A", .none⟩) [make .cls
      [make .members [make (.field false) [make (.keyName "x") []], ctor]]]] }
    let f := functionAt1 [stringStmt "a", textStmt "b", exprStmt (ident "c"), textStmt "d"]
    let script : Script := { body := [make (.funcDecl ⟨"f", .none⟩) [f]] }
    cls.WellFormed ∧ script.WellFormed ∧
      (∃ f', (classes.run cls).1.Contains f' ∧ f'.tag.isFunction = true ∧ f'.sourceSpan = ⟨5, 8⟩ ∧
        f'.bodyStatements.takeWhile isDirective = [stringStmt "use strict"]) ∧
      ∃ f', (templateLiterals.run script).1.Contains f' ∧ f'.tag.isFunction = true ∧ f'.sourceSpan = ⟨1, 90⟩ ∧
        f'.bodyStatements.takeWhile isDirective = [stringStmt "a", stringStmt "b"] := by
  intro ctor cls f script
  have hcls : cls.WellFormed := by decide
  have hscript : script.WellFormed := by decide
  refine ⟨hcls, hscript, ?_, ?_⟩
  · exact (prologue_of_every_body classes hcls).2.1 ctor
      ⟨_, mem_singleton_self _, Within.first (Within.first (Within.second .refl))⟩ rfl
  · exact (prologue_of_every_body templateLiterals hscript).2.1 f ⟨_, mem_singleton_self _, Within.first .refl⟩ rfl

/-- **A template becomes a directive**: `` function f() { `use strict`; return this; } `` has no directives, and
becomes strict. -/
theorem prologue_of_template_statement :
    let s : Script := { body := [make (.funcDecl ⟨"f", .none⟩)
      [functionAt1 [textStmt "use strict", returnStmt this]]] }
    let f := functionAt1 [textStmt "use strict", returnStmt this]
    let f' := functionAt1 [stringStmt "use strict", returnStmt this]
    s.WellFormed ∧ f.bodyStatements.takeWhile isDirective = [] ∧
      (templateLiterals.run s).1.body = [make (.funcDecl ⟨"f", .none⟩) [f']] ∧
      f'.bodyStatements.takeWhile isDirective = [stringStmt "use strict"] :=
  ⟨by decide, rfl, rfl, rfl⟩

end Pass

end EcmaLower
