import EcmaLower.Lower.Pass
import EcmaLower.Proofs.ArrowPass
import EcmaLower.Proofs.Parentheses

/-!
# Parentheses around functions

An arrow is as loose as an assignment, and the function in its place is a primary expression, so it fits
wherever the arrow did. The exception is the start of a statement, where it would be read as a declaration.
There the lowering of arrows writes parentheses, and this module shows that it does so exactly where a function
now comes first. Object shorthands and rest parameters need no parentheses either.

## Main results

* `Position.admits_of_becomes` — all positions admit it, statements apart.
* `Arrow.turned_step` — each step of the traversal keeps trees safe.
* `Arrow.opens_step` — which statements get parentheses.
* `Pass.parenSafe_functions` — the passes keep scripts safe.
-/

namespace EcmaLower

open Node List Build

variable {s : Span} {body body' e e' n p x : Node} {ks ks' : List Node} {a c : Bool} {f : Face} {t : Tag}

/-! ## Faces -/

/-- What becomes of a face if arrows become functions: an arrow is as loose as an assignment and a function is
not, and `toFunction` tells whether the text now starts with a function. -/
structure Face.Becomes (toFunction : Bool) (f f' : Face) : Prop where
  level : f'.level = f.level ∨ (f.level = .assignment ∧ f'.level = .member)
  start : f'.start = if toFunction then .functionWord else f.start
  hasIn : f'.hasIn = true → f.hasIn = true

namespace Face.Becomes

variable {toFunction : Bool} {f f' : Face}

lemma refl (f : Face) : Becomes false f f := ⟨.inl rfl, rfl, id⟩

lemma rank_le (h : Becomes toFunction f f') : f.level.rank ≤ f'.level.rank := by
  rcases h.level with hl | ⟨hl, hl'⟩
  · exact Nat.le_of_eq (congrArg Level.rank hl.symm)
  · rw [hl, hl']
    decide

lemma eq_call_iff (h : Becomes toFunction f f') : f'.level = .call ↔ f.level = .call := by
  rcases h.level with hl | ⟨hl, hl'⟩
  · rw [hl]
  · simp [hl, hl']

lemma eq_sequence_iff (h : Becomes toFunction f f') : f'.level = .sequence ↔ f.level = .sequence := by
  rcases h.level with hl | ⟨hl, hl'⟩
  · rw [hl]
  · simp [hl, hl']

end Face.Becomes

/-- **Every position but that of a statement admits a function in the place of an arrow.** -/
lemma Position.admits_of_becomes {toFunction : Bool} {f' : Face} (h : f.Becomes toFunction f') {p : Position}
    (hp : p ≠ .statement) (ha : p.admits f = true) : p.admits f' = true := by
  have hrank := h.rank_le
  have hin : f.hasIn = false → f'.hasIn = false := fun hf => eq_false_of_ne_true fun hf' => by
    rw [h.hasIn hf'] at hf
    cases hf
  cases p with
  | free => rfl
  | statement => exact absurd rfl hp
  | assignment | test | operand | leftHand =>
    simp only [admits, decide_eq_true_eq] at ha ⊢
    omega
  | arrowBody =>
    simp only [admits, Bool.and_eq_true, decide_eq_true_eq, bne_iff_ne] at ha ⊢
    refine ⟨by omega, ?_⟩
    rw [h.start]
    split
    · simp
    · exact ha.2
  | left op | right op =>
    rcases h.level with hl | ⟨hl, -⟩
    · simpa only [admits, hl] using ha
    · rw [admits, hl] at ha
      cases op <;> cases ha
  | base | chained optional =>
    rcases h.level with hl | ⟨hl, -⟩ <;> simp_all [admits]
  | constructed hasArgs =>
    cases hasArgs <;> rcases h.level with hl | ⟨hl, -⟩ <;> simp_all [admits]
  | forInit =>
    simp only [admits, Bool.not_eq_true'] at ha ⊢
    exact hin ha
  | forTarget =>
    simp only [admits, Bool.and_eq_true, decide_eq_true_eq, Bool.not_eq_true'] at ha ⊢
    exact ⟨by omega, hin ha.2⟩

/-- A node starts with a function if the operand does that it starts with. -/
lemma becomes_mk {head : Node → Bool} (hks : Forall₂ (fun k k' => ∃ c, k.face.Becomes c k'.face) ks ks')
    (hhead : t.startsWithFirst = true → ∀ k ∈ ks.head?, ∀ k' ∈ ks'.head?, k.face.Becomes (head k) k'.face) :
    (mk s t ks).face.Becomes (t.startsWithFirst && ks.head?.any head) (mk s t ks').face := by
  have hlevel : t.level (ks'.map Node.face) = t.level (ks.map Node.face) := by
    cases hks with
    | nil => rfl
    | cons hk _ =>
      obtain ⟨c, hk⟩ := hk
      cases t with
      | member | tagged => simp only [map_cons, Tag.level, hk.eq_call_iff]
      | keyComputed => simp only [map_cons, Tag.level, hk.eq_sequence_iff]
      | new hasArgs => cases hasArgs <;> rfl
      | _ => rfl
  rw [face_mk, face_mk]
  refine ⟨.inl hlevel, ?_, hasIn_of_forall₂ (hks.imp fun _ _ hk => hk.elim fun _ h => h.hasIn)⟩
  cases hfirst : t.startsWithFirst with
  | false => simp [Tag.face, hfirst]
  | true =>
    cases hks with
    | nil => simp [Tag.face, hfirst]
    | cons => simpa [Tag.face, hfirst] using (hhead hfirst _ rfl _ rfl).start

/-- Only the comma operator may have an arrow, or an expression that starts with one, as its first operand. -/
lemma eq_seq_of_admits (ht : t.startsWithFirst = true) (hf : f.level.rank ≤ 1) (ha : (t.position 0).admits f = true) :
    t = .seq := by
  obtain ⟨l, start, hasIn⟩ := f
  have hl : l = .sequence ∨ l = .assignment := by
    cases l with
    | sequence => exact .inl rfl
    | assignment => exact .inr rfl
    | _ => simp [Level.rank] at hf
  cases t with
  | seq => rfl
  | binary op => rcases hl with rfl | rfl <;> cases op <;> cases ha
  | optMember optional | optCall optional => rcases hl with rfl | rfl <;> cases optional <;> cases ha
  | assign | cond | update | member | call | tagged => rcases hl with rfl | rfl <;> cases ha
  | _ => cases ht

namespace Arrow

/-! ## Functions in the place of arrows -/

/-- Whether an expression with mark `b` starts with an arrow that becomes a function. -/
def startsWithLowered (b : Bool) (e : Node) : Bool := e.fold fun _ t ks =>
  match t with
  | .arrow _ => !keeps b (ks.map (·.1))
  | t => t.startsWithFirst && ks.head?.any (·.2)

lemma startsWithLowered_arrow (b : Bool) (s : Span) (a : Bool) (parts : List Node) :
    startsWithLowered b (mk s (.arrow a) parts) = !keeps b parts := by
  rw [startsWithLowered, fold_mk]
  simp only [map_map, Function.comp_def, map_id']

lemma startsWithLowered_mk (b : Bool) (ht : ∀ a, t ≠ .arrow a) :
    startsWithLowered b (mk s t ks) = (t.startsWithFirst && ks.head?.any (startsWithLowered b)) := by
  rw [startsWithLowered, fold_mk]
  cases t with
  | arrow a => exact absurd rfl (ht a)
  | _ => cases ks <;> rfl

/-- What becomes of a node, as far as parentheses go. -/
structure Turned (toFunction : Bool) (n n' : Node) : Prop where
  becomes : n.face.Becomes toFunction n'.face
  safe : Safe n → Safe n'
  paren : n'.tag = .paren ↔ n.tag = .paren
  /-- What starts with a function is told by its start, and was an arrow or had commas. -/
  opening : Safe n → toFunction = true → n.face.level.rank ≤ 1 ∧ startsLikeDeclaration n' = true

lemma Turned.refl (n : Node) : Turned false n n := ⟨.refl _, id, .rfl, fun _ h => by cases h⟩

/-- What starts like a declaration can be told from outside. -/
lemma start_of_startsLikeDeclaration (e : Node) (h : startsLikeDeclaration e = true) : e.face.start ≠ .other := by
  induction e with
  | mk s t ks ih =>
    rw [startsLikeDeclaration, fold_mk] at h
    rw [face_mk]
    cases t with
    | funcExpr | classExpr | object => simp [Tag.face, Tag.startsWithFirst, Tag.ownStart]
    | seq | binary | cond | member | call | tagged =>
      cases ks with
      | nil => cases h
      | cons k ks => exact ih k (by simp) h
    | _ => cases h

/-- A node whose parts were turned. -/
lemma turned_mk (head : Node → Bool) (ht : t ≠ .exprStmt) (hks : Forall₂ (fun k k' => ∃ c, Turned c k k') ks ks')
    (hhead : t.startsWithFirst = true → ∀ k ∈ ks.head?, ∀ k' ∈ ks'.head?, Turned (head k) k k') :
    Turned (t.startsWithFirst && ks.head?.any head) (mk s t ks) (mk s t ks') := by
  refine ⟨?_, fun hs => ?_, .rfl, fun hs hfirst => ?_⟩
  · exact becomes_mk (hks.imp fun _ _ ⟨c, hk⟩ => ⟨c, hk.becomes⟩)
      fun hfirst k hk k' hk' => (hhead hfirst k hk k' hk').becomes
  · have hstatement : ∀ i, t.position i ≠ .statement := by
      intro i hi
      cases t with
      | exprStmt => exact ht rfl
      | _ => cases i <;> cases hi
    rw [safe_mk] at hs ⊢
    clear hhead
    generalize 0 = i at hs ⊢
    induction hks generalizing i with
    | nil => exact hs
    | cons hk _ ih =>
      obtain ⟨c, hk⟩ := hk
      rw [zipIdx_cons, forall_mem_cons] at hs ⊢
      exact ⟨⟨Position.admits_of_becomes hk.becomes (hstatement i) hs.1.1, hk.safe hs.1.2⟩, ih (i + 1) hs.2⟩
  · rw [Bool.and_eq_true] at hfirst
    cases hks with
    | nil => cases hfirst.2
    | @cons k k' _ _ _ _ =>
      obtain ⟨hadmits, hsafe⟩ := safe_mk.mp hs (k, 0) (by simp)
      obtain ⟨hrank, hlike⟩ := (hhead hfirst.1 k rfl k' rfl).opening hsafe hfirst.2
      obtain rfl := eq_seq_of_admits hfirst.1 hrank hadmits
      refine ⟨by rw [face_mk]; exact Nat.zero_le _, ?_⟩
      rw [startsLikeDeclaration, fold_mk]
      exact hlike

/-! ## Generated code -/

/-- The declarations of a scope need no parentheses. -/
lemma safe_captures (sc : Scope) : ∀ k ∈ sc.captures, Safe k := by
  intro k hk
  refine (safe_iff k).mpr ⟨?_, eq_false_of_ne_true (any_eq_false.mp (any_captures sc) k hk)⟩
  rw [Scope.captures_eq] at hk
  split at hk
  · cases hk
  · rw [mem_singleton.mp hk]
    refine (seated_free fun _ => rfl).mpr fun d hd => ?_
    obtain ⟨w, x, -, rfl⟩ := Scope.mem_declarators.mp hd
    have hword : Plain w.node := by
      cases w with
      | this => exact plain_this
      | arguments => exact plain_ident
    refine (seated_mk_of_position fun _ => rfl).mpr (forall_mem_cons.mpr ⟨⟨rfl, seated_leaf⟩, ?_⟩)
    exact forall_mem_singleton.mpr (hword.stands (by simp))

lemma safe_afterDirectives (sc : Scope) {stmts : List Node} (h : ∀ k ∈ stmts, Safe k) :
    ∀ k ∈ afterDirectives sc.captures stmts, Safe k := by
  intro k hk
  rcases mem_afterDirectives.mp hk with hk | hk
  · exact safe_captures sc k hk
  · exact h k hk

/-- A block in which variables are declared. -/
lemma turned_declareIn (sc : Scope) (hb : body'.Is .block) (h : Turned c body body') :
    Turned c body (declareIn sc.captures body') := by
  obtain ⟨s, stmts, rfl⟩ := eq_of_role hb.2 rfl
  have hface : ∀ ks, (mk s .block ks).face = {} := by
    intro ks
    rw [face_mk]
    simp [Tag.face, Tag.level, Tag.startsWithFirst, Tag.ownStart, Tag.writesIn, Tag.isOpen]
  refine ⟨?_, fun hs => ?_, h.paren, fun hs hc => ?_⟩
  · rw [declareIn, hface, ← hface stmts]
    exact h.becomes
  · exact (safe_free fun _ => rfl).mpr (safe_afterDirectives sc ((safe_free fun _ => rfl).mp (h.safe hs)))
  · have := (h.opening hs hc).2
    rw [startsLikeDeclaration, fold_mk] at this
    cases this

lemma safe_blockOf (h : Safe body) : Safe (blockOf body) := by
  unfold blockOf
  split
  · exact h
  · exact (safe_free fun _ => rfl).mpr (forall_mem_singleton.mpr
      ((safe_free fun _ => rfl).mpr (forall_mem_singleton.mpr h)))

/-- The function in the place of an arrow. -/
lemma turned_toFunction {d : Bool} {p' : Node} (hp : p'.Is .params) (hparams : Turned c p p')
    (hbody : Turned d body body') : Turned true (mk s (.arrow a) [p, body]) (toFunction s a p' body') := by
  obtain ⟨sp, ps, rfl⟩ := eq_of_role hp.2 rfl
  have hface : (toFunction s a (mk sp .params ps) body').face = { start := .functionWord } := by
    rw [toFunction_eq, funcExpr, face_mk]
    rfl
  have hlevel : (mk s (.arrow a) [p, body]).face.level = .assignment := by
    rw [face_mk]
    rfl
  refine ⟨?_, fun hs => ?_, ?_, fun _ _ => ⟨by rw [hlevel]; decide, ?_⟩⟩
  · rw [hface]
    exact ⟨.inr ⟨hlevel, rfl⟩, rfl, fun h => by cases h⟩
  · have hps : ∀ k ∈ ps, Safe k := (safe_free fun _ => rfl).mp (hparams.safe (hs.kid (by simp)))
    refine (safe_free fun _ => rfl).mpr (forall_mem_singleton.mpr ((safe_free fun _ => rfl).mpr ?_))
    simp only [forall_mem_cons, not_mem_nil, false_imp_iff, implies_true, and_true]
    exact ⟨(safe_free fun _ => rfl).mpr hps, safe_blockOf (hbody.safe (hs.kid (by simp)))⟩
  · simp [toFunction_eq, funcExpr]
  · rw [toFunction_eq, funcExpr, startsLikeDeclaration, fold_mk]

lemma safe_paren (h : Safe e) : Safe (paren e) := (safe_free fun _ => rfl).mpr (forall_mem_singleton.mpr h)

/-- Where a safe statement starts with a function now, it has to be told from a declaration. -/
lemma startsLikeDeclaration_eq (h : Turned c e e') (hs : SafeAt .statement e) : startsLikeDeclaration e' = c := by
  cases c with
  | true => exact (h.opening hs.2 rfl).2
  | false =>
    refine eq_false_of_ne_true fun hlike => start_of_startsLikeDeclaration e' hlike ?_
    rw [h.becomes.start]
    exact beq_iff_eq.mp hs.1

/-- A statement gets parentheses if it starts with a function now. -/
lemma turned_exprStmt (h : Turned c e e') : Turned false (mk s .exprStmt [e]) (mk s .exprStmt [asStatement e']) := by
  have hface : ∀ e, (mk s .exprStmt [e]).face = {} := by
    intro e
    rw [face_mk]
    rfl
  refine ⟨by rw [hface, hface]; exact .refl _, fun hs => ?_, .rfl, fun _ hc => by cases hc⟩
  have he := (safe_mk_of_position fun _ => rfl).mp hs e (by simp)
  refine (safe_mk_of_position fun _ => rfl).mpr (forall_mem_singleton.mpr ?_)
  rw [asStatement, startsLikeDeclaration_eq h he]
  cases c with
  | true => exact ⟨by rw [if_pos rfl, face_paren]; rfl, safe_paren (h.safe he.2)⟩
  | false =>
    refine ⟨?_, h.safe he.2⟩
    rw [if_neg (by simp), Position.admits, h.becomes.start]
    exact he.1

/-! ## The traversal -/

/-- **Each step of the traversal keeps trees safe.** -/
theorem turned_step (b : Bool) (n n' : Node) (c : Nat) (h : n.WellFormed)
    (hstep : Step (fun b n n' _ => n'.Is n.role ∧ Turned (startsWithLowered b n) n n') b n n' c) :
    n'.Is n.role ∧ Turned (startsWithLowered b n) n n' := by
  refine ⟨step_is b n n' c h (hstep.mono fun _ _ _ _ h => h.1), ?_⟩
  cases hstep with
  | @rebuilt _ s t ks ks' _ hkids hparts hstatement harrow =>
    have hks := hparts.forall₂
      (P := fun k e => ∃ m, (m, k) ∈ visited b (mk s t ks) ∧ e.Is k.role ∧ Turned (startsWithLowered m k) k e)
      hkids (fun x hx _ _ _ hk => ⟨x.1, hx, hk⟩) fun sc k e hk he => he.imp fun _ he =>
        ⟨he.1, hk.2.symm ▸ is_declareIn (hk.2 ▸ he.2.1) sc, turned_declareIn sc (hk.2 ▸ he.2.1) he.2.2⟩
    have hturns : Forall₂ (fun k k' => ∃ c, Turned c k k') ks ks' :=
      hks.imp fun _ _ hk => hk.elim fun _ hk => ⟨_, hk.2.2⟩
    by_cases ha : ∃ a, t = .arrow a
    · obtain ⟨a, rfl⟩ := ha
      rw [startsWithLowered_arrow, harrow a rfl]
      exact turned_mk (t := .arrow a) (fun _ => false) hstatement hturns fun hf => by cases hf
    · rw [startsWithLowered_mk b (not_exists.mp ha)]
      refine turned_mk _ hstatement hturns fun hfirst k hk k' hk' => ?_
      have hmarks : visited b (mk s t ks) = ks.map (b, ·) := by cases t <;> first | rfl | cases hfirst
      cases hks with
      | nil => cases hk
      | cons hhead _ =>
        cases hk
        cases hk'
        obtain ⟨m, hm, -, hturned⟩ := hhead
        rw [hmarks] at hm
        obtain ⟨k, -, he⟩ := mem_map.mp hm
        cases he
        exact hturned
  | field | staticBlock =>
    rw [startsWithLowered_mk b (by simp)]
    exact .refl _
  | lowered hkeep hparams _ hp hb =>
    rw [startsWithLowered_arrow, hkeep]
    exact turned_toFunction (hparams.2 ▸ hp.1) hp.2 hb.2
  | word hword =>
    rcases Tag.eq_of_contextWord hword with ⟨rfl, -⟩ | ⟨rfl | rfl, -⟩ <;>
    exact ⟨.refl _, fun _ => rfl, by simp [Node.readFrom, ident, make, keyValue], fun _ h => by cases h⟩
  | statement _ he => exact turned_exprStmt he.2

/-! ## Statements -/

lemma within_declareIn (sc : Scope) (hb : body.Is .block) (hx : x.role = .stmt) (h : x.Within body) :
    x.Within (declareIn sc.captures body) := by
  obtain ⟨s, stmts, rfl⟩ := eq_of_role hb.2 rfl
  rcases within_mk_iff.mp h with rfl | ⟨k, hk, hw⟩
  · cases hx
  · exact .kid (mem_afterDirectives.mpr (.inr hk)) hw

lemma within_toFunction (hp : p.Is .params) (hx : x.role = .stmt) (h : x.Within p ∨ x.Within body) :
    x.Within (toFunction s a p body) := by
  obtain ⟨sp, ps, rfl⟩ := eq_of_role hp.2 rfl
  refine .kid (mem_singleton_self _) ?_
  rcases h with h | h
  · rcases within_mk_iff.mp h with rfl | ⟨k, hk, hw⟩
    · cases hx
    · exact .kid (mem_cons_self ..) (.kid hk hw)
  · refine .kid (mem_cons_of_mem _ (mem_singleton_self _)) ?_
    split
    · exact h
    · exact .kid (mem_singleton_self _) (.kid (mem_singleton_self _) h)

lemma within_asStatement (h : x.Within e) : x.Within (asStatement e) := by
  unfold asStatement
  split
  · exact .kid (mem_singleton_self _) h
  · exact h

/-- **What becomes of a child that is visited** holds the statements that the result of the node holds of it. -/
lemma Step.exists_kid {R : Bool → Node → Node → Nat → Prop} {b m : Bool} {n' k : Node} {c : Nat} (h : n.WellFormed)
    (hstep : Step (fun b n n' c => n'.Is n.role ∧ R b n n' c) b n n' c) (hk : (m, k) ∈ visited b n) :
    ∃ k' d, R m k k' d ∧ ∀ x : Node, x.role = .stmt → x.Within k' → x.Within n' := by
  cases hstep with
  | rebuilt _ hparts =>
    obtain ⟨k', hk', e, d, hr, rfl | ⟨hb, sc, rfl⟩⟩ := hparts.exists_right hk
    · exact ⟨k', d, hr.2, fun x _ hw => .kid hk' hw⟩
    · exact ⟨e, d, hr.2, fun x hx hw => .kid hk' (within_declareIn sc (hb.2 ▸ hr.1) hx hw)⟩
  | field | staticBlock => cases hk
  | lowered _ hparams _ hp hb =>
    simp only [visited, map_cons, map_nil, mem_cons, Prod.mk.injEq, not_mem_nil, or_false] at hk
    rcases hk with ⟨rfl, rfl⟩ | ⟨rfl, rfl⟩
    · exact ⟨_, _, hp.2, fun x hx hw => within_toFunction (hparams.2 ▸ hp.1) hx (.inl hw)⟩
    · exact ⟨_, _, hb.2, fun x hx hw => within_toFunction (hparams.2 ▸ hp.1) hx (.inr hw)⟩
  | word hword =>
    have := mem_kids_of_mem_visited hk
    cases this
  | statement _ he =>
    simp only [visited, map_cons, map_nil, mem_cons, Prod.mk.injEq, not_mem_nil, or_false] at hk
    obtain ⟨rfl, rfl⟩ := hk
    exact ⟨_, _, he.2, fun x _ hw => .kid (by simp) (within_asStatement hw)⟩

/-- What becomes of the statements that are visited in a node. -/
def Opens (b : Bool) (n n' : Node) : Prop := ∀ {b' : Bool} {span : Span} {e : Node},
  Reaches visited b' (mk span .exprStmt [e]) b n → Safe n → ∃ r, Turned (startsWithLowered b' e) e r ∧
    (mk span .exprStmt [if startsWithLowered b' e then paren r else r]).Within n'

/-- **A statement gets parentheses exactly if it starts with an arrow that becomes a function.** -/
theorem opens_step (b : Bool) (n n' : Node) (c : Nat) (h : n.WellFormed)
    (hstep : Step (fun b n n' _ => n'.Is n.role ∧ Turned (startsWithLowered b n) n n' ∧ Opens b n n') b n n' c) :
    n'.Is n.role ∧ Turned (startsWithLowered b n) n n' ∧ Opens b n n' := by
  obtain ⟨his, hturned⟩ := turned_step b n n' c h (hstep.mono fun _ _ _ _ h => ⟨h.1, h.2.1⟩)
  refine ⟨his, hturned, fun {b' span e} hreach hs => ?_⟩
  cases hreach with
  | here =>
    cases hstep with
    | statement _ he =>
      have hsafe := (safe_mk_of_position fun _ => rfl).mp hs e (by simp)
      refine ⟨_, he.2.1, ?_⟩
      rw [asStatement, startsLikeDeclaration_eq he.2.1 hsafe]
      exact .refl
    | rebuilt _ _ hne => exact absurd rfl hne
  | @step _ m _ k hk hreach =>
    obtain ⟨s, t, ks⟩ := n
    obtain ⟨k', d, hr, hwithin⟩ := hstep.exists_kid h hk
    obtain ⟨r, hr, hw⟩ := hr.2 hreach (hs.kid (mem_kids_of_mem_visited hk))
    exact ⟨r, hr, hwithin _ rfl hw⟩

end Arrow

/-! ## Rules -/

/-- A rule that keeps faces keeps trees safe if it keeps nodes safe. -/
lemma safe_ruled {rule : Node → Option Node} (hr : KeepsShape rule)
    (hrule : ∀ n new, n.WellFormed → rule n = some new → new.face = n.face ∧ (Safe n → Safe new))
    (n : Node) (h : n.WellFormed) : (n.ruled rule).face = n.face ∧ (Safe n → Safe (n.ruled rule)) := by
  refine ruled_induct (R := fun n m => m.face = n.face ∧ (Safe n → Safe m)) hr (fun s t ks h ih => ⟨?_, ?_⟩)
    (fun _ m new hw hnew hm => ?_) n h
  · rw [face_mk, face_mk, map_map]
    exact congrArg t.face (map_congr_left fun k hk => (ih k hk).1)
  · rw [safe_mk, safe_mk, zipIdx_map, forall_mem_map]
    intro hs x hx
    obtain ⟨hface, hsafe⟩ := ih x.1 (fst_mem_of_mem_zipIdx hx)
    exact ⟨hface ▸ (hs x hx).1, hsafe (hs x hx).2⟩
  · obtain ⟨hface, hsafe⟩ := hrule m new hw hnew
    exact ⟨hface.trans hm.1, fun hs => hsafe (hm.2 hs)⟩

lemma face_keyValue (a b : Node) : (keyValue a b).face = {} := by
  rw [keyValue, face_mk]
  simp [Tag.face, Tag.level, Tag.startsWithFirst, Tag.ownStart, Tag.writesIn, Tag.isOpen]

/-- A shorthand and the property in its place. -/
lemma Shorthand.safe_rule {new : Node} (hn : n.WellFormed) (h : rule n = some new) :
    new.face = n.face ∧ (Safe n → Safe new) := by
  obtain ⟨s, name, ks, rfl, rfl⟩ | ⟨s, key, f, rfl, -, rfl⟩ := rule_cases h
  · obtain rfl : ks = [] := hn.leaf rfl
    exact ⟨rfl, fun _ => rfl⟩
  · refine ⟨?_, fun hs => (safe_mk_of_position fun _ => rfl).mpr ?_⟩
    · rw [face_keyValue, face_mk]
      simp [Tag.face, Tag.level, Tag.startsWithFirst, Tag.ownStart, Tag.writesIn, Tag.isOpen]
    · have hkids := (safe_mk_of_position fun _ => rfl).mp hs
      refine forall_mem_cons.mpr ⟨hkids key (by simp), forall_mem_singleton.mpr ⟨?_, ?_⟩⟩
      · rw [funcExpr, face_mk]
        rfl
      · exact (safe_free fun _ => rfl).mpr (forall_mem_singleton.mpr (hkids f (by simp)).2)

namespace Rest

/-- What a rest parameter binds can be declared. -/
lemma safe_slice {pat : Node} {i : Nat} (h : SafeAt .leftHand pat) : Safe (slice pat i) := by
  obtain ⟨hadmits, hsafe⟩ := h
  obtain ⟨hseated, hoperands⟩ := (safe_iff pat).mp hsafe
  refine (safe_iff _).mpr ⟨?_, by simpa [slice] using hoperands⟩
  refine (seated_free fun _ => rfl).mpr (forall_mem_singleton.mpr
    ((seated_mk_of_position fun _ => rfl).mpr (forall_mem_cons.mpr ⟨⟨?_, hseated⟩, ?_⟩)))
  · simp only [Position.admits, Position.seats, decide_eq_true_eq] at hadmits ⊢
    exact Nat.le_trans (by decide) hadmits
  · refine forall_mem_singleton.mpr (stands_assignment.mpr ⟨by simp [face_call], seated_call.mpr ⟨?_, ?_⟩⟩)
    · exact (plain_path _).stands (by simp)
    · simp only [forall_mem_cons, not_mem_nil, false_imp_iff, implies_true, and_true]
      exact ⟨plain_ident.stands (by simp), ⟨rfl, seated_leaf⟩⟩

/-- A function and its result when the rest parameter moves. -/
lemma safe_rule {new : Node} (hn : n.WellFormed) (h : rule n = some new) :
    new.face = n.face ∧ (Safe n → Safe new) := by
  cases moves_of_rule hn h with
  | @intro s sp sr sb t before stmts pat keys ht _ _ =>
    have hfree : ∀ i, t.position i = .free := by
      obtain ⟨a, g, rfl, -⟩ | ⟨key, rfl, -⟩ := ht <;> exact fun _ => rfl
    refine ⟨?_, fun hs => (safe_free hfree).mpr fun k hk => ?_⟩
    · obtain ⟨a, g, rfl, rfl⟩ | ⟨key, rfl, rfl⟩ := ht <;> rw [face_mk, face_mk] <;> rfl
    have hkids := (safe_free hfree).mp hs
    have hparams := (safe_free fun _ => rfl).mp (hkids (mk sp .params (before ++ [mk sr .restPat [pat]])) (by simp))
    simp only [mem_append, mem_cons, not_mem_nil, or_false] at hk
    rcases hk with hk | rfl | rfl
    · exact hkids k (by simp [hk])
    · exact (safe_free fun _ => rfl).mpr fun k hk => hparams k (by simp [hk])
    · refine (safe_free fun _ => rfl).mpr fun k hk => ?_
      rcases mem_afterDirectives.mp hk with hk | hk
      · rw [mem_singleton.mp hk]
        exact safe_slice ((safe_mk_of_position fun _ => rfl).mp (hparams (mk sr .restPat [pat]) (by simp)) pat (by simp))
      · exact (safe_free fun _ => rfl).mp (hkids (mk sb .block stmts) (by simp)) k hk

end Rest

/-! ## Scripts -/

/-- A rule that keeps nodes safe keeps scripts safe. -/
lemma Script.parenSafe_applyRule {rule : Node → Option Node} (hr : KeepsShape rule)
    (hrule : ∀ n new, n.WellFormed → rule n = some new → new.face = n.face ∧ (Safe n → Safe new)) {s : Script}
    (h : s.WellFormed) (hs : s.parenSafe = true) : (s.applyRule rule).1.parenSafe = true := by
  rw [parenSafe_iff_forall_safe] at hs ⊢
  rw [applyRule_body, forall_mem_map]
  exact fun n hn => (safe_ruled hr hrule n (h n hn).1).2 (hs n hn)

/-- **The passes that make functions keep scripts safe**, and those for shorthands and rest parameters do. Every
statement that the lowering of arrows visits stays, and it gets parentheses exactly if it starts with an arrow
that becomes a function.

**Proof sketch.** A function fits wherever an arrow does, statements apart (`Position.admits_of_becomes`). In a
safe statement an arrow comes first only as the whole expression or as the first operand of a comma, and there
the function is found by its start (`Turned.opening`). -/
theorem Pass.parenSafe_functions {s : Script} (h : s.WellFormed) (hs : s.parenSafe = true) :
    (∀ pass ∈ [arrowFunctions, objectShorthand, restParameters], (pass.run s).1.parenSafe = true) ∧
    ∀ n ∈ s.body, ∀ b span e, Reaches Arrow.visited b (mk span .exprStmt [e]) false n →
      ∃ r, (r.tag = .paren ↔ e.tag = .paren) ∧
        r.face.start = (if Arrow.startsWithLowered b e then .functionWord else .other) ∧
        (arrowFunctions.run s).1.Contains
          (mk span .exprStmt [if Arrow.startsWithLowered b e then paren r else r]) := by
  have hsafe := s.parenSafe_iff_forall_safe.mp hs
  obtain ⟨sc, body', c, hE, hbody, -⟩ := Arrow.lowerScript_rel
    (R := fun b n n' _ => n'.Is n.role ∧ Arrow.Turned (Arrow.startsWithLowered b n) n n' ∧ Arrow.Opens b n n')
    Arrow.opens_step h
  refine ⟨?_, fun n hn b span e hreach => ?_⟩
  · simp only [forall_mem_cons, not_mem_nil, false_imp_iff, implies_true, and_true]
    refine ⟨?_, Script.parenSafe_applyRule Shorthand.keepsShape (fun _ _ => Shorthand.safe_rule) h hs,
      Script.parenSafe_applyRule Rest.keepsShape (fun _ _ => Rest.safe_rule) h hs⟩
    rw [Script.parenSafe_iff_forall_safe]
    change ∀ n ∈ (Arrow.lowerScript s).1.body, Safe n
    rw [hbody]
    exact Arrow.safe_afterDirectives sc (hE.forall_right fun k hk k' d hr => hr.2.1.safe (hsafe k hk))
  · obtain ⟨n', hn', d, -, -, hopens⟩ := hE.exists_right hn
    obtain ⟨r, hturned, hwithin⟩ := hopens hreach (hsafe n hn)
    have hstatement : Safe (mk span .exprStmt [e]) :=
      (hsafe n hn).within (Arrow.within_of_reaches_visited hreach)
    have hstart : e.face.start = .other :=
      beq_iff_eq.mp (safe_mk.mp hstatement (e, 0) (by simp)).1
    refine ⟨r, hturned.paren, by rw [hturned.becomes.start, hstart], n', ?_, hwithin⟩
    change n' ∈ (Arrow.lowerScript s).1.body
    rw [hbody]
    exact mem_afterDirectives.mpr (.inr hn')

namespace Pass

/-- An arrow without parameters. -/
def arrowTo (body : Node) : Node := make (.arrow false) [params [], body]

/-- `() => this, f(async () => {})`: the statement starts with a function. -/
theorem parenSafe_functions_commas :
    let e := make .seq [arrowTo this, call (ident "f")
      [make (.arrow true) [params [], block []]]]
    let s : Script := { body := [exprStmt e] }
    s.WellFormed ∧ s.parenSafe = true ∧ (arrowFunctions.run s).1.parenSafe = true ∧
      ∃ r, r.face.start = .functionWord ∧ (arrowFunctions.run s).1.Contains (exprStmt (paren r)) := by
  intro e s
  have hw : s.WellFormed := by decide
  have hs : s.parenSafe = true := by decide
  obtain ⟨hsafe, hstatements⟩ := parenSafe_functions hw hs
  obtain ⟨r, -, hstart, hr⟩ := hstatements _ (mem_singleton_self _) false .none e .here
  have hlowered : Arrow.startsWithLowered false e = true := by decide
  rw [hlowered] at hstart hr
  exact ⟨hw, hs, hsafe _ (by simp), r, hstart, hr⟩

/-- **An arrow that is kept gets no parentheses**: `var o = { m() { () => super.x; } }` stays as it is. -/
theorem statement_of_kept_arrow :
    let arrow := arrowTo (make (.superMember .none) [make (.keyName "x") []])
    let method := make .objMethod [make (.keyName "m") [], func [] [exprStmt arrow]]
    let s : Script := { body := [var [declarator (binding "o")
      (some (make .object [method]))]] }
    s.WellFormed ∧ s.parenSafe = true ∧ arrowFunctions.run s = (s, 0) :=
  ⟨by decide, by decide, rfl⟩

end Pass

end EcmaLower
