import EcmaLower.Parser.Primary
import EcmaLower.Proofs.Parser.ClassBody

/-!
# Primary expressions that are read
-/

namespace EcmaLower.Parse

open Node

variable {g : Grammar} [hg : g.Sound]

/-! ## Lists of expressions -/

lemma ensures_expr : Ensures (expr g) (ReadAs .expr) := by
  refine hg.assign.bind fun first => .next fun isSeq => .ite (fun _ => .pure id) fun _ => ?_
  refine .bind (P := fun l => ∀ e ∈ l, e.ReadAs .expr) (.collect_forall fun acc => ?_) fun rest => ?_
  · exact .next fun more => .ite (fun _ => hg.assign.map fun e he => by simpa using he) fun _ => .pure (by simp)
  · refine .next fun span => .pure fun hrest hfirst => ⟨read_list ?_ fun _ => rfl, rfl⟩
    exact allIn_cons.mpr ⟨hfirst.beq, fun e he => (hrest e he).beq⟩

lemma ensures_exprOrSpread : Ensures (exprOrSpread g) (ReadIn Role.isArgument) := by
  refine .next fun start => .next fun isSpread => .ite (fun _ => ?_) fun _ => ?_
  · refine hg.assign.bind fun e => .pure fun he => ?_
    exact ⟨read_of_roles (.cons he .nil) rfl, rfl⟩
  · exact hg.assign.mono fun e he => he.within rfl

lemma ensures_arguments : Ensures (arguments g) (AllIn Role.isArgument) := by
  refine .within (.next fun _ => .bind (P := AllIn Role.isArgument) ?_ fun args => ?_)
  · refine .collect_forall fun acc => .next fun isEnd => .ite (fun _ => .pure (by simp)) fun _ => ?_
    have harg : Ensures (some <$> allowIn (exprOrSpread g)) fun r =>
        ∀ a ∈ r, a.ReadIn Role.isArgument :=
      ensures_exprOrSpread.allowIn.map fun e he => by simpa using he
    refine .ite (fun _ => .next fun _ => .next fun isEnd => ?_) fun _ => harg
    exact .ite (fun _ => .pure (by simp)) fun _ => harg
  · exact .next fun _ => .pure id

/-- The roles of what stands in an array literal. -/
def isArrayPart (r : Role) : Bool := r.isArgument || r == .hole

lemma ensures_arrayLiteral : Ensures (arrayLiteral g) (ReadAs .expr) := by
  refine .within (.next fun start => .next fun _ => .bind (P := AllIn isArrayPart) ?_ fun elems => ?_)
  · refine .collect_forall fun acc => .next fun isEnd => .ite (fun _ => .pure (by simp)) fun _ => ?_
    refine .next fun isHole => .ite (fun _ => .next fun _ => .pure ?_) fun _ => ?_
    · simpa using ⟨read_leaf rfl, rfl⟩
    · refine ensures_exprOrSpread.allowIn.bind fun e => .next fun isEnd => ?_
      extract_lets result
      have hresult : ∀ x, Ensures (result x) fun r => e.ReadIn Role.isArgument → ∀ a ∈ r, a.ReadIn isArrayPart :=
        fun _ => .pure fun he => by simpa using he.mono fun r hr => by simp [isArrayPart, hr]
      clear_value result
      refine .ite (fun _ => .next fun _ => .next fun isEnd => ?_) fun _ => hresult ()
      exact .ite (fun _ => .next fun comma => .next hresult) fun _ => hresult ()
  · refine .next fun _ => .next fun span => .pure fun helems => ?_
    exact ⟨read_list helems fun _ => rfl, rfl⟩

/-! ## Templates and regular expressions -/

lemma quiet_rescan {r : Lex Token} (h : ∀ l, Lex.Leads l Token.Sound (r l)) : Quiet (rescan r) where
  ensures := by
    intro s
    refine ends_lex h fun t l hl ht => ?_
    exact ⟨⟨fun hs => ⟨(hl.placed hs).lex, ht hs, hs.next⟩, hl.clean⟩, fun _ _ => trivial⟩

instance (c : Context) : Quiet (rescan (Lex.templateToken c)) := quiet_rescan (Lex.leads_templateToken c)

instance : Quiet (rescan Lex.regExpToken) := quiet_rescan Lex.leads_regExpToken

/-- The parts of a template: without a tag, each has the value of its text. -/
def ArePieces (isTagged : Bool) (quasis : List Quasi) : Prop := isTagged = false → ∀ q ∈ quasis, q.isCooked = true

lemma ArePieces.concat {isTagged : Bool} {quasis : List Quasi} {q : Quasi} (h : ArePieces isTagged quasis)
    (hq : isTagged = false → q.isCooked = true) : ArePieces isTagged (quasis ++ [q]) :=
  fun ht => forall_mem_concat (h ht) (hq ht)

/-- **A template has one more text than it has substitutions**, and without a tag each text has a
value. -/
lemma ensures_templateParts (isTagged : Bool) : Ensures (templateParts g isTagged) fun r =>
    r.1.length = r.2.length + 1 ∧ ArePieces isTagged r.1 ∧ AllIn (· == .expr) r.2 := by
  let I (x : List Quasi × List Node) : Prop :=
    x.1.length = x.2.length ∧ ArePieces isTagged x.1 ∧ AllIn (· == .expr) x.2
  refine .loop I (by simp [I, ArePieces]) fun (quasis, exprs) => ensures_kind.bind fun k => ?_
  split
  · next first isLast raw cooked =>
    extract_lets rest
    have hrest : ∀ q, Ensures (rest q) fun r => (isTagged = false → q.isCooked = true) →
        I (quasis, exprs) → Progress I
          (fun r => r.1.length = r.2.length + 1 ∧ ArePieces isTagged r.1 ∧ AllIn (· == .expr) r.2) r := by
      refine fun q => .next fun _ => .ite (fun _ => .pure fun hq h => ?_) fun _ => ?_
      · exact ⟨by simp [h.1], h.2.1.concat hq, h.2.2⟩
      · refine ensures_expr.allowIn.bind fun e => .next fun _ => .next fun isEnd => .check fun _ => ?_
        refine .next fun c => .next fun _ => .next fun _ => .pure fun he hq h => ?_
        exact ⟨by simp [h.1], h.2.1.concat hq, h.2.2.concat he.beq⟩
    clear_value rest
    cases cooked with
    | ok us =>
      refine .pure_bind ((hrest _).mono fun r hr hk => hr fun _ => ?_)
      exact Quasi.isCooked_iff.mpr ⟨us, rfl, hk⟩
    | error f =>
      refine .ite (fun htagged => .pure_bind ((hrest _).mono fun r hr hk => hr ?_)) fun _ => ?_
      · exact fun hplain => absurd htagged (by simp [hplain])
      · exact (Ensures.throw (Q := fun _ => False)).bind fun q => (hrest q).mono fun r _ hf => hf.elim
  · exact ensures_unexpected _

lemma ensures_templateLiteral : Ensures (templateLiteral g) (ReadAs .expr) := by
  refine .next fun start => (ensures_templateParts false).bind fun (quasis, exprs) => ?_
  refine .next fun span => .pure fun hr => ⟨read_mk.mpr ⟨?_, ?_, fun e he => (hr.2.2 e he).1⟩, rfl⟩
  · simpa [isStray] using hr.2.1 rfl
  · simpa [Tag.fits, hr.1] using fun e he => (hr.2.2 e he).2

instance (span : Span) (flags : List Char) : Quiet (checkFlags span flags) := by
  unfold checkFlags
  extract_lets known twice
  refine ⟨.check fun _ => ?_⟩
  unfold twice
  split
  · exact (ensures_note _ _).mono nofun
  · exact .pure trivial

lemma ensures_regExp : Ensures regExp (ReadAs .expr) := by
  refine .next fun start => .next fun _ => .next fun k => ?_
  split
  · exact .next fun _ => .next fun span => .next fun _ => .pure ⟨read_leaf rfl, rfl⟩
  · exact ensures_failHere _

/-! ## Arrow functions -/

lemma ensures_arrowFunction (start : Nat) (isAsync : Bool) (ps : List Node) :
    Ensures (arrowFunction g start isAsync ps) fun f => AreParams ps → f.ReadAs .expr := by
  refine (ensures_arrowTail isAsync ps).bind fun body => .next fun span => .pure fun hbody hps => ?_
  rcases hbody with hbody | hbody
  · exact ⟨read_of_roles (.cons (hps.params _) (.cons hbody .nil)) rfl, rfl⟩
  · exact ⟨read_of_roles (.cons (hps.params _) (.cons hbody .nil)) rfl, rfl⟩

lemma AreParams.cons {p : Node} {ps : List Node} (hp : p.ReadIn Role.isTarget) (h : AreParams ps) :
    AreParams (p :: ps) := by
  refine ⟨List.forall_mem_cons.mpr ⟨hp.1, h.read⟩, ?_⟩
  have hne : p.role ≠ .rest := by
    intro hr
    have := hp.2
    rw [hr] at this
    cases this
  have hfits := h.fits
  cases ps with
  | nil => simp [Role.areParams, hp.2]
  | cons q qs =>
    simp only [Role.areParams, List.map_cons, List.all_cons, List.dropLast_cons_cons, Bool.and_eq_true,
      bne_iff_ne] at hfits ⊢
    exact ⟨⟨by simp [hp.2], hfits.1⟩, hne, hfits.2⟩

lemma areParams_rest {p : Node} (hp : p.ReadAs .rest) : AreParams [p] :=
  ⟨by simpa using hp.1, by simp [Role.areParams, hp.2]⟩

/-- **Expressions in parentheses that turn out to be parameters.** -/
lemma ensures_arrowParams (comma : Option Span) (items : List Node) :
    Ensures (arrowParams comma items) fun ps => AllIn Role.isArgument items → AreParams ps := by
  induction items with
  | nil => exact .pure fun _ => ⟨by simp, rfl⟩
  | cons e rest ih =>
    obtain ⟨s, t, ks⟩ := e
    simp only [allIn_cons]
    unfold arrowParams
    split
    · next inner ht hks =>
      cases ht
      cases hks
      refine .ite (fun _ => (ensures_note _ _).bind fun _ => ih.mono fun ps _ h => h.elim) fun _ => ?_
      extract_lets param checked
      have hparam : ∀ x, Ensures (param x) fun ps =>
          (mk s .spread [inner]).ReadIn Role.isArgument ∧ AllIn Role.isArgument rest → AreParams ps := by
        refine fun _ => (ensures_toPattern inner .bound).bind fun p => .pure fun hp he => ?_
        have hfits := he.1.1.fits
        simp only [Tag.fits, List.map_cons, List.map_nil, beq_iff_eq, List.cons.injEq, and_true] at hfits
        have hp := hp.expr ⟨he.1.1.kid (by simp), hfits⟩
        exact areParams_rest ⟨read_one hp fun _ => rfl, rfl⟩
      refine .check fun _ => ?_
      unfold checked
      split
      · exact .next hparam
      · exact hparam ()
    · next hspread =>
      refine (ensures_toPattern _ .bound).bind fun p => ih.bind fun ps => .pure fun hps hp he => ?_
      refine AreParams.cons (hp.expr ⟨he.1.1, ?_⟩) (hps he.2)
      have hrole := he.1.2
      simp only [Role.isArgument, Bool.or_eq_true, beq_iff_eq] at hrole
      refine hrole.resolve_right fun hr => ?_
      obtain rfl : t = .spread := Tag.eq_of_role (congrArg Role.onlyTag hr)
      obtain ⟨inner, rfl, -⟩ := he.1.1.1.single rfl
      exact hspread inner rfl rfl

lemma ensures_checkedArrowParams (comma : Option Span) (items : List Node) :
    Ensures (checkedArrowParams comma items) fun ps => AllIn Role.isArgument items → AreParams ps := by
  refine (ensures_arrowParams comma items).bind fun ps => .next fun c => ?_
  exact .ite (fun _ => .next fun _ => .pure id) fun _ => .pure id

/-! ## Parentheses -/

lemma ensures_parenItems : Ensures (parenItems g) fun r => AllIn Role.isArgument r.1 := by
  refine .next fun _ => .bind (P := fun r => AllIn Role.isArgument r.1) ?_ fun r => .next fun _ => .pure id
  refine .loop (fun x => AllIn Role.isArgument x.1) (by simp) fun (acc, comma) => ?_
  refine .next fun isEnd => .ite (fun _ => .pure id) fun _ => .next fun start => ?_
  refine ensures_exprOrSpread.bind fun e => ?_
  extract_lets items rest
  have hrest : ∀ l, Ensures (rest l) fun r => AllIn Role.isArgument l →
      Progress (fun x => AllIn Role.isArgument x.1) (fun r => AllIn Role.isArgument r.1) r := by
    refine fun l => .next fun isEnd => .ite (fun _ => .pure id) fun _ => .next fun _ => ?_
    exact .next fun isEnd => .ite (fun _ => .next fun comma => .pure id) fun _ => .pure id
  have hitems : e.ReadIn Role.isArgument → AllIn Role.isArgument acc → AllIn Role.isArgument items :=
    fun he hacc => hacc.concat he
  clear_value items rest
  have hsame := (hrest items).mono fun r hr he hacc => hr (hitems he hacc)
  refine .next fun isArrow => .ite (fun _ => ?_) fun _ => .pure_bind hsame
  split
  · refine (ensures_checkedArrowParams none _).bind fun ps => ?_
    refine (ensures_arrowFunction start false ps).bind fun f => .pure_bind ?_
    refine (hrest _).mono fun r hr hf hps he hacc => hr ((hitems he hacc).concat ?_)
    exact (hf (hps (hitems he hacc))).within rfl
  · exact .pure_bind hsame

instance (e : Node) : Quiet (noteInitShorthand e) := by
  refine ⟨.ite (fun _ => ?_) fun _ => .pure trivial⟩
  refine (Ensures.forM (P := fun _ => True) fun p => ?_).mono fun _ _ => trivial
  split
  · exact (ensures_note _ _).mono nofun
  · exact .pure trivial

lemma ensures_noSpread (e : Node) : Ensures (noSpread e) fun _ => e.tag ≠ .spread :=
  .ite (fun _ => ensures_fail _ _) fun h => .pure (by simpa using h)

lemma readAs_expr_of_argument {e : Node} (h : e.ReadIn Role.isArgument) (hs : e.tag ≠ .spread) : e.ReadAs .expr := by
  have hrole := h.2
  simp only [Role.isArgument, Bool.or_eq_true, beq_iff_eq] at hrole
  exact ⟨h.1, hrole.resolve_right fun hr => hs (Tag.eq_of_role (congrArg Role.onlyTag hr))⟩

lemma ensures_parenOrArrow (canBeArrow : Bool) (async : Option Span) :
    Ensures (parenOrArrow g canBeArrow async) (ReadAs .expr) := by
  unfold parenOrArrow
  extract_lets rest
  have hrest : ∀ start, Ensures (rest start) (ReadAs .expr) := by
    refine fun start => ensures_parenItems.within.bind fun (items, comma) => ?_
    refine .next fun isArrow => .ite (fun _ => .next fun _ => ?_) fun _ => .next fun _ => ?_
    · extract_lets arrow checked
      have harrow : ∀ x, Ensures (arrow x) fun f => AllIn Role.isArgument items → f.ReadAs .expr := by
        refine fun _ => .next fun _ => (ensures_checkedArrowParams comma items).bind fun ps => ?_
        exact (ensures_arrowFunction start async.isSome ps).mono fun f hf hps hitems => hf (hps hitems)
      clear_value arrow
      have hchecked : ∀ x, Ensures (checked x) fun f => AllIn Role.isArgument items → f.ReadAs .expr :=
        fun _ => .ite (fun _ => .next fun _ => .next harrow) fun _ => harrow ()
      exact .ite (fun _ => .next fun _ => .next hchecked) fun _ => hchecked ()
    · cases async with
      | some s =>
        refine .next fun span => .pure fun hitems => ⟨read_cons ?_ hitems fun _ _ => rfl, rfl⟩
        exact ReadAs.beq (r := .expr) ⟨read_leaf rfl, rfl⟩
      | none =>
        dsimp only
        split
        · exact .next fun _ => ensures_fail _ _
        · next e =>
          refine (ensures_noSpread e).bind fun _ => .next fun span => .pure fun hs hitems => ?_
          have he := readAs_expr_of_argument (hitems e (by simp)) hs
          exact ⟨read_of_roles (.cons he .nil) rfl, rfl⟩
        · refine (Ensures.forM ensures_noSpread).bind fun _ => .next fun span => .pure fun hs hitems => ?_
          refine ⟨read_of_roles (.cons ⟨?_, rfl⟩ .nil) rfl, rfl⟩
          refine read_list (fun e he => ?_) fun _ => rfl
          exact (readAs_expr_of_argument (hitems e he) (hs e he)).beq
  clear_value rest
  cases async with
  | some s => exact .pure_bind (hrest _)
  | none => exact .next hrest

/-! ## Names -/

lemma areParams_binding (span : Span) (name : String) : AreParams [mk span (.binding name) []] :=
  .cons ⟨read_leaf rfl, rfl⟩ ⟨by simp, rfl⟩

lemma ensures_nameOrArrow (canBeArrow : Bool) : Ensures (nameOrArrow g canBeArrow) (ReadAs .expr) := by
  refine .next fun start => .next fun c => .next fun isAsync => .next fun i => ?_
  extract_lets name asyncArrow result arrow
  have hname : name.ReadAs .expr := ⟨read_leaf rfl, rfl⟩
  have hasyncArrow : ∀ x, Ensures (asyncArrow x) (ReadAs .expr) := by
    refine fun _ => .next fun p => .next fun _ => (ensures_arrowFunction start true _).mono ?_
    exact fun f hf => hf (areParams_binding _ _)
  have harrow : ∀ x, Ensures (arrow x) (ReadAs .expr) := fun _ =>
    (ensures_arrowFunction start false _).mono fun f hf => hf (areParams_binding _ _)
  clear_value name asyncArrow arrow
  refine .ite (fun _ => .pure hname) fun _ => .next fun _ => .next fun _ => .ite (fun _ => ?_) fun _ => ?_
  · refine .next fun isOf => .ite (fun _ => .next fun next => ?_) fun _ => hasyncArrow ()
    refine .ite (fun _ => ?_) fun _ => hasyncArrow ()
    exact .ite (fun _ => .next fun _ => .next fun _ => .pure hname) fun _ => .pure hname
  · refine .next fun _ => .next fun _ => .ite (fun _ => .next fun _ => ?_) fun _ => .pure hname
    exact .check harrow

/-! ## Primary expressions -/

lemma readAs_namedExpr {tag : Option Ident → Tag} {r : Option Ident × Node} {role : Role}
    (ht : ∀ i, (tag i).role = .expr ∧ (tag i).reads [role] = true)
    (h : r.2.ReadAs role) : (namedExpr tag r).ReadAs .expr :=
  ⟨read_of_roles (.cons h .nil) (ht r.1).2, (ht r.1).1⟩

/-- **A primary expression.** -/
lemma ensures_primary : Ensures (primary g) (ReadAs .expr) := by
  unfold primary
  refine ensures_curPos.bind fun start => .next fun s => ?_
  extract_lets canBeArrow leaf
  have hleaf : ∀ t : Tag, t = .this ∨ t.reads [] = true → t.role = .expr →
      Ensures (leaf t) fun e => 1 ≤ start → e.ReadAs .expr := by
    intro t ht hr
    refine .next fun _ => (ensures_spanFrom start).bind fun span => .pure fun hspan hstart => ?_
    refine ⟨?_, hr⟩
    obtain rfl | ht := ht
    · refine read_mk.mpr ⟨beq_eq_false_iff_ne.mpr fun hnone : span = .none => ?_, rfl, by simp⟩
      rw [hnone] at hspan
      exact absurd hstart (by rw [← hspan]; decide)
    · exact read_leaf ht
  have hread : ∀ {m : Parse Node}, Ensures m (ReadAs .expr) →
      Ensures m fun e => 1 ≤ start → e.ReadAs .expr := fun h => h.mono fun e he _ => he
  clear_value canBeArrow leaf
  have hfunction : ∀ isAsync, Ensures (namedExpr .funcExpr <$> function g start isAsync true false)
      (ReadAs .expr) := fun isAsync => (ensures_function start isAsync true false).map fun r hr =>
    readAs_namedExpr (fun i => ⟨rfl, rfl⟩) hr
  refine .next fun k => ?_
  split
  · exact hleaf _ (.inr rfl) rfl
  · exact hleaf _ (.inr rfl) rfl
  · exact hleaf _ (.inr rfl) rfl
  · exact hread ensures_templateLiteral
  · exact hread ensures_arrayLiteral
  · exact hread ensures_objectLiteral
  · exact hread (ensures_parenOrArrow canBeArrow none)
  · exact hread ensures_regExp
  · exact hread ensures_regExp
  · refine hread (.next fun _ => .next fun i => .next fun span => .pure ?_)
    exact ⟨read_leaf rfl, rfl⟩
  · exact hleaf _ (.inl rfl) rfl
  · exact hleaf _ (.inr rfl) rfl
  · exact hleaf _ (.inr rfl) rfl
  · exact hleaf _ (.inr rfl) rfl
  · exact hread (hfunction false)
  · refine hread ((ensures_classTail start false).map fun r hr => ?_)
    exact readAs_namedExpr (fun i => ⟨rfl, rfl⟩) hr
  · extract_lets name
    have hname : ∀ x, Ensures (name x) (ReadAs .expr) := fun _ => .next fun _ =>
      .ite (fun _ => ensures_nameOrArrow canBeArrow) fun _ => ensures_failHere _
    clear_value name
    refine hread (.ite (fun _ => .next fun next => .ite (fun _ => .next fun _ => ?_) fun _ => ?_) fun _ => hname ())
    · exact hfunction true
    · refine .ite (fun _ => .next fun _ => .next fun span => ?_) fun _ => hname ()
      exact ensures_parenOrArrow canBeArrow (some span)
  · exact hread (ensures_nameOrArrow canBeArrow)
  · exact ensures_failHere _

end EcmaLower.Parse
