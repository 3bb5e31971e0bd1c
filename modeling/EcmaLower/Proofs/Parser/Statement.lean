import EcmaLower.Parser.Statement
import EcmaLower.Proofs.Parser.Expression

/-!
# Statements that are read
-/

namespace EcmaLower.Parse

open Node

variable {g : Grammar} [hg : g.Sound]

/-! ## Declarations of variables -/

instance : Quiet isVarStart := by
  refine ⟨.next fun k => ?_⟩
  split
  · exact .pure trivial
  · exact .pure trivial
  · exact .next fun t => .pure trivial
  · exact .pure trivial

lemma ensures_declarator (kind : VarKind) (inForHead : Bool) :
    Ensures (declarator g kind inForHead) (ReadAs .declarator) := by
  refine .next fun start => (hg.binding _).bind fun name => ?_
  have hname : Ensures (do return mk (← spanFrom start) .declarator [name]) fun d =>
      name.ReadAs .pat → d.ReadAs .declarator :=
    .next fun span => .pure fun hname => ⟨read_one (hname.within rfl) fun _ => rfl, rfl⟩
  refine .next fun _ => .next fun _ => .ite (fun _ => hname) fun _ => .next fun hasValue => ?_
  refine .ite (fun _ => hg.assign.bind fun value => .next fun span => ?_) fun _ => ?_
  · exact .pure fun hvalue hname =>
      ⟨read_two (hname.within rfl) hvalue.beq fun _ _ => rfl, rfl⟩
  · refine .ite (fun _ => .next fun _ => .next fun _ => hname) fun _ => ?_
    split
    · exact hname
    · exact .next fun _ => .next fun _ => hname

instance (n : Nat) : Quiet (skipStatement n) := by
  induction n with
  | zero => exact ⟨.pure trivial⟩
  | succ n ih => unfold skipStatement; infer_instance

lemma ensures_declarators (keyword : Span) (kind : VarKind) (inForHead : Bool) :
    Ensures (declarators g keyword kind inForHead) (AllIn (· == .declarator)) := by
  refine .loop (AllIn (· == .declarator)) (by simp) fun acc => ?_
  refine .next fun isEnd => .ite (fun _ => .next fun _ => .next fun _ => .pure id) fun _ => ?_
  refine (ensures_declarator kind inForHead).within.bind fun d => .next fun more => ?_
  exact .ite (fun _ => .pure fun hd hacc => hacc.concat hd.beq) fun _ =>
    .pure fun hd hacc => hacc.concat hd.beq

instance : Quiet (expr g) := ensures_expr.quiet

lemma ensures_varDecl (inForHead : Bool) : Ensures (varDecl g inForHead) fun n =>
    n.ReadAs .stmt ∧ ∃ kind, n.tag = .varDecl kind := by
  refine .next fun start => .next fun k => ?_
  extract_lets kind
  refine .next fun _ => .next fun keyword => (ensures_declarators keyword kind inForHead).bind fun decls => ?_
  have hdecl : Ensures (do return mk (← spanFrom start) (.varDecl kind) decls) fun n =>
      AllIn (· == .declarator) decls → n.ReadAs .stmt ∧ ∃ kind, n.tag = .varDecl kind :=
    .next fun span => .pure fun hdecls => ⟨⟨read_list hdecls fun _ => rfl, rfl⟩, kind, rfl⟩
  refine .ite (fun _ => .next fun isEnd => .ite (fun _ => ?_) fun _ => hdecl) fun _ => hdecl
  exact .next fun _ => .next fun _ => .next fun _ => .next fun _ => .next fun _ => hdecl

instance : Quiet isUsingStart := by unfold isUsingStart; infer_instance

lemma ensures_usingDecl (start : Nat) : Ensures (usingDecl g start) (ReadAs .stmt) :=
  .next fun _ => .next fun _ => (ensures_declarators _ _ _).bind fun _ => .next fun _ =>
    (ensures_note _ _).bind fun _ => .pure nofun

/-! ## Loops -/

lemma ensures_subStmt : Ensures (subStmt g) (ReadIn Role.isStatement) := (hg.stmt false).within

lemma ensures_loopBody : Ensures (loopBody g) (ReadIn Role.isStatement) := ensures_subStmt.within

lemma ensures_parenthesized : Ensures (parenthesized g) (ReadAs .expr) :=
  .next fun _ => ensures_expr.allowIn.bind fun _ => .next fun _ => .pure id

lemma ensures_whileStmt : Ensures (whileStmt g) (ReadAs .stmt) := by
  refine .next fun start => .next fun _ => ensures_parenthesized.bind fun test => ?_
  refine ensures_loopBody.bind fun body => .next fun span => .pure fun hbody htest => ?_
  exact ⟨read_two htest.beq hbody fun _ _ => rfl, rfl⟩

lemma ensures_doWhile : Ensures (doWhile g) (ReadAs .stmt) := by
  refine .next fun start => .next fun _ => ensures_loopBody.bind fun body => .next fun _ => ?_
  refine ensures_parenthesized.bind fun test => .next fun _ => .next fun span => ?_
  exact .pure fun htest hbody => ⟨read_two htest.beq hbody fun _ _ => rfl, rfl⟩

lemma readAs_absentNode : absentNode.ReadAs .absent := ⟨read_leaf rfl, rfl⟩

/-- The roles of the first part of the head of a loop. -/
def isForInit (r : Role) : Bool := r.isOptional || r == .stmt

/-- The roles of what a loop over the parts of a value assigns to. -/
def isForLeft (r : Role) : Bool := r.isTarget || r == .stmt

/-- The head of a loop was read well. -/
def ForHead.IsRead : ForHead → Prop
  | .plain init test update => init.ReadIn isForInit ∧ test.ReadIn Role.isOptional ∧ update.ReadIn Role.isOptional
  | .forIn left right | .forOf left right => left.ReadIn isForLeft ∧ right.ReadAs .expr

lemma ensures_plainForHead (init : Node) : Ensures (plainForHead g init) fun h =>
    init.ReadIn isForInit → h.IsRead := by
  unfold plainForHead
  extract_lets rest
  have hrest : ∀ test, Ensures (rest test) fun h =>
      test.ReadIn Role.isOptional → init.ReadIn isForInit → h.IsRead := by
    refine fun test => .next fun isEnd => .ite (fun _ => .pure fun htest hinit => ?_) fun _ => ?_
    · exact ⟨hinit, htest, readAs_absentNode.within rfl⟩
    · refine ensures_expr.allowIn.bind fun update => .pure fun hupdate htest hinit => ?_
      exact ⟨hinit, htest, hupdate.within rfl⟩
  clear_value rest
  refine .next fun noTest => .ite (fun _ => ?_) fun _ => ensures_expr.allowIn.bind fun e => ?_
  · exact .pure_bind ((hrest _).mono fun h hh => hh (readAs_absentNode.within rfl))
  · exact .next fun _ => .pure_bind ((hrest e).mono fun h hh he => hh (he.within rfl))

lemma ensures_eachForHead (left : Node) : Ensures (eachForHead g left) fun h =>
    left.ReadIn isForLeft → h.IsRead := by
  refine .next fun isOf => .ite (fun _ => hg.assign.allowIn.bind fun right => ?_) fun _ =>
    .next fun _ => ensures_expr.allowIn.bind fun right => ?_
  · exact .pure fun hright hleft => ⟨hleft, hright⟩
  · exact .pure fun hright hleft => ⟨hleft, hright⟩

instance : Quiet isInOrOf := by unfold isInOrOf; infer_instance

instance (decl : Node) : Quiet (checkForDecl decl) := by
  unfold checkForDecl
  refine ⟨?_⟩
  split
  · refine .next fun _ => .next fun _ => .ite (fun _ => ?_) fun _ => .pure trivial
    split
    · exact (ensures_note _ _).mono nofun
    · exact .pure trivial
  · refine (Ensures.forM (P := fun _ => True) fun d => ?_).mono fun _ _ => trivial
    split
    · exact (ensures_note _ _).mono nofun
    · exact .pure trivial

lemma ensures_forHead : Ensures (forHead g) ForHead.IsRead := by
  refine .next fun isDecl => .ite (fun _ => (ensures_varDecl true).bind fun decl => ?_) fun _ => ?_
  · refine .next fun isEach => .ite (fun _ => .next fun _ => ?_) fun _ => .next fun _ => ?_
    · exact (ensures_eachForHead decl).mono fun h hh hdecl => hh (hdecl.1.within rfl)
    · exact (ensures_plainForHead decl).mono fun h hh hdecl => hh (hdecl.1.within rfl)
  refine .next fun noInit => .ite (fun _ => ?_) fun _ => ensures_expr.within.bind fun init => ?_
  · exact (ensures_plainForHead _).mono fun h hh => hh (readAs_absentNode.within rfl)
  refine .next fun isEach => .ite (fun _ => ?_) fun _ => .next fun _ => ?_
  · refine (ensures_toPattern init .assigned).bind fun p => (ensures_eachForHead p).mono ?_
    exact fun h hh hp hinit => hh ((hp.expr hinit).mono fun r hr => by simp [isForLeft, hr])
  · exact (ensures_plainForHead init).mono fun h hh hinit => hh (hinit.within rfl)

/-- **A loop with the head that its kind has.** -/
lemma ensures_forStmt : Ensures (forStmt g) (ReadAs .stmt) := by
  unfold forStmt
  refine .next fun start => .next fun _ => .next fun isAwait => ?_
  extract_lets rest
  have hrest : ∀ await, Ensures (rest await) (ReadAs .stmt) := by
    refine fun await => .next fun _ => ensures_forHead.within.bind fun head => .next fun _ => ?_
    refine ensures_loopBody.bind fun body => .next fun span => ?_
    split
    · refine .pure fun hbody hhead => ?_
      exact ⟨read_three hhead.1 hhead.2.beq hbody fun _ _ _ => rfl, rfl⟩
    · exact ensures_fail _ _
    · refine .pure fun hbody hhead => ?_
      exact ⟨read_three hhead.1 hhead.2.beq hbody fun _ _ _ => rfl, rfl⟩
    · refine .pure fun hbody hhead => ?_
      obtain ⟨hinit, htest, hupdate⟩ := hhead
      refine ⟨read_of_reads (by simpa using ⟨hinit.1, htest.1, hupdate.1, hbody.1⟩) ?_, rfl⟩
      have hroles := hinit.2
      rw [isForInit] at hroles
      simp [Tag.reads, Tag.fits, hroles, htest.2, hupdate.2, hbody.2]
  clear_value rest
  exact .ite (fun _ => .next hrest) fun _ => .next hrest

/-! ## Branches -/

/-- An `if` statement, with or without its `else`. -/
lemma readAs_ifStmt {s : Span} {test yes : Node} {no : Option Node} (htest : test.ReadAs .expr)
    (hyes : yes.ReadIn Role.isStatement) (hno : ∀ n ∈ no, n.ReadIn Role.isStatement) :
    (mk s .ifStmt ([test, yes] ++ no.toList)).ReadAs .stmt := by
  cases no with
  | none => exact ⟨read_two htest.beq hyes fun _ _ => rfl, rfl⟩
  | some no => exact ⟨read_three htest.beq hyes (hno no rfl) fun _ _ _ => rfl, rfl⟩

/-- A chain of `else if`, each of which ends in the next one. -/
lemma readIn_chain {chain : List Node} {last : Option Node}
    (hchain : ∀ n ∈ chain, n.ReadAs .stmt ∧ ∃ s test yes, n = .mk s .ifStmt [test, yes])
    (hlast : ∀ n ∈ last, n.ReadIn Role.isStatement) :
    ∀ n ∈ chain.foldr (fun s rest => some (Node.mk s.span s.tag (s.kids ++ rest.toList))) last,
      n.ReadIn Role.isStatement := by
  induction chain with
  | nil => exact hlast
  | cons n chain ih =>
    obtain ⟨hn, s, test, yes, rfl⟩ := hchain n (List.mem_cons_self ..)
    have hrest := ih fun k hk => hchain k (List.mem_cons_of_mem _ hk)
    have hfits := hn.1.fits
    simp only [Tag.fits, List.map_cons, List.map_nil, Bool.and_eq_true, beq_iff_eq] at hfits
    rintro _ ⟨⟩
    exact (readAs_ifStmt ⟨hn.1.kid (by simp), hfits.1⟩ ⟨hn.1.kid (by simp), hfits.2⟩ hrest).within rfl

lemma ensures_ifStmt (noElse : Bool) : Ensures (ifStmt g noElse) fun n =>
    n.ReadAs .stmt ∧ (noElse = true → ∃ s test yes, n = .mk s .ifStmt [test, yes]) := by
  refine .next fun start => .next fun _ => ensures_parenthesized.bind fun test => ?_
  refine ensures_subStmt.bind fun yes => .ite (fun _ => .next fun span => ?_) fun hno => ?_
  · refine .pure fun hyes htest => ⟨⟨?_, rfl⟩, fun _ => ⟨_, _, _, rfl⟩⟩
    exact read_two htest.beq hyes fun _ _ => rfl
  refine .bind (P := fun r => (∀ n ∈ r.1, n.ReadAs .stmt ∧ ∃ s test yes, n = .mk s .ifStmt [test, yes]) ∧
    ∀ n ∈ r.2, n.ReadIn Role.isStatement) ?_ fun (chain, last) => ?_
  · refine .loop (fun l => ∀ n ∈ l, n.ReadAs .stmt ∧ ∃ s test yes, n = .mk s .ifStmt [test, yes])
      (by simp) fun acc => ?_
    refine .next fun isElse => .ite (fun _ => .pure fun hacc => ⟨hacc, by simp⟩) fun _ => ?_
    refine .next fun isIf => .ite (fun _ => ?_) fun _ => ?_
    · exact ensures_subStmt.bind fun no => .pure fun hno hacc => ⟨hacc, by simpa using hno⟩
    · refine (hg.ifStmt true).bind fun n => .pure fun hn hacc => ?_
      exact forall_mem_concat hacc ⟨hn.1, hn.2 rfl⟩
  · refine .next fun span => .pure fun hparts hyes htest => ⟨?_, fun h => absurd h hno⟩
    exact readAs_ifStmt htest hyes (readIn_chain hparts.1 hparts.2)

lemma ensures_clauseBody : Ensures (clauseBody g) (AllIn Role.isStatement) := by
  refine .collect_forall fun acc => .next fun k => .ite (fun _ => .pure (by simp)) fun _ => ?_
  exact (hg.stmt true).within.map fun n hn => by simpa using hn

lemma ensures_switchClauses : Ensures (switchClauses g) (AllIn (· == .clause)) := by
  refine .collect_forall fun acc => .next fun start => .next fun isCase => .ite (fun _ => ?_) fun _ => ?_
  · refine ensures_expr.allowIn.bind fun test => .next fun _ => ensures_clauseBody.bind fun body => ?_
    refine .next fun span => .pure fun hbody htest => ?_
    simpa using ⟨read_cons htest.beq hbody fun _ _ => rfl, rfl⟩
  · refine .next fun isDefault => .ite (fun _ => .check fun _ => .next fun _ => ?_) fun _ => .pure (by simp)
    refine ensures_clauseBody.bind fun body => .next fun span => .pure fun hbody => ?_
    simpa using ⟨read_list hbody fun _ => rfl, rfl⟩

lemma ensures_switchStmt : Ensures (switchStmt g) (ReadAs .stmt) := by
  refine .next fun start => .next fun _ => ensures_parenthesized.bind fun value => .next fun _ => ?_
  refine ensures_switchClauses.within.bind fun clauses => .next fun _ => .next fun span => ?_
  exact .pure fun hclauses hvalue => ⟨read_cons hvalue.beq hclauses fun _ _ => rfl, rfl⟩

/-! ## Exceptions -/

lemma ensures_catchClause : Ensures (catchClause g) fun r => ∀ n ∈ r, n.ReadAs .handler := by
  refine .next fun start => .next fun isCatch => .ite (fun _ => .pure (by simp)) fun _ => ?_
  refine .next fun hasParam => ?_
  have hrest : ∀ param, Ensures (do
      let body ← block g false
      return some (Node.mk (← spanFrom start) .catchClause [param, body])) fun r =>
        (param.ReadIn fun r => r.isTarget || r == .absent) → ∀ n ∈ r, n.ReadAs .handler := by
    refine fun param => (ensures_block false).bind fun body => .next fun span => .pure fun hbody hparam => ?_
    simpa using ⟨read_two hparam hbody.beq fun _ _ => rfl, rfl⟩
  refine .ite (fun _ => (hg.binding false).bind fun p => .next fun _ => .pure_bind ?_) fun _ => .pure_bind ?_
  · exact (hrest p).mono fun r hr hp => hr (hp.within rfl)
  · exact (hrest _).mono fun r hr => hr (readAs_absentNode.within rfl)

lemma ensures_finallyBlock : Ensures (finallyBlock g) fun r => ∀ n ∈ r, n.ReadAs .block := by
  refine .next fun isFinally => .ite (fun _ => ?_) fun _ => .pure (by simp)
  exact (ensures_block false).map fun n hn => by simpa using hn

/-- A part that may be missing. -/
lemma readIn_getD {part : Option Node} {r : Role} (h : ∀ n ∈ part, n.ReadAs r) :
    (part.getD absentNode).ReadIn fun r' => r' == r || r' == .absent := by
  cases part with
  | none => exact readAs_absentNode.within (by simp)
  | some n => exact (h n rfl).within (by simp)

lemma ensures_tryStmt : Ensures (tryStmt g) (ReadAs .stmt) := by
  refine .next fun start => .next fun _ => (ensures_block false).bind fun body => .next fun _ => ?_
  refine ensures_catchClause.bind fun handler => ensures_finallyBlock.bind fun final => ?_
  refine .check fun _ => .next fun span => .pure fun hfinal hhandler hbody => ?_
  exact ⟨read_three hbody.beq (readIn_getD hhandler) (readIn_getD hfinal) fun _ _ _ => rfl, rfl⟩

lemma ensures_strayHandler : Ensures (strayHandler g) (ReadAs .stmt) :=
  .next fun _ => (ensures_note _ _).bind fun _ => by
    have := (ensures_catchClause (g := g)).quiet
    have := (ensures_finallyBlock (g := g)).quiet
    exact .next fun _ => .next fun _ => .pure nofun

lemma ensures_throwStmt : Ensures (throwStmt g) (ReadAs .stmt) := by
  refine .next fun start => .next fun _ => .next fun _ => .check fun _ => ?_
  refine ensures_expr.allowIn.bind fun e => .next fun _ => .next fun span => .pure fun he => ?_
  exact ⟨read_of_roles (.cons he .nil) rfl, rfl⟩

/-! ## Jumps and labels -/

lemma ensures_returnStmt : Ensures (returnStmt g) (ReadAs .stmt) := by
  refine .next fun start => ?_
  extract_lets result read
  have hresult : ∀ value, Ensures (result value) fun n =>
      (value = [] ∨ ∃ e : Node, value = [e] ∧ e.ReadAs .expr) → n.ReadAs .stmt := by
    refine fun value => .next fun _ => .next fun span => .pure fun hvalue => ?_
    rcases hvalue with rfl | ⟨e, rfl, he⟩
    · exact ⟨read_leaf rfl, rfl⟩
    · exact ⟨read_of_roles (.cons he .nil) rfl, rfl⟩
  clear_value result
  have hread : Ensures read (ReadAs .stmt) := by
    refine .next fun _ => .next fun isEnd => .ite (fun _ => ?_) fun _ => ?_
    · exact .pure_bind ((hresult []).mono fun n hn => hn (.inl rfl))
    · exact (ensures_expr.allowIn.map fun e he => .inr ⟨e, rfl, he⟩).bind hresult
  clear_value read
  refine hread.bind fun s => .next fun c => .ite (fun _ => ?_) fun _ => .pure id
  exact .next fun _ => .next fun _ => .pure id

lemma ensures_jumpStmt : Ensures jumpStmt (ReadAs .stmt) := by
  refine .next fun start => .next fun isBreak => .next fun _ => .next fun isEnd => ?_
  extract_lets rest
  have hrest : ∀ label, Ensures (rest label) (ReadAs .stmt) := by
    refine fun label => .next fun span => .next fun c => .next fun s => ?_
    extract_lets labels unknown breakStmt continueStmt
    have hbreak : ∀ x, Ensures (breakStmt x) (ReadAs .stmt) := fun _ => .pure ⟨read_leaf rfl, rfl⟩
    have hcontinue : ∀ x, Ensures (continueStmt x) (ReadAs .stmt) := fun _ => .pure ⟨read_leaf rfl, rfl⟩
    clear_value breakStmt continueStmt
    refine .ite (fun _ => .ite (fun _ => .next hbreak) fun _ => ?_) fun _ =>
      .ite (fun _ => .next hcontinue) fun _ => ?_
    · exact .check hbreak
    · exact .check hcontinue
  clear_value rest
  refine .ite (fun _ => .next hrest) fun _ => .next fun i => .next fun _ => .next hrest

lemma ensures_funcDecl (start : Nat) (isAsync : Bool) : Ensures (funcDecl g start isAsync) fun n =>
    n.ReadAs .stmt ∧ ∃ i, n.tag = .funcDecl i := by
  refine (ensures_function start isAsync false true).bind fun (name, f) => .pure fun hf => ?_
  exact ⟨⟨read_of_roles (.cons hf .nil) rfl, rfl⟩, _, rfl⟩

lemma ensures_classDecl : Ensures (classDecl g) fun n => n.ReadAs .stmt ∧ ∃ i, n.tag = .classDecl i := by
  refine .next fun start => (ensures_classTail start true).bind fun (name, c) => .pure fun hc => ?_
  exact ⟨⟨read_of_roles (.cons hc .nil) rfl, rfl⟩, _, rfl⟩

lemma ensures_labelledFunction : Ensures (labelledFunction g) (ReadAs .stmt) := by
  refine .next fun start => (ensures_funcDecl start false).bind fun f => .next fun c => ?_
  extract_lets result rest
  have hresult : ∀ x, Ensures (result x) fun n =>
      (f.ReadAs .stmt ∧ ∃ i, f.tag = .funcDecl i) → n.ReadAs .stmt := fun _ => .pure fun hf => hf.1
  refine .check fun _ => ?_
  unfold rest
  split
  · exact .check hresult
  · exact hresult ()

lemma ensures_labelledStmt (label : Ident) : Ensures (labelledStmt g label) (ReadAs .stmt) := by
  have henter : Quiet (modify fun s : ParseState => { s with labels := s.labels ++ [label.name] }) :=
    quiet_modify (fun _ => rfl) (fun _ => rfl) fun _ => rfl
  have hleave : Quiet (modify fun s : ParseState => { s with labels := s.labels.erase label.name }) :=
    quiet_modify (fun _ => rfl) (fun _ => rfl) fun _ => rfl
  refine .within (.next fun s => .next fun _ => .next fun isFunction => ?_)
  extract_lets rest
  have hrest : ∀ body, Ensures (rest body) fun n => body.ReadIn Role.isStatement → n.ReadAs .stmt := by
    refine fun body => .check fun _ => .next fun _ => .next fun span => .pure fun hbody => ?_
    exact ⟨read_one hbody fun _ => rfl, rfl⟩
  clear_value rest
  refine .ite (fun _ => ensures_labelledFunction.bind fun body => ?_) fun _ => ensures_subStmt.bind hrest
  exact (hrest body).mono fun n hn hbody => hn (hbody.within rfl)

lemma ensures_withStmt : Ensures (withStmt g) (ReadAs .stmt) := by
  refine .next fun start => .next fun _ => .next fun _ => .next fun _ => ?_
  refine ensures_parenthesized.bind fun obj => ensures_subStmt.within.bind fun body => ?_
  exact .next fun span => .pure fun hbody hobj => ⟨read_two hobj.beq hbody fun _ _ => rfl, rfl⟩

/-! ## Statements -/

lemma readAs_exprStmt {s : Span} {e : Node} (he : e.ReadAs .expr) : (mk s .exprStmt [e]).ReadAs .stmt :=
  ⟨read_of_roles (.cons he .nil) rfl, rfl⟩

lemma ensures_exprStmt : Ensures (exprStmt g) (ReadAs .stmt) := by
  refine .next fun start => ensures_expr.allowIn.bind fun e => ?_
  extract_lets rest checked
  have hrest : ∀ x, Ensures (rest x) fun n => e.ReadAs .expr → n.ReadAs .stmt := by
    refine fun _ => .next fun isEnd => .ite (fun _ => .next fun span => .pure readAs_exprStmt) fun _ => ?_
    refine .next fun k => .ite (fun _ => .next fun _ => ?_) fun _ => ensures_failHere _
    exact (ensures_note _ _).bind fun _ => .next fun _ => .next fun _ => .pure nofun
  clear_value rest
  have hchecked : ∀ x, Ensures (checked x) fun n => e.ReadAs .expr → n.ReadAs .stmt :=
    fun _ => .next fun _ => .check hrest
  clear_value checked
  split
  · refine .next fun isLabel => .ite (fun _ => ?_) fun _ => hchecked ()
    exact (ensures_labelledStmt _).mono fun n hn _ => hn
  · exact hchecked ()

lemma ensures_importStmt : Ensures (importStmt g) (ReadAs .stmt) := by
  refine .next fun start => .next fun isImport => .ite (fun _ => .next fun next => ?_) fun _ =>
    ensures_failHere _
  refine .ite (fun _ => ensures_expr.bind fun e => .next fun _ => .next fun span => ?_) fun _ =>
    ensures_failHere _
  exact .pure readAs_exprStmt

instance (allowed : Bool) : Quiet (noteDeclaration allowed) := by
  unfold noteDeclaration; infer_instance

lemma ensures_wordStmt (allowDecl : Bool) (w : String) : Ensures (wordStmt g allowDecl w) fun r =>
    ∀ n ∈ r, n.ReadIn Role.isStatement := by
  have hsome : ∀ {m : Parse Node}, Ensures m (ReadAs .stmt) → Ensures (some <$> m) fun r =>
      ∀ n ∈ r, n.ReadIn Role.isStatement :=
    fun h => h.map fun n hn => by simpa using hn.within rfl
  have hnone : Ensures (pure none : Parse (Option Node)) fun r =>
      ∀ n ∈ r, n.ReadIn Role.isStatement := .pure (by simp)
  unfold wordStmt
  split
  · exact hsome ensures_importStmt
  · exact hsome ensures_importStmt
  · exact hsome ensures_jumpStmt
  · exact hsome ensures_jumpStmt
  · refine .next fun start => .next fun _ => .next fun _ => .next fun span => .pure ?_
    simpa using ⟨read_leaf rfl, rfl⟩
  · exact hsome ensures_doWhile
  · exact hsome ensures_forStmt
  · exact .next fun _ => .next fun start => hsome ((ensures_funcDecl start false).mono fun n hn => hn.1)
  · exact .next fun _ => hsome (ensures_classDecl.mono fun n hn => hn.1)
  · exact hsome ((ensures_ifStmt false).mono fun n hn => hn.1)
  · exact hsome ensures_returnStmt
  · exact hsome ensures_switchStmt
  · exact hsome ensures_throwStmt
  · exact hsome ensures_strayHandler
  · exact hsome ensures_strayHandler
  · exact hsome ensures_tryStmt
  · exact hsome ensures_withStmt
  · exact hsome ensures_whileStmt
  · exact hsome ((ensures_varDecl false).mono fun n hn => hn.1)
  · exact .ite (fun _ => hsome ((ensures_varDecl false).mono fun n hn => hn.1)) fun _ => hnone
  · refine .ite (fun _ => hnone) fun _ => .next fun next => ?_
    exact .ite (fun _ => hsome ((ensures_varDecl false).mono fun n hn => hn.1)) fun _ => hnone
  · refine .next fun next => .ite (fun _ => .next fun start => .next fun _ => ?_) fun _ => hnone
    exact hsome ((ensures_funcDecl start true).mono fun n hn => hn.1)
  · refine .next fun _ => .ite (fun _ => .next fun start => ?_) fun _ => hnone
    exact hsome (ensures_usingDecl start)
  · refine .next fun c => .next fun next => .ite (fun _ => hnone) fun _ => ?_
    exact .attempt (fun s => hsome (ensures_usingDecl _)) (by simp)
  · exact hnone

/-- **A statement or declaration.** -/
lemma ensures_stmt (allowDecl : Bool) : Ensures (stmt g allowDecl) (ReadIn Role.isStatement) := by
  refine .within (.next fun start => .next fun k => ?_)
  split
  · exact (ensures_block false).mono fun n hn => hn.within rfl
  · exact .next fun _ => .next fun span => .pure ⟨read_leaf rfl, rfl⟩
  · next w text =>
    refine .next fun c => ?_
    extract_lets rest
    have hrest : ∀ x, Ensures (rest x) (ReadIn Role.isStatement) := by
      refine fun _ => (ensures_wordStmt allowDecl w).bind fun r => ?_
      cases r with
      | some n => exact .pure fun hn => hn n rfl
      | none => exact ensures_exprStmt.mono fun n hn _ => hn.within rfl
    clear_value rest
    exact .ite (fun _ => .next fun _ => .next hrest) fun _ => hrest ()
  · exact ensures_exprStmt.mono fun n hn => hn.within rfl

end EcmaLower.Parse
