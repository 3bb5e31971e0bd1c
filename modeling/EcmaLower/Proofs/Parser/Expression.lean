import EcmaLower.Parser.Expression
import EcmaLower.Proofs.Parser.Primary

/-!
# Expressions that are read
-/

namespace EcmaLower.Parse

open Node

variable {g : Grammar} [hg : g.Sound]

/-! ## Subscripts -/

/-- What a subscript is applied to was read well. -/
def Base.IsRead : Base → Prop
  | .expr e => e.ReadAs .expr
  | _ => True

lemma ensures_memberOf (base : Base) (key : Node) (optional noCall : Bool) :
    Ensures (memberOf base key optional noCall) fun e =>
      base.IsRead → key.ReadIn Role.isKey → e.ReadAs .expr := by
  refine .next fun span => ?_
  cases base with
  | importWord s phase => exact ensures_failHere _
  | superWord s =>
    refine .next fun c => .check fun _ => .check fun _ => ?_
    split
    · exact ensures_failHere _
    · next hprivate =>
      refine .pure fun _ hkey => ⟨read_one (p := Role.isPublicKey) ⟨hkey.1, ?_⟩ fun _ => rfl, rfl⟩
      have hrole := hkey.2
      simp only [Role.isKey, Bool.or_eq_true, beq_iff_eq] at hrole
      refine hrole.resolve_right fun hr => ?_
      obtain ⟨sk, t, ks⟩ := key
      cases t <;> first | (cases hr; done) | exact hprivate _ rfl
  | expr obj =>
    refine .ite (fun _ => .pure fun hobj hkey => ?_) fun _ => .pure fun hobj hkey => ?_
    · exact ⟨read_two hobj.beq hkey fun _ _ => rfl, rfl⟩
    · exact ⟨read_two hobj.beq hkey fun _ _ => rfl, rfl⟩

lemma ensures_callOf (base : Base) (args : List Node) (optional : Bool) : Ensures (callOf base args optional) fun e =>
      base.IsRead → AllIn Role.isArgument args → e.ReadAs .expr := by
  refine .next fun span => ?_
  cases base with
  | importWord s phase | superWord s =>
    refine .ite (fun _ => ensures_failHere _) fun _ => .pure fun _ hargs => ?_
    exact ⟨read_list hargs fun _ => rfl, rfl⟩
  | expr callee =>
    refine .ite (fun _ => .pure fun hcallee hargs => ?_) fun _ => .pure fun hcallee hargs => ?_
    · exact ⟨read_cons hcallee.beq hargs fun _ _ => rfl, rfl⟩
    · exact ⟨read_cons hcallee.beq hargs fun _ _ => rfl, rfl⟩

lemma ensures_dotKey : Ensures dotKey (ReadIn Role.isKey) := by
  refine .next fun isPrivate => .ite (fun _ => ?_) fun _ => ?_
  · exact ensures_privateKey.mono fun k hk => hk.within rfl
  · exact .next fun i => .pure ⟨read_leaf rfl, rfl⟩

lemma ensures_bracketKey : Ensures (bracketKey g) (ReadIn Role.isKey) := by
  refine .next fun start => ensures_expr.allowIn.bind fun e => .next fun _ => .next fun span => ?_
  exact .pure fun he => ⟨read_of_roles (.cons he .nil) rfl, rfl⟩

instance : Quiet eatOptional := by unfold eatOptional; infer_instance

lemma ensures_subscript (base : Base) (noCall : Bool) : Ensures (subscript g base noCall) fun r =>
    base.IsRead → Progress Base.IsRead (ReadAs .expr) r := by
  refine .next fun optional => .next fun isBracket => .ite (fun _ => ?_) fun _ => ?_
  · refine ensures_bracketKey.bind fun key => (ensures_memberOf base key optional noCall).bind fun e => ?_
    exact .pure fun he hkey hbase => he hbase hkey
  refine .next fun isCall => .ite (fun _ => ?_) fun _ => ?_
  · refine ensures_arguments.bind fun args => (ensures_callOf base args optional).bind fun e => ?_
    exact .pure fun he hargs hbase => he hbase hargs
  extract_lets rest
  have hrest : ∀ dotted, Ensures (rest dotted) fun r =>
      base.IsRead → Progress Base.IsRead (ReadAs .expr) r := by
    refine fun dotted => .ite (fun _ => ?_) fun _ => ?_
    · refine ensures_dotKey.bind fun key => (ensures_memberOf base key optional noCall).bind fun e => ?_
      exact .pure fun he hkey hbase => he hbase hkey
    cases base with
    | importWord s phase | superWord s => exact ensures_failHere _
    | expr e =>
      refine .next fun k => ?_
      dsimp only
      split
      · refine .next fun quoteStart => (ensures_templateParts true).within.bind fun (quasis, exprs) => ?_
        refine .next fun span => .check fun _ => .next fun quote => .pure fun hparts he => ?_
        refine ⟨read_of_reads ?_ ?_, rfl⟩
        · exact List.forall_mem_cons.mpr ⟨he.1, fun e he => (hparts.2.2 e he).1⟩
        · simpa [Tag.reads, Tag.fits, hparts.1, he.2] using fun e he => (hparts.2.2 e he).2
      · exact .pure id
  clear_value rest
  exact .ite (fun _ => .pure_bind (hrest true)) fun _ => .next hrest

/-- **An expression with its subscripts.** -/
lemma ensures_subscripts (base : Base) (noCall : Bool) : Ensures (subscripts g base noCall) fun e =>
    base.IsRead → e.ReadAs .expr :=
  .next fun _ => ensures_iterate (fun b => ensures_subscript b noCall) _ base

lemma ensures_importExpr (start : Nat) (noCall : Bool) : Ensures (importExpr g start noCall) (ReadAs .expr) := by
  have hword : ∀ s phase, Ensures (subscripts g (.importWord s phase) noCall) (ReadAs .expr) :=
    fun s phase => (ensures_subscripts _ noCall).mono fun e he => he trivial
  refine .next fun word => .next fun hasDot => .ite (fun _ => hword _ _) fun _ => .next fun i => ?_
  split
  · refine .next fun span => .next fun c => .check fun _ => ?_
    exact (ensures_subscripts _ noCall).mono fun e he => he ⟨read_leaf rfl, rfl⟩
  · exact hword _ _
  · exact hword _ _
  · exact ensures_unexpected _

/-! ## Operands -/

/-- **An operand without calls.** -/
lemma ensures_newExpr : Ensures (newExpr g) (ReadAs .expr) := by
  refine .next fun start => .next fun isNew => .ite (fun _ => .next fun isTarget => ?_) fun _ => ?_
  · refine .ite (fun _ => .next fun hasTarget => .check fun _ => .next fun span => .next fun c => ?_)
      fun _ => hg.newExpr.bind fun callee => .ite (fun _ => .pure id) fun _ => .check fun _ => ?_
    · refine .check fun _ => (ensures_subscripts _ true).mono fun e he => he ?_
      exact ⟨read_leaf rfl, rfl⟩
    · refine .next fun hasArgs => .ite (fun _ => ensures_arguments.bind fun args => ?_) fun _ => ?_
      · refine .next fun span => (ensures_subscripts _ true).mono fun e he hargs hcallee => he ?_
        exact ⟨read_cons hcallee.beq hargs fun _ _ => rfl, rfl⟩
      · refine .next fun span => .pure fun hcallee => ⟨read_of_roles (.cons hcallee .nil) rfl, rfl⟩
  · refine .next fun isSuper => .ite (fun _ => .next fun span => ?_) fun _ => ?_
    · exact (ensures_subscripts _ true).mono fun e he => he trivial
    refine .next fun isImport => .ite (fun _ => ensures_importExpr start true) fun _ => ?_
    refine ensures_primary.bind fun e => .ite (fun _ => .pure id) fun _ => ?_
    exact ensures_subscripts _ true

/-- **An operand.** -/
lemma ensures_leftHandSide : Ensures (leftHandSide g) (ReadAs .expr) := by
  refine .next fun start => .next fun isSuper => .ite (fun _ => .next fun span => ?_) fun _ => ?_
  · exact (ensures_subscripts _ false).mono fun e he => he trivial
  refine .next fun isImport => .ite (fun _ => ensures_importExpr start false) fun _ => ?_
  refine ensures_newExpr.bind fun callee => .ite (fun _ => .pure id) fun _ => .next fun isCall => ?_
  refine .ite (fun _ => ensures_arguments.bind fun args => ?_) fun _ => .pure id
  refine (ensures_callOf _ args false).bind fun e => (ensures_subscripts _ false).mono ?_
  exact fun e' he' he hargs hcallee => he' (he hcallee hargs)

/-! ## Operators -/

lemma ensures_awaitExpr : Ensures (awaitExpr g) (ReadAs .expr) := by
  unfold awaitExpr
  refine .next fun start => .next fun _ => .next fun isStar => ?_
  extract_lets operand rest
  have hoperand : ∀ x, Ensures (operand x) (ReadAs .expr) := fun _ =>
    hg.unary.bind fun e => .next fun span => .pure fun he => ⟨read_of_roles (.cons he .nil) rfl, rfl⟩
  clear_value operand
  refine .check fun _ => .next fun c => .next fun span => .next fun k => .next fun isEnd => ?_
  refine .ite (fun _ => .check fun _ => .pure ⟨read_leaf rfl, rfl⟩) fun _ => ?_
  extract_lets inParameters inFunction
  have hinFunction : ∀ x, Ensures (inFunction x) (ReadAs .expr) := fun _ => .check fun _ => .check hoperand
  exact .ite (fun _ => .next fun _ => .next hinFunction) fun _ => hinFunction ()

/-- **An operand of a binary operator.** -/
lemma ensures_unary : Ensures (unary g) (ReadAs .expr) := by
  refine .next fun start => .next fun k => ?_
  cases updateOp? k with
  | some op =>
    refine .next fun _ => hg.unary.bind fun e => .next fun _ => .pure fun he => ?_
    exact ⟨read_of_roles (.cons he .nil) rfl, rfl⟩
  | none =>
    dsimp only
    cases unaryOp? k with
    | some op =>
      refine .next fun _ => .next fun place => .bind (P := ReadAs .expr) ?_ fun e => ?_
      · exact hg.unary.tryCatch fun f => .next fun _ => .pure ⟨read_leaf rfl, rfl⟩
      · have hresult : Ensures (pure (mk ⟨start, e.span.hi⟩ (.unary op) [e])) fun n =>
            e.ReadAs .expr → n.ReadAs .expr :=
          .pure fun he => ⟨read_of_roles (.cons he .nil) rfl, rfl⟩
        refine .ite (fun _ => ?_) fun _ => hresult
        split
        · exact .next fun _ => hresult
        · exact hresult
    | none =>
      refine .ite (fun _ => ensures_awaitExpr) fun _ => ensures_leftHandSide.bind fun e => ?_
      refine .ite (fun _ => .pure id) fun _ => .next fun _ => .ite (fun _ => .pure id) fun _ => ?_
      refine .next fun k => ?_
      cases updateOp? k with
      | some op =>
        refine .next fun _ => .next fun _ => .next fun span => .pure fun he => ?_
        exact ⟨read_of_roles (.cons he .nil) rfl, rfl⟩
      | none => exact .pure id

instance : Quiet binaryOpHere := by
  refine ⟨.next fun k => ?_⟩
  split
  · exact .next fun c => .pure trivial
  · exact .pure trivial
  · exact .pure trivial

instance (op : BinaryOp) (whole : Span) (left right : Node) : Quiet (checkNullish op whole left right) := by
  unfold checkNullish
  infer_instance

/-- **Operators after their left operand.** -/
lemma ensures_binaryTail (n : Nat) (left : Node) (minPrec : Nat) :
    Ensures (binaryTail g n left minPrec) fun e => left.ReadAs .expr → e.ReadAs .expr := by
  induction n generalizing left minPrec with
  | zero => exact ensures_failHere _
  | succ n ih =>
    refine .next fun op? => ?_
    cases op? with
    | none => exact .pure id
    | some op =>
      refine .ite (fun _ => .pure id) fun _ => .next fun _ => ?_
      extract_lets rest
      have hrest : ∀ x, Ensures (rest x) fun e => left.ReadAs .expr → e.ReadAs .expr := by
        refine fun _ => hg.unary.bind fun operand => (ih operand _).bind fun right => .next fun _ => ?_
        refine (ih _ minPrec).mono fun e he hright hoperand hleft => he ?_
        exact ⟨read_of_roles (.cons hleft (.cons (hright hoperand) .nil)) rfl, rfl⟩
      clear_value rest
      split
      · exact .check hrest
      · exact .check hrest
      · exact hrest ()

instance (left : Node) : Quiet (binaryRest g left) :=
  ⟨.next fun _ => (ensures_binaryTail _ left 0).mono fun _ _ => trivial⟩

lemma ensures_binary : Ensures (binary g) (ReadAs .expr) := by
  refine .bind (P := ReadAs .expr) (ensures_unary.tryCatch fun f => ?_) fun left => ?_
  · refine .next fun _ => .next fun op? => .ite (fun _ => .next fun span => .next fun _ => ?_) fun _ => .throw
    exact .pure ⟨read_leaf rfl, rfl⟩
  · exact .ite (fun _ => .pure id) fun _ => .next fun s => ensures_binaryTail _ left 0

lemma ensures_conditional : Ensures (conditional g) (ReadAs .expr) := by
  refine .next fun start => ensures_binary.bind fun test => .ite (fun _ => .pure id) fun _ => ?_
  refine .next fun isCond => .ite (fun _ => .pure id) fun _ => ?_
  refine hg.assign.within.bind fun yes => .next fun _ => hg.assign.within.bind fun no => ?_
  refine .pure fun hno hyes htest => ?_
  exact ⟨read_of_roles (.cons htest (.cons hyes (.cons hno .nil))) rfl, rfl⟩

lemma ensures_yieldExpr : Ensures (yieldExpr g) (ReadAs .expr) := by
  unfold yieldExpr
  refine .next fun start => .next fun _ => .next fun c => ?_
  extract_lets rest
  have hrest : ∀ x, Ensures (rest x) (ReadAs .expr) := by
    refine fun _ => .next fun k => .next fun isEnd => .ite (fun _ => .next fun span => ?_) fun _ => ?_
    · exact .pure ⟨read_leaf rfl, rfl⟩
    · refine .next fun delegate => hg.assign.bind fun e => .next fun span => .pure fun he => ?_
      exact ⟨read_of_roles (.cons he .nil) rfl, rfl⟩
  exact .ite (fun _ => .next fun _ => .next hrest) fun _ => hrest ()

lemma ensures_assignTarget (op : AssignOp) (e : Node) : Ensures (assignTarget op e) fun t =>
    e.ReadAs .expr → t.ReadIn Role.isTarget := by
  unfold assignTarget
  extract_lets rest simple
  have hrest : ∀ t, Ensures (rest t) fun t' => t.ReadIn Role.isTarget → t'.ReadIn Role.isTarget :=
    fun t => .ite (fun _ => .pure id) fun _ => ensures_fail _ _
  clear_value rest
  have hsimple : ∀ x, Ensures (simple x) fun t => e.ReadAs .expr → t.ReadIn Role.isTarget := by
    intro x
    unfold simple
    split
    · exact .pure_bind ((hrest _).mono fun t ht _ => ht ⟨read_leaf rfl, rfl⟩)
    · exact .pure_bind ((hrest e).mono fun t ht he => ht (he.within rfl))
  refine .ite (fun _ => ?_) fun _ => .next fun c => .check hsimple
  exact (ensures_toPattern e .assigned).bind fun p => (hrest p).mono fun t ht hp he => ht (hp.expr he)

/-- **An assignment expression.** -/
lemma ensures_assign : Ensures (assign g) (ReadAs .expr) := by
  refine .next fun start => .next fun k => .next fun c => .ite (fun _ => ensures_yieldExpr) fun _ => ?_
  have : Quiet (modify fun s : ParseState =>
      { s with arrowStart := if startsArrow k then some start else none }) :=
    quiet_modify (fun _ => rfl) (fun _ => rfl) fun _ => rfl
  refine .next fun _ => .next fun _ => ensures_conditional.bind fun e => ?_
  have hassign : ∀ op?, Ensures (match op? with
      | none => pure e
      | some op => do
        let target ← assignTarget op e
        bump
        let value ← g.assign
        return .mk (← spanFrom start) (.assign op) [target, value]) fun n =>
      e.ReadAs .expr → n.ReadAs .expr := by
    intro op?
    cases op? with
    | none => exact .pure id
    | some op =>
      refine (ensures_assignTarget op e).bind fun target => .next fun _ => hg.assign.bind fun value => ?_
      refine .next fun span => .pure fun hvalue htarget he => ?_
      exact ⟨read_two (htarget he) hvalue.beq fun _ _ => rfl, rfl⟩
  split <;> first | exact .pure id | exact .next fun k => hassign _

end EcmaLower.Parse
