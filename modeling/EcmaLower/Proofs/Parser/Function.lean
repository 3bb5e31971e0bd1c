import EcmaLower.Parser.Object
import EcmaLower.Proofs.Parser.Pattern

/-!
# Functions and objects that are read
-/

namespace EcmaLower.Parse

open Node List

variable {P : List Node → Prop}

/-! ## Statement lists -/

lemma ensures_statements {α : Type} {item : Parse α} {P : α → Prop} (h : Ensures item P)
    (allowDirective closed : Bool) :
    Ensures (statements allowDirective closed item) fun l => ∀ a ∈ l, P a := by
  refine .next fun k => ?_
  extract_lets strict ended body rest
  have hbody : Ensures body fun l => ∀ a ∈ l, P a := by
    refine .collect_forall fun acc => .next fun k => ?_
    refine .ite (fun _ => ?_) fun _ => .ite (fun _ => .pure (by simp)) fun _ => ?_
    · exact .ite (fun _ => .next fun _ => .next fun _ => .pure (by simp)) fun _ => .pure (by simp)
    · exact h.map fun a ha => by simpa using ha
  have hrest : ∀ l, Ensures (rest l) fun l' => (∀ a ∈ l, P a) → ∀ a ∈ l', P a :=
    fun l => .next fun k => .check fun _ => .pure id
  clear_value body rest
  exact .ite (fun _ => hbody.within.bind hrest) fun _ => hbody.bind hrest

/-! ## Parameters -/

/-- The parameters of a function, of which only the last may be a rest parameter. -/
structure AreParams (ps : List Node) : Prop where
  read : ∀ p ∈ ps, p.Read
  fits : Role.areParams (ps.map role) = true

/-- A function with parameters that have a property. -/
def IsFunction (P : List Node → Prop) (f : Node) : Prop :=
  ∃ s sp isAsync isGenerator ps body, f = .mk s (.func isAsync isGenerator) [.mk sp .params ps, body] ∧
    AreParams ps ∧ P ps ∧ body.ReadAs .block

lemma AreParams.params {ps : List Node} (h : AreParams ps) (s : Span) :
    (Node.mk s .params ps).ReadAs .params := ⟨read_of_reads h.read h.fits, rfl⟩

lemma IsFunction.readAs {f : Node} (h : IsFunction P f) : f.ReadAs .func := by
  obtain ⟨s, sp, isAsync, isGenerator, ps, body, rfl, hps, -, hbody⟩ := h
  exact ⟨read_of_roles (.cons (hps.params sp) (.cons hbody .nil)) rfl, rfl⟩

section Grammar

variable {g : Grammar} [hg : g.Sound]

lemma ensures_block (allowDirective : Bool) : Ensures (block g allowDirective) (ReadAs .block) := by
  refine .next fun start => .next fun _ => ?_
  refine (ensures_statements (hg.stmt true) allowDirective true).within.bind fun stmts => ?_
  exact .next fun span => .pure fun hstmts => ⟨read_list hstmts fun _ => rfl, rfl⟩

lemma ensures_formalParam : Ensures (formalParam g) (ReadAs .pat) := by
  refine .next fun start => (hg.binding false).bind fun p => .next fun hasDefault => ?_
  refine .ite (fun _ => ?_) fun _ => .pure id
  refine hg.assign.bind fun right => .next fun span => .pure fun hright hp => ?_
  exact ⟨read_two (hp.within rfl) hright.beq fun _ _ => rfl, rfl⟩

lemma ensures_restParam (readDefault : Bool) : Ensures (restParam g readDefault) (ReadAs .rest) := by
  refine .next fun start => .next fun _ => (hg.binding false).bind fun p => ?_
  have hrest : Ensures (do return mk (← spanFrom start) .restPat [p]) fun r =>
      p.ReadAs .pat → r.ReadAs .rest :=
    .next fun span => .pure fun hp => ⟨read_one (hp.within rfl) fun _ => rfl, rfl⟩
  refine .ite (fun _ => .next fun hasDefault => .ite (fun _ => ?_) fun _ => hrest) fun _ => hrest
  exact .next fun right => (ensures_note _ _).bind fun _ => .next fun _ => .next fun _ => .pure nofun

/-- The parameters that were read so far; a rest parameter is noted. -/
structure ParamsSoFar (x : List Node × Option Span) : Prop where
  params : AreParams x.1
  noRest : x.2 = none → ∀ p ∈ x.1, p.role ≠ .rest

lemma ParamsSoFar.concat {acc : List Node} {p : Node} {rest : Option Span}
    (h : ParamsSoFar (acc, none)) (hp : p.Read) (hr : p.role = .pat ∨ p.role = .rest ∧ rest ≠ none) :
    ParamsSoFar (acc ++ [p], rest) := by
  have hall := h.params.fits
  have hno := h.noRest rfl
  simp only [Role.areParams, all_map, Bool.and_eq_true, all_eq_true, Function.comp_apply,
    Bool.or_eq_true, beq_iff_eq] at hall
  refine ⟨⟨forall_mem_concat h.params.read hp, ?_⟩, fun hnone => forall_mem_concat hno ?_⟩
  · simp only [Role.areParams, map_append, map_cons, map_nil, dropLast_concat,
      all_append, all_map, Bool.and_eq_true, all_eq_true, Function.comp_apply,
      Bool.or_eq_true, beq_iff_eq, bne_iff_ne, all_cons, all_nil, and_true]
    exact ⟨⟨hall.1, hr.imp (fun h => by rw [h]; rfl) (·.1)⟩, hno⟩
  · rcases hr with hr | ⟨-, hr⟩
    · rw [hr]
      decide
    · exact absurd hnone hr

/-- **Only the last parameter is a rest parameter.** -/
lemma ensures_paramList (readDefault : Bool) : Ensures (paramList g readDefault) AreParams := by
  refine .loop ParamsSoFar ⟨⟨by simp, rfl⟩, by simp⟩ fun (acc, rest) => ?_
  refine .next fun isEnd => .ite (fun _ => .pure fun h => h.params) fun _ => ?_
  extract_lets next
  have hnext : ∀ x, Ensures (next x) fun r => rest = none → ParamsSoFar (acc, rest) →
      Progress ParamsSoFar AreParams r := by
    intro x
    refine .next fun isRest => ?_
    extract_lets append
    have happend : ∀ p, Ensures (append p) fun r =>
        p.Read ∧ (p.role = .pat ∨ p.role = .rest ∧ isRest = true) → rest = none →
          ParamsSoFar (acc, rest) → Progress ParamsSoFar AreParams r := by
      intro p
      unfold append
      extract_lets rest' result
      have hresult : ∀ x, Ensures (result x) fun r =>
          p.Read ∧ (p.role = .pat ∨ p.role = .rest ∧ isRest = true) → rest = none →
            ParamsSoFar (acc, rest) → Progress ParamsSoFar AreParams r := by
        refine fun _ => .pure fun hp hnone hacc => ?_
        subst hnone
        exact hacc.concat hp.1 (hp.2.imp_right fun h => ⟨h.1, by simp [rest', h.2]⟩)
      clear_value result
      refine .next fun isEnd => .ite (fun _ => .next fun _ => .next fun isEnd => ?_) fun _ => hresult ()
      exact .ite (fun _ => .next fun _ => .next hresult) fun _ => hresult ()
    clear_value append
    refine .ite (fun h => (ensures_restParam readDefault).bind fun p => ?_) fun _ =>
      ensures_formalParam.bind fun p => ?_
    · exact (happend p).mono fun r hr hp => hr ⟨hp.1, .inr ⟨hp.2, h⟩⟩
    · exact (happend p).mono fun r hr hp => hr ⟨hp.1, .inl hp.2⟩
  clear_value next
  cases rest with
  | none => exact (hnext ()).mono fun r hr => hr rfl
  | some span => exact (ensures_note span _).bind fun x => (hnext x).mono fun r _ h => h.elim

/-! ## Bodies -/

instance (ps : List Node) (body : Node) : Quiet (checkDirective ps body) := by
  refine ⟨.ite (fun _ => ?_) fun _ => .pure trivial⟩
  split
  · exact (ensures_note _ _).mono nofun
  · exact .pure trivial

lemma Ensures.inBody {α : Type} {p : Parse α} {Q : α → Prop} (h : Ensures p Q)
    (isAsync isGenerator isArrow : Bool) : Ensures (inBody isAsync isGenerator isArrow p) Q := by
  intro s
  have hin : s.Follows { s with
      ctx := bodyContext isAsync isGenerator isArrow s.ctx
      labels := []
      trailingCommas := []
      arrowStart := none } := (ParseState.Follows.refl s).update rfl rfl rfl
  have hs := Ends.from hin (h _)
  unfold Parse.inBody
  revert hs
  dsimp only
  cases p { s with
      ctx := bodyContext isAsync isGenerator isArrow s.ctx
      labels := []
      trailingCommas := []
      arrowStart := none } with
  | ok a t => exact fun hs => ⟨hs.1.update rfl rfl rfl, hs.2⟩
  | error e t => exact fun hs => hs.update rfl rfl rfl

lemma ensures_functionBody (isAsync isGenerator : Bool) (ps : List Node) :
    Ensures (functionBody g isAsync isGenerator ps) (ReadAs .block) :=
  .inBody ((ensures_block true).allowIn.bind fun _ => .next fun _ => .pure id) _ _ _

lemma ensures_arrowTail (isAsync : Bool) (ps : List Node) :
    Ensures (arrowTail g isAsync ps) fun b => b.ReadAs .block ∨ b.ReadAs .expr := by
  refine .inBody (.next fun isBlock => .ite (fun _ => ?_) fun _ => ?_) _ _ _
  · exact (ensures_block false).bind fun b => .next fun _ => .pure .inl
  · exact hg.assign.mono fun _ => .inr

lemma ensures_functionTail {params : Parse (List Node)} (h : Ensures params fun ps => AreParams ps ∧ P ps)
    (start : Nat) (isAsync isGenerator : Bool) :
    Ensures (functionTail g start params isAsync isGenerator) (IsFunction P) := by
  refine .within (.next fun _ => .next fun open_ => h.within.bind fun ps => .next fun _ => ?_)
  refine .next fun close => ?_
  refine (ensures_functionBody isAsync isGenerator ps).bind fun body => .next fun span => ?_
  exact .pure fun hbody hps => ⟨_, _, _, _, _, _, rfl, hps.1, hps.2, hbody⟩

lemma ensures_formalParams : Ensures (formalParams g) fun ps => AreParams ps ∧ True :=
  (ensures_paramList true).mono fun _ h => ⟨h, trivial⟩

/-- **A function.** -/
lemma ensures_function (start : Nat) (isAsync isExpr needsName : Bool) :
    Ensures (function g start isAsync isExpr needsName) fun r => r.2.ReadAs .func := by
  refine .next fun _ => .next fun isGenerator => ?_
  extract_lets outside own
  refine .next fun name => ?_
  refine (ensures_functionTail ensures_formalParams start isAsync isGenerator).within.bind fun f => ?_
  exact .pure fun hf => hf.readAs

/-! ## Objects -/

lemma ensures_getterParams (key : Span) : Ensures (getterParams g key) fun ps =>
    AreParams ps ∧ True := by
  exact ensures_formalParams.bind fun ps => .check fun _ => .pure id

/-- A setter has one parameter, which is no rest parameter. -/
lemma ensures_setterParams (key : Span) : Ensures (setterParams g key) fun ps =>
    AreParams ps ∧ ∃ p, ps = [p] ∧ p.ReadIn Role.isTarget := by
  refine ensures_formalParams.bind fun ps => ?_
  extract_lets result rest
  refine .unless fun _ => ?_
  unfold rest
  cases ps with
  | nil => exact .pure fun hlen => absurd hlen (by simp)
  | cons p tail =>
    refine .unless fun _ => .pure fun hp hlen hps => ⟨hps.1, p, ?_, hps.1.read p (by simp), ?_⟩
    · simpa using hlen
    · have hfits := hps.1.fits
      simp only [Role.areParams, map_cons, all_cons, Bool.and_eq_true, Bool.or_eq_true, beq_iff_eq] at hfits
      refine hfits.1.1.resolve_right fun hr => hp ?_
      simpa using Tag.eq_of_role (congrArg Role.onlyTag hr)

lemma ensures_methodTail {params : Parse (List Node)} (h : Ensures params fun ps => AreParams ps ∧ P ps)
    (start : Nat) (isAsync isGenerator : Bool) :
    Ensures (methodTail g start params isAsync isGenerator) (IsFunction P) :=
  (ensures_functionTail h start isAsync isGenerator).within

lemma ensures_objMethod {key : Node} {params : Parse (List Node)}
    (h : Ensures params fun ps => AreParams ps ∧ P ps) (start : Nat) (isAsync isGenerator : Bool) :
    Ensures (do
      let f ← methodTail g start params isAsync isGenerator
      return Node.mk (← spanFrom start) .objMethod [key, f]) fun n =>
        key.ReadIn Role.isPublicKey → n.ReadAs .prop := by
  refine (ensures_methodTail h start isAsync isGenerator).bind fun f => .next fun span => ?_
  exact .pure fun hf hkey => ⟨read_two hkey hf.readAs.beq fun _ _ => rfl, rfl⟩

lemma ensures_modifiedProperty (start : Nat) (modifier : String) :
    Ensures (modifiedProperty g start modifier) (ReadAs .prop) := by
  unfold modifiedProperty
  extract_lets rest
  have hrest : ∀ isGenerator, Ensures (rest isGenerator) (ReadAs .prop) := by
    refine fun isGenerator => ensures_propertyKey.bind fun key => ?_
    split
    · refine (ensures_methodTail (ensures_getterParams key.span) start false false).bind fun f => ?_
      split
      · next head b hkids =>
        refine .next fun span => .pure fun hf hkey => ?_
        obtain ⟨_, _, _, _, _, _, rfl, -, -, hbody⟩ := hf
        cases hkids
        exact ⟨read_two hkey hbody.beq fun _ _ => rfl, rfl⟩
      · next hkids =>
        refine .next fun span => .pure fun hf => ?_
        obtain ⟨_, _, _, _, _, _, rfl, -⟩ := hf
        exact absurd rfl (hkids _ _)
    · refine (ensures_methodTail (ensures_setterParams key.span) start false false).bind fun f => ?_
      split
      · next p b hparts =>
        refine .next fun span => .pure fun hf hkey => ?_
        obtain ⟨_, _, _, _, _, _, rfl, -, ⟨p, rfl, hp⟩, hbody⟩ := hf
        cases hparts
        exact ⟨read_three hkey hp hbody.beq fun _ _ _ => rfl, rfl⟩
      · next hparts =>
        refine .next fun span => .pure fun hf => ?_
        obtain ⟨_, _, _, _, _, _, rfl, -, ⟨p, rfl, hp⟩, -⟩ := hf
        cases hparts
    · exact ensures_objMethod ensures_formalParams start true isGenerator
  exact .ite (fun _ => .next hrest) fun _ => .next hrest

lemma ensures_wordProperty (start : Nat) (name : Ident) : Ensures (wordProperty g start name) (ReadAs .prop) := by
  unfold wordProperty
  extract_lets rest
  have hrest : ∀ x, Ensures (rest x) (ReadAs .prop) := by
    refine fun _ => .next fun k => .ite (fun _ => .next fun hasValue => .ite (fun _ => ?_) fun _ => ?_)
      fun _ => .ite (fun _ => ensures_modifiedProperty start _) fun _ => ensures_unexpected _
    · refine hg.assign.bind fun value => .next fun span => .pure fun hvalue => ?_
      exact ⟨read_of_roles (.cons hvalue .nil) rfl, rfl⟩
    · exact .pure ⟨read_leaf rfl, rfl⟩
  exact .next fun _ => .ite (fun _ => .next fun _ => .next hrest) fun _ => hrest ()

/-- The roles of what stands in an object literal. -/
def isObjectPart (r : Role) : Bool := r == .prop || r == .spread

lemma ensures_objectProperty : Ensures (objectProperty g) (ReadIn isObjectPart) := by
  refine .next fun start => .next fun isSpread => .ite (fun _ => ?_) fun _ => ?_
  · refine hg.assign.bind fun e => .next fun span => .pure fun he => ?_
    exact ⟨read_of_roles (.cons he .nil) rfl, rfl⟩
  refine .next fun isGenerator => .ite (fun _ => ?_) fun _ => ?_
  · refine ensures_propertyKey.bind fun key => ?_
    exact (ensures_objMethod ensures_formalParams start false true).mono fun n hn hkey => (hn hkey).within rfl
  refine ensures_propertyKey.bind fun key => .next fun hasValue => .ite (fun _ => ?_) fun _ => ?_
  · refine hg.assign.bind fun value => .next fun span => .pure fun hvalue hkey => ?_
    exact ⟨read_two hkey hvalue.beq fun _ _ => rfl, rfl⟩
  refine .next fun isMethod => .ite (fun _ => ?_) fun _ => ?_
  · exact (ensures_objMethod ensures_formalParams start false false).mono fun n hn hkey => (hn hkey).within rfl
  split
  · exact (ensures_wordProperty start _).mono fun n hn _ => hn.within rfl
  · exact ensures_unexpected _

/-- **An object literal.** -/
lemma ensures_objectLiteral : Ensures (objectLiteral g) (ReadAs .expr) := by
  refine .next fun start => (ensures_braced ensures_objectProperty).within.bind fun (props, comma) => ?_
  dsimp only
  have hrest : Ensures (do return mk (← spanFrom start) .object props) fun n =>
      (∀ p ∈ props, p.ReadIn isObjectPart) → n.ReadAs .expr :=
    .next fun span => .pure fun hprops => ⟨read_list hprops fun _ => rfl, rfl⟩
  cases comma with
  | none => exact hrest
  | some c => exact .next fun _ => hrest

end Grammar

end EcmaLower.Parse
