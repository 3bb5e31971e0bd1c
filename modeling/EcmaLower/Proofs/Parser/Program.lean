import EcmaLower.Lower.Downlevel
import EcmaLower.Proofs.Parser.Statement

/-!
# Programs that are read

What the parser accepts is well-formed. The grammar is sound at every depth, by induction on the depth,
and a text is accepted only if no fault was recorded while it was read.

## Main results

* `Parse.sound_grammar` — the grammar reads well-formed trees, at every depth.
* `wellFormed_of_parseScript` — a script that is read is well-formed.
* `wellFormed_of_parseModule` — so are the items of a module.
-/

namespace EcmaLower

variable {text : String}

namespace Parse

open Node

variable {p : Parsed Node} {α : Type} {P : α → Prop}

/-! ## Imports and exports -/

section Grammar

variable {g : Grammar} [hg : g.Sound]

instance : Quiet moduleSource := by
  refine ⟨.next fun k => ?_⟩
  split
  · exact .next fun _ => .pure trivial
  · exact ensures_unexpected _

instance : Quiet (objectLiteral g) := ensures_objectLiteral.quiet

instance : Quiet (attributes g) := by
  have hbraces : Quiet (do
      if !(← isAt "\x7b") then failHere (.expected "\x7b" (← kind).describe)
      discard (objectLiteral g)) := by dsimp only; infer_instance
  refine ⟨.next fun _ => .ite (fun _ => .next fun _ => .ite (fun _ => ?_) fun _ => ?_) fun _ => .pure trivial⟩
  · exact .next fun _ => .ite (fun _ => hbraces.ensures) fun _ => .pure trivial
  · exact .next fun _ => .ite (fun _ => hbraces.ensures) fun _ => .pure trivial

instance : Quiet (fromClause g) := by unfold fromClause; infer_instance

instance : Quiet exportName := by
  refine ⟨.next fun k => ?_⟩
  split
  · exact .next fun _ => .next fun _ => .pure trivial
  · exact (inferInstance : Quiet (ExportName.word <$> identName)).ensures
  · exact (inferInstance : Quiet (ExportName.word <$> identName)).ensures
  · exact ensures_unexpected _

instance : Quiet importedBinding := by unfold importedBinding; infer_instance

instance : Quiet importSpecifier := by
  refine ⟨.next fun name => ?_⟩
  cases name with
  | word i => exact .next fun _ => .ite (fun _ => .next fun _ => .pure trivial) fun _ => .pure trivial
  | str v span => exact .next fun _ => .ite (fun _ => .next fun _ => .pure trivial) fun _ => ensures_fail _ _

lemma ensures_bracedNames {name : Parse α} (hname : Ensures name P) :
    Ensures (bracedNames name) fun names => ∀ a ∈ names, P a := by
  refine .bind (P := fun names => ∀ a ∈ names, P a) ?_ fun names => .next fun _ => .pure id
  refine Ensures.collect_forall fun acc => ?_
  have hnext : Ensures (some <$> name) fun r => ∀ a ∈ r, P a := hname.map fun a ha b hb => Option.some.inj hb ▸ ha
  refine .next fun isEnd => .ite (fun _ => .pure (by simp)) fun _ => .ite (fun _ => ?_) fun _ => hnext
  exact .next fun _ => .next fun isEnd => .ite (fun _ => .pure (by simp)) fun _ => hnext

instance {α : Type} (name : Parse α) [hname : Quiet name] : Quiet (bracedNames name) :=
  (ensures_bracedNames hname.ensures).quiet

instance : Quiet defaultImport := by
  refine ⟨.next fun _ => .ite (fun _ => .pure trivial) fun _ => .next fun i => .next fun _ => ?_⟩
  refine .ite (fun _ => .pure trivial) fun _ => ?_
  extract_lets rest
  have hrest : ∀ i, Ensures (rest i) fun _ => True := fun i => .next fun _ => .check fun _ => .pure trivial
  clear_value rest
  refine .ite (fun _ => .next fun _ => .ite (fun _ => .next fun _ => ?_) fun _ => .next fun _ => ?_)
    fun _ => .next hrest
  · exact .ite (fun _ => .next hrest) fun _ => .next hrest
  · exact .ite (fun _ => .next hrest) fun _ => .next hrest

lemma ensures_importDecl : Ensures (importDecl g) ModuleItem.WellFormed := by
  refine .next fun _ => .next fun k => .ite (fun _ => .next fun source => ?_) fun _ => ?_
  · exact .next fun _ => .next fun _ => .pure trivial
  refine .next fun (first, isAll) => .next fun isStar => ?_
  extract_lets rest
  have hrest : ∀ specs, Ensures (rest specs) ModuleItem.WellFormed := fun specs =>
    .next fun _ => .next fun source => .next fun _ => .next fun _ => .pure trivial
  clear_value rest
  refine .ite (fun _ => .next fun _ => .next fun i => .pure_bind (hrest _)) fun _ => .next fun isList => ?_
  exact .ite (fun _ => .next hrest) fun _ => .pure_bind (hrest _)

lemma ensures_exportSpecifier : Ensures exportSpecifier fun spec => spec.isNamed = true := by
  refine .next fun name => .next fun renamed => ?_
  refine .ite (fun _ => ?_) fun _ => .pure_bind (.pure rfl)
  exact (inferInstance : Quiet (some <$> exportName)).ensures.bind fun _ => .pure fun _ => rfl

instance (spec : ExportSpecifier) : Quiet (checkExport spec) := by
  cases spec with
  | all name => exact ⟨.pure trivial⟩
  | named name exported =>
    cases name with
    | word i => exact ⟨.ite (fun _ => (ensures_note _ _).mono nofun) fun _ => .pure trivial⟩
    | str v span => exact ⟨(ensures_note _ _).mono nofun⟩

lemma ensures_exportList : Ensures (exportList g) ModuleItem.WellFormed := by
  refine .next fun isAll => .ite (fun _ => .next fun next => .ite (fun _ => ?_) fun _ => ?_) fun _ => ?_
  · exact .next fun _ => .next fun source => .pure trivial
  · refine .next fun _ => .next fun _ => .next fun name => .next fun isFrom => ?_
    have hfrom : Ensures (do return .exportNamed [.all name] (some (← fromClause g)))
        ModuleItem.WellFormed := .next fun source => .pure trivial
    exact .ite (fun _ => .next fun _ => .next fun _ => hfrom) fun _ => hfrom
  · refine .next fun _ => (ensures_bracedNames ensures_exportSpecifier).bind fun names => ?_
    refine .next fun isFrom => .ite (fun _ => ?_) fun _ => ?_
    · exact .next fun source => .pure fun _ => trivial
    · exact .next fun _ => .next fun _ => .pure id

lemma ensures_exportDefault : Ensures (exportDefault g) ModuleItem.WellFormed := by
  have hfunction : ∀ start isAsync, Ensures (do
      let x ← function g start isAsync false false
      return .exportDefaultFunc x.1 x.2) ModuleItem.WellFormed := fun start isAsync =>
    (ensures_function start isAsync false false).bind fun x => .pure fun hf => ⟨hf.1.1, hf.2⟩
  have hexpr : Ensures (do
      let e ← allowIn g.assign
      expectSemi
      return .exportDefaultExpr e) ModuleItem.WellFormed :=
    hg.assign.allowIn.bind fun e => .next fun _ => .pure fun he => ⟨he.1.1, he.2⟩
  refine .next fun start => .next fun isClass => .ite (fun _ => ?_) fun _ => ?_
  · exact (ensures_classTail start false).bind fun x => .pure fun hc => ⟨hc.1.1, hc.2⟩
  refine .next fun isFunction => .ite (fun _ => hfunction start false) fun _ => .next fun isAsync => ?_
  refine .ite (fun _ => .next fun next => .ite (fun _ => .next fun _ => ?_) fun _ => hexpr) fun _ => hexpr
  exact hfunction start true

lemma ensures_exportDecl : Ensures (exportDecl g) ModuleItem.WellFormed := by
  refine .next fun _ => .next fun k => .check fun _ => ?_
  refine .next fun isDefault => .ite (fun _ => ensures_exportDefault) fun _ => ?_
  split
  · refine ensures_classDecl.map fun n hn => ⟨hn.1.1.1, ?_⟩
    obtain ⟨i, hi⟩ := hn.2
    rw [hi]
    rfl
  · refine .next fun start => (ensures_funcDecl start false).map fun n hn => ⟨hn.1.1.1, ?_⟩
    obtain ⟨i, hi⟩ := hn.2
    rw [hi]
    rfl
  · extract_lets rest
    have hrest : ∀ x, Ensures (rest x) ModuleItem.WellFormed := by
      refine fun _ => .next fun isVar => .ite (fun _ => ?_) fun _ => ensures_exportList
      refine (ensures_varDecl false).bind fun n => .pure fun hn => ⟨hn.1.1.1, ?_⟩
      obtain ⟨kind, hkind⟩ := hn.2
      rw [hkind]
      rfl
    clear_value rest
    refine .ite (fun _ => .next fun next => .ite (fun _ => .next fun start => .next fun _ => ?_)
      fun _ => hrest ()) fun _ => hrest ()
    refine (ensures_funcDecl start true).bind fun n => .pure fun hn => ⟨hn.1.1.1, ?_⟩
    obtain ⟨i, hi⟩ := hn.2
    rw [hi]
    rfl

lemma ensures_moduleItem : Ensures (moduleItem g) ModuleItem.WellFormed := by
  refine .next fun isImport => .ite (fun _ => .next fun next => .ite (fun _ => ?_) fun _ => ?_) fun _ => ?_
  · exact ensures_importStmt.bind fun n => .pure fun hn => ⟨hn.1.1, by rw [hn.2]; rfl⟩
  · exact ensures_importDecl
  · refine .next fun isExport => .ite (fun _ => ensures_exportDecl) fun _ => ?_
    exact (ensures_stmt true).map fun n hn => ⟨hn.1.1, hn.2⟩

end Grammar

/-! ## Texts -/

/-- **The grammar reads well-formed trees**, at every depth. -/
theorem sound_grammar (n : Nat) : (grammar n).Sound := by
  induction n with
  | zero =>
    exact ⟨ensures_failHere _, ensures_failHere _, ensures_failHere _, ensures_failHere _,
      fun _ => ensures_failHere _, fun _ => ensures_failHere _, fun _ => ensures_failHere _⟩
  | succ n ih =>
    exact ⟨ensures_assign, ensures_unary, ensures_newExpr, ensures_leftHandSide, ensures_binding,
      ensures_stmt, ensures_ifStmt⟩

instance : Quiet hashbang := by
  refine ⟨.next fun k => ?_⟩
  split
  · exact .next fun _ => .pure trivial
  · exact .pure trivial

end Parse

open Parse in
/-- What holds of every part that is read without a fault holds of the parts of a text that is
accepted. -/
lemma forall_mem_of_parseWith {α : Type} {ctx : Context} {body : Grammar → Parse (List α)} {P : α → Prop}
    (hbody : ∀ g : Grammar, g.Sound → Ensures (body g) fun l => ∀ a ∈ l, P a) {p : Parsed α}
    (h : parseWith ctx body text = .ok p) : ∀ a ∈ p.body, P a := by
  unfold parseWith at h
  extract_lets chars start run at h
  have hrun : Ensures run fun r => ∀ a ∈ r.2, P a :=
    .next fun _ => .next fun _ => (hbody _ (sound_grammar _)).bind fun l => .pure id
  have hstart : start.Placed := ⟨⟨Nat.le_refl _, Nat.le_refl _⟩, ⟨Nat.le_refl _, trivial⟩, by simp [start]⟩
  have hends := hrun start
  clear_value start run
  cases hresult : run start with
  | error f s =>
    rw [hresult] at h
    cases h
  | ok r s =>
    rw [hresult] at h hends
    obtain ⟨line, items⟩ := r
    dsimp only at h
    cases hfaults : s.lex.faults.getLast? with
    | some f =>
      rw [hfaults] at h
      cases h
    | none =>
      rw [hfaults] at h
      obtain rfl := Except.ok.inj h
      exact hends.2 hstart (List.getLast?_eq_none_iff.mp hfaults)

/-- A text is accepted, and what is read from it passes a check. -/
lemma exists_of_any_toOption {ε : Type} {e : Except ε α} {P : α → Bool} (h : e.toOption.any P = true) :
    ∃ a, e = .ok a ∧ P a = true := by
  cases e with
  | error f => cases h
  | ok a => exact ⟨a, rfl, h⟩

/-- **A script that is read is well-formed**, every `this` in it stands somewhere, and every part of a
template without a tag has the value of its text. -/
theorem read_of_parseScript (h : parseScript text = .ok p) : ∀ n ∈ p.body, n.ReadIn Role.isStatement :=
  forall_mem_of_parseWith (fun _ _ => Parse.ensures_statements (Parse.ensures_stmt true) true false) h

/-- **A script that is read is well-formed.** -/
theorem wellFormed_of_parseScript (h : parseScript text = .ok p) : p.script.WellFormed := fun n hn =>
  ⟨(read_of_parseScript h n hn).1.1, (read_of_parseScript h n hn).2⟩

/-- **The items of a module that is read are well-formed.** -/
theorem wellFormed_of_parseModule {p : Parsed ModuleItem} (h : parseModule text = .ok p) :
    ∀ item ∈ p.body, item.WellFormed :=
  forall_mem_of_parseWith (fun _ _ => Parse.ensures_statements Parse.ensures_moduleItem true false) h

end EcmaLower
