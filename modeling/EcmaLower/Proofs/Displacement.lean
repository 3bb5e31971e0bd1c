import EcmaLower.Proofs.ArrowPass

/-!
# Arrows that change their place

An arrow in a parameter list that uses `this` or `arguments` is kept, because variables of the body
cannot be seen there. It may still end up in a body: a rest parameter moves into the body of its
function with all that its pattern holds, and an arrow that is lowered gets a body of its own, in
which another arrow may have been kept. In its new place such an arrow could be lowered.

This module follows each node of a tree through the passes behind the first, by two marks: whether it
stood in a parameter list when the arrows were lowered, and whether it stands in one afterwards.
-/

namespace EcmaLower

open Node Build List

variable {a b now : Bool} {m : Bool × Bool} {ks stmts : List Node} {p : Node} {s : Span} {t : Tag}
namespace Arrow

/-! ## Counts -/

/-- An arrow that is lowered if its mark is `b`. -/
def Lowers (b : Bool) (n : Node) : Prop := (∃ a, n.tag = .arrow a) ∧ keeps b n.kids = false

lemma not_lowers (h : ∀ a, t ≠ .arrow a) : ¬Lowers b (mk s t ks) := fun ⟨⟨a, ha⟩, _⟩ => h a ha

/-- Each step counts the arrows that it lowers. -/
lemma count_step (b : Bool) (n n' : Node) (c : Nat) (h : n.WellFormed)
    (hstep : Step (fun b n _ c => c = 0 ↔ ¬Finds visited Lowers b n) b n n' c) :
    c = 0 ↔ ¬Finds visited Lowers b n := by
  cases hstep with
  | @rebuilt _ s t ks _ _ _ hparts _ harrow =>
    have hno : ¬Lowers b (mk s t ks) := by
      rintro ⟨⟨a, ha⟩, hk⟩
      exact ne_true_of_eq_false hk (harrow a ha)
    rw [hparts.count_eq_zero_iff fun _ _ _ hk => hk, finds_iff_of_not hno]
    simp
  | field | staticBlock =>
    rw [finds_iff_of_not (not_lowers (by simp))]
    simp [visited]
  | lowered hk =>
    refine iff_of_false (Nat.succ_ne_zero _) (not_not_intro ?_)
    exact finds_iff.mpr (.inl ⟨⟨_, rfl⟩, hk⟩)
  | word hword =>
    rcases Tag.eq_of_contextWord hword with ⟨rfl, -⟩ | ⟨rfl | rfl, -⟩ <;>
    · rw [finds_iff_of_not (not_lowers (by simp))]
      simp [visited]
  | statement _ he =>
    rw [he, finds_iff_of_not (not_lowers (by simp))]
    simp [visited]

/-- **No arrow is counted iff the walk finds none to lower.** -/
theorem lowerScript_count_eq_zero_iff {s : Script} (h : s.WellFormed) :
    (lowerScript s).2 = 0 ↔ ∀ n ∈ s.body, ¬Finds visited Lowers false n := by
  obtain ⟨sc, body', c, hE, -, hc⟩ := lowerScript_rel count_step h
  rw [hc]
  exact hE.count_eq_zero_iff fun k _ k' d hk => hk

/-! ## Walks -/

/-- To search parameters with their marks and then a body. -/
lemma exists_mem_marks {M : Type} {F : M × Node → Prop} {g : Node → M} {l : List Node}
    {x : M × Node} : (∃ y ∈ l.map (fun k => (g k, k)) ++ [x], F y) ↔ (∃ k ∈ l, F (g k, k)) ∨ F x := by
  constructor
  · rintro ⟨y, hy, hF⟩
    rcases mem_append.mp hy with hy | hy
    · obtain ⟨k, hk, rfl⟩ := mem_map.mp hy
      exact .inl ⟨k, hk, hF⟩
    · rw [mem_singleton.mp hy] at hF
      exact .inr hF
  · rintro (⟨k, hk, hF⟩ | hF)
    · exact ⟨_, mem_append_left _ (mem_map_of_mem hk), hF⟩
    · exact ⟨x, by simp, hF⟩

/-- The nodes below a node, each with the mark whether it stands in the parameter list of the
innermost function once rest parameters have moved into the bodies. -/
def moved (b : Bool) : Node → List (Bool × Node)
  | .mk _ (.func ..) [p, body] => p.kids.map (fun k => (k.tag != .restPat, k)) ++ [(false, body)]
  | .mk _ .ctor [key, p, body] =>
    (b, key) :: (p.kids.map (fun k => (k.tag != .restPat, k)) ++ [(false, body)])
  | n => visited b n

/-- The nodes below a node, each with two marks: whether it stands in the parameter list of the
innermost function while arrows are lowered, and whether it does once that is done and rest
parameters have moved. An arrow that is lowered is a function by then. -/
def displacing (m : Bool × Bool) : Node → List ((Bool × Bool) × Node)
  | .mk _ (.func ..) [p, body] =>
    p.kids.map (fun k => ((true, k.tag != .restPat), k)) ++ [((false, false), body)]
  | .mk _ .ctor [key, p, body] =>
    (m, key) :: (p.kids.map (fun k => ((true, k.tag != .restPat), k)) ++ [((false, false), body)])
  | .mk _ .getter [key, body] => [(m, key), ((false, false), body)]
  | .mk _ .setter [key, p, body] => [(m, key), ((true, true), p), ((false, false), body)]
  | .mk _ (.field _) _ | .mk _ .staticBlock _ => []
  | .mk _ (.arrow _) [p, body] =>
    if keeps m.1 [p, body] then [(m, p), (m, body)]
    else p.kids.map (fun k => ((m.1, k.tag != .restPat), k)) ++ [((m.1, false), body)]
  | .mk _ _ ks => ks.map (m, ·)

/-- An arrow that is kept where it stands while arrows are lowered, but would not be where it stands
afterwards. -/
def Displaced (m : Bool × Bool) (n : Node) : Prop :=
  (∃ a, n.tag = .arrow a) ∧ keeps m.1 n.kids = true ∧ keeps m.2 n.kids = false

lemma not_displaced (h : ∀ a, t ≠ .arrow a) : ¬Displaced m (mk s t ks) := fun ⟨⟨a, ha⟩, _⟩ => h a ha

lemma moved_eq_visited (hf : ∀ a g, t ≠ .func a g) (hc : t ≠ .ctor) :
    moved b (mk s t ks) = visited b (mk s t ks) := by
  cases t with
  | func a g => exact absurd rfl (hf a g)
  | ctor => exact absurd rfl hc
  | _ => rfl

lemma moved_ordinary (ht : isOrdinary t = true) : moved b (mk s t ks) = ks.map (b, ·) := by
  cases t <;> first | rfl | cases ht

lemma displacing_ordinary (ht : isOrdinary t = true) : displacing m (mk s t ks) = ks.map (m, ·) := by
  cases t <;> first | rfl | cases ht

lemma finds_moved_ordinary (ht : isOrdinary t = true) :
    Finds moved Lowers b (mk s t ks) ↔ ∃ k ∈ ks, Finds moved Lowers b k := by
  rw [finds_iff_of_not (not_lowers (by rintro a rfl; cases ht)), moved_ordinary ht]
  simp

lemma finds_visited_ordinary (ht : isOrdinary t = true) :
    Finds visited Lowers b (mk s t ks) ↔ ∃ k ∈ ks, Finds visited Lowers b k := by
  rw [finds_iff_of_not (not_lowers (by rintro a rfl; cases ht)), visited_ordinary ht]
  simp

/-- The walk goes through generated expressions. -/
def searchVisited (b : Bool) : Search where
  Finds := Finds visited Lowers b
  core _ t _ ht := finds_visited_ordinary (by cases t <;> first | rfl | cases ht)
  ident s x _ := by simp [finds_visited_ordinary (t := .ident x) rfl]

def searchMoved (b : Bool) : Search where
  Finds := Finds moved Lowers b
  core _ t _ ht := finds_moved_ordinary (by cases t <;> first | rfl | cases ht)
  ident s x _ := by simp [finds_moved_ordinary (t := .ident x) rfl]

lemma within_of_mem_moved {x : Bool × Node} (hx : x ∈ moved b (mk s t ks)) : ∃ k ∈ ks, x.2.Within k := by
  have hkid : ∀ {p k : Node}, k ∈ p.kids → k.Within p := by
    rintro ⟨sp, tp, ps⟩ k hk
    exact .kid hk .refl
  unfold moved at hx
  split at hx
  · rename_i p body he
    cases he
    simp only [mem_append, mem_map, mem_singleton] at hx
    rcases hx with ⟨k, hk, rfl⟩ | rfl
    · exact ⟨p, by simp, hkid hk⟩
    · exact ⟨body, by simp, .refl⟩
  · rename_i key p body he
    cases he
    simp only [mem_cons, mem_append, mem_map, not_mem_nil, or_false] at hx
    rcases hx with rfl | ⟨k, hk, rfl⟩ | rfl
    · exact ⟨key, by simp, .refl⟩
    · exact ⟨p, by simp, hkid hk⟩
    · exact ⟨body, by simp, .refl⟩
  · exact ⟨x.2, mem_kids_of_mem_visited hx, .refl⟩

/-! ## Rules and walks -/

lemma visited_map (b : Bool) (f : Node → Node) (s : Span) (t : Tag) (ks : List Node) :
    visited b (mk s t (ks.map f)) = (visited b (mk s t ks)).map (Prod.map id f) := by
  cases t with
  | func a g | getter =>
    match ks with
    | [_, _] => rfl
    | [] | [_] | _ :: _ :: _ :: _ => simp [visited, Function.comp_def]
  | ctor | setter =>
    match ks with
    | [_, _, _] => rfl
    | [] | [_] | [_, _] | _ :: _ :: _ :: _ :: _ => simp [visited, Function.comp_def]
  | field _ | staticBlock => rfl
  | _ => simp [visited, Function.comp_def]

/-- A list of parameters stays one under a rule that does not fire there. -/
lemma paramMarks_ruled {rule : Node → Option Node} (hr : KeepsShape rule)
    (hp : ∀ s ks, rule (mk s .params ks) = none) (h : p.Is .params) :
    (p.ruled rule).kids.map (fun k => (k.tag != .restPat, k)) =
      (p.kids.map (fun k => (k.tag != .restPat, k))).map (Prod.map id (ruled rule)) := by
  obtain ⟨s, ps, rfl⟩ := eq_of_role h.2 rfl
  have hrest : ∀ k : Node, (k.tag != .restPat) = (k.role != .rest) := by
    rintro ⟨sk, t, ks⟩
    cases t <;> rfl
  obtain ⟨new, hn, -⟩ | ⟨-, he⟩ := ruled_cases rule s .params ps
  · rw [hp] at hn
    cases hn
  · rw [he, kids_mk, kids_mk, map_map, map_map]
    refine map_congr_left fun k hk => ?_
    simp only [Function.comp_apply, Prod.map_apply, id_eq, hrest, (ruled_is hr k (h.1.kid hk)).2]

lemma moved_map {rule : Node → Option Node} (hr : KeepsShape rule)
    (hp : ∀ s ks, rule (mk s .params ks) = none) (b : Bool) (s : Span) (t : Tag) (ks : List Node)
    (h : (mk s t ks).WellFormed) : moved b (mk s t (ks.map (ruled rule))) =
      (moved b (mk s t ks)).map (Prod.map id (ruled rule)) := by
  cases t with
  | func a g =>
    obtain ⟨p, body, rfl, hps, -⟩ := h.func
    simp [moved, paramMarks_ruled hr hp hps]
  | ctor =>
    obtain ⟨key, p, body, rfl, -, hps, -⟩ := h.ctor
    simp [moved, paramMarks_ruled hr hp hps]
  | _ => rw [moved_eq_visited (by simp) (by simp), moved_eq_visited (by simp) (by simp), visited_map]

/-- An arrow is kept for the same reasons after a rule that keeps the uses of words. -/
lemma lowers_map {rule : Node → Option Node} (hown : ∀ q : Tag → Bool, Tag.AreWords q → ∀ n : Node, n.WellFormed →
      n.role.isClassPart = false → (n.ruled rule).ownUse q = n.ownUse q)
    (b : Bool) (s : Span) (t : Tag) (ks : List Node) (h : (mk s t ks).WellFormed) :
    Lowers b (mk s t (ks.map (ruled rule))) ↔ Lowers b (mk s t ks) := by
  refine and_congr_right fun ⟨a, ha⟩ => ?_
  obtain rfl : t = .arrow a := ha
  have huse : ∀ q, Tag.AreWords q → (ks.map (ruled rule)).any (·.ownUse q) = ks.any (·.ownUse q) := by
    intro q hq
    rw [any_map]
    exact any_congr_mem fun k hk => hown q hq k (h.kid hk) (h.not_isClassPart (by simp) rfl hk)
  simp only [kids_mk, keeps, usesSuper, usesContext, huse _ (.inl rfl), huse _ (.inr rfl)]

/-- **A walk after a rule was applied everywhere.** If at each node the walk along `next` finds in the
result of the rule what it finds below the node along `next'`, then along `next` it finds in the whole
result what it finds in the tree along `next'`. -/
lemma finds_ruled {rule : Node → Option Node} {next next' : Bool → Node → List (Bool × Node)} (hr : KeepsShape rule)
    (hown : ∀ q : Tag → Bool, Tag.AreWords q → ∀ n : Node, n.WellFormed →
      n.role.isClassPart = false → (n.ruled rule).ownUse q = n.ownUse q)
    (hroot : ∀ b n, n.WellFormed → (Finds next Lowers b ((rule n).getD n) ↔
      Lowers b n ∨ ∃ x ∈ next' b n, Finds next Lowers x.1 x.2))
    (hmap : ∀ b s t ks, (mk s t ks).WellFormed → next' b (mk s t (ks.map (ruled rule))) =
      (next' b (mk s t ks)).map (Prod.map id (ruled rule)))
    (hmem : ∀ b s t ks x, x ∈ next' b (mk s t ks) → ∃ k ∈ ks, x.2.Within k)
    (n : Node) (h : n.WellFormed) (b : Bool) :
    Finds next Lowers b (n.ruled rule) ↔ Finds next' Lowers b n := by
  induction n using induct_within generalizing b with
  | h s t ks ih =>
    have hruled : (mk s t ks).ruled rule =
        (rule (mk s t (ks.map (ruled rule)))).getD (mk s t (ks.map (ruled rule))) := by
      obtain ⟨new, hn, he⟩ | ⟨hn, he⟩ := ruled_cases rule s t ks
      · rw [he, hn]
        rfl
      · rw [he, hn]
        rfl
    rw [hruled, hroot b _ (wellFormed_map_ruled hr h), lowers_map hown b s t ks h, hmap b s t ks h, finds_iff]
    simp only [mem_map, Prod.exists, Prod.map_apply, id_eq]
    refine or_congr_right ⟨?_, ?_⟩
    · rintro ⟨b', _, ⟨_, k, hx, ⟨⟩⟩, hf⟩
      obtain ⟨k₀, hk₀, hw⟩ := hmem b s t ks _ hx
      exact ⟨_, k, hx, (ih k₀ hk₀ k hw ((h.kid hk₀).within hw) _).mp hf⟩
    · rintro ⟨b', k, hx, hf⟩
      obtain ⟨k₀, hk₀, hw⟩ := hmem b s t ks _ hx
      exact ⟨b', _, ⟨b', k, hx, rfl⟩, (ih k₀ hk₀ k hw ((h.kid hk₀).within hw) _).mpr hf⟩

end Arrow

open Arrow

/-- Templates are expressions, so the walk finds in their place what it found in their parts. -/
theorem Template.finds_ruled (n : Node) (h : n.WellFormed) (b : Bool) :
    Finds visited Lowers b (n.ruled rule) ↔ Finds visited Lowers b n := by
  refine Arrow.finds_ruled keepsShape (fun q hq n => ownUse_ruled hq n) (fun b n hn => ?_)
    (fun b s t ks _ => visited_map b _ s t ks)
    (fun b s t ks x hx => ⟨x.2, mem_kids_of_mem_visited hx, .refl⟩) n h b
  cases hrule : rule n with
  | none => exact finds_iff
  | some new =>
    rw [Option.getD_some, ← finds_iff]
    refine (finds_rule (searchVisited b) hn hrule).trans ?_
    obtain ⟨s, qs, es, rfl, -⟩ | ⟨s, sq, qs, tag, es, rfl, -⟩ := rule_cases hrule
    · exact (finds_visited_ordinary rfl).symm
    · exact (finds_visited_ordinary rfl).symm

theorem Shorthand.finds_ruled (n : Node) (h : n.WellFormed) (b : Bool) :
    Finds moved Lowers b (n.ruled rule) ↔ Finds moved Lowers b n := by
  refine Arrow.finds_ruled keepsShape (fun q hq n => ownUse_ruled hq n) (fun b n hn => ?_)
    (moved_map keepsShape fun _ _ => rfl) (fun b s t ks x hx => within_of_mem_moved hx) n h b
  cases hrule : rule n with
  | none => exact finds_iff
  | some new =>
    rw [Option.getD_some, ← finds_iff]
    obtain ⟨s, name, ks, rfl, rfl⟩ | ⟨s, key, f, rfl, -, rfl⟩ := rule_cases hrule
    · obtain rfl : ks = [] := hn.leaf rfl
      simp [keyValue, finds_moved_ordinary (t := .keyValue) rfl,
        finds_moved_ordinary (t := .keyName name) rfl, finds_moved_ordinary (t := .ident name) rfl,
        finds_moved_ordinary (t := .shorthand name) rfl]
    · rw [finds_moved_ordinary rfl]
      change (searchMoved b).Finds _ ↔ _
      rw [finds_keyValue, finds_funcExpr]
      simp [searchMoved]

namespace Rest

/-- The variable that a rest parameter becomes holds its pattern. -/
lemma finds_slice (pat : Node) (i : Nat) :
    Finds visited Lowers false (slice pat i) ↔ Finds visited Lowers false pat := by
  have hargs : ¬(searchVisited false).Finds (ident "arguments") := by
    simp [searchVisited, ident, make, finds_visited_ordinary (t := .ident _) rfl]
  have hcall : ¬Finds visited Lowers false (call (path ["Array", "prototype", "slice",
      "call"]) [ident "arguments", natLit i]) := by
    change ¬(searchVisited false).Finds _
    rw [finds_call]
    simp [finds_path, hargs, natLit, finds_make (t := .num (.nat i)) _ rfl]
  simp [slice, var, declarator, make, finds_visited_ordinary (t := .varDecl _) rfl,
    finds_visited_ordinary (t := .declarator) rfl, hcall]

/-- The parameters and the body of a function, where a rest parameter has moved. -/
lemma finds_moved {sp sr sb : Span} {before : List Node} {pat : Node} {i : Nat}
    (hp : (mk sp .params (before ++ [mk sr .restPat [pat]])).WellFormed) :
    (Finds visited Lowers true (mk sp .params before) ∨
      Finds visited Lowers false (mk sb .block (afterDirectives [slice pat i] stmts))) ↔
    (∃ k ∈ before ++ [mk sr .restPat [pat]], Finds visited Lowers (k.tag != .restPat) k) ∨
      Finds visited Lowers false (mk sb .block stmts) := by
  have hbefore : ∀ k ∈ before, (k.tag != .restPat) = true := by
    intro k hk
    have hrole := ((targets_of_params hp).1 k hk).2
    obtain ⟨sk, t, ks⟩ := k
    cases t <;> first | rfl | cases hrole
  rw [finds_visited_ordinary rfl, finds_visited_ordinary (t := .block) rfl, finds_visited_ordinary (t := .block) rfl]
  simp only [mem_afterDirectives, mem_append, or_and_right, exists_or, mem_singleton,
    exists_eq_left, finds_slice, tag_mk, bne_self_eq_false,
    finds_visited_ordinary (t := .restPat) rfl]
  rw [or_assoc]
  refine or_congr_left ⟨?_, ?_⟩
  · rintro ⟨k, hk, hf⟩
    exact ⟨k, hk, (hbefore k hk).symm ▸ hf⟩
  · rintro ⟨k, hk, hf⟩
    exact ⟨k, hk, (hbefore k hk) ▸ hf⟩

/-- Where there is no rest parameter, nothing moves. -/
lemma finds_params (hp : p.Is .params) (hr : hasRest p = false) :
    Finds visited Lowers true p ↔ ∃ k ∈ p.kids, Finds visited Lowers (k.tag != .restPat) k := by
  obtain ⟨s, ps, rfl⟩ := eq_of_role hp.2 rfl
  simp only [hasRest, kids_mk, any_eq_false, beq_iff_eq] at hr
  rw [finds_visited_ordinary rfl, kids_mk]
  refine exists_congr fun k => and_congr_right fun hk => ?_
  rw [show (k.tag != .restPat) = true from bne_iff_ne.mpr (hr k hk)]

/-- After the pass the walk finds what it finds before, where rest parameters are marked as moved. -/
theorem finds_ruled (n : Node) (h : n.WellFormed) (b : Bool) :
    Finds visited Lowers b (n.ruled rule) ↔ Finds moved Lowers b n := by
  refine Arrow.finds_ruled keepsShape (fun q _ n => ownUse_ruled n) (fun b n hn => ?_)
    (moved_map keepsShape fun _ _ => rfl) (fun b s t ks x hx => within_of_mem_moved hx) n h b
  cases hrule : rule n with
  | none =>
    have hroot := isRoot_eq_false_of_rule hn hrule
    rw [Option.getD_none]
    obtain ⟨s, t, ks⟩ := n
    cases t with
    | func a g =>
      obtain ⟨p, body, rfl, hp, -⟩ := hn.func
      rw [or_iff_right (not_lowers (by simp)), finds_iff_of_not (not_lowers (by simp)), moved,
        exists_mem_marks, ← finds_params hp hroot]
      simp [visited]
    | ctor =>
      obtain ⟨key, p, body, rfl, -, hp, -⟩ := hn.ctor
      rw [or_iff_right (not_lowers (by simp)), finds_iff_of_not (not_lowers (by simp)), moved,
        exists_mem_cons_iff, exists_mem_marks, ← finds_params hp hroot]
      simp [visited]
    | _ =>
      rw [moved_eq_visited (by simp) (by simp)]
      exact finds_iff
  | some new =>
    rw [Option.getD_some]
    cases moves_of_rule hn hrule with
    | @intro _ _ _ _ _ before _ _ keys ht hp _ =>
      obtain ⟨a, g, rfl, rfl⟩ | ⟨key, rfl, rfl⟩ := ht
      · rw [or_iff_right (not_lowers (by simp)), finds_iff_of_not (not_lowers (by simp))]
        rw [nil_append, nil_append, moved, exists_mem_marks, kids_mk, ← finds_moved (i := before.length) hp]
        simp [visited]
      · rw [or_iff_right (not_lowers (by simp)), finds_iff_of_not (not_lowers (by simp))]
        rw [singleton_append, singleton_append, moved, exists_mem_cons_iff, exists_mem_marks, kids_mk,
          ← finds_moved (i := before.length) hp]
        simp [visited]

end Rest

/-! ## The lowering of arrows -/

namespace Arrow

lemma finds_captures (sc : Scope) (b : Bool) : ∀ k ∈ sc.captures, ¬Finds moved Lowers b k := by
  intro k hk
  have hvar : ∀ decls, Finds moved Lowers b (var decls) ↔
      ∃ d ∈ decls, Finds moved Lowers b d := fun _ => finds_moved_ordinary rfl
  have hdecl : ∀ (x : String) (e : Node), Finds moved Lowers b (declarator (binding x)
      (some e)) ↔ Finds moved Lowers b e := by
    intro x e
    simp [declarator, binding, make, finds_moved_ordinary (t := .declarator) rfl,
      finds_moved_ordinary (t := .binding x) rfl]
  have hthis : ¬Finds moved Lowers b this := by
    simp [this, make, finds_moved_ordinary (t := .this) rfl]
  have hident : ∀ x, ¬Finds moved Lowers b (ident x) := by
    intro x
    simp [ident, make, finds_moved_ordinary (t := .ident x) rfl]
  simp only [Scope.captures] at hk
  split at hk
  · cases hk
  · rw [mem_singleton.mp hk, hvar]
    rintro ⟨d, hd, hf⟩
    rcases mem_append.mp hd with hd | hd
    · obtain ⟨x, -, rfl⟩ := Option.map_eq_some_iff.mp (Option.mem_toList.mp hd)
      exact hthis ((hdecl x _).mp hf)
    · obtain ⟨x, -, rfl⟩ := Option.map_eq_some_iff.mp (Option.mem_toList.mp hd)
      exact hident _ ((hdecl x _).mp hf)

lemma finds_afterDirectives {sc : Scope} :
    (∃ k ∈ afterDirectives sc.captures stmts, Finds moved Lowers b k) ↔ ∃ k ∈ stmts, Finds moved Lowers b k := by
  constructor
  · rintro ⟨k, hk, hf⟩
    rcases mem_afterDirectives.mp hk with hk | hk
    · exact absurd hf (finds_captures sc b k hk)
    · exact ⟨k, hk, hf⟩
  · rintro ⟨k, hk, hf⟩
    exact ⟨k, mem_afterDirectives.mpr (.inr hk), hf⟩

lemma finds_declareIn (sc : Scope) {body : Node} (h : body.Is .block) :
    Finds moved Lowers b (declareIn sc.captures body) ↔ Finds moved Lowers b body := by
  obtain ⟨s, stmts, rfl⟩ := eq_of_role h.2 rfl
  rw [declareIn, finds_moved_ordinary rfl, finds_moved_ordinary rfl, finds_afterDirectives]

lemma finds_blockOf (b : Bool) (body : Node) : Finds moved Lowers b (blockOf body) ↔ Finds moved Lowers b body := by
  unfold blockOf
  split
  · rfl
  · simp [block, returnStmt, make, finds_moved_ordinary (t := .block) rfl,
      finds_moved_ordinary (t := .returnStmt) rfl]

lemma finds_asStatement (b : Bool) (e : Node) : Finds moved Lowers b (asStatement e) ↔ Finds moved Lowers b e := by
  unfold asStatement
  split
  · exact finds_paren (searchMoved b)
  · rfl

/-- What a node with mark `b` and its result have in common as to displaced arrows. -/
structure Follows (b : Bool) (n n' : Node) : Prop extends AlikeAt b n n' where
  finds : ∀ now, Finds moved Lowers now n' ↔ Finds displacing Displaced (b, now) n
  parameters : n.role = .params → ((∃ k ∈ n'.kids, Finds moved Lowers (k.tag != .restPat) k) ↔
      ∃ k ∈ n.kids, Finds displacing Displaced (b, k.tag != .restPat) k)

/-- An arrow that was kept is lowered in its new place iff it is displaced. -/
lemma lowers_kept_iff {p' body body' : Node} (h : (mk s (.arrow a) [p, body]).WellFormed)
    (hk : keeps b [p, body] = true) (hp : AlikeAt b p p') (hb : AlikeAt b body body') :
    Lowers now (mk s (.arrow a) [p', body']) ↔ Displaced (b, now) (mk s (.arrow a) [p, body]) := by
  have hpart : ∀ k ∈ [p, body], k.role.isClassPart = false := fun k hk => h.not_isClassPart (by simp) rfl hk
  have hsuper : usesSuper [p', body'] = usesSuper [p, body] := by
    simp [usesSuper, hp.own (hpart p (by simp)), hb.own (hpart body (by simp))]
  have hkeeps : keeps now [p', body'] = keeps now [p, body] := by
    rw [keeps, keeps, hsuper]
    rw [keeps, Bool.or_eq_true, Bool.and_eq_true] at hk
    rcases hk with hk | ⟨rfl, -⟩
    · rw [hk, Bool.true_or, Bool.true_or]
    · have hcontext : usesContext [p', body'] = usesContext [p, body] := by
        simp [usesContext, hp.context rfl (hpart p (by simp)),
          hb.context rfl (hpart body (by simp))]
      rw [hcontext]
  simp only [Lowers, Displaced, kids_mk, tag_mk, hkeeps, hk, true_and]

lemma finds_moved_func {g : Bool} {body : Node} : Finds moved Lowers now (mk s (.func a g) [p, body]) ↔
      (∃ k ∈ p.kids, Finds moved Lowers (k.tag != .restPat) k) ∨ Finds moved Lowers false body := by
  rw [finds_iff_of_not (not_lowers (by simp)), moved, exists_mem_marks]

lemma follows_parts {xs : List (Bool × Node)} {ks' : List Node} {c : Nat}
    (h : Parts (fun b n n' _ => Follows b n n') t xs ks' c) : Forall₂ (fun x e => Follows x.1 x.2 e) xs ks' :=
  h.forall₂_visited (fun _ _ _ _ _ hk => hk) fun _ sc _ _ hk he =>
    ⟨⟨alike_declareIn sc hk he.toAlike, nofun⟩,
      fun now => (finds_declareIn sc (hk.2 ▸ he.is)).trans (he.finds now), fun hr => by simp [hk.2] at hr⟩

/-- Each step follows the arrows to their new places. -/
lemma follows_step (b : Bool) (n n' : Node) (c : Nat) (h : n.WellFormed)
    (hstep : Step (fun b n n' _ => Follows b n n') b n n' c) : Follows b n n' := by
  have halike := alike_step b n n' c h (hstep.mono fun _ _ _ _ h => h.toAlikeAt)
  refine ⟨halike, fun now => ?_, ?_⟩
  · cases hstep with
    | @rebuilt _ s t ks ks' _ hkids hparts hne harrow =>
      have hks := follows_parts hparts
      cases t with
      | func a g =>
        obtain ⟨p, body, rfl, hps, -⟩ := h.func
        obtain _ | ⟨hp, _ | ⟨hb, _ | _⟩⟩ := hks
        rw [finds_moved_func, hp.parameters hps.2, hb.finds, finds_iff_of_not (not_displaced (by simp)),
          displacing, exists_mem_marks]
      | ctor =>
        obtain ⟨key, p, body, rfl, -, hps, -⟩ := h.ctor
        obtain _ | ⟨hk, _ | ⟨hp, _ | ⟨hb, _ | _⟩⟩⟩ := hks
        rw [finds_iff_of_not (not_lowers (by simp)), moved, exists_mem_cons_iff, exists_mem_marks, hk.finds,
          hp.parameters hps.2, hb.finds, finds_iff_of_not (not_displaced (by simp)), displacing,
          exists_mem_cons_iff, exists_mem_marks]
      | getter =>
        obtain ⟨key, body, rfl, -⟩ := h.getter
        obtain _ | ⟨hk, _ | ⟨hb, _ | _⟩⟩ := hks
        rw [finds_iff_of_not (not_lowers (by simp)), finds_iff_of_not (not_displaced (by simp))]
        simp [moved, visited, displacing, hk.finds, hb.finds]
      | setter =>
        obtain ⟨key, p, body, rfl, -⟩ := h.setter
        obtain _ | ⟨hk, _ | ⟨hp, _ | ⟨hb, _ | _⟩⟩⟩ := hks
        rw [finds_iff_of_not (not_lowers (by simp)), finds_iff_of_not (not_displaced (by simp))]
        simp [moved, visited, displacing, hk.finds, hp.finds, hb.finds]
      | arrow a =>
        obtain ⟨p, body, rfl, -⟩ := h.arrow
        obtain _ | ⟨hp, _ | ⟨hb, _ | _⟩⟩ := hks
        have hk := harrow a rfl
        rw [finds_iff, lowers_kept_iff h hk hp.toAlikeAt hb.toAlikeAt, @finds_iff _ displacing]
        refine or_congr_right ?_
        simp [moved, visited, displacing, hk, hp.finds, hb.finds]
      | exprStmt => exact absurd rfl hne
      | field | staticBlock =>
        rw [finds_iff_of_not (not_lowers (by simp)), finds_iff_of_not (not_displaced (by simp))]
        simp [moved, visited, displacing]
      | _ =>
        rw [finds_moved_ordinary rfl, finds_iff_of_not (not_displaced (by simp)), displacing_ordinary rfl,
          exists_iff_of_forall₂ (forall₂_map_left_iff.mp hks) fun k _ k' hk => hk.finds now]
        simp
    | field | staticBlock =>
      rw [finds_iff_of_not (not_lowers (by simp)), finds_iff_of_not (not_displaced (by simp))]
      simp [moved, visited, displacing]
    | @lowered _ a s p p' body body' _ _ hk hps _ hp hb =>
      have hno : ¬Displaced (b, now) (mk s (.arrow a) [p, body]) := fun hd => by
        have := hd.2.1
        rw [kids_mk, hk] at this
        cases this
      rw [toFunction_eq]
      refine (finds_funcExpr (searchMoved now)).trans ?_
      change Finds moved Lowers now _ ↔ _
      rw [finds_moved_func, finds_blockOf, hb.finds, finds_iff_of_not hno, displacing, if_neg (by simp [hk]),
        exists_mem_marks, ← hp.parameters hps.2]
      rfl
    | @word s t _ x hword =>
      rcases Tag.eq_of_contextWord hword with ⟨rfl, -⟩ | ⟨rfl | rfl, -⟩
      · rw [finds_iff_of_not (not_displaced (by simp))]
        simp [readFrom, displacing, ident, make, finds_moved_ordinary (t := .ident x) rfl]
      · rw [finds_iff_of_not (not_displaced (by simp))]
        simp [readFrom, displacing, ident, make, finds_moved_ordinary (t := .ident x) rfl]
      · rw [finds_iff_of_not (not_displaced (by simp))]
        refine (finds_keyValue (searchMoved now)).trans ?_
        simp [searchMoved, displacing, ident, make,
          finds_moved_ordinary (t := .ident x) rfl, finds_moved_ordinary (t := .keyName _) rfl]
    | statement _ he =>
      rw [finds_iff_of_not (not_lowers (by simp)), finds_iff_of_not (not_displaced (by simp))]
      simp [moved, visited, displacing, finds_asStatement, he.finds]
  · intro hr
    obtain ⟨s, ks, rfl⟩ := eq_of_role hr rfl
    cases hstep with
    | rebuilt hkids hparts =>
      refine exists_iff_of_forall₂ (forall₂_map_left_iff.mp (follows_parts hparts)) fun k _ k' hk => ?_
      have hrest : ∀ k : Node, (k.tag != .restPat) = (k.role != .rest) := by
        rintro ⟨sk, t, ks⟩
        cases t <;> rfl
      rw [hrest, hrest, hk.is.2, hk.finds]
    | word hword => cases hword

/-- **Where the arrows end up.** After the lowering of arrows, the walk that marks rest parameters as
moved finds an arrow to lower iff the script has a displaced arrow. -/
theorem finds_lowerScript {s : Script} (h : s.WellFormed) :
    (∃ n ∈ (lowerScript s).1.body, Finds moved Lowers false n) ↔
      ∃ n ∈ s.body, Finds displacing Displaced (false, false) n := by
  obtain ⟨sc, body', c, hE, hbody, -⟩ := lowerScript_rel follows_step h
  rw [hbody, finds_afterDirectives]
  exact hE.exists_iff fun k _ k' d hk => hk.finds false

end Arrow

end EcmaLower
