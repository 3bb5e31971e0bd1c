import EcmaLower.Lower.Bottomup
import EcmaLower.Proofs.Generated

/-!
# Rules applied everywhere

Three of the passes apply a local rule from the leaves up. Whatever such a pass does to a tree
follows from what its rule does to one well-formed node: the lemmas of this module carry a property
of the rule to the pass.

## Main results

* `Node.ruled_is` — such a rule keeps trees well-formed.
* `Node.any_ruled` — the pass leaves a search alone if the rule does.
* `Node.not_any_ruled` — the pass removes the nodes on which the rule always fires.
* `Node.count_eq_zero_iff` — the pass counts nothing iff the rule fires nowhere.
-/

namespace EcmaLower

open List

/-- A rule puts well-formed nodes in the place of nodes of the same role. -/
def KeepsShape (rule : Node → Option Node) : Prop := ∀ n new, n.WellFormed → rule n = some new → new.Is n.role

namespace Node

/-- A tree after a rule was applied everywhere. -/
def ruled (rule : Node → Option Node) (n : Node) : Node := (n.applyRule rule).node

variable {rule : Node → Option Node}

lemma total_map {α β : Type} (f : β → Nat) (g : α → β) (l : List α) :
    total f (l.map g) = total (fun a => f (g a)) l := by
  induction l with
  | nil => rfl
  | cons a l ih => rw [map_cons, total, total, ih]

lemma total_eq_zero_iff {α : Type} {f : α → Nat} {l : List α} : total f l = 0 ↔ ∀ a ∈ l, f a = 0 := by
  induction l with
  | nil => simp [total]
  | cons a l ih => simp [total, ih]

lemma applyRule_mk (s : Span) (t : Tag) (ks : List Node) : (mk s t ks).applyRule rule =
    match rule (mk s t (ks.map (ruled rule))) with
    | some new => ⟨new, total (fun k => (k.applyRule rule).count) ks + 1⟩
    | none => ⟨mk s t (ks.map (ruled rule)), total (fun k => (k.applyRule rule).count) ks⟩ := by
  rw [applyRule, fold_mk]
  simp only [map_map, total_map]
  rfl

/-- A rule acts on a node whose children it has already been applied to: it fires there, or leaves
the node. -/
lemma ruled_cases (rule : Node → Option Node) (s : Span) (t : Tag) (ks : List Node) :
    (∃ new, rule (mk s t (ks.map (ruled rule))) = some new ∧ (mk s t ks).ruled rule = new) ∨
    (rule (mk s t (ks.map (ruled rule))) = none ∧ (mk s t ks).ruled rule = mk s t (ks.map (ruled rule))) := by
  rw [ruled, applyRule_mk]
  cases rule (mk s t (ks.map (ruled rule))) with
  | none => exact .inr ⟨rfl, rfl⟩
  | some new => exact .inl ⟨new, rfl, rfl⟩

/-! ## Shape -/

/-- **A rule that keeps shape keeps trees well-formed**, and every node its role. -/
theorem ruled_is (hr : KeepsShape rule) (n : Node) (h : n.WellFormed) : (n.ruled rule).Is n.role := by
  induction n with
  | mk s t ks ih =>
    have hkids := h.map_kids fun k hk => ih k hk (h.kid hk)
    obtain ⟨new, hn, he⟩ | ⟨-, he⟩ := ruled_cases rule s t ks
    · rw [he]
      have := hr _ new hkids hn
      exact this
    · rw [he]
      exact ⟨hkids, rfl⟩

/-- A node takes its children also after a rule was applied to them. -/
lemma wellFormed_map_ruled (hr : KeepsShape rule) {s : Span} {t : Tag} {ks : List Node}
    (h : (mk s t ks).WellFormed) : (mk s t (ks.map (ruled rule))).WellFormed :=
  h.map_kids fun k hk => ruled_is hr k (h.kid hk)

/-- **Induction along a pass.** A relation that a node has to its result if its children have, and that the rule
keeps, holds of every tree and its result. -/
theorem ruled_induct {R : Node → Node → Prop} (hr : KeepsShape rule)
    (hmk : ∀ s t ks, (mk s t ks).WellFormed → (∀ k ∈ ks, R k (k.ruled rule)) →
      R (mk s t ks) (mk s t (ks.map (ruled rule))))
    (hrule : ∀ n m new, m.WellFormed → rule m = some new → R n m → R n new) (n : Node) (h : n.WellFormed) :
    R n (n.ruled rule) := by
  induction n with
  | mk s t ks ih =>
    have hkids := hmk s t ks h fun k hk => ih k hk (h.kid hk)
    obtain ⟨new, hn, he⟩ | ⟨-, he⟩ := ruled_cases rule s t ks
    · exact he ▸ hrule _ _ new (wellFormed_map_ruled hr h) hn hkids
    · exact he ▸ hkids

/-- **What becomes of the parts of a tree is part of its result**, if the rule loses no part of a node. -/
theorem within_ruled (hr : KeepsShape rule)
    (hrule : ∀ {n new k : Node}, n.WellFormed → rule n = some new → k ∈ n.kids → k.Within new)
    {m n : Node} (hn : n.WellFormed) (h : m.Within n) : (m.ruled rule).Within (n.ruled rule) := by
  induction h with
  | refl => exact .refl
  | @kid s t ks k hk _ ih =>
    refine (ih (hn.kid hk)).trans ?_
    obtain ⟨new, hnew, he⟩ | ⟨-, he⟩ := ruled_cases rule s t ks
    · rw [he]
      exact hrule (wellFormed_map_ruled hr hn) hnew (mem_map_of_mem hk)
    · rw [he]
      exact .kid (mem_map_of_mem hk) .refl

/-! ## Searches -/

/-- **A pass leaves a search alone if its rule does**: where the rule keeps what a search finds in a
node, the pass keeps what it finds in a tree. -/
theorem any_ruled {p : Node → Bool} (hr : KeepsShape rule)
    (hp : ∀ s t ks, (mk s t ks).WellFormed → p (mk s t (ks.map (ruled rule))) = p (mk s t ks))
    (hrule : ∀ n new, n.WellFormed → rule n = some new → new.any p = n.any p)
    (n : Node) (h : n.WellFormed) : (n.ruled rule).any p = n.any p := by
  refine ruled_induct (R := fun n m => m.any p = n.any p) hr (fun s t ks h ih => ?_)
    (fun _ m new hw hnew hm => (hrule m new hw hnew).trans hm) n h
  rw [any_mk, any_mk, any_map, hp s t ks h]
  exact congrArg (_ || ·) (any_congr_mem ih)

/-- **A pass removes the nodes on which its rule always fires.** It may fire only where a search for
`q` finds nothing, if the pass leaves that search alone. -/
theorem not_any_ruled {p q : Node → Bool} (hr : KeepsShape rule)
    (hq : ∀ n : Node, n.WellFormed → (n.ruled rule).any q = n.any q) (hqk : IgnoresKids q)
    (hfire : ∀ n new, n.WellFormed → rule n = some new → (∀ k ∈ n.kids, k.any p = false) → new.any p = false)
    (hkeep : ∀ n, n.WellFormed → n.any q = false → rule n = none → p n = false)
    (n : Node) (h : n.WellFormed) (hn : n.any q = false) : (n.ruled rule).any p = false := by
  induction n with
  | mk s t ks ih =>
    have hw := wellFormed_map_ruled hr h
    have hqn : (mk s t (ks.map (ruled rule))).any q = false := by
      rw [← hn, any_mk, any_mk, hqk s t _ ks, any_map]
      congr 1
      exact any_congr_mem fun k hk => hq k (h.kid hk)
    rw [any_mk, Bool.or_eq_false_iff, any_eq_false] at hn
    have hkids : ∀ k ∈ ks.map (ruled rule), k.any p = false :=
      forall_mem_map.mpr fun k hk => ih k hk (h.kid hk) (eq_false_of_ne_true (hn.2 k hk))
    obtain ⟨new, hrule, he⟩ | ⟨hrule, he⟩ := ruled_cases rule s t ks
    · rw [he]
      exact hfire _ new hw hrule hkids
    · rw [he, any_mk, Bool.or_eq_false_iff]
      exact ⟨hkeep _ hw hqn hrule, by simpa using hkids⟩

/-- A pass removes the nodes on which its rule fires whatever stands around them. -/
lemma not_any_ruled_of_fires {p : Node → Bool} (hr : KeepsShape rule)
    (hfire : ∀ n new, n.WellFormed → rule n = some new → (∀ k ∈ n.kids, k.any p = false) → new.any p = false)
    (hkeep : ∀ n, n.WellFormed → rule n = none → p n = false) (n : Node) (h : n.WellFormed) :
    (n.ruled rule).any p = false :=
  not_any_ruled (q := fun _ => false) hr (fun _ _ => by rw [any_false, any_false])
    (fun _ _ _ _ => rfl) hfire (fun n hn _ => hkeep n hn) n h (any_false n)

/-! ## Counts -/

/-- **A pass counts nothing iff its rule fires nowhere**, and then it changes nothing. -/
theorem count_eq_zero_iff (n : Node) : ((n.applyRule rule).count = 0 ↔ n.any (fun m => (rule m).isSome) = false) ∧
    ((n.applyRule rule).count = 0 → n.ruled rule = n) := by
  induction n with
  | mk s t ks ih =>
    by_cases hk : ∀ k ∈ ks, (k.applyRule rule).count = 0
    · have hsame : ks.map (ruled rule) = ks := (map_congr_left fun k hm => (ih k hm).2 (hk k hm)).trans (map_id ks)
      have hany : ks.any (·.any fun m => (rule m).isSome) = false :=
        any_eq_false.mpr fun k hm => by simp [(ih k hm).1.mp (hk k hm)]
      rw [ruled, applyRule_mk, hsame, any_mk, hany, total_eq_zero_iff.mpr hk]
      cases rule (mk s t ks) <;> simp
    · obtain ⟨k, hm, hne⟩ : ∃ k ∈ ks, (k.applyRule rule).count ≠ 0 := by simpa using hk
      have hcount : ((mk s t ks).applyRule rule).count ≠ 0 := by
        have hpos : total (fun k => (k.applyRule rule).count) ks ≠ 0 := fun h => hne (total_eq_zero_iff.mp h k hm)
        rw [applyRule_mk]
        split
        · exact Nat.succ_ne_zero _
        · exact hpos
      have hany : (mk s t ks).any (fun m => (rule m).isSome) = true := by
        rw [any_mk, Bool.or_eq_true, any_eq_true]
        exact .inr ⟨k, hm, by simpa using mt (ih k hm).1.mpr hne⟩
      exact ⟨iff_of_false hcount (by simp [hany]), fun h => absurd h hcount⟩

end Node

/-! ## Scripts -/

namespace Script

variable {rule : Node → Option Node} (s : Script)

lemma applyRule_body : (s.applyRule rule).1.body = s.body.map (Node.ruled rule) := by
  simp only [applyRule, map_map]
  rfl

lemma applyRule_count_eq_zero_iff :
    (s.applyRule rule).2 = 0 ↔ s.body.any (·.any fun m => (rule m).isSome) = false := by
  simp only [applyRule, Node.total_map, Node.total_eq_zero_iff, (Node.count_eq_zero_iff _).1,
    any_eq_false, Bool.not_eq_true]

lemma any_applyRule {f g : Node → Bool} (h : s.WellFormed) (hn : ∀ n : Node, n.WellFormed → f (n.ruled rule) = g n) :
    (s.applyRule rule).1.body.any f = s.body.any g := by
  rw [applyRule_body, any_map]
  exact Node.any_congr_mem fun n hmem => hn n (h n hmem).1

lemma applyRule_wellFormed (hr : KeepsShape rule) (h : s.WellFormed) : (s.applyRule rule).1.WellFormed := by
  rw [WellFormed, applyRule_body, forall_mem_map]
  intro n hn
  have := Node.ruled_is hr n (h n hn).1
  exact ⟨this.1, this.2 ▸ (h n hn).2⟩

lemma contains_applyRule (hr : KeepsShape rule)
    (hrule : ∀ {n new k : Node}, n.WellFormed → rule n = some new → k ∈ n.kids → k.Within new)
    (h : s.WellFormed) {m : Node} (hm : s.Contains m) : (s.applyRule rule).1.Contains (m.ruled rule) := by
  obtain ⟨n, hn, hwithin⟩ := hm
  refine ⟨n.ruled rule, ?_, Node.within_ruled hr hrule (h n hn).1 hwithin⟩
  exact s.applyRule_body ▸ mem_map_of_mem hn

end Script

end EcmaLower
