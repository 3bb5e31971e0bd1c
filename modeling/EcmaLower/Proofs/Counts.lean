import EcmaLower.Proofs.LocalRules

/-!
# Counting constructs

How many nodes of a tree have a property. A rule that is applied everywhere counts the nodes on which it
fires, and it keeps every count that it keeps at one node.
-/

namespace EcmaLower

open Node List Build

variable {es : List Node} {qs : List Quasi} {n new : Node} {t : Tag} {α : Type}

/-- How many nodes of a tree have a property. -/
def Node.count (p : Node → Bool) (n : Node) : Nat := n.fold fun span t ks =>
  (p (.mk span t (ks.map (·.1)))).toNat + total (·.2) ks

/-- How many nodes of a script have a property. -/
def Script.count (p : Node → Bool) (s : Script) : Nat := total (Node.count p) s.body

/-- How many nodes a tree has. -/
def Node.size (n : Node) : Nat := n.count fun _ => true

/-- How many nodes a script has. -/
def Script.size (s : Script) : Nat := total Node.size s.body

namespace Node

lemma total_append (f : α → Nat) (l l' : List α) : total f (l ++ l') = total f l + total f l' := by
  induction l with
  | nil => exact (Nat.zero_add _).symm
  | cons a l ih => rw [cons_append, total, total, ih, Nat.add_assoc]

lemma total_congr {f g : α → Nat} {l : List α} (h : ∀ a ∈ l, f a = g a) : total f l = total g l := by
  induction l with
  | nil => rfl
  | cons a l ih =>
    obtain ⟨ha, hl⟩ := forall_mem_cons.mp h
    rw [total, total, ha, ih hl]

lemma count_mk (p : Node → Bool) (s : Span) (t : Tag) (ks : List Node) :
    (mk s t ks).count p = (p (mk s t ks)).toNat + total (count p) ks := by
  rw [count, fold_mk]
  simp only [map_map, total_map]
  congr 3
  exact congrArg (mk s t) (map_id ks)

lemma size_mk (s : Span) (t : Tag) (ks : List Node) : (mk s t ks).size = 1 + total size ks := count_mk _ s t ks

/-- A search finds nothing where there is nothing to count. -/
lemma count_eq_zero {p : Node → Bool} : n.count p = 0 ↔ n.any p = false := by
  induction n with
  | mk s t ks ih =>
    rw [count_mk, any_mk, Nat.add_eq_zero_iff, total_eq_zero_iff, Bool.or_eq_false_iff, any_eq_false]
    refine and_congr (by cases p (mk s t ks) <;> simp) (forall₂_congr fun k hk => ?_)
    rw [ih k hk, Bool.not_eq_true]

/-! ## Rules applied everywhere -/

section Ruled

variable {rule : Node → Option Node} {p : Node → Bool}

/-- **A pass counts the nodes on which its rule fires**, if it fires on a node exactly if it would before the
children of the node were replaced. -/
theorem applyRule_count
    (hp : ∀ s t ks, (mk s t ks).WellFormed → (rule (mk s t (ks.map (ruled rule)))).isSome = p (mk s t ks))
    (n : Node) (h : n.WellFormed) : (n.applyRule rule).count = n.count p := by
  induction n with
  | mk s t ks ih =>
    have hkids : total (fun k => (k.applyRule rule).count) ks = total (count p) ks :=
      total_congr fun k hk => ih k hk (h.kid hk)
    rw [applyRule_mk, count_mk, ← hp s t ks h, ← hkids]
    cases rule (mk s t (ks.map (ruled rule))) with
    | none => exact (Nat.zero_add _).symm
    | some new => exact Nat.add_comm _ _

/-- **A pass keeps a count if its rule does.** -/
theorem count_ruled (hr : KeepsShape rule)
    (hp : ∀ s t ks, (mk s t ks).WellFormed → p (mk s t (ks.map (ruled rule))) = p (mk s t ks))
    (hrule : ∀ n new, n.WellFormed → rule n = some new → new.count p = n.count p)
    (n : Node) (h : n.WellFormed) : (n.ruled rule).count p = n.count p := by
  refine ruled_induct (R := fun n m => m.count p = n.count p) hr (fun s t ks h ih => ?_)
    (fun _ m new hw hnew hm => (hrule m new hw hnew).trans hm) n h
  rw [count_mk, count_mk, hp s t ks h, total_map]
  exact congrArg (_ + ·) (total_congr ih)

end Ruled

end Node

/-! ## Generated nodes -/

namespace Build

variable {p : Node → Bool} [Foreign p]

lemma count_core {s : Span} (ht : t.isCore = true) (ks : List Node) : (mk s t ks).count p = total (count p) ks := by
  rw [count_mk, Foreign.core (p := p) _ _ _ ht]
  exact Nat.zero_add _

lemma count_make (ht : t.isCore = true) (ks : List Node) :
    (make t ks).count p = total (count p) ks := count_core ht ks

lemma count_call (f : Node) (ks : List Node) : (call f ks).count p = f.count p + total (count p) ks :=
  count_make rfl _

lemma count_paren (e : Node) : (paren e).count p = e.count p := count_make rfl _

lemma count_keyValue (a b : Node) : (keyValue a b).count p = a.count p + b.count p := by
  rw [keyValue, count_core rfl]
  rfl

lemma count_funcExpr (f : Node) : (funcExpr f).count p = f.count p := by
  rw [funcExpr, count_core rfl]
  rfl

end Build

/-! ## The local rules -/

section Rules

variable {p : Node → Bool} [Foreign p]

/-- The rule keeps the number of constructs of other families. -/
lemma Shorthand.count_rule (hp : ∀ s x ks, p (mk s (.shorthand x) ks) = false)
    (hm : ∀ s ks, p (mk s .objMethod ks) = false) (hn : n.WellFormed) (h : rule n = some new) :
    new.count p = n.count p := by
  obtain ⟨s, name, ks, rfl, rfl⟩ | ⟨s, key, f, rfl, -, rfl⟩ := rule_cases h
  · obtain rfl : ks = [] := hn.leaf rfl
    rw [count_keyValue, count_core rfl, count_core rfl, count_mk, hp]
    rfl
  · rw [count_keyValue, count_funcExpr, count_mk, hm, Bool.toNat_false, Nat.zero_add]
    rfl

lemma total_afterDirectives (f : Node → Nat) (new body : List Node) :
    total f (afterDirectives new body) = total f new + total f body := by
  have hbody : total f body = total f (body.takeWhile isDirective) + total f (body.dropWhile isDirective) := by
    rw [← total_append, takeWhile_append_dropWhile]
  rw [afterDirectives, total_append, total_append, hbody]
  omega

namespace Rest

lemma count_slice (pat : Node) (i : Nat) : (slice pat i).count p = pat.count p := by
  have hcall : (call (path ["Array", "prototype", "slice", "call"])
      [ident "arguments", natLit i]).count p = 0 := by
    rw [count_eq_zero]
    simp
  rw [slice, var, count_make rfl, total, total, declarator, count_make rfl]
  simp only [Option.toList_some, total, hcall, Nat.add_zero]

/-- The rule keeps the number of constructs of other families. -/
lemma count_rule (hf : ∀ s a g ks, p (mk s (.func a g) ks) = false) (hc : ∀ s ks, p (mk s .ctor ks) = false)
    (hr : ∀ s ks, p (mk s .restPat ks) = false) (hn : n.WellFormed) (h : rule n = some new) :
    new.count p = n.count p := by
  cases moves_of_rule hn h with
  | @intro s _ sr _ t _ _ pat keys ht _ _ =>
    have hroot : ∀ ks, p (mk s t ks) = false := by
      obtain ⟨a, g, rfl, -⟩ | ⟨key, rfl, -⟩ := ht
      · exact hf s a g
      · exact hc s
    have hrest : (mk sr .restPat [pat]).count p = pat.count p := by
      rw [count_mk, hr, Bool.toNat_false, Nat.zero_add]
      rfl
    rw [count_mk _ s, count_mk _ s, hroot, hroot]
    simp only [count_core (p := p) (t := .params) rfl, count_core (p := p) (t := .block) rfl,
      total_afterDirectives, total_append, total, hrest, count_slice]
    omega

end Rest

namespace Template

lemma count_argument (e : Node) : (argument e).count p = e.count p := by
  unfold argument
  split
  · exact count_paren e
  · rfl

lemma count_cooked {q : Quasi} {e : Node} (h : e ∈ cooked q) : e.count p = 0 := by
  obtain ⟨u, -, rfl⟩ := Option.map_eq_some_iff.mp h
  exact count_eq_zero.mpr (any_unitsLit u)

lemma total_count_piece (e : Node) (q : Quasi) : total (count p) (pieces e q) = e.count p := by
  rw [pieces, total, count_argument, Nat.add_eq_left, total_eq_zero_iff]
  intro k hk
  split at hk
  · cases hk
  · exact count_cooked (Option.mem_toList.mp hk)

/-- With a text behind each substitution, the arguments hold all that the substitutions hold. -/
lemma total_count_pieces (h : qs.length = es.length) :
    total (count p) (zipWith pieces es qs).flatten = total (count p) es := by
  induction es generalizing qs with
  | nil => rfl
  | cons e es ih =>
    obtain _ | ⟨q, qs⟩ := qs
    · cases h
    · rw [zipWith_cons_cons, flatten_cons, total_append, total_count_piece, ih (Nat.succ.inj h), total]

lemma count_concat (h : qs.length = es.length + 1) : (concat qs es).count p = total (count p) es := by
  have hhead : ((qs.head?.bind cooked).getD (strLit "")).count p = 0 := by
    cases hc : qs.head?.bind cooked with
    | none => exact count_eq_zero.mpr any_strLit
    | some e =>
      obtain ⟨q, -, hq⟩ := Option.bind_eq_some_iff.mp hc
      exact count_cooked hq
  rw [concat]
  split
  · rename_i hes
    rw [hhead, isEmpty_iff.mp hes]
    rfl
  · rw [count_call, total_count_pieces (by rw [length_tail]; omega), Nat.add_eq_right, count_eq_zero,
      any_member, ← count_eq_zero]
    exact hhead

/-- A template becomes a call with as much in it as its parts have. -/
lemma count_rule (hn : n.WellFormed) (h : rule n = some new) : new.count p = total (count p) n.kids := by
  obtain ⟨s, qs, es, rfl, rfl⟩ | ⟨s, sq, qs, tag, es, rfl, rfl⟩ := rule_cases h
  · exact count_concat (parts_of_template hn).2
  · have hstrings : (strings qs).count p = 0 :=
      count_eq_zero.mpr (eq_false_of_ne_true (finds_strings (.ofForeign p) qs))
    rw [tagCall, count_call, total, hstrings, Nat.zero_add]
    rfl

end Template

end Rules

end EcmaLower
