import EcmaLower.Proofs.ArrowScopes
import EcmaLower.Proofs.OwnUse

/-!
# Places in a tree

A place in a tree is a path from the root: the numbers of the children to go to. This module says what
stands at a place and what owns it: the nearest function or accessor around it, or the script.
-/

namespace EcmaLower

open List Option

variable {n m k : Node} {t : Tag} {p here q : List Nat} {s : Span} {ks : List Node} {i : Nat} {x : Site α}

/-- Whether a node owns the words in its parameters and its body. -/
def Tag.isOwner : Tag → Bool
  | .func .. | .ctor | .getter | .setter => true
  | _ => false

namespace Site

variable {α β : Type}

/-- A site with another owner. -/
def map (f : α → β) (x : Site α) : Site β := ⟨f x.owner, x.inArrow, x.inParams⟩

lemma down_map (f : α → β) (x : Site α) (own : α) (t : Tag) (i : Nat) :
    (x.map f).down (f own) t i = (x.down own t i).map f := by
  unfold down
  split <;> rfl

lemma down_owner (x : Site α) (own : α) (t : Tag) (i : Nat) :
    (x.down own t i).owner = x.owner ∨ (x.down own t i).owner = own ∧ t.isOwner = true := by
  unfold down
  split <;> first | exact .inr ⟨rfl, rfl⟩ | exact .inl rfl

/-- The owner of a child does not depend on the rest of the site. -/
lemma down_owner_congr {x y : Site α} (h : x.owner = y.owner) (own : α) (t : Tag) (i : Nat) :
    (x.down own t i).owner = (y.down own t i).owner := by
  unfold down
  split <;> first | rfl | exact h

/-- A node that is neither an arrow nor an owner hands its site down. -/
lemma down_of_ordinary {x : Site α} {own : α} (ht : Arrow.isOrdinary t = true ∨ t = .exprStmt) (i : Nat) :
    x.down own t i = x := by
  rcases ht with ht | rfl
  · cases t <;> first | rfl | cases ht
  · rfl

end Site

namespace Node

/-! ## What stands at a place -/

/-- What stands at a place. -/
def at? (n : Node) : List Nat → Option Node
  | [] => some n
  | i :: p => n.kids[i]?.bind (·.at? p)

@[simp] lemma at?_nil (n : Node) : n.at? [] = some n := rfl

lemma at?_cons (h : n.kids[i]? = some k) (p : List Nat) : n.at? (i :: p) = k.at? p := by
  rw [at?, h, bind_some]

lemma exists_kid_of_at? (h : n.at? (i :: p) = some m) :
    ∃ k, n.kids[i]? = some k ∧ k.at? p = some m := bind_eq_some_iff.mp h

lemma at?_append {f : Node} (h : n.at? q = some f) (p : List Nat) : n.at? (q ++ p) = f.at? p := by
  induction q generalizing n with
  | nil =>
    obtain rfl := some_inj.mp h
    rfl
  | cons i q ih =>
    obtain ⟨k, hk, h⟩ := exists_kid_of_at? h
    rw [cons_append, at?_cons hk, ih h]

/-- A node without children has only one place. -/
lemma eq_nil_of_at? (hn : n.kids = []) (h : n.at? p = some m) : p = [] ∧ m = n := by
  cases p with
  | nil => exact ⟨rfl, (some_inj.mp h).symm⟩
  | cons i p =>
    obtain ⟨k, hk, -⟩ := exists_kid_of_at? h
    rw [hn] at hk
    cases hk

/-! ## Owners -/

/-- The site of a place, given the place `here` of the root in a larger tree and the site of the
root. -/
def site (n : Node) (here : List Nat) (x : Site (Option (List Nat))) : List Nat → Site (Option (List Nat))
  | [] => x
  | i :: p =>
    match n.kids[i]? with
    | none => x
    | some k => k.site (here ++ [i]) (x.down (some here) n.tag i) p

/-- The site of the root of a script. -/
def topSite : Site (Option (List Nat)) := ⟨none, false, false⟩

lemma site_cons (h : n.kids[i]? = some k) (here : List Nat) (x : Site (Option (List Nat))) (p : List Nat) :
    n.site here x (i :: p) = k.site (here ++ [i]) (x.down (some here) n.tag i) p := by
  rw [site, h]

/-- The owner of a place in a part of a tree: one in the part, or the owner `o` of the part, which
stands at `here`. -/
def ownerFrom (o : Option (List Nat)) (here : List Nat) : Option (List Nat) → Option (List Nat)
  | none => o
  | some q => some (here ++ q)

/-- **A part of a tree can be looked at on its own.** -/
lemma site_map (n : Node) (o : Option (List Nat)) (here at' : List Nat)
    (x : Site (Option (List Nat))) (p : List Nat) :
    n.site (here ++ at') (x.map (ownerFrom o here)) p = (n.site at' x p).map (ownerFrom o here) := by
  induction p generalizing n at' x with
  | nil => rfl
  | cons i p ih =>
    cases hk : n.kids[i]? with
    | none => rw [site, site, hk]
    | some k =>
      rw [site_cons hk, site_cons hk, append_assoc, ← ih,
        show some (here ++ at') = ownerFrom o here (some at') from rfl, Site.down_map]

/-- The site of a place below a child. -/
lemma site_kid (h : n.kids[i]? = some k) (x : Site (Option (List Nat))) (p : List Nat) {o : Option (List Nat)}
    {a b : Bool} (hx : x.down (some []) n.tag i = ⟨o, a, b⟩) :
    n.site [] x (i :: p) = (k.site [] ⟨none, a, b⟩ p).map (ownerFrom o [i]) := by
  rw [site_cons h, hx, ← site_map]
  rfl

/-- The owner of a place does not depend on how the root lies in its own owner. -/
lemma site_owner_congr (n : Node) (here : List Nat) {x y : Site (Option (List Nat))}
    (h : x.owner = y.owner) (p : List Nat) : (n.site here x p).owner = (n.site here y p).owner := by
  induction p generalizing n here x y with
  | nil => exact h
  | cons i p ih =>
    cases hk : n.kids[i]? with
    | none => rwa [site, site, hk]
    | some k =>
      rw [site_cons hk, site_cons hk]
      exact ih k _ (Site.down_owner_congr h _ _ _)

/-- A place that no function inside the tree owns has the owner of the root, and lies in its parameter
list or in an arrow of it if the root does. -/
lemma site_of_owner_eq_none {x : Site (Option (List Nat))} (hat : n.at? p = some m)
    (h : (n.site here x p).owner = none) : x.owner = none ∧
      (n.site here x p).inParams = x.inParams ∧ (x.inArrow = true → (n.site here x p).inArrow = true) := by
  induction p generalizing n here x with
  | nil => exact ⟨h, rfl, id⟩
  | cons i p ih =>
    obtain ⟨k, hk, hm⟩ := exists_kid_of_at? hat
    rw [site_cons hk] at h ⊢
    obtain ⟨ho, hp, ha⟩ := ih hm h
    rw [hp]
    unfold Site.down at ho ha ⊢
    split at ho
    · cases ho
    · cases ho
    all_goals simp_all

/-- The owner of a place is a function or an accessor around it. -/
lemma exists_owner {x : Site (Option (List Nat))} (hat : n.at? p = some m) (h : (n.site here x p).owner = some q) :
    x.owner = some q ∨ ∃ r f, q = here ++ r ∧ n.at? r = some f ∧ f.tag.isOwner = true := by
  induction p generalizing n here x with
  | nil => exact .inl h
  | cons i p ih =>
    obtain ⟨k, hk, hm⟩ := exists_kid_of_at? hat
    rw [site_cons hk] at h
    rcases ih hm h with hown | ⟨r, f, rfl, hr, hf⟩
    · rcases x.down_owner (some here) n.tag i with hx | ⟨hx, ht⟩
      · exact .inl (hx ▸ hown)
      · obtain rfl := some_inj.mp (hx.symm.trans hown)
        exact .inr ⟨[], n, (append_nil _).symm, rfl, ht⟩
    · exact .inr ⟨i :: r, f, append_assoc .., (at?_cons hk r).trans hr, hf⟩

/-! ## Words that a tree uses -/

/-- Whether a node is a class, or an accessor whose key is computed. -/
def isBarred (n : Node) : Bool :=
  match n.tag, n.kids with
  | .cls, _ => true
  | .getter, key :: _ | .setter, key :: _ => key.tag == .keyComputed
  | _, _ => false

/-- A tree without classes, and without accessors whose keys are computed. -/
def Plain (n : Node) : Prop := n.any isBarred = false

instance (n : Node) : Decidable n.Plain := inferInstanceAs (Decidable (_ = _))

lemma plain_mk : (mk s t ks).Plain ↔ (mk s t ks).isBarred = false ∧ ∀ k ∈ ks, k.Plain := by
  simp only [Plain, any_mk, Bool.or_eq_false_iff, List.any_eq_false, Bool.not_eq_true]

lemma Plain.kid {s : Span} {t : Tag} {ks : List Node} (h : (mk s t ks).Plain) {k : Node}
    (hk : k ∈ ks) : k.Plain := (plain_mk.mp h).2 k hk

lemma Plain.ne_cls (h : (mk s t ks).Plain) : t ≠ .cls := by
  rintro rfl
  cases (plain_mk.mp h).1

/-- The key of an accessor is not computed. -/
lemma Plain.key {key : Node} (h : (mk s t (key :: ks)).Plain) (ht : t = .getter ∨ t = .setter) :
    key.tag ≠ .keyComputed := by
  have hroot := (plain_mk.mp h).1
  rcases ht with rfl | rfl <;> exact beq_eq_false_iff_ne.mp hroot

/-- No word stands in a key that is not computed. -/
lemma contextWord_of_key {key : Node} (hw : key.OfRole Role.isPublicKey) (hc : key.tag ≠ .keyComputed)
    (hat : key.at? p = some m) : m.tag.contextWord? = none := by
  obtain ⟨s, t, ks⟩ := key
  have hrole := hw.2
  have hwf := hw.1
  cases t with
  | keyName | keyStr | keyNum | keyBigInt =>
    obtain rfl : ks = [] := hwf.leaf rfl
    obtain ⟨-, rfl⟩ := eq_nil_of_at? rfl hat
    rfl
  | keyComputed => exact absurd rfl hc
  | _ => cases hrole

/-- **A word that no function inside a tree owns is used by the tree.** -/
lemma ownUse_of_site {x : Site (Option (List Nat))} {w : ContextWord} (hn : n.Plain) (hwf : n.WellFormed)
    (hat : n.at? p = some m) (hw : m.tag.contextWord? = some w) (ho : (n.site here x p).owner = none) :
    n.ownUse Tag.isContext = true := by
  induction p generalizing n here x with
  | nil =>
    obtain rfl := some_inj.mp hat
    obtain ⟨s, t, ks⟩ := n
    rw [ownUse_mk]
    rcases Tag.eq_of_contextWord hw with ⟨ht, -⟩ | ⟨ht | ht, -⟩ <;>
    · obtain rfl : t = _ := ht
      rfl
  | cons i p ih =>
    obtain ⟨s, t, ks⟩ := n
    obtain ⟨k, hk, hm⟩ := exists_kid_of_at? hat
    have hmem : k ∈ ks := mem_of_getElem? hk
    rw [site_cons hk] at ho
    have huse := ih (hn.kid hmem) (hwf.kid hmem) hm ho
    have hnone := (site_of_owner_eq_none hm ho).1
    rw [ownUse_mk]
    cases t with
    | func =>
      unfold Site.down at hnone
      split at hnone <;> simp_all
    | getter =>
      obtain ⟨key, body, rfl, hkey, -⟩ := hwf.getter
      rcases i with _ | _ | i
      · obtain rfl : key = k := by simpa using hk
        have := contextWord_of_key hkey (hn.key (.inl rfl)) hm
        rw [this] at hw
        cases hw
      · cases hnone
      · simp at hk
    | setter =>
      obtain ⟨key, q, body, rfl, hkey, -, -⟩ := hwf.setter
      rcases i with _ | _ | _ | i
      · obtain rfl : key = k := by simpa using hk
        have := contextWord_of_key hkey (hn.key (.inr rfl)) hm
        rw [this] at hw
        cases hw
      · cases hnone
      · cases hnone
      · simp at hk
    | cls => exact absurd rfl hn.ne_cls
    | _ => exact Bool.or_eq_true_iff.mpr (.inr (any_eq_true.mpr ⟨k, hmem, huse⟩))

/-! ## Trees in other trees -/

/-- The tree `k` stands in `k'`: `f` says where its places are, and what stands there is the same,
blocks and parameter lists apart, and has the same owner. -/
structure Embeds (f : List Nat → List Nat) (k k' : Node) : Prop where
  order {p q : List Nat} : f p <+: f q ↔ p <+: q
  same {p : List Nat} {m : Node} : k.at? p = some m → m.tag ≠ .block → m.tag ≠ .params → k'.at? (f p) = some m
  owner {p : List Nat} {m : Node} : k.at? p = some m →
    (k'.site [] topSite (f p)).owner = (k.site [] topSite p).owner.map f

namespace Embeds

/-- A parameter list that stands nowhere in the source. -/
lemma params (hk : k.tag = .params) : Embeds id k (Build.params k.kids) := by
  refine ⟨Iff.rfl, fun {p m} h _ hp => ?_, fun {p m} h => ?_⟩
  · cases p with
    | nil =>
      obtain rfl := Option.some_inj.mp h
      exact absurd hk hp
    | cons i p => exact h
  · have hsite : (Build.params k.kids).site [] topSite p = k.site [] topSite p := by
      cases p with
      | nil => rfl
      | cons i p =>
        obtain ⟨j, hj, -⟩ := exists_kid_of_at? h
        rw [site_cons hj, site_cons (n := Build.params k.kids) (k := j) (by exact hj), hk]
        rfl
    rw [id, hsite, Option.map_id, id]

/-- A tree as the only child of a node that hands its site down. -/
lemma wrap (ht : Arrow.isOrdinary t = true ∨ t = .exprStmt) (k : Node) : Embeds (0 :: ·) k (.mk s t [k]) := by
  refine ⟨prefix_cons_inj 0, fun h _ _ => h, fun {p m} h => ?_⟩
  rw [site_kid (n := .mk s t [k]) (k := k) rfl topSite p (Site.down_of_ordinary ht 0)]
  change ownerFrom none [0] (k.site [] topSite p).owner = _
  cases (k.site [] topSite p).owner <;> rfl

/-- Where the statements of a block are after `count` statements have been put in front of number
`start`. -/
def insertion (start count : Nat) : List Nat → List Nat
  | [] => []
  | i :: p => (if i < start then i else i + count) :: p

/-- A block with statements put behind its directives. -/
lemma afterDirectives (new stmts : List Node) :
    Embeds (insertion (stmts.takeWhile isDirective).length new.length) (.mk s .block stmts)
      (.mk s .block (afterDirectives new stmts)) := by
  generalize hstart : (stmts.takeWhile isDirective).length = start
  -- The statement at a number is at its new number.
  have hkid : ∀ i k, stmts[i]? = some k → (Node.mk s .block (EcmaLower.afterDirectives new stmts)).kids[
        if i < start then i else i + new.length]? = some k := by
    intro i k hk
    subst hstart
    rw [← takeWhile_append_dropWhile (p := isDirective) (l := stmts)] at hk
    rw [kids_mk, EcmaLower.afterDirectives, append_assoc]
    split
    next hi => rwa [getElem?_append_left hi] at hk ⊢
    next hi =>
      rw [getElem?_append_right (by omega)] at hk ⊢
      rw [getElem?_append_right (by omega)]
      rwa [Nat.sub_right_comm, Nat.add_sub_cancel]
  refine ⟨fun {p q} => ?_, fun {p m} h hb _ => ?_, fun {p m} h => ?_⟩
  · cases p with
    | nil => simp [insertion]
    | cons i p =>
      cases q with
      | nil => simp [insertion]
      | cons j q =>
        rw [insertion, insertion, cons_prefix_cons, cons_prefix_cons]
        refine and_congr_left fun _ => ?_
        split <;> split <;> omega
  · cases p with
    | nil =>
      obtain rfl := some_inj.mp h
      exact absurd rfl hb
    | cons i p =>
      obtain ⟨k, hk, hm⟩ := exists_kid_of_at? h
      exact (at?_cons (hkid i k hk) p).trans hm
  · cases p with
    | nil => rfl
    | cons i p =>
      obtain ⟨k, hk, hm⟩ := exists_kid_of_at? h
      rw [insertion, site_kid hk topSite p rfl, site_kid (hkid i k hk) topSite p rfl]
      change ownerFrom none _ (k.site [] topSite p).owner = (ownerFrom none _ (k.site [] topSite p).owner).map _
      cases (k.site [] topSite p).owner <;> rfl

end Embeds

end Node

/-- A script as a tree. -/
def Script.tree (s : Script) : Node := .mk s.span .block s.body

end EcmaLower
