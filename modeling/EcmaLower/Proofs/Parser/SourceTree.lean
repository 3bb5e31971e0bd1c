import EcmaLower.Proofs.Parser.Ensures
import EcmaLower.Proofs.WellFormed

/-!
# Trees of a text

What a tree has to be to come from a text: it is well-formed, every `this` in it stands somewhere, and
every part of a template without a tag has the value of its text. The lemmas of this module build such
trees from their parts, by the number of the parts and by what their tag takes.
-/

namespace EcmaLower

variable {p q : Role → Bool} {ks ns : List Node} {n a b : Node} {r : Role} {s : Span} {t : Tag}

/-- Whether a part of a template has a value, and the empty one if nothing is written. -/
def Quasi.isCooked (q : Quasi) : Bool :=
  q.cooked.isSome && (q.raw != "" || q.cooked == some [])

lemma Quasi.isCooked_iff {q : Quasi} : q.isCooked = true ↔
    ∃ value, q.cooked = some value ∧ (q.raw = "" → value = []) := by
  obtain ⟨raw, cooked⟩ := q
  cases cooked with
  | none => simp [isCooked]
  | some value => simp [isCooked, Decidable.imp_iff_not_or]

/-- The roles of the parts of a node that is never stray. -/
def Tag.reads (t : Tag) (rs : List Role) : Bool :=
  match t with
  | .this | .template _ => false
  | t => t.fits rs

namespace Node

/-- Whether a node cannot come from a text: a `this` that stands nowhere, or a template with a part that
has no value, or has one where nothing is written. -/
def isStray (n : Node) : Bool :=
  match n.tag with
  | .this => n.span == .none
  | .template quasis => !quasis.all Quasi.isCooked
  | _ => false

/-- A tree that comes from a text. -/
def Read (n : Node) : Prop := n.WellFormed ∧ n.any isStray = false

/-- A tree from a text that has a role. -/
def ReadAs (r : Role) (n : Node) : Prop := n.Read ∧ n.role = r

/-- A tree from a text whose role is among those of `p`. -/
def ReadIn (p : Role → Bool) (n : Node) : Prop := n.Read ∧ p n.role = true

/-- Trees from a text whose roles are among those of `p`. -/
def AllIn (p : Role → Bool) (ns : List Node) : Prop := ∀ n ∈ ns, n.ReadIn p

@[simp] lemma allIn_nil (p : Role → Bool) : AllIn p [] := by simp [AllIn]

@[simp] lemma allIn_cons : AllIn p (n :: ns) ↔ n.ReadIn p ∧ AllIn p ns := List.forall_mem_cons

lemma AllIn.concat (hs : AllIn p ns) (h : n.ReadIn p) : AllIn p (ns ++ [n]) := Parse.forall_mem_concat hs h

lemma ReadAs.within (h : n.ReadAs r) (hp : p r = true) : n.ReadIn p := ⟨h.1, h.2 ▸ hp⟩

lemma ReadIn.mono (h : n.ReadIn p) (hpq : ∀ r, p r = true → q r = true) : n.ReadIn q := ⟨h.1, hpq _ h.2⟩

lemma ReadAs.beq (h : n.ReadAs r) : n.ReadIn (· == r) := h.within (beq_self_eq_true r)

lemma read_mk : (mk s t ks).Read ↔
    (mk s t ks).isStray = false ∧ t.fits (ks.map role) = true ∧ ∀ k ∈ ks, k.Read := by
  simp only [Read, wellFormed_mk, any_mk, Bool.or_eq_false_iff, List.any_eq_false, Bool.not_eq_true, forall_and]
  tauto

lemma Read.fits (h : (mk s t ks).Read) : t.fits (ks.map role) = true := (read_mk.mp h).2.1

lemma Read.kid {ks : List Node} (h : (mk s t ks).Read) {k : Node} (hk : k ∈ ks) : k.Read := (read_mk.mp h).2.2 k hk

/-! ## Building trees -/

section Build

variable {s : Span} {t : Tag}

lemma read_of_reads (hk : ∀ k ∈ ks, k.Read) (hf : t.reads (ks.map role) = true) : (mk s t ks).Read := by
  cases t with
  | this | template => cases hf
  | _ => exact read_mk.mpr ⟨rfl, hf, hk⟩

lemma read_leaf (hf : t.reads [] = true) : (mk s t []).Read := read_of_reads (by simp) hf

/-- A node whose parts have fixed roles. -/
lemma read_of_roles {rs : List Role} (hk : List.Forall₂ (fun k r => k.ReadAs r) ks rs)
    (hf : t.reads rs = true) : (mk s t ks).Read := by
  have hkids : ks.map role = rs ∧ ∀ k ∈ ks, k.Read := by
    clear hf
    induction hk with
    | nil => simp
    | cons h _ ih => simpa [h.1, h.2, ih.1] using ih.2
  exact read_of_reads hkids.2 (hkids.1 ▸ hf)

/-- A node with one part. -/
lemma read_one (ha : a.ReadIn p) (hf : ∀ r, t.reads [r] = p r) : (mk s t [a]).Read :=
  read_of_reads (by simpa using ha.1) ((hf _).trans ha.2)

/-- A node with two parts. -/
lemma read_two (ha : a.ReadIn p) (hb : b.ReadIn q) (hf : ∀ r r', t.reads [r, r'] = (p r && q r')) :
    (mk s t [a, b]).Read :=
  read_of_reads (by simpa using ⟨ha.1, hb.1⟩) ((hf _ _).trans (by simp [ha.2, hb.2]))

/-- A node with three parts. -/
lemma read_three {p' p'' : Role → Bool} {c : Node} (ha : a.ReadIn p) (hb : b.ReadIn p') (hc : c.ReadIn p'')
    (hf : ∀ r r' r'', t.reads [r, r', r''] = (p r && p' r' && p'' r'')) : (mk s t [a, b, c]).Read :=
  read_of_reads (by simpa using ⟨ha.1, hb.1, hc.1⟩) ((hf _ _ _).trans (by simp [ha.2, hb.2, hc.2]))

/-- A node with any number of parts of one kind. -/
lemma read_list (hk : AllIn p ks) (hf : ∀ rs, t.reads rs = rs.all p) : (mk s t ks).Read := by
  refine read_of_reads (fun k hmem => (hk k hmem).1) ((hf _).trans ?_)
  simpa using fun k hmem => (hk k hmem).2

/-- A node with one part, and any number of parts of one kind. -/
lemma read_cons (ha : a.ReadIn p) (hk : AllIn q ks) (hf : ∀ r rs, t.reads (r :: rs) = (p r && rs.all q)) :
    (mk s t (a :: ks)).Read := by
  refine read_of_reads ?_ ((hf _ _).trans ?_)
  · simpa using ⟨ha.1, fun k hmem => (hk k hmem).1⟩
  · simpa [ha.2] using fun k hmem => (hk k hmem).2

end Build

end Node

/-! ## Grammars -/

/-- The recursive parts of a grammar read trees of the right kind. -/
class Parse.Grammar.Sound (g : Grammar) : Prop where
  assign : Ensures g.assign (Node.ReadAs .expr)
  unary : Ensures g.unary (Node.ReadAs .expr)
  newExpr : Ensures g.newExpr (Node.ReadAs .expr)
  heritage : Ensures g.heritage (Node.ReadAs .expr)
  binding (forbidLet : Bool) : Ensures (g.binding forbidLet) (Node.ReadAs .pat)
  stmt (allowDecl : Bool) : Ensures (g.stmt allowDecl) (Node.ReadIn Role.isStatement)
  /-- Without its `else`, an `if` has two parts. -/
  ifStmt (noElse : Bool) : Ensures (g.ifStmt noElse) fun n =>
    n.ReadAs .stmt ∧ (noElse = true → ∃ s test yes, n = .mk s .ifStmt [test, yes])

namespace Parse

variable (g : Grammar) [hg : g.Sound]

instance : Quiet g.assign := hg.assign.quiet

instance : Quiet g.heritage := hg.heritage.quiet

end Parse

end EcmaLower
