import EcmaLower.Proofs.MemberWords

/-!
# Words that belong to a member

A `super` belongs to the member of a class around it, and a `this` to the initializer of a static
field, if only arrows lie between them. The keys and the heritage of a nested class belong to the code
around that class, and so do the keys of accessors.

The lowering of classes does not reach all of that code: a few kinds of nodes hide a part of it. This
module compares what belongs to a member with what is rewritten there. A word that is hidden nowhere
is left only where it belongs to no member.

## Main results

* `Class.finds_outside` — where less is rewritten, more is left.
* `Class.finds_owned` — a word that is left and not hidden belongs to no member.
* `Class.owned_words_removed` — no word of a member is left, unless it is hidden.
-/

namespace EcmaLower.Class

open Node Build SuperContext List

variable {s : Span} {m : Place} {ks : List Node} {t : Tag} {n cls k member : Node} {x y : Place × Node} {w : Word}

/-! ## The code of a member -/

/-- The parts of a member, with the code they belong to: a key belongs to the code around the class,
and the rest to the member, which counts if the class is `lowered`. -/
def memberCodeParts (m : Place) (lowered : Bool) (member : Node) : List (Place × Node) :=
  let own (place : Place) : Place := if lowered then place else .outside
  match member with
  | .mk _ .ctor (key :: parts) => (m, key) :: parts.map (own .member, ·)
  | .mk _ (.method ..) [key, .mk _ _ parts] => (m, key) :: parts.map (own .member, ·)
  | .mk _ (.field isStatic) (key :: value) =>
    (m, key) :: value.map (own (if isStatic then .initializer else .member), ·)
  | .mk _ _ parts => parts.map (.outside, ·)

/-- The nodes below a node, with the code they belong to. Only arrows are transparent: a function, a
method and an accessor have code of their own, but computed keys and the heritage of a class belong
to the code around them. -/
def owned (m : Place) : Node → List (Place × Node)
  | .mk s .cls (members :: heritage) =>
    members.kids.flatMap (memberCodeParts m (isLowerable (.mk s .cls (members :: heritage)))) ++ heritage.map (m, ·)
  | .mk _ (.func ..) ks => ks.map (.outside, ·)
  | .mk _ .getter (key :: parts) | .mk _ .setter (key :: parts) =>
    (m, key) :: parts.map (.outside, ·)
  | .mk _ _ ks => ks.map (m, ·)

/-- The word is at a node of code in which it refers to the class. -/
def Word.Belongs (w : Word) (m : Place) (n : Node) : Prop := w.isAt n = true ∧ m.rewrites n.tag = true

instance (w : Word) (m : Place) (n : Node) : Decidable (w.Belongs m n) := inferInstanceAs (Decidable (_ ∧ _))

/-- `Owns s w`: the word belongs to a member of a class of the script that can be lowered, `super` to
any member and `this` to the initializer of a static field. -/
def Owns (s : Script) (w : Word) : Prop := ∃ n ∈ s.body, Finds owned w.Belongs .outside n

/-- Whether the word stands in the key of a member. -/
def Word.inKey (w : Word) (member : Node) : Bool := member.kids.head?.any (·.any w.isAt)

/-- Whether the word stands in a part of a node that is hidden although it belongs to the code around
the node: the key of a method that is called on `super`, of an accessor or of a member of a nested
class, and the heritage of a nested class that is kept. -/
def Word.isHidden (w : Word) : Node → Bool
  | .mk _ .call (callee :: _) => (superKey? callee).any (·.any w.isAt)
  | .mk _ .getter (key :: _) | .mk _ .setter (key :: _) => key.any w.isAt
  | .mk s .cls (members :: heritage) => members.kids.any w.inKey ||
      (!isLowerable (.mk s .cls (members :: heritage)) && heritage.any (·.any w.isAt))
  | _ => false

/-- The word is hidden at a node of code in which something is rewritten. -/
def Word.Hides (w : Word) (m : Place) (n : Node) : Prop := m ≠ .outside ∧ w.isHidden n = true

instance (w : Word) (m : Place) (n : Node) : Decidable (w.Hides m n) := inferInstanceAs (Decidable (_ ∧ _))

/-! ## Walks -/

/-- A step that is made where something is rewritten can also be made where nothing is: it hands down
the same place, or nothing is rewritten after it either. -/
lemma below_outside {m₁ : Place} (h : (m₁, k) ∈ below m n) :
    (m₁, k) ∈ below .outside n ∨ Reaches below .outside k .outside n := by
  obtain ⟨s, t, ks⟩ := n
  have hdef : ∀ cls : Node, (m₁, k) ∈ partsOfClass m cls → below .outside (.mk s t ks) = partsOfClass .outside cls →
      (m₁, k) ∈ below .outside (.mk s t ks) ∨ Reaches below .outside k .outside (.mk s t ks) := by
    intro cls hx hb
    rw [partsOfClass] at hx hb
    split at hx
    next hl =>
      rw [if_pos hl] at hb
      rcases mem_append.mp hx with hx | hx
      · exact .inl (by rw [hb]; exact mem_append_left _ hx)
      · obtain ⟨e, he, heq⟩ := mem_map.mp hx
        cases heq
        refine .inr (.step ?_ .here)
        rw [hb]
        exact mem_append_right _ (mem_map_of_mem he)
    next hl =>
      rw [if_neg hl] at hb
      exact .inl (by rw [hb]; exact hx)
  have hplain : below .outside (.mk s t ks) = ks.map (.outside, ·) → (m₁, k) ∈ ks.map (m, ·) →
      Reaches below .outside k .outside (.mk s t ks) := by
    intro hb hx
    obtain ⟨k', hk', heq⟩ := mem_map.mp hx
    cases heq
    exact .step (by rw [hb]; exact mem_map_of_mem hk') .here
  by_cases hm : m = .outside
  · exact .inl (hm ▸ h)
  cases t with
  | classDecl i | classExpr i =>
    rcases ks with _ | ⟨cls, _ | ⟨_, _⟩⟩
    · simp [below, partsBelow_of_ne hm] at h
    · exact hdef cls h rfl
    · exact .inr (hplain rfl (by simpa [below, partsBelow_of_ne hm] using h))
  | func | getter | setter | cls =>
    change (m₁, k) ∈ partsBelow m _ ks at h
    rw [partsBelow_of_ne hm] at h
    exact .inl h
  | call =>
    change (m₁, k) ∈ partsBelow m _ ks at h
    rw [partsBelow_of_ne hm] at h
    cases ks with
    | nil => exact .inr (hplain rfl h)
    | cons callee args =>
      cases hkey : superKey? callee with
      | none =>
        simp only [hkey] at h
        exact .inr (hplain rfl h)
      | some key =>
        simp only [hkey] at h
        obtain ⟨sc, wc, rfl⟩ := superKey?_eq_some_iff.mp hkey
        rcases mem_cons.mp h with heq | h
        · cases heq
          -- The key stands below the callee.
          have hcallee : (Place.outside, mk sc (.superMember wc) [k]) ∈
              below .outside (.mk s .call (.mk sc (.superMember wc) [k] :: args)) :=
            mem_cons_self ..
          exact .inr (.step hcallee (.step (mem_cons_self ..) .here))
        · exact .inr (hplain rfl (mem_cons_of_mem _ h))
  | _ =>
    change (m₁, k) ∈ partsBelow m _ ks at h
    rw [partsBelow_of_ne hm] at h
    exact .inr (hplain rfl h)

/-- **A word that is left where something is rewritten is left elsewhere too.** -/
lemma finds_outside (h : Finds below w.Stays m n) : Finds below w.Stays .outside n := by
  obtain ⟨m', a, hr, hat⟩ := h
  induction hr with
  | here => exact ⟨.outside, a, .here, hat.1, rfl⟩
  | step hk hr ih =>
    rcases below_outside hk with hk | hk
    · exact ⟨m', a, .step hk hr, hat⟩
    · obtain ⟨m'', b, hb, hP⟩ := ih
      exact ⟨m'', b, hk.trans hb, hP⟩

lemma within_of_mem_map {l : List Node} (hx : x ∈ l.map (m, ·)) (hl : l ⊆ ks) : x.2.Within (.mk s t ks) := by
  obtain ⟨k, hk, rfl⟩ := mem_map.mp hx
  exact .kid (hl hk) .refl

lemma within_of_mem_memberParts (hx : x ∈ memberParts member) : x.2.Within member := by
  obtain ⟨s, t, ks⟩ := member
  cases t with
  | ctor =>
    rcases ks with _ | ⟨key, _ | ⟨params, _ | ⟨⟨sb, tb, stmts⟩, _ | ⟨_, _⟩⟩⟩⟩
    all_goals first | (cases hx; done) | skip
    obtain ⟨k, hk, rfl⟩ := mem_map.mp hx
    rcases mem_cons.mp hk with rfl | hk
    · exact .kid (by simp) .refl
    · exact .kid (k := .mk sb tb stmts) (by simp) (.kid hk .refl)
  | method kind isStatic =>
    rcases ks with _ | ⟨key, _ | ⟨⟨sf, tf, parts⟩, _ | ⟨_, _⟩⟩⟩
    all_goals first | (cases hx; done) | skip
    rcases mem_cons.mp hx with rfl | hx
    · exact .kid (by simp) .refl
    · obtain ⟨k, hk, rfl⟩ := mem_map.mp hx
      exact .kid (k := .mk sf tf parts) (by simp) (.kid hk .refl)
  | field isStatic =>
    cases isStatic with
    | false => exact within_of_mem_map hx (Subset.refl _)
    | true =>
      cases ks with
      | nil => cases hx
      | cons key value =>
        rcases mem_cons.mp hx with rfl | hx
        · exact .kid (by simp) .refl
        · exact within_of_mem_map hx (subset_cons_self _ _)
  | _ => cases hx

lemma within_of_mem_partsBelow (hx : x ∈ partsBelow m t ks) : x.2.Within (.mk s t ks) := by
  by_cases hm : m = .outside
  · subst hm
    exact within_of_mem_map hx (Subset.refl _)
  rw [partsBelow_of_ne hm] at hx
  cases t with
  | call =>
    cases ks with
    | nil => cases hx
    | cons callee args =>
      cases hkey : superKey? callee with
      | none =>
        simp only [hkey] at hx
        exact within_of_mem_map hx (Subset.refl _)
      | some key =>
        simp only [hkey] at hx
        obtain ⟨sc, wc, rfl⟩ := superKey?_eq_some_iff.mp hkey
        rcases mem_cons.mp hx with rfl | hx
        · exact .kid (mem_cons_self ..) (.kid (mem_cons_self ..) .refl)
        · exact within_of_mem_map hx (subset_cons_self _ _)
  | _ => exact within_of_mem_map hx (Subset.refl _)

/-- The walk goes down the tree. -/
lemma within_of_mem_below (hx : x ∈ below m n) : x.2.Within n := by
  obtain ⟨s, t, ks⟩ := n
  have hdef : ∀ cls : Node, ks = [cls] → x ∈ partsOfClass m cls → x.2.Within (.mk s t ks) := by
    rintro cls rfl hx
    refine .kid (mem_singleton_self _) ?_
    rw [partsOfClass] at hx
    split at hx
    · obtain ⟨sc, tc, parts⟩ := cls
      rcases mem_append.mp hx with hx | hx
      · obtain ⟨k, hk, hxk⟩ := mem_flatMap.mp hx
        cases parts with
        | nil => cases hk
        | cons members heritage =>
          obtain ⟨sm, tm, ms⟩ := members
          exact .kid (mem_cons_self ..) (.kid hk (within_of_mem_memberParts hxk))
      · obtain ⟨e, he, rfl⟩ := mem_map.mp hx
        exact .kid (mem_of_mem_tail he) .refl
    · obtain rfl := mem_singleton.mp hx
      exact .refl
  cases t with
  | classDecl i | classExpr i =>
    rcases ks with _ | ⟨cls, _ | ⟨_, _⟩⟩
    · exact within_of_mem_partsBelow hx
    · exact hdef cls rfl hx
    · exact within_of_mem_partsBelow hx
  | _ => exact within_of_mem_partsBelow hx

/-- A word that the walk finds stands in the tree. -/
lemma any_isAt_of_finds (h : Finds below w.Stays m n) : n.any w.isAt = true := by
  obtain ⟨m', a, hr, hat⟩ := h
  refine (any_iff _ _).mpr ⟨a, ?_, hat.1⟩
  induction hr with
  | here => exact .refl
  | step hk _ ih => exact ih.trans (within_of_mem_below hk)

section Parts

variable {w : Word} {m : Place}

/-- A word that is left in a part of a node at one place is left there at every place, unless it is
hidden. -/
lemma finds_at {m' : Place} (hc : m ≠ .outside → n.any w.isAt = false) (h : Finds below w.Stays m' n) :
    Finds below w.Stays m n := by
  by_cases hm : m = .outside
  · exact hm ▸ finds_outside h
  · exact absurd (any_isAt_of_finds h) (by simp [hc hm])

/-- A word outside of what is rewritten, below a node that neither is the word nor defines a class. -/
lemma exists_kid_of_finds (ht : Place.initializer.rewrites t = false) (hd : definesClass t = false)
    (h : Finds below w.Stays .outside (.mk s t ks)) : ∃ k ∈ ks, Finds below w.Stays .outside k := by
  rwa [finds_iff_of_not (not_stays ht), below_eq hd, partsBelow, finds_map] at h

/-! ## Classes -/

/-- A word that is left in a member of a class that is lowered is left in one of its parts. -/
lemma exists_part_of_lowered (hs : MemberShape member) (hc : m ≠ .outside → w.inKey member = false)
    (h : ∃ x ∈ memberParts member, Finds below w.Stays x.1 x.2) :
    ∃ y ∈ memberCodeParts m true member, Finds below w.Stays y.1 y.2 := by
  have hfield : ∀ {s : Span} {isStatic : Bool} {key : Node} {value : List Node},
      member = .mk s (.field isStatic) (key :: value) → key.OfRole Role.isPublicKey →
      ∃ y ∈ memberCodeParts m true member, Finds below w.Stays y.1 y.2 := by
    rintro s isStatic key value rfl hk
    rw [memberCodeParts, exists_mem_cons_iff]
    cases isStatic with
    | false =>
      rw [memberParts, map_cons, exists_mem_cons_iff] at h
      exact h.imp_left (finds_at hc)
    | true =>
      rw [memberParts, exists_mem_cons_iff] at h
      exact h.imp_left (finds_at hc)
  cases hs with
  | @ctor s sb key params stmts hk hp hb =>
    rw [memberParts, finds_map] at h
    obtain ⟨n, hn, hf⟩ := h
    rcases mem_cons.mp hn with rfl | hn
    · exact ⟨(.member, n), by simp [memberCodeParts], hf⟩
    · -- The statements stand in the block of the constructor.
      refine ⟨(.member, .mk sb .block stmts), by simp [memberCodeParts], ?_⟩
      exact finds_iff.mpr (.inr ⟨(.member, n), mem_map_of_mem hn, hf⟩)
  | @method s sf kind isStatic a g key params body hk hp hb =>
    rw [memberParts, exists_mem_cons_iff] at h
    rw [memberCodeParts, exists_mem_cons_iff]
    exact h.imp_left (finds_at hc)
  | field hk | fieldInit hk hv => exact hfield rfl hk
  | empty => simp [memberParts] at h

/-- A word that is left in a member of a class that is kept is left in one of its parts. -/
lemma exists_part_of_kept (hm : member.OfRole Role.isMember) (hc : m ≠ .outside → w.inKey member = false)
    (h : Finds below w.Stays .outside member) :
    ∃ y ∈ memberCodeParts m false member, Finds below w.Stays y.1 y.2 := by
  obtain ⟨s, t, ks⟩ := member
  obtain ⟨hwf, hr⟩ := hm
  have hkeyed : ∀ {key : Node} {parts : List Node}, ks = key :: parts →
      memberCodeParts m false (.mk s t ks) = (m, key) :: parts.map (.outside, ·) →
      (∃ k ∈ ks, Finds below w.Stays .outside k) →
      ∃ y ∈ memberCodeParts m false (.mk s t ks), Finds below w.Stays y.1 y.2 := by
    rintro key parts rfl hparts h
    rw [exists_mem_cons_iff] at h
    rw [hparts, exists_mem_cons_iff]
    exact h.imp (finds_at hc) finds_map.mpr
  cases t with
  | ctor =>
    obtain ⟨key, params, body, rfl, -⟩ := hwf.ctor
    exact hkeyed rfl rfl (exists_kid_of_finds rfl rfl h)
  | method kind isStatic =>
    obtain ⟨key, f, rfl, hk, hf⟩ := hwf.method
    obtain ⟨sf, a, g, parts, rfl⟩ := eq_func hf.2
    have h := exists_kid_of_finds rfl rfl h
    rw [exists_mem_cons_iff] at h
    rw [memberCodeParts, exists_mem_cons_iff]
    refine h.imp (finds_at hc) fun hfun => finds_map.mpr ?_
    simp only [mem_singleton, exists_eq_left] at hfun
    exact exists_kid_of_finds rfl rfl hfun
  | field isStatic =>
    obtain ⟨key, value, rfl, -⟩ := hwf.field
    refine hkeyed rfl ?_ (exists_kid_of_finds rfl rfl h)
    cases isStatic <;> rfl
  | staticBlock | emptyMember =>
    exact finds_map.mpr (exists_kid_of_finds rfl rfl h)
  | _ => cases hr

lemma not_hides_cls {sm : Span} {ms hs : List Node}
    (hc : ¬w.Hides m (.mk s .cls (.mk sm .members ms :: hs))) (hm : m ≠ .outside) :
    (∀ k ∈ ms, w.inKey k = false) ∧
      (isLowerable (.mk s .cls (.mk sm .members ms :: hs)) = true ∨ ∀ e ∈ hs, e.any w.isAt = false) := by
  have hno : w.isHidden _ = false := eq_false_of_ne_true fun h => hc ⟨hm, h⟩
  simpa only [Word.isHidden, kids_mk, Bool.or_eq_false_iff, any_eq_false, Bool.not_eq_true,
    Bool.and_eq_false_iff, Bool.not_eq_false'] using hno

/-- **A word that is left where a class is defined** is left in the code that is told apart by
`owned`. -/
lemma exists_owned_cls (hcls : cls.Is .cls) (hc : ¬w.Hides m cls)
    (h : ∃ x ∈ partsOfClass m cls, Finds below w.Stays x.1 x.2) : ∃ y ∈ owned m cls, Finds below w.Stays y.1 y.2 := by
  obtain ⟨s, sm, ms, hs, rfl, hms, hhs, -⟩ := cls_shape hcls
  rw [partsOfClass] at h
  have hkey : ∀ k ∈ ms, m ≠ .outside → w.inKey k = false := fun k hk hm => (not_hides_cls hc hm).1 k hk
  have hmember : ∀ k ∈ ms, (∃ y ∈ memberCodeParts m
      (isLowerable (.mk s .cls (.mk sm .members ms :: hs))) k, Finds below w.Stays y.1 y.2) →
      ∃ y ∈ owned m (.mk s .cls (.mk sm .members ms :: hs)), Finds below w.Stays y.1 y.2 := by
    rintro k hk ⟨y, hy, hf⟩
    exact ⟨y, mem_append_left _ (mem_flatMap.mpr ⟨k, hk, hy⟩), hf⟩
  have hheritage : ∀ e ∈ hs, Finds below w.Stays m e →
      ∃ y ∈ owned m (.mk s .cls (.mk sm .members ms :: hs)), Finds below w.Stays y.1 y.2 :=
    fun e he hf => ⟨(m, e), mem_append_right _ (mem_map_of_mem he), hf⟩
  by_cases hl : isLowerable (.mk s .cls (.mk sm .members ms :: hs)) = true
  · rw [if_pos hl] at h
    rw [hl] at hmember
    obtain ⟨x, hx, hf⟩ := h
    rcases mem_append.mp hx with hx | hx
    · obtain ⟨k, hk, hx⟩ := mem_flatMap.mp hx
      exact hmember k hk
        (exists_part_of_lowered (memberShapes hcls hl k hk) (hkey k hk) ⟨x, hx, hf⟩)
    · obtain ⟨e, he, rfl⟩ := mem_map.mp hx
      exact hheritage e he hf
  · rw [if_neg hl] at h
    simp only [mem_singleton, exists_eq_left] at h
    rw [eq_false_of_ne_true hl] at hmember
    obtain ⟨n, hn, hf⟩ := exists_kid_of_finds rfl rfl h
    rcases mem_cons.mp hn with rfl | hn
    · obtain ⟨k, hk, hf⟩ := exists_kid_of_finds rfl rfl hf
      exact hmember k hk (exists_part_of_kept (isMember_of_mem hms.1 hk) (hkey k hk) hf)
    · refine hheritage n hn (finds_at (fun hm => ?_) hf)
      exact ((not_hides_cls hc hm).2.resolve_left hl) n hn

/-! ## Other nodes -/

lemma owned_outside (hc : t ≠ .cls) : owned .outside (.mk s t ks) = ks.map (.outside, ·) := by
  cases t with
  | cls => exact absurd rfl hc
  | getter | setter => cases ks <;> rfl
  | _ => rfl

lemma mem_of_mem_owned (hc : t ≠ .cls) (hy : y ∈ owned m (.mk s t ks)) : y.2 ∈ ks := by
  have hmap : ∀ {m' : Place} {l : List Node}, y ∈ l.map (m', ·) → y.2 ∈ l := by
    intro m' l h
    obtain ⟨k, hk, rfl⟩ := mem_map.mp h
    exact hk
  cases t with
  | cls => exact absurd rfl hc
  | getter | setter =>
    cases ks with
    | nil => cases hy
    | cons key parts =>
      rcases mem_cons.mp hy with rfl | hy
      · exact mem_cons_self ..
      · exact mem_cons_of_mem _ (hmap hy)
  | _ => exact hmap hy

/-- Where nothing is hidden, a word that is left below a node that defines no class is left in one
of its children, told apart by `owned`. -/
lemma exists_owned_parts (hcls : t ≠ .cls) (hc : ¬w.Hides m (.mk s t ks))
    (h : ∃ x ∈ partsBelow m t ks, Finds below w.Stays x.1 x.2) :
    ∃ y ∈ owned m (.mk s t ks), Finds below w.Stays y.1 y.2 := by
  by_cases hm : m = .outside
  · subst hm
    rw [owned_outside hcls]
    exact h
  have hno : w.isHidden (.mk s t ks) = false := eq_false_of_ne_true fun h => hc ⟨hm, h⟩
  rw [partsBelow_of_ne hm] at h
  cases t with
  | cls => exact absurd rfl hcls
  | func a g => exact h
  | getter | setter =>
    cases ks with
    | nil => exact h
    | cons key parts =>
      rw [map_cons, exists_mem_cons_iff] at h
      rw [owned, exists_mem_cons_iff]
      exact h.imp_left (finds_at fun _ => hno)
  | call =>
    cases ks with
    | nil => exact h
    | cons callee args =>
      cases hkey : superKey? callee with
      | none =>
        simp only [hkey] at h
        exact h
      | some key =>
        simp only [Word.isHidden, hkey, Option.any_some] at hno
        simp only [hkey, exists_mem_cons_iff] at h
        refine (exists_mem_cons_iff ..).mpr (.inr (h.resolve_left fun hf => ?_))
        exact absurd (any_isAt_of_finds hf) (by simp [hno])
  | _ => exact h

end Parts

/-! ## Words that are left -/

/-- The roles of nodes that are neither classes nor parts of classes. -/
def isCode (r : Role) : Bool := !r.isClassPart && r != .cls

lemma isCode_of_isKey (h : n.OfRole Role.isKey) : n.OfRole isCode := by
  obtain ⟨hwf, hr⟩ := h
  refine ⟨hwf, ?_⟩
  cases hrole : n.role <;> first | rfl | (rw [hrole] at hr; cases hr)

/-- Below a node that is code there is code, except for classes. -/
lemma isCode_kid (h : (mk s t ks).OfRole isCode) (hd : definesClass t = false) (hk : k ∈ ks) : k.OfRole isCode := by
  have hcode := h.2
  simp only [isCode, role_mk, Bool.and_eq_true, Bool.not_eq_true', bne_iff_ne] at hcode
  refine ⟨h.1.kid hk, ?_⟩
  simp only [isCode, Bool.and_eq_true, Bool.not_eq_true', bne_iff_ne]
  refine ⟨h.1.not_isClassPart (by rintro rfl; exact hcode.2 rfl) hcode.1 hk, fun hr => ?_⟩
  have htaken := h.1.takenBy hk
  rw [hr] at htaken
  cases t with
  | classDecl | classExpr => cases hd
  | _ => cases htaken

/-- The parts of a member are code. -/
lemma isCode_of_mem_memberCodeParts {lowered : Bool} (hm : member.OfRole Role.isMember)
    (hy : y ∈ memberCodeParts m lowered member) : y.2.Within member ∧ y.2.OfRole isCode := by
  obtain ⟨s, t, ks⟩ := member
  obtain ⟨hwf, hr⟩ := hm
  cases t with
  | ctor =>
    obtain ⟨key, params, body, rfl, hk, hp, hb⟩ := hwf.ctor
    simp only [memberCodeParts, map_cons, map_nil, mem_cons, not_mem_nil, or_false] at hy
    rcases hy with rfl | rfl | rfl
    · exact ⟨.kid (by simp) .refl, hk.ofRole rfl⟩
    · exact ⟨.kid (by simp) .refl, hp.ofRole rfl⟩
    · exact ⟨.kid (by simp) .refl, hb.ofRole rfl⟩
  | method kind isStatic =>
    obtain ⟨key, f, rfl, hk, hf⟩ := hwf.method
    obtain ⟨sf, a, g, parts, rfl⟩ := eq_func hf.2
    rcases mem_cons.mp hy with rfl | hy
    · exact ⟨.kid (by simp) .refl, isCode_of_isKey hk⟩
    · obtain ⟨k, hk, rfl⟩ := mem_map.mp hy
      refine ⟨.kid (k := .mk sf (.func a g) parts) (by simp) (.kid hk .refl), ?_⟩
      exact isCode_kid (hf.ofRole rfl) rfl hk
  | field isStatic =>
    obtain ⟨key, value, rfl, hk, hv⟩ := hwf.field
    rcases mem_cons.mp hy with rfl | hy
    · exact ⟨.kid (by simp) .refl, isCode_of_isKey hk⟩
    · obtain ⟨e, he, rfl⟩ := mem_map.mp hy
      refine ⟨.kid (mem_cons_of_mem _ he) .refl, ?_⟩
      rcases hv with rfl | ⟨v, rfl, hv⟩
      · cases he
      · exact mem_singleton.mp he ▸ hv.ofRole rfl
  | staticBlock =>
    obtain ⟨body, rfl, hb⟩ := hwf.single rfl
    obtain rfl := mem_singleton.mp hy
    exact ⟨.kid (by simp) .refl, hb.ofRole rfl⟩
  | emptyMember =>
    obtain rfl : ks = [] := hwf.leaf rfl
    cases hy
  | _ => cases hr

/-- The parts of a class are code. -/
lemma isCode_of_mem_owned (hcls : cls.Is .cls) (hy : y ∈ owned m cls) : y.2.Within cls ∧ y.2.OfRole isCode := by
  obtain ⟨s, sm, ms, hs, rfl, hms, hhs, -⟩ := cls_shape hcls
  rcases mem_append.mp hy with hy | hy
  · obtain ⟨k, hk, hy⟩ := mem_flatMap.mp hy
    obtain ⟨hin, hcode⟩ := isCode_of_mem_memberCodeParts (isMember_of_mem hms.1 hk) hy
    exact ⟨.kid (k := .mk sm .members ms) (by simp) (.kid hk hin), hcode⟩
  · obtain ⟨e, he, rfl⟩ := mem_map.mp hy
    exact ⟨.kid (mem_cons_of_mem _ he) .refl, (hhs e he).ofRole rfl⟩

/-- **Where nothing is hidden, a word that is left belongs to no member.** -/
theorem finds_owned (n : Node) : n.OfRole isCode → ∀ m, ¬Finds owned w.Hides m n →
    Finds below w.Stays m n → Finds owned w.Stays m n := by
  induction n using induct_within with
  | h s t ks ih =>
    intro hcode m hseen hfinds
    rcases finds_iff.mp hfinds with hstays | hnext
    · exact finds_iff.mpr (.inl hstays)
    -- It is enough to take some steps to a smaller tree in which the word is left.
    have hgo : ∀ {m' : Place} {k a : Node}, k ∈ ks → a.Within k → a.OfRole isCode →
        Reaches owned m' a m (.mk s t ks) → Finds below w.Stays m' a →
        Finds owned w.Stays m (.mk s t ks) := by
      intro m' k a hk hin hac hreach hf
      obtain ⟨m'', b, hb, hP⟩ := ih k hk a hin hac m' (fun ⟨m'', b, hb, hP⟩ =>
        hseen ⟨m'', b, hreach.trans hb, hP⟩) hf
      exact ⟨m'', b, hreach.trans hb, hP⟩
    have hclass : ∀ cls, ks = [cls] → owned m (.mk s t ks) = [(m, cls)] → cls.Is .cls →
        (∃ x ∈ partsOfClass m cls, Finds below w.Stays x.1 x.2) →
        Finds owned w.Stays m (.mk s t ks) := by
      rintro cls rfl ho hcls hx
      have hdown : (m, cls) ∈ owned m (.mk s t [cls]) := ho ▸ mem_singleton_self _
      have hc : ¬w.Hides m cls := fun hc => hseen ⟨m, cls, .step hdown .here, hc⟩
      obtain ⟨y, hy, hf⟩ := exists_owned_cls hcls hc hx
      obtain ⟨hin, hycode⟩ := isCode_of_mem_owned hcls hy
      exact hgo (mem_singleton_self _) hin hycode (.step hdown (.step hy .here)) hf
    have hparts : definesClass t = false → Finds owned w.Stays m (.mk s t ks) := by
      intro hd
      rw [below_eq hd] at hnext
      have hcls : t ≠ .cls := by
        rintro rfl
        exact absurd hcode.2 (by simp [isCode, Tag.role])
      have hc : ¬w.Hides m (.mk s t ks) := fun hc => hseen ⟨m, _, .here, hc⟩
      obtain ⟨y, hy, hf⟩ := exists_owned_parts hcls hc hnext
      have hk : y.2 ∈ ks := mem_of_mem_owned hcls hy
      exact hgo hk .refl (isCode_kid hcode hd hk) (.step hy .here) hf
    cases t with
    | classDecl i | classExpr i =>
      obtain ⟨cls, rfl, hcls⟩ := hcode.1.single rfl
      exact hclass cls rfl rfl hcls hnext
    | _ => exact hparts rfl

/-- **No word of a member is left** in a script in which nothing is hidden: if every place where the
word stands belongs to a member of a class that can be lowered, then the lowering of classes removes
the word. -/
theorem owned_words_removed {s : Script} (h : s.WellFormed) {w : Word} (hw : w ≠ .this .none)
    (hseen : ∀ n ∈ s.body, ¬Finds owned w.Hides .outside n)
    (howned : ∀ n ∈ s.body, ¬Finds owned w.Stays .outside n) :
    (lowerScript s).1.body.any (·.any w.isAt) = false := by
  refine eq_false_of_ne_true fun hleft => ?_
  obtain ⟨n, hn, hfinds⟩ := (any_isAt_lowerScript h hw).mp hleft
  have hcode : n.OfRole isCode := by
    obtain ⟨hwf, hr⟩ := h n hn
    refine ⟨hwf, ?_⟩
    cases hrole : n.role <;> first | rfl | (rw [hrole] at hr; cases hr)
  exact howned n hn (finds_owned n hcode .outside (hseen n hn) hfinds)

/-- `class A extends B { m() { return () => super[e](); } static x = this; }`, in which the words stand
at positions of their own. -/
def wordsInMembers (e : Node) : Script where
  body := [make (.classDecl ⟨"A", .none⟩) [make .cls [make .members [
    make (.method .method false) [make (.keyName "m") [], func [] [returnStmt
      (make (.arrow false) [params [], call (make (.superMember ⟨1, 6⟩) [computedKey e]) []])]],
    make (.field true) [make (.keyName "x") [], .mk ⟨7, 11⟩ .this []]],
    ident "B"]]]

/-- A word in an arrow of a method, and one in the initializer of a static field. -/
theorem owned_words_removed_wordsInMembers :
    (Owns (wordsInMembers (ident "k")) (.super ⟨1, 6⟩) ∧
      (lowerScript (wordsInMembers (ident "k"))).1.body.any
        (·.any (Word.super ⟨1, 6⟩).isAt) = false) ∧
    (Owns (wordsInMembers (ident "k")) (.this ⟨7, 11⟩) ∧
      (lowerScript (wordsInMembers (ident "k"))).1.body.any
        (·.any (Word.this ⟨7, 11⟩).isAt) = false) := by
  have hfound : ∀ w ∈ [Word.super ⟨1, 6⟩, Word.this ⟨7, 11⟩],
      ∃ n ∈ (wordsInMembers (ident "k")).body,
        search owned w.Belongs false 10 .outside n = true := by decide
  have hseen : ∀ w ∈ [Word.super ⟨1, 6⟩, Word.this ⟨7, 11⟩], w ≠ .this .none ∧
      ∀ n ∈ (wordsInMembers (ident "k")).body,
        search owned w.Hides true 12 .outside n = false ∧
        search owned w.Stays true 12 .outside n = false := by decide
  have hremoved : ∀ w ∈ [Word.super ⟨1, 6⟩, Word.this ⟨7, 11⟩],
      Owns (wordsInMembers (ident "k")) w ∧
      (lowerScript (wordsInMembers (ident "k"))).1.body.any (·.any w.isAt) = false := by
    intro w hw
    obtain ⟨n, hn, hs⟩ := hfound w hw
    obtain ⟨hne, hseen⟩ := hseen w hw
    exact ⟨⟨n, hn, finds_of_search hs⟩, owned_words_removed (by decide) hne
      (fun n hn => not_finds_of_search (hseen n hn).1) fun n hn => not_finds_of_search (hseen n hn).2⟩
  exact ⟨hremoved _ (by simp), hremoved _ (by simp)⟩

/-- In `super[super.k]()` the inner `super` is left, although it belongs to the method. -/
theorem owned_word_left : ∃ s : Script, s.WellFormed ∧ ∃ w, Owns s w ∧
    (lowerScript s).1.body.any (·.any w.isAt) = true := by
  let e := make (.superMember ⟨12, 17⟩) [make (.keyName "k") []]
  have hfound : ∃ n ∈ (wordsInMembers e).body,
      search owned (Word.super ⟨12, 17⟩).Belongs false 12 .outside n = true := by decide
  obtain ⟨n, hn, hs⟩ := hfound
  exact ⟨wordsInMembers e, by decide, .super ⟨12, 17⟩, ⟨n, hn, finds_of_search hs⟩, by decide⟩

end EcmaLower.Class
