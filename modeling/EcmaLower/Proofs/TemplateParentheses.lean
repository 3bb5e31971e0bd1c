import EcmaLower.Lower.Pass
import EcmaLower.Proofs.Counts
import EcmaLower.Proofs.Parentheses

/-!
# Parentheses around templates

A template is a primary expression, and the call in its place is not. A substitution may be any expression,
and an argument may not have commas. This module shows that these two are all that can go wrong when
templates are lowered: a call behind `new`, and the commas in a substitution of a tagged template, which get
no parentheses as those of an untagged one do.

## Main results

* `Template.faced_ruled` — what a node and its result have in common, as far as parentheses go.
* `Template.within_rule` — a call has all parts of its template.
* `Template.parenSafe_templateCalls_iff` — which scripts stay safe.
-/

namespace EcmaLower

open Node List Build

variable {es ks args es' : List Node} {qs : List Quasi} {e k tag : Node} {s : Span} {t : Tag}

/-- The arguments that are read back from a list of arguments: commas that stand outside of all brackets
separate arguments. -/
def readArguments (args : List Node) : List Node := args.flatMap fun e => if e.tag = .seq then e.kids else [e]

/-- Without commas, the arguments are read back. -/
lemma readArguments_eq_self (h : ∀ e ∈ args, e.tag ≠ .seq) : readArguments args = args := by
  induction args with
  | nil => rfl
  | cons e args ih =>
    obtain ⟨he, hargs⟩ := forall_mem_cons.mp h
    rw [readArguments, flatMap_cons, if_neg he, ← readArguments, ih hargs]
    rfl

/-- Every comma operator among the arguments is a node that is not read back. -/
lemma total_readArguments (args : List Node) :
    total size (readArguments args) + args.countP (·.tag == .seq) = total size args := by
  induction args with
  | nil => rfl
  | cons e args ih =>
    obtain ⟨s, t, ks⟩ := e
    rw [readArguments, flatMap_cons, ← readArguments, total_append, total, ← ih, countP_cons, tag_mk]
    split
    · rename_i ht
      rw [size_mk, if_pos (beq_iff_eq.mpr ht), kids_mk]
      omega
    · rename_i ht
      rw [total, total, if_neg fun hseq => ht (beq_iff_eq.mp hseq)]
      omega

/-- Reading back a list of arguments gives these arguments exactly if none of them has commas. -/
lemma readArguments_eq_self_iff : readArguments args = args ↔ ∀ e ∈ args, e.tag ≠ .seq := by
  refine ⟨fun h => ?_, readArguments_eq_self⟩
  have hcount := total_readArguments args
  rw [h, Nat.add_eq_left, countP_eq_zero] at hcount
  exact fun e he htag => hcount e he (beq_iff_eq.mpr htag)

/-- Whether a node is a `new` with an operand of a property. -/
def Node.constructs (p : Node → Bool) : Node → Bool
  | .mk _ (.new _) (callee :: _) => p callee
  | _ => false

/-- Only the comma operator gives an expression with commas. -/
lemma level_eq_sequence_iff (h : e.role = .expr) : e.face.level = .sequence ↔ e.tag = .seq := by
  obtain ⟨s, t, ks⟩ := e
  rw [face_mk, tag_mk]
  cases t with
  | keyComputed => cases h
  | member | tagged =>
    cases ks with
    | nil => simp [Tag.face, Tag.level]
    | cons k ks =>
      simp only [map_cons, Tag.face, Tag.level]
      split <;> simp
  | new hasArgs => cases hasArgs <;> simp [Tag.face, Tag.level]
  | _ => simp [Tag.face, Tag.level]

/-- Behind `new` an operand must not become a call. -/
lemma refusesOperand_of_improves {head : Node → Bool} {ks' : List Node}
    (hks : Forall₂ (fun k k' => k.face.Improves (head k) k'.face) ks ks') :
    refusesOperand (mk s t ks') = (refusesOperand (mk s t ks) || constructs head (mk s t ks)) := by
  cases t with
  | new hasArgs =>
    cases hks with
    | nil => rfl
    | cons hk _ =>
      rw [refusesOperand, refusesOperand, constructs, Position.admits_constructed hk, Bool.not_and, Bool.not_not]
  | _ => rfl

namespace Template

/-! ## What goes wrong -/

/-- Whether an operand becomes a call: it is a template with substitutions, a template behind a tag that is
no call, or a property of one of these. -/
def becomesCall (n : Node) : Bool := n.fold fun _ t ks =>
  match t, ks with
  | .template _, ks => !ks.isEmpty
  | .tagged .., (tag, _) :: _ => tag.face.level != .call
  | .member, (_, r) :: _ => r
  | _, _ => false

/-- Whether a node is a tagged template with commas in a substitution. -/
def splitsArguments : Node → Bool
  | .mk _ (.tagged ..) (_ :: es) => es.any (·.tag == .seq)
  | _ => false

/-- A node that is no template becomes a call if the operand does that it starts with. -/
lemma becomesCall_mk (h : rule (mk s t ks) = none) :
    becomesCall (mk s t ks) = (t.isSubscript && ks.head?.any becomesCall) := by
  rw [becomesCall, fold_mk]
  cases t with
  | template => cases h
  | tagged =>
    cases ks with
    | nil => rfl
    | cons => cases h
  | member => cases ks <;> rfl
  | _ => rfl

lemma splitsArguments_eq_false (h : rule (mk s t ks) = none) : splitsArguments (mk s t ks) = false := by
  cases t with
  | tagged =>
    cases ks with
    | nil => rfl
    | cons => cases h
  | _ => rfl

/-! ## The calls -/

lemma face_unitsLit (u : Units) : (unitsLit u).face = {} := rfl

/-- The text that a call of `concat` starts with. -/
lemma exists_head (qs : List Quasi) :
    ∃ u, (qs.head?.bind cooked).getD (strLit "") = unitsLit u := by
  cases h : qs.head?.bind cooked with
  | none => exact ⟨_, rfl⟩
  | some e =>
    obtain ⟨q, -, hq⟩ := Option.bind_eq_some_iff.mp h
    obtain ⟨u, -, rfl⟩ := Option.map_eq_some_iff.mp hq
    exact ⟨u, rfl⟩

lemma plain_unitsLit (u : Units) : Plain (unitsLit u) := ⟨rfl, seated_leaf⟩

lemma stands_of_cooked {q : Quasi} (h : e ∈ cooked q) : Stands .assignment e := by
  obtain ⟨u, -, rfl⟩ := Option.map_eq_some_iff.mp h
  exact (plain_unitsLit u).stands (by simp)

/-- A substitution can be an argument, in parentheses if need be. -/
lemma stands_argument (h : e.Is .expr) : Stands .assignment (argument e) ↔ Seated e := by
  unfold argument
  split
  · refine ⟨fun hs => hs.2.kid (mem_singleton_self e), fun hs => (plain_paren hs).stands (by simp)⟩
  · rename_i htag
    rw [stands_assignment, ne_eq, level_eq_sequence_iff h.2]
    exact and_iff_right htag

lemma stands_pieces (h : e.Is .expr) (q : Quasi) : (∀ k ∈ pieces e q, Stands .assignment k) ↔ Seated e := by
  rw [pieces, forall_mem_cons, stands_argument h]
  refine and_iff_left fun k hk => ?_
  split at hk
  · cases hk
  · exact stands_of_cooked (Option.mem_toList.mp hk)

/-- With a text behind each substitution, all substitutions are arguments. -/
lemma stands_zipWith_pieces (h : ∀ e ∈ es, e.Is .expr) (hlen : qs.length = es.length) :
    (∀ k ∈ (zipWith pieces es qs).flatten, Stands .assignment k) ↔ ∀ e ∈ es, Seated e := by
  induction es generalizing qs with
  | nil => simp
  | cons e es ih =>
    obtain _ | ⟨q, qs⟩ := qs
    · cases hlen
    · rw [zipWith_cons_cons, flatten_cons, forall_mem_append, forall_mem_cons,
        stands_pieces (h e (by simp)), ih (fun e he => h e (by simp [he])) (Nat.succ.inj hlen)]

lemma seated_concat (h : ∀ e ∈ es, e.Is .expr) (hlen : qs.length = es.length + 1) :
    Seated (concat qs es) ↔ ∀ e ∈ es, Seated e := by
  obtain ⟨u, hu⟩ := exists_head qs
  rw [concat, hu]
  split
  · rename_i hes
    rw [isEmpty_iff.mp hes]
    exact iff_of_true (plain_unitsLit u).2 (by simp)
  · rw [call, make, seated_call, stands_zipWith_pieces h (by rw [length_tail]; omega)]
    exact and_iff_right ((plain_member (plain_unitsLit u) _).stands (by simp))

lemma face_concat (qs : List Quasi) (es : List Node) :
    (concat qs es).face = { level := if es.isEmpty then .member else .call } := by
  obtain ⟨u, hu⟩ := exists_head qs
  rw [concat, hu]
  split
  · rfl
  · rw [face_call, face_member (face_unitsLit u)]

lemma stands_call {names : List String} (h : ∀ k ∈ args, Stands .assignment k) :
    Stands .assignment (call (path names) args) := by
  refine stands_assignment.mpr ⟨?_, seated_call.mpr ⟨(plain_path names).stands (by simp), h⟩⟩
  rw [face_call]
  simp

lemma stands_array (h : ∀ k ∈ ks, Stands .assignment k) : Stands .assignment (array ks) := by
  refine ⟨?_, seated_array.mpr h⟩
  rw [array, make, face_mk]
  rfl

/-- The array of texts is an argument. -/
lemma stands_strings (qs : List Quasi) : Stands .assignment (strings qs) := by
  have hcooked : ∀ q, Stands .assignment ((cooked q).getD undefined) := by
    intro q
    cases hq : cooked q with
    | none => exact stands_undefined
    | some e => exact stands_of_cooked hq
  refine stands_call (forall_mem_singleton.mpr (stands_call ?_))
  simp only [forall_mem_cons, not_mem_nil, false_imp_iff, implies_true, and_true]
  refine ⟨stands_array (forall_mem_map.mpr fun q _ => hcooked q), plain_strLit.stands (by simp),
    Class.stands_object (forall_mem_singleton.mpr (stands_call (forall_mem_singleton.mpr ?_)))⟩
  exact stands_array (forall_mem_map.mpr fun q _ => plain_strLit.stands (by simp))

lemma seated_tagCall : Seated (tagCall tag qs es) ↔
    Stands .base tag ∧ ∀ e ∈ es, Stands .assignment e := by
  rw [tagCall, call, make, seated_call, forall_mem_cons]
  exact and_congr_right' (and_iff_right (stands_strings qs))

/-! ## The traversal -/

/-- What a node and its result have in common, as far as parentheses go. -/
structure Faced (n n' : Node) : Prop where
  improves : n.face.Improves (becomesCall n) n'.face
  seated : Seated n → (Seated n' ↔ n.any splitsArguments = false)
  operands : n'.any refusesOperand = n.any fun m => refusesOperand m || constructs becomesCall m

section Kids

variable {s : Span} {t : Tag} {ks ks' : List Node} (hks : Forall₂ Faced ks ks')

include hks

lemma seated_kids_iff (h : ∀ k ∈ ks, Seated k) : (∀ k ∈ ks', Seated k) ↔ ks.any (·.any splitsArguments) = false := by
  induction hks with
  | nil => simp
  | cons hk _ ih =>
    obtain ⟨hseated, hrest⟩ := forall_mem_cons.mp h
    rw [forall_mem_cons, any_cons, Bool.or_eq_false_iff, hk.seated hseated, ih hrest]

/-- Substitutions are arguments if they have no commas. -/
lemma stands_arguments_iff (h : ∀ k ∈ ks, k.Is .expr) : (∀ k ∈ ks', Stands .assignment k) ↔
    ks.any (·.tag == .seq) = false ∧ ∀ k ∈ ks', Seated k := by
  induction hks with
  | nil => simp
  | cons hk _ ih =>
    obtain ⟨hexpr, hrest⟩ := forall_mem_cons.mp h
    have hrest := ih hrest
    rw [forall_mem_cons, forall_mem_cons, hrest, stands_assignment, ne_eq,
      hk.improves.eq_sequence_iff, level_eq_sequence_iff hexpr.2, any_cons, Bool.or_eq_false_iff,
      beq_eq_false_iff_ne, ne_eq]
    tauto

lemma operands_kids : ks'.any (·.any refusesOperand) =
    ks.any (·.any fun m => refusesOperand m || constructs becomesCall m) := by
  induction hks with
  | nil => rfl
  | cons hk _ ih => rw [any_cons, any_cons, hk.operands, ih]

/-- A node that is no template. -/
lemma faced_mk (h : rule (mk s t ks) = none) : Faced (mk s t ks) (mk s t ks') := by
  have himproves : Forall₂ (fun k k' => k.face.Improves (becomesCall k) k'.face) ks ks' :=
    hks.imp fun _ _ hk => hk.improves
  refine ⟨?_, fun hs => ?_, ?_⟩
  · rw [becomesCall_mk h]
    exact improves_mk himproves
  · rw [any_mk, splitsArguments_eq_false h, Bool.false_or, ← seated_kids_iff hks fun k hk => hs.kid hk]
    refine ⟨fun hs' k hk => hs'.kid hk, fun hall => ?_⟩
    have hkids : Forall₂ (fun k k' => k.face.Improves (becomesCall k) k'.face ∧ (Seated k → Seated k')) ks ks' :=
      forall₂_iff_get.mpr ⟨hks.length_eq, fun i hi hi' =>
        ⟨(forall₂_iff_get.mp himproves).2 i hi hi', fun _ => hall _ (get_mem _ _)⟩⟩
    exact seated_of_forall₂ hkids hs
  · rw [any_mk, any_mk, refusesOperand_of_improves himproves, operands_kids hks]

end Kids

/-- The call in the place of a template. -/
lemma faced_concat (hes : Forall₂ Faced es es') (h : (mk s (.template qs) es').WellFormed) :
    Faced (mk s (.template qs) es) (concat qs es') := by
  obtain ⟨hexpr, hlen⟩ := parts_of_template h
  have hempty : es'.isEmpty = es.isEmpty := by
    cases hes <;> rfl
  have hcall : becomesCall (mk s (.template qs) es) = !es.isEmpty := by
    rw [becomesCall, fold_mk]
    cases es <;> rfl
  have hface : (mk s (.template qs) es).face = {} := by
    rw [face_mk]
    simp [Tag.face, Tag.level, Tag.startsWithFirst, Tag.ownStart, Tag.writesIn, Tag.isOpen]
  refine ⟨?_, fun hs => ?_, ?_⟩
  · rw [hcall, hface, face_concat, hempty]
    cases es.isEmpty with
    | true => exact .refl _
    | false => exact ⟨⟨rfl, rfl⟩, .inl rfl, id⟩
  · rw [seated_concat hexpr hlen, seated_kids_iff hes fun e he => hs.kid he, any_mk]
    rfl
  · have hany := any_rule (p := refusesOperand) h (rfl : rule (mk s (.template qs) es') = some _)
    rw [hany, kids_mk, operands_kids hes, any_mk]
    rfl

/-- The call in the place of a tagged template. -/
lemma faced_tagCall {sq : Span} {tag' : Node} (htag : Faced tag tag') (hes : Forall₂ Faced es es')
    (h : (mk s (.tagged sq qs) (tag :: es)).WellFormed) (h' : (mk s (.tagged sq qs) (tag' :: es')).WellFormed) :
    Faced (mk s (.tagged sq qs) (tag :: es)) (tagCall tag' qs es') := by
  have hcall : becomesCall (mk s (.tagged sq qs) (tag :: es)) = (tag.face.level != .call) := by
    rw [becomesCall, fold_mk]
    rfl
  have hface : (mk s (.tagged sq qs) (tag :: es)).face =
      { level := if tag.face.level = .call then .call else .member, start := tag.face.start } := by
    rw [face_mk]
    simp [Tag.face, Tag.level, Tag.startsWithFirst, Tag.writesIn, Tag.isOpen]
  have hexpr := parts_of_tagged h
  refine ⟨?_, fun hs => ?_, ?_⟩
  · rw [hcall, hface, tagCall, face_call]
    refine ⟨?_, htag.improves.start, fun hin => by cases hin⟩
    by_cases hl : tag.face.level = .call <;> simp [hl]
  · have hstands : Stands .base tag := seated_mk.mp hs (tag, 0) (by simp)
    have hkids : ∀ e ∈ es, Seated e := fun e he => hs.kid (by simp [he])
    rw [seated_tagCall, stands_arguments_iff hes fun e he => hexpr e (by simp [he]), seated_kids_iff hes hkids,
      any_mk, any_cons, Bool.or_eq_false_iff, Bool.or_eq_false_iff, ← htag.seated hstands.2]
    have hbase : Stands .base tag' ↔ Seated tag' :=
      ⟨fun hb => hb.2, fun hb => ⟨Position.seats_of_improves htag.improves hstands.1, hb⟩⟩
    rw [hbase, splitsArguments]
    tauto
  · have hany := any_rule (p := refusesOperand) h' (rfl : rule (mk s (.tagged sq qs) (tag' :: es')) = some _)
    rw [hany, kids_mk, operands_kids (.cons htag hes), any_mk]
    rfl

/-- **What templates leave of the need for parentheses.** -/
theorem faced_ruled (n : Node) (h : n.WellFormed) : Faced n (n.ruled rule) := by
  induction n with
  | mk s t ks ih =>
    have hks : Forall₂ Faced ks (ks.map (ruled rule)) :=
      forall₂_map_right_iff.mpr (forall₂_same.mpr fun k hk => ih k hk (h.kid hk))
    have hw := wellFormed_map_ruled keepsShape h
    obtain ⟨new, hrule, he⟩ | ⟨hrule, he⟩ := ruled_cases rule s t ks
    · rw [he]
      obtain ⟨_, qs, es, heq, rfl⟩ | ⟨_, sq, qs, tag, es, heq, rfl⟩ := rule_cases hrule
      · cases heq
        exact faced_concat hks hw
      · cases ks with
        | nil => cases heq
        | cons tag es =>
          cases heq
          obtain ⟨htag, hes⟩ := forall₂_cons.mp hks
          exact faced_tagCall htag hes h hw
    · rw [he]
      refine faced_mk hks ?_
      cases t with
      | template => cases hrule
      | tagged =>
        cases ks with
        | nil => rfl
        | cons => cases hrule
      | _ => rfl

/-! ## Arguments -/

/-- A substitution stands in the call that its template becomes. -/
lemma within_rule {n new : Node} (hn : n.WellFormed) (h : rule n = some new) (hk : k ∈ n.kids) : k.Within new := by
  obtain ⟨s, qs, es, rfl, rfl⟩ | ⟨s, sq, qs, tag, es, rfl, rfl⟩ := rule_cases h
  · have hlen := (parts_of_template hn).2
    have hne : es.isEmpty = false := isEmpty_eq_false_iff.mpr (ne_nil_of_mem hk)
    obtain ⟨i, hi, rfl⟩ := getElem_of_mem (show k ∈ es from hk)
    have hi' : i < qs.tail.length := by rw [length_tail]; omega
    have hpiece : pieces es[i] qs.tail[i] ∈ zipWith pieces es qs.tail :=
      mem_iff_getElem.mpr ⟨i, by rw [length_zipWith]; omega, getElem_zipWith⟩
    have hself : es[i].Within (argument es[i]) := by
      unfold argument
      split
      · exact .kid (mem_singleton_self _) .refl
      · exact .refl
    rw [concat, hne]
    exact .kid (mem_cons_of_mem _ (mem_flatten.mpr ⟨_, hpiece, mem_cons_self ..⟩)) hself
  · refine .kid ?_ .refl
    rw [mem_cons, mem_cons]
    exact (mem_cons.mp hk).imp_right .inr

lemma contains_ruled {s : Script} (h : s.WellFormed) {m : Node} (hm : s.Contains m) :
    (Pass.templateLiterals.run s).1.Contains (m.ruled rule) :=
  s.contains_applyRule keepsShape within_rule h hm

/-- The substitutions of a template are arguments of `concat`, in their order. -/
lemma sublist_pieces (h : qs.length = es.length) : (es.map argument).Sublist (zipWith pieces es qs).flatten := by
  induction es generalizing qs with
  | nil => exact nil_sublist _
  | cons e es ih =>
    obtain _ | ⟨q, qs⟩ := qs
    · cases h
    · exact (sublist_append_of_sublist_right (ih (Nat.succ.inj h))).cons_cons _

/-- No argument of `concat` has commas. -/
lemma tag_ne_of_mem_pieces (hk : k ∈ (zipWith pieces es qs).flatten) : k.tag ≠ .seq := by
  obtain ⟨l, hl, hk⟩ := mem_flatten.mp hk
  rw [← map_uncurry_zip_eq_zipWith, mem_map] at hl
  obtain ⟨⟨e, q⟩, -, rfl⟩ := hl
  rcases mem_cons.mp hk with rfl | hk
  · unfold argument
    split
    · simp [paren, make]
    · assumption
  · split at hk
    · cases hk
    · obtain ⟨u, -, rfl⟩ := Option.map_eq_some_iff.mp (Option.mem_toList.mp hk)
      simp [unitsLit, make]

/-- The comma operator is kept, and none is made. -/
lemma tag_ruled_eq_seq_iff (h : e.Is .expr) : (e.ruled rule).tag = .seq ↔ e.tag = .seq := by
  have hexpr : (e.ruled rule).role = .expr := (ruled_is keepsShape e h.1).2.trans h.2
  rw [← level_eq_sequence_iff hexpr, (faced_ruled e h.1).improves.eq_sequence_iff, level_eq_sequence_iff h.2]

/-- **Which scripts stay safe when templates are lowered**: all in which no `new` is applied to an operand
that becomes a call, and no substitution of a tagged template has commas. An untagged template becomes a call of
`concat` that is read back with each substitution as one argument, and a tagged one becomes a call of its tag
with one argument more than it has substitutions, which is read back with these arguments exactly if none of the
substitutions has commas.

**Proof sketch.** The calls fit wherever their templates did, except behind `new` (`Face.Improves`). Inside,
all arguments are generated or substitutions, and of these only sequences need parentheses. -/
theorem parenSafe_templateCalls_iff {s : Script} (h : s.WellFormed) (hs : s.parenSafe = true) :
    let out := (Pass.templateLiterals.run s).1
    (out.parenSafe = true ↔
      (∀ span hasArgs callee args, s.Contains (mk span (.new hasArgs) (callee :: args)) →
        becomesCall callee = false) ∧
      ∀ span quoted qs tag es, s.Contains (mk span (.tagged quoted qs) (tag :: es)) →
        ∀ e ∈ es, e.tag ≠ .seq) ∧
    (∀ span qs es, s.Contains (mk span (.template qs) es) → es ≠ [] → ∃ text args,
      out.Contains (call (member (unitsLit text) "concat") args) ∧
      (es.map fun e => argument (e.ruled rule)).Sublist args ∧ readArguments args = args) ∧
    ∀ span quoted qs tag es, s.Contains (mk span (.tagged quoted qs) (tag :: es)) → ∃ args,
      out.Contains (call (tag.ruled rule) args) ∧ args.length = es.length + 1 ∧
      args.tail = es.map (ruled rule) ∧ (readArguments args = args ↔ ∀ e ∈ es, e.tag ≠ .seq) := by
  intro out
  have hbody : out.body = s.body.map (ruled rule) := s.applyRule_body
  obtain ⟨hseated, hoperands⟩ := s.parenSafe_iff.mp hs
  refine ⟨?_, fun span qs es hm hne => ?_, fun span quoted qs tag es hm => ?_⟩
  · have hfaced : Forall₂ Faced s.body out.body := by
      rw [hbody]
      exact forall₂_map_right_iff.mpr (forall₂_same.mpr fun n hn => faced_ruled n (h n hn).1)
    rw [Script.parenSafe_iff, seated_kids_iff hfaced hseated, operands_kids hfaced,
      Script.any_body_eq_false_iff, Script.any_body_eq_false_iff, and_comm]
    refine and_congr ⟨fun hno span hasArgs callee args hm => ?_, fun hno m hm => ?_⟩
      ⟨fun hno span quoted qs tag es hm e he htag => ?_, fun hno m hm => ?_⟩
    · exact (Bool.or_eq_false_iff.mp (hno _ hm)).2
    · refine Bool.or_eq_false_iff.mpr ⟨(s.any_body_eq_false_iff _).mp hoperands m hm, ?_⟩
      unfold constructs
      split
      · exact hno _ _ _ _ hm
      · rfl
    · have := hno _ hm
      rw [splitsArguments, any_eq_false] at this
      exact this e he (beq_iff_eq.mpr htag)
    · unfold splitsArguments
      split
      · exact any_eq_false.mpr fun e he htag => hno _ _ _ _ _ hm e he (beq_iff_eq.mp htag)
      · rfl
  · obtain ⟨n, hn, hwithin⟩ := id hm
    have hw : (mk span (.template qs) es).WellFormed := (h n hn).1.within hwithin
    have hlen := (parts_of_template hw).2
    obtain ⟨u, hu⟩ := exists_head qs
    have hcall := contains_ruled h hm
    have hlowered : (mk span (.template qs) es).ruled rule =
        call (member (unitsLit u) "concat")
          (zipWith pieces (es.map (ruled rule)) qs.tail).flatten := by
      obtain ⟨new, hrule, he⟩ | ⟨hrule, -⟩ := ruled_cases rule span (.template qs) es
      · cases hrule
        rw [he, concat, hu, if_neg (by simpa using hne)]
      · cases hrule
    rw [hlowered] at hcall
    refine ⟨u, _, hcall, ?_, readArguments_eq_self_iff.mpr fun k hk => tag_ne_of_mem_pieces hk⟩
    have hlength : qs.tail.length = (es.map (ruled rule)).length := by
      rw [length_tail, length_map]
      omega
    have := sublist_pieces hlength
    rwa [map_map] at this
  · obtain ⟨n, hn, hwithin⟩ := id hm
    have hw : (mk span (.tagged quoted qs) (tag :: es)).WellFormed := (h n hn).1.within hwithin
    have hexpr := parts_of_tagged hw
    have hcall := contains_ruled h hm
    have hlowered : (mk span (.tagged quoted qs) (tag :: es)).ruled rule =
        call (tag.ruled rule) (strings qs :: es.map (ruled rule)) := by
      obtain ⟨new, hrule, he⟩ | ⟨hrule, -⟩ := ruled_cases rule span (.tagged quoted qs) (tag :: es)
      · cases hrule
        exact he
      · cases hrule
    rw [hlowered] at hcall
    refine ⟨_, hcall, by simp, rfl, ?_⟩
    rw [readArguments_eq_self_iff, forall_mem_cons, forall_mem_map]
    have hstrings : (strings qs).tag ≠ .seq := by simp [strings, call, make]
    refine (and_iff_right hstrings).trans (forall₂_congr fun e he => ?_)
    exact not_congr (tag_ruled_eq_seq_iff (hexpr e (by simp [he])))

/-- A piece of text with nothing to escape. -/
def textOf (text : String) : Quasi := ⟨text, some (Units.ofString text)⟩

/-- ``f(`a${(b, c)}${d, e}`.length, t`x${g}`)``: commas in an untagged template, and a template as an argument. -/
theorem parenSafe_templateCalls_iff_commas :
    let commas := fun x y => make .seq [ident x, ident y]
    let text := make (.template [textOf "a", textOf "", textOf ""])
      [paren (commas "b" "c"), commas "d" "e"]
    let tagged := make (.tagged .none [textOf "x", textOf ""]) [ident "t", ident "g"]
    let s : Script := { body := [exprStmt (call (ident "f")
      [member text "length", tagged])] }
    s.WellFormed ∧ s.parenSafe = true ∧ (Pass.templateLiterals.run s).1.parenSafe = true := by
  intro commas text tagged s
  have hw : s.WellFormed := by decide
  have hs : s.parenSafe = true := by decide
  refine ⟨hw, hs, (parenSafe_templateCalls_iff hw hs).1.mpr ⟨fun span hasArgs callee args hm => ?_,
    fun span quoted qs tag es hm e he htag => ?_⟩⟩
  · exact (s.any_body_eq_false_iff (constructs becomesCall)).mp (by decide) _ hm
  · have := (s.any_body_eq_false_iff splitsArguments).mp (by decide) _ hm
    rw [splitsArguments, any_eq_false] at this
    exact this e he (beq_iff_eq.mpr htag)

/-- **Templates that need parentheses and get none**: ``t`${a, b}` `` becomes a call with three arguments, and
``new t`x`()`` becomes a call of `t` behind `new`. -/
theorem parenSafe_of_tagged_template :
    let call := fun texts es => make (.tagged .none (texts.map textOf)) (ident "t" :: es)
    let commas : Script := { body := [exprStmt (call ["", ""]
      [make .seq [ident "a", ident "b"]])] }
    let operand : Script := { body := [exprStmt (make (.new true) [call ["x"] []])] }
    (commas.WellFormed ∧ commas.parenSafe = true ∧
      (Pass.templateLiterals.run commas).1.parenSafe = false) ∧
    operand.WellFormed ∧ operand.parenSafe = true ∧
      (Pass.templateLiterals.run operand).1.parenSafe = false := by
  decide

end Template

end EcmaLower
