import EcmaLower.Parser.ClassBody
import EcmaLower.Proofs.Parser.Function

/-!
# Classes that are read
-/

namespace EcmaLower.Parse

open Node List
variable {g : Grammar} [hg : g.Sound]

/-! ## Members -/

instance (asi : Bool) : Quiet (isFieldEnd asi) := by unfold isFieldEnd; infer_instance

lemma ensures_fieldTail (h : MemberHead) (key : Node) : Ensures (fieldTail g h key) fun m =>
    key.ReadIn Role.isKey → m.ReadAs .field := by
  have hfield : ∀ span value, key.ReadIn Role.isKey → (value = [] ∨ ∃ e : Node, value = [e] ∧ e.ReadAs .expr) →
      (mk span (.field h.static.isSome) (key :: value)).ReadAs .field := by
    rintro span value hkey (rfl | ⟨e, rfl, he⟩)
    · exact ⟨read_one hkey fun _ => rfl, rfl⟩
    · exact ⟨read_two hkey he.beq fun _ _ => rfl, rfl⟩
  refine .check fun _ => .within ?_
  extract_lets rest
  have hrest : ∀ value, Ensures (rest value) fun m =>
      (value = [] ∨ ∃ e : Node, value = [e] ∧ e.ReadAs .expr) → key.ReadIn Role.isKey → m.ReadAs .field := by
    refine fun value => .next fun isEnd => ?_
    extract_lets result
    have hresult : ∀ x, Ensures (result x) fun m =>
        (value = [] ∨ ∃ e : Node, value = [e] ∧ e.ReadAs .expr) → key.ReadIn Role.isKey → m.ReadAs .field :=
      fun _ => .next fun span => .pure fun hvalue hkey => hfield span value hkey hvalue
    exact .ite (fun _ => .next fun _ => .next hresult) fun _ => hresult ()
  clear_value rest
  refine .next fun hasValue => .ite (fun _ => ?_) fun _ => ?_
  · exact (hg.assign.map fun e he => .inr ⟨e, rfl, he⟩).bind hrest
  · exact .pure_bind ((hrest []).mono fun m hm => hm (.inl rfl))

lemma ensures_memberMethod (h : MemberHead) (key : Node) (kind : MethodKind)
    {params : Parse (List Node)} {P : List Node → Prop}
    (hp : Ensures params fun ps => AreParams ps ∧ P ps) (isAsync isGenerator : Bool) :
    Ensures (memberMethod g h key kind params isAsync isGenerator) fun m =>
      key.ReadIn Role.isKey → m.ReadAs .method := by
  refine (ensures_methodTail hp h.start isAsync isGenerator).bind fun f => .next fun span => ?_
  exact .pure fun hf hkey => ⟨read_two hkey hf.readAs.beq fun _ _ => rfl, rfl⟩

lemma ensures_constructorTail (h : MemberHead) (key : Node) : Ensures (constructorTail g h key) fun m =>
    key.ReadAs .key → m.ReadAs .ctor := by
  refine .next fun _ => .next fun open_ => (ensures_paramList false).bind fun ps => .next fun _ => ?_
  refine .next fun close => (ensures_functionBody false false ps).bind fun body => ?_
  dsimp only
  set params := mk ⟨open_.lo, close.hi⟩ .params ps
  have hresult : Ensures (do return mk (← spanFrom h.start) .ctor [key, params, body]) fun m =>
      body.ReadAs .block → AreParams ps → key.ReadAs .key → m.ReadAs .ctor := by
    refine .next fun span => .pure fun hbody hps hkey => ?_
    exact ⟨read_of_roles (.cons hkey (.cons (hps.params _) (.cons hbody .nil))) rfl, rfl⟩
  split
  · exact .next fun _ => hresult
  · exact hresult

lemma ensures_accessorMember (h : MemberHead) (word : Node) : Ensures (accessorMember g h word) (ReadAs .method) := by
  refine ensures_classKey.bind fun key => .check fun _ => .ite (fun _ => ?_) fun _ => ?_
  · exact ensures_memberMethod h key .getter (ensures_getterParams word.span) false false
  · exact ensures_memberMethod h key .setter (ensures_setterParams word.span) false false

lemma ensures_memberAfterKey (h : MemberHead) (key : Node) : Ensures (memberAfterKey g h key) fun m =>
    key.ReadIn Role.isKey → m.ReadIn Role.isMember := by
  refine .next fun isMethod => .ite (fun _ => .ite (fun hc => ?_) fun _ => ?_) fun _ => ?_
  · refine (ensures_constructorTail h key).mono fun m hm hkey => ?_
    exact (hm ⟨hkey.1, role_of_isConstructorKey hc⟩).within rfl
  · refine (ensures_memberMethod h key .method ensures_formalParams false false).mono ?_
    exact fun m hm hkey => (hm hkey).within rfl
  refine .next fun _ => .next fun _ => .next fun _ => .next fun _ => .ite (fun _ => ?_) fun _ => ?_
  · exact (ensures_fieldTail h key).mono fun m hm hkey => (hm hkey).within rfl
  refine .next fun _ => .ite (fun _ => .next fun isGenerator => ?_) fun _ => .ite (fun _ => ?_) fun _ => ?_
  · refine ensures_classKey.bind fun key' => .check fun _ => ?_
    refine (ensures_memberMethod h key' .method ensures_formalParams true isGenerator).mono ?_
    exact fun m hm hkey _ => (hm hkey).within rfl
  · exact (ensures_accessorMember h key).mono fun m hm _ => hm.within rfl
  · exact ensures_unexpected _

lemma ensures_classMember : Ensures (classMember g) (ReadIn Role.isMember) := by
  refine .next fun start => .next fun isStatic => ?_
  extract_lets named rest
  have hrest : ∀ static, Ensures (rest static) (ReadIn Role.isMember) := by
    intro static
    unfold rest
    extract_lets h member
    have hmember : ∀ x, Ensures (member x) (ReadIn Role.isMember) := by
      refine fun _ => .next fun isGenerator => .ite (fun _ => ?_) fun _ => ?_
      · refine ensures_classKey.bind fun key => ?_
        have hmethod : Ensures (memberMethod g h key .method (formalParams g) false true) fun m =>
            key.ReadIn Role.isKey → m.ReadIn Role.isMember :=
          (ensures_memberMethod h key .method ensures_formalParams false true).mono
            fun m hm hkey => (hm hkey).within rfl
        exact .ite (fun _ => .next fun _ => .next fun _ => hmethod) fun _ => hmethod
      · exact ensures_classKey.bind fun key => ensures_memberAfterKey h key
    clear_value member
    cases static with
    | none => exact hmember ()
    | some s =>
      have hkey : (mk s (.keyName "static") []).ReadIn Role.isKey := ⟨read_leaf rfl, rfl⟩
      refine .next fun isMethod => .ite (fun _ => ?_) fun _ => ?_
      · exact (ensures_memberMethod named _ .method ensures_formalParams false false).mono
          fun m hm => (hm hkey).within rfl
      refine .next fun isField => .ite (fun _ => ?_) fun _ => ?_
      · exact (ensures_fieldTail named _).mono fun m hm => (hm hkey).within rfl
      refine .next fun isBlock => .ite (fun _ => ?_) fun _ => hmember ()
      refine (ensures_block false).within.bind fun b => .next fun span => .pure fun hb => ?_
      exact ⟨read_of_roles (.cons hb .nil) rfl, rfl⟩
  clear_value rest
  exact .ite (fun _ => .next hrest) fun _ => .next hrest

/-! ## Classes -/

/-- The members that were read so far. -/
def MembersSoFar (ms : List Node) : Prop := AllIn Role.isMember ms ∧ Role.areMembers (ms.map role) = true

lemma MembersSoFar.concat {ms : List Node} {m : Node} (h : MembersSoFar ms)
    (hm : m.ReadIn Role.isMember) (hone : m.role = .ctor → ∀ k ∈ ms, k.role ≠ .ctor) :
    MembersSoFar (ms ++ [m]) := by
  refine ⟨h.1.concat hm, ?_⟩
  have hold := h.2
  simp only [Role.areMembers, Bool.and_eq_true, decide_eq_true_eq, map_append, map_cons,
    map_nil, all_append, all_cons, all_nil, and_true, count_append] at hold ⊢
  refine ⟨⟨hold.1, hm.2⟩, ?_⟩
  by_cases hctor : m.role = .ctor
  · have hzero : (ms.map role).count .ctor = 0 := by
      simpa [count_eq_zero] using hone hctor
    simp [hzero, hctor]
  · rw [count_singleton, if_neg (by simpa using hctor)]
    exact hold.2

lemma ensures_classMembers : Ensures (classMembers g) MembersSoFar := by
  refine .collect MembersSoFar ⟨by simp, rfl⟩ fun acc => ?_
  refine .next fun isEnd => .ite (fun _ => .pure (by simp)) fun _ => ?_
  refine .next fun isEmpty => .ite (fun _ => .next fun span => ?_) fun _ => ?_
  · refine .pure fun a ha hacc => ?_
    obtain rfl := Option.some.inj ha
    exact hacc.concat ⟨read_leaf rfl, rfl⟩ fun h => nomatch h
  · refine ensures_classMember.within.bind fun m => .unless fun _ => .pure fun hone hm a ha hacc => ?_
    obtain rfl := Option.some.inj ha
    refine hacc.concat hm fun hctor k hk hkctor => hone ?_
    simp only [Bool.and_eq_true, beq_iff_eq, any_eq_true]
    exact ⟨Tag.eq_of_role (congrArg Role.onlyTag hctor), k, hk, Tag.eq_of_role (congrArg Role.onlyTag hkctor)⟩

lemma ensures_superClass : Ensures (superClass g) fun hs =>
    hs = [] ∨ ∃ e, hs = [e] ∧ e.ReadAs .expr := by
  refine .next fun extends_ => .ite (fun _ => ?_) fun _ => .pure (.inl rfl)
  refine hg.heritage.bind fun e => .next fun again => ?_
  refine .ite (fun _ => .next fun _ => .next fun _ => .next fun _ => ?_) fun _ => ?_
  · exact .pure fun he => .inr ⟨e, rfl, he⟩
  · exact .pure fun he => .inr ⟨e, rfl, he⟩

/-- **A class.** -/
lemma ensures_classTail (start : Nat) (needsName : Bool) :
    Ensures (classTail g start needsName) fun r => r.2.ReadAs .cls := by
  refine .within (.next fun _ => ?_)
  extract_lets rest
  have hrest : ∀ name, Ensures (rest name) fun r => r.2.ReadAs .cls := by
    refine fun name => ensures_superClass.bind fun heritage => .next fun _ => .next fun open_ => ?_
    refine ensures_classMembers.bind fun members => .next fun _ => .next fun span => ?_
    refine .pure fun hms hhs => ?_
    have hmembers : (mk ⟨open_.lo, span.hi⟩ .members members).ReadAs .members :=
      ⟨read_of_reads (fun m hm => (hms.1 m hm).1) hms.2, rfl⟩
    rcases hhs with rfl | ⟨e, rfl, he⟩
    · exact ⟨read_of_roles (.cons hmembers .nil) rfl, rfl⟩
    · exact ⟨read_of_roles (.cons hmembers (.cons he .nil)) rfl, rfl⟩
  clear_value rest
  exact .ite (fun _ => .next hrest) fun _ => .next hrest

end EcmaLower.Parse
