import EcmaLower.Proofs.ArrowPass

/-!
# The functions of `new.target`

An arrow takes the meaning of `new.target` from the function around it, as it does with `this`. When arrows
are lowered, `this` and `arguments` are read from variables, but `new.target` is left as it is: it refers to
the innermost function around it that is no arrow any more. This module lists the functions around every
`new.target`, says what becomes of each of them, and tells when `new.target` keeps its function.

## Main results

* `Arrow.targets_of_step` — each step of the traversal gives the functions their fates.
* `Arrow.newTarget_kept_iff` — when `new.target` keeps its function.
-/

namespace EcmaLower

open List Build

variable {f : Fate → Bool} {ks : List Node} {body : Node} {mark : Option Bool} {s : Span} {t : Tag} {α : Type}

/-! ## Functions around `new.target` -/

/-- A `new.target` with the functions around it, innermost first, each by its place in the source. -/
structure TargetSite (α : Type) where
  span : Span
  around : List (Span × α)
deriving DecidableEq, Repr

namespace TargetSite

variable {α β : Type}

/-- Says something else of the functions. -/
def map (f : α → β) (x : TargetSite α) : TargetSite β := ⟨x.span, x.around.map fun y => (y.1, f y.2)⟩

/-- Adds a function around those that are there. -/
def inside (y : Span × α) (x : TargetSite α) : TargetSite α := ⟨x.span, x.around ++ [y]⟩

lemma map_inside (f : α → β) (y : Span × α) (x : TargetSite α) :
    (x.inside y).map f = (x.map f).inside (y.1, f y.2) := by
  simp [map, inside]

lemma map_map_inside (f : α → β) (y : Span × α) (xs : List (TargetSite α)) :
    (xs.map (inside y)).map (map f) = (xs.map (map f)).map (inside (y.1, f y.2)) := by
  simp only [map_map, Function.comp_def, map_inside]

/-- The function that `new.target` refers to, by its number: the innermost one that is no arrow. -/
def owner (x : TargetSite Bool) : Nat := x.around.findIdx fun y => !y.2

end TargetSite

/-- The `new.target`s of a node from those of its children. A function adds itself, and is described by
`arrow` if it is an arrow and else by `owner`. The keys of accessors and of class members stand outside of
them. -/
def Tag.enclose {α : Type} (s : Span) (arrow owner : α) (t : Tag) (kids : List (List (TargetSite α))) :
    List (TargetSite α) :=
  match t with
  | .newTarget => [⟨s, []⟩]
  | .arrow _ => kids.flatten.map (.inside (s, arrow))
  | .func .. | .staticBlock => kids.flatten.map (.inside (s, owner))
  | .ctor | .getter | .setter | .field _ =>
    (kids.take 1).flatten ++ (kids.drop 1).flatten.map (.inside (s, owner))
  | _ => kids.flatten

/-- What is said of the functions can be said afterwards. -/
lemma Tag.map_enclose {β : Type} (f : α → β) (s : Span) (arrow owner : α) (t : Tag)
    (kids : List (List (TargetSite α))) : (t.enclose s arrow owner kids).map (TargetSite.map f) =
      t.enclose s (f arrow) (f owner) (kids.map (·.map (TargetSite.map f))) := by
  have hflat : ∀ xss : List (List (TargetSite α)),
      xss.flatten.map (TargetSite.map f) = (xss.map (·.map (TargetSite.map f))).flatten :=
    fun xss => map_flatten
  cases t with
  | newTarget => rfl
  | arrow | func | staticBlock => simp only [enclose, TargetSite.map_map_inside, hflat]
  | ctor | getter | setter | field =>
    simp only [enclose, map_append, TargetSite.map_map_inside, hflat, map_take, map_drop]
  | _ => exact hflat kids

/-- The `new.target`s of a tree in source order. Of the functions around each it says whether they are
arrows. -/
def Node.targets (n : Node) : List (TargetSite Bool) := n.fold fun s t ks => t.enclose s true false (ks.map (·.2))

lemma Node.targets_mk (s : Span) (t : Tag) (ks : List Node) :
    (mk s t ks).targets = t.enclose s true false (ks.map targets) := by
  rw [targets, fold_mk, map_map]
  rfl

/-- The `new.target`s of a script. -/
def Script.targets (s : Script) : List (TargetSite Bool) := s.body.flatMap Node.targets

namespace Arrow

open Node

/-- What becomes of a function. -/
inductive Fate
  /-- It was no arrow, and stays what it is. -/
  | owner
  /-- It stays an arrow. -/
  | kept
  /-- It was an arrow and is none any more. -/
  | lowered
deriving DecidableEq, Repr

namespace Fate

/-- Whether the function was an arrow. -/
def wasArrow : Fate → Bool
  | owner => false
  | kept | lowered => true

/-- Whether the function is an arrow afterwards. -/
def isArrow : Fate → Bool
  | kept => true
  | owner | lowered => false

/-- What becomes of an arrow, given by its parts. The mark says whether it stands in the parameter list of
the innermost function, and is missing where the traversal does not come. -/
def ofArrow (mark : Option Bool) (parts : List Node) : Fate :=
  if mark.all (keeps · parts) then kept else lowered

end Fate

/-- The mark of the `i`-th child of a node: functions and accessors mark their own parameters and not their
bodies, and field initializers and static blocks are not visited. -/
def kidMark (mark : Option Bool) : Tag → Nat → Option Bool
  | .func .., 0 | .ctor, 1 | .setter, 1 => mark.map fun _ => true
  | .func .., _ | .ctor, 2 | .setter, 2 | .getter, 1 => mark.map fun _ => false
  | .field _, _ | .staticBlock, _ => none
  | _, _ => mark

/-- The `new.target`s of a tree, with what becomes of the functions around them. -/
def fates (n : Node) : Option Bool → List (TargetSite Fate) :=
  n.fold fun s t ks mark =>
    t.enclose s (.ofArrow mark (ks.map (·.1))) .owner (ks.mapIdx fun i k => k.2 (kidMark mark t i))

/-- The `new.target`s of a script, with what becomes of the functions around them. -/
def scriptFates (s : Script) : List (TargetSite Fate) := s.body.flatMap (fates · (some false))

lemma fates_mk (s : Span) (t : Tag) (ks : List Node) (mark : Option Bool) : fates (mk s t ks) mark =
    t.enclose s (.ofArrow mark ks) .owner (ks.mapIdx fun i k => fates k (kidMark mark t i)) := by
  have hmap : ∀ (g : Node → Node × (Option Bool → List (TargetSite Fate))),
      (ks.map g).mapIdx (fun i k => k.2 (kidMark mark t i)) = ks.mapIdx fun i k => (g k).2 (kidMark mark t i) := by
    intro g
    refine ext_getElem? fun i => ?_
    simp only [getElem?_mapIdx, getElem?_map, Option.map_map, Function.comp_def]
  rw [fates, fold_mk, hmap, map_map]
  simp only [Function.comp_def, map_id']
  rfl

/-- The `new.target`s of a node and those of its result, if they are known for the children. -/
lemma targets_of_kids {ks' : List Node} (harrow : ∀ a, t = .arrow a → f (.ofArrow mark ks) = true)
    (howner : f .owner = false)
    (hkids : ks'.map targets = ks.mapIdx fun i k => (fates k (kidMark mark t i)).map (.map f)) :
    (mk s t ks').targets = (fates (mk s t ks) mark).map (.map f) := by
  have hmap : ks'.map targets = (ks.mapIdx fun i k => fates k (kidMark mark t i)).map (·.map (.map f)) := by
    rw [hkids]
    refine ext_getElem? fun i => ?_
    simp only [getElem?_mapIdx, getElem?_map, Option.map_map, Function.comp_def]
  rw [fates_mk, targets_mk, Tag.map_enclose, howner, hmap]
  cases t with
  | arrow a => rw [harrow a rfl]
  | _ => rfl

/-- The same where the tree stays as it is. -/
lemma targets_of_self (harrow : f (.ofArrow mark ks) = true) (howner : f .owner = false)
    (hkids : ∀ k ∈ ks, ∀ i, k.targets = (fates k (kidMark mark t i)).map (.map f)) :
    (mk s t ks).targets = (fates (mk s t ks) mark).map (.map f) := by
  refine targets_of_kids (fun _ _ => harrow) howner (ext_getElem? fun i => ?_)
  rw [getElem?_map, getElem?_mapIdx]
  cases hk : ks[i]? with
  | none => rfl
  | some k => exact congrArg some (hkids k (mem_of_getElem? hk) i)

/-- The functions around each `new.target` are those that are listed with their fates. -/
lemma targets_eq_map_wasArrow (n : Node) (mark : Option Bool) :
    n.targets = (fates n mark).map (.map Fate.wasArrow) := by
  induction n generalizing mark with
  | mk s t ks ih =>
    refine targets_of_self ?_ rfl fun k hk i => ih k hk _
    unfold Fate.ofArrow
    split <;> rfl

lemma kidMark_none (t : Tag) (i : Nat) : kidMark none t i = none := by
  unfold kidMark
  split <;> rfl

/-- Where the traversal does not come, all arrows stay. -/
lemma targets_eq_map_isArrow (n : Node) : n.targets = (fates n none).map (.map Fate.isArrow) := by
  induction n with
  | mk s t ks ih =>
    refine targets_of_self rfl rfl fun k hk i => ?_
    rw [kidMark_none]
    exact ih k hk

/-! ## Steps -/

lemma targets_block (s : Span) (stmts : List Node) : (mk s .block stmts).targets = stmts.flatMap targets := by
  rw [targets_mk]
  rfl

lemma targets_captures (sc : Scope) : sc.captures.flatMap targets = [] := by
  unfold Scope.captures
  cases sc.thisName <;> cases sc.argumentsName <;> rfl

lemma targets_afterDirectives (sc : Scope) (stmts : List Node) :
    (afterDirectives sc.captures stmts).flatMap targets = stmts.flatMap targets := by
  rw [afterDirectives, flatMap_append, flatMap_append, targets_captures, append_nil,
    ← flatMap_append, takeWhile_append_dropWhile]

lemma targets_declareIn (sc : Scope) (h : body.Is .block) : (declareIn sc.captures body).targets = body.targets := by
  obtain ⟨s, stmts, rfl⟩ := eq_of_role h.2 rfl
  rw [declareIn, targets_block, targets_block, targets_afterDirectives]

/-- A node that is no function has the `new.target`s of its only child. -/
lemma targets_single {e : Node} (ht : t.enclose s true false [e.targets] = [e.targets].flatten) :
    (mk s t [e]).targets = e.targets := by
  rw [targets_mk]
  exact ht.trans (append_nil _)

lemma targets_blockOf (body : Node) : (blockOf body).targets = body.targets := by
  unfold blockOf
  split
  · rfl
  · exact (targets_single rfl).trans (targets_single rfl)

/-- The function that an arrow becomes is none of the arrows around its `new.target`s any more. -/
lemma targets_toFunction {a : Bool} {p : Node} (hp : p.Is .params) :
    (toFunction s a p body).targets = (p.targets ++ body.targets).map (.inside (s, false)) := by
  obtain ⟨sp, ps, rfl⟩ := eq_of_role hp.2 rfl
  have hparams : (params ps).targets = (mk sp .params ps).targets := by
    rw [params, make, targets_mk, targets_mk]
    rfl
  rw [toFunction_eq, funcExpr, targets_single rfl, targets_mk]
  simp only [Tag.enclose, kids_mk, map_cons, map_nil, hparams, targets_blockOf, flatten_cons, flatten_nil, append_nil]

lemma targets_asStatement (e : Node) : (asStatement e).targets = e.targets := by
  unfold asStatement
  split
  · exact targets_single rfl
  · rfl

/-- The children that are visited have the marks that are told by their numbers. -/
lemma map_visited (f : Node → Option Bool → α) {b : Bool} (h : (mk s t ks).WellFormed)
    (hkids : (visited b (mk s t ks)).map (·.2) = ks) :
    (visited b (mk s t ks)).map (fun x => f x.2 (some x.1)) = ks.mapIdx fun i k => f k (kidMark (some b) t i) := by
  have hall : (∀ i, kidMark (some b) t i = some b) → (ks.map (b, ·)).map (fun x => f x.2 (some x.1)) =
      ks.mapIdx fun i k => f k (kidMark (some b) t i) :=
    fun hmark => ext_getElem? fun i => by simp [hmark, Function.comp_def]
  cases t with
  | func a g =>
    obtain ⟨p, body, rfl, -⟩ := h.func
    rfl
  | ctor =>
    obtain ⟨key, p, body, rfl, -⟩ := h.ctor
    rfl
  | getter =>
    obtain ⟨key, body, rfl, -⟩ := h.getter
    rfl
  | setter =>
    obtain ⟨key, p, body, rfl, -⟩ := h.setter
    rfl
  | field | staticBlock =>
    obtain rfl : [] = ks := hkids
    rfl
  | _ => exact hall fun _ => rfl

/-- **Each step of the traversal gives the functions their fates.** -/
lemma targets_of_step (b : Bool) (n n' : Node) (c : Nat) (h : n.WellFormed)
    (hstep : Step (fun b n n' _ => n'.Is n.role ∧ n'.targets = (fates n (some b)).map (.map Fate.isArrow)) b n n' c) :
    n'.Is n.role ∧ n'.targets = (fates n (some b)).map (.map Fate.isArrow) := by
  refine ⟨step_is b n n' c h (hstep.mono fun _ _ _ _ h => h.1), ?_⟩
  cases hstep with
  | @rebuilt _ s t ks ks' _ hkids hparts _ harrow =>
    have hks := hparts.forall₂_visited (P := fun x e => e.Is x.2.role ∧
      e.targets = (fates x.2 (some x.1)).map (.map Fate.isArrow)) (fun _ _ _ _ _ hk => hk)
      fun _ sc k e hk he => ⟨hk.2.symm ▸ is_declareIn (hk.2 ▸ he.1) sc,
        (targets_declareIn sc (hk.2 ▸ he.1)).trans he.2⟩
    refine targets_of_kids (fun a ha => ?_) rfl ?_
    · simp [Fate.ofArrow, harrow a ha, Fate.isArrow]
    · rw [map_eq_of_forall₂ hks fun x e he => he.2]
      exact map_visited (fun k m => (fates k m).map (TargetSite.map Fate.isArrow)) h hkids
  | field | staticBlock =>
    refine targets_of_kids nofun rfl (ext_getElem? fun i => ?_)
    rw [getElem?_map, getElem?_mapIdx]
    exact congrArg (Option.map · _) (funext fun k => targets_eq_map_isArrow k)
  | @lowered _ _ _ p _ body _ _ _ hkeep hparams _ hp hb =>
    have hfate : Fate.isArrow (.ofArrow (some b) [p, body]) = false := by
      simp [Fate.ofArrow, hkeep, Fate.isArrow]
    rw [targets_toFunction (hparams.2 ▸ hp.1), hp.2, hb.2, fates_mk, Tag.map_enclose, hfate]
    exact congrArg (fun xs => map _ (_ ++ xs)) (append_nil _).symm
  | word hword => rcases Tag.eq_of_contextWord hword with ⟨rfl, -⟩ | ⟨rfl | rfl, -⟩ <;> rfl
  | statement _ he =>
    refine targets_of_kids nofun rfl ?_
    rw [map_cons, targets_asStatement, he.2]
    rfl

/-! ## Scripts -/

/-- The innermost function that is no arrow afterwards is the one that was none before, unless an arrow
inside of it is lowered. -/
lemma findIdx_isArrow (l : List (Span × Fate)) :
    (l.findIdx (fun y => !y.2.isArrow) = l.findIdx (fun y => !y.2.wasArrow) ↔
      ∀ y ∈ l.takeWhile (·.2.wasArrow), y.2 = .kept) ∧
    (l.findIdx (fun y => !y.2.isArrow) ≠ l.findIdx (fun y => !y.2.wasArrow) →
      l[l.findIdx fun y => !y.2.isArrow]?.map (·.2) = some .lowered) := by
  induction l with
  | nil => simp
  | cons y l ih =>
    obtain ⟨s, f⟩ := y
    cases f with
    | owner => simp [findIdx_cons, Fate.isArrow, Fate.wasArrow]
    | kept => simpa [findIdx_cons, Fate.isArrow, Fate.wasArrow] using ih
    | lowered => simp [findIdx_cons, Fate.isArrow, Fate.wasArrow]

lemma TargetSite.owner_map (f : Fate → Bool) (x : TargetSite Fate) :
    (x.map f).owner = x.around.findIdx fun y => !f y.2 := by
  rw [TargetSite.owner, TargetSite.map, findIdx_map]
  rfl

/-- **When `new.target` keeps its function.** Every `new.target` of a script stays, and the functions around
it stay in their order. It refers to the same function as before exactly if all the arrows between the two
stay arrows, and else to a function that was an arrow. -/
theorem newTarget_kept_iff {s : Script} (h : s.WellFormed) :
    s.targets = (scriptFates s).map (.map Fate.wasArrow) ∧
    (lowerScript s).1.targets = (scriptFates s).map (.map Fate.isArrow) ∧
    ∀ x ∈ scriptFates s,
      ((x.map Fate.isArrow).owner = (x.map Fate.wasArrow).owner ↔
        ∀ y ∈ x.around.takeWhile (·.2.wasArrow), y.2 = .kept) ∧
      ((x.map Fate.isArrow).owner ≠ (x.map Fate.wasArrow).owner →
        x.around[(x.map Fate.isArrow).owner]?.map (·.2) = some .lowered) := by
  refine ⟨?_, ?_, fun x _ => ?_⟩
  · rw [Script.targets, scriptFates, map_flatMap]
    exact congrArg (flatMap · s.body) (funext fun n => targets_eq_map_wasArrow n _)
  · obtain ⟨sc, body', c, hE, hbody, -⟩ := lowerScript_rel targets_of_step h
    rw [Script.targets, hbody, targets_afterDirectives, scriptFates, map_flatMap,
      flatMap_def, flatMap_def, hE.map_eq fun k _ k' d hk => hk.2]
  · rw [TargetSite.owner_map, TargetSite.owner_map]
    exact findIdx_isArrow x.around

/-- `function F(…) { … }`, which stands at 1. -/
def functionF (params body : List Node) : Node :=
  Build.make (.funcDecl ⟨"F", .none⟩) [mk ⟨1, 90⟩ (.func false false) [Build.params params, Build.block body]]

/-- An arrow without parameters, which stands at `i`. -/
def arrowAt (i : Nat) (body : Node) : Node := mk ⟨i, 80⟩ (.arrow false) [params [], body]

/-- `new.target`, which stands at `i`. -/
def newTargetAt (i : Nat) : Node := mk ⟨i, 70⟩ .newTarget []

/-- `function F(g = () => [this, new.target]) { return () => () => new.target; }`: the first arrow stays. -/
theorem newTarget_kept_iff_defaultAndBody :
    let s : Script := { body := [functionF
      [Build.make .assignPat [Build.binding "g", arrowAt 10 (Build.array [Build.this, newTargetAt 20])]]
      [Build.returnStmt (arrowAt 30 (arrowAt 40 (newTargetAt 50)))]] }
    s.WellFormed ∧
      s.targets.map TargetSite.owner = [1, 2] ∧ (lowerScript s).1.targets.map TargetSite.owner = [1, 0] ∧
      (lowerScript s).1.targets = [⟨⟨20, 70⟩, [(⟨10, 80⟩, true), (⟨1, 90⟩, false)]⟩,
        ⟨⟨50, 70⟩, [(⟨40, 80⟩, false), (⟨30, 80⟩, false), (⟨1, 90⟩, false)]⟩] := by
  intro s
  have hw : s.WellFormed := by decide
  obtain ⟨hbefore, hafter, -⟩ := newTarget_kept_iff hw
  rw [hbefore, hafter]
  exact ⟨hw, by decide, by decide, by decide⟩

/-- **`new.target` of an arrow**: in `function F() { return () => new.target; }` it refers to `F`, and
afterwards to the function that the arrow has become. -/
theorem newTarget_of_lowered_arrow :
    let s : Script := { body := [functionF [] [Build.returnStmt (arrowAt 30 (newTargetAt 50))]] }
    s.WellFormed ∧ s.targets = [⟨⟨50, 70⟩, [(⟨30, 80⟩, true), (⟨1, 90⟩, false)]⟩] ∧
      (lowerScript s).1.targets = [⟨⟨50, 70⟩, [(⟨30, 80⟩, false), (⟨1, 90⟩, false)]⟩] := by
  decide

end Arrow

end EcmaLower
