import EcmaLower.Syntax.Build

/-!
# `super` without classes

In the body of a member, `super` is the parent class or its prototype. A property is read from
there, a method found there is called on the receiver of the member, and a value is stored on that
receiver. Nested functions, accessors and classes have a `super` of their own and are left alone;
arrows share the member's.
-/

namespace EcmaLower

/-- What `super` and `this` stand for in a member. -/
structure SuperContext where
  /-- The parent class. -/
  parent : Node
  /-- Whether the member is static, so that `super` is the parent and not its prototype. -/
  isStatic : Bool
  /-- What replaces `this`, where the code does not run with the receiver as its `this`. -/
  receiver? : Option Node := none

namespace SuperContext

/-- The receiver of the member. -/
def receiver (c : SuperContext) : Node := c.receiver?.getD Build.this

/-- The property that `super` has under a key. -/
def home (c : SuperContext) (key : Node) : Node :=
  Build.access (if c.isStatic then c.parent else Build.member c.parent "prototype") key

/-- `f.call(receiver, args…)`, or `f.apply(receiver, [args…])` if an argument is spread. -/
def callOn (f receiver : Node) (args : List Node) : Node :=
  if args.any (·.tag == .spread) then
    Build.call (Build.member f "apply") [receiver, Build.array args]
  else Build.call (Build.member f "call") (receiver :: args)

/-- A store through `super`: it goes to the receiver, and a compound one reads from the parent. -/
def store (c : SuperContext) (op : AssignOp) (key value : Node) : Node :=
  let target := Build.access c.receiver key
  match op.binary with
  | none => Build.assign target value
  | some binary =>
    if op.shortCircuits then
      Build.binary binary (c.home key) (Build.paren (Build.assign target value))
    else Build.assign target (Build.binary binary (c.home key) (Build.paren value))

/-- The key of a property of `super`. -/
def superKey? : Node → Option Node
  | .mk _ (.superMember _) [key] => some key
  | _ => none

/-- A node with its children lowered, and the node itself lowered. -/
structure Lowered where
  within : Node
  whole : Node

/-- One node of the traversal. -/
def step (c : SuperContext) (span : Span) (t : Tag) (ks : List (Node × Lowered)) : Lowered :=
  let within := Node.mk span t (ks.map (·.2.whole))
  match t, ks with
  | .func .., _ | .getter, _ | .setter, _ | .cls, _ =>
    let same := Node.mk span t (ks.map (·.1))
    ⟨same, same⟩
  | .superCall _, args => ⟨within, callOn c.parent c.receiver (args.map (·.2.whole))⟩
  | .call, (callee, _) :: args =>
    match superKey? callee with
    | some key => ⟨within, callOn (c.home key) c.receiver (args.map (·.2.whole))⟩
    | none => ⟨within, within⟩
  | .assign op, [(_, target), (_, value)] =>
    match superKey? target.within with
    | some key => ⟨within, c.store op key value.whole⟩
    | none => ⟨within, within⟩
  | .this, _ => ⟨within, c.receiver?.getD within⟩
  | .superMember _, [(_, key)] => ⟨within, c.home key.whole⟩
  | _, _ => ⟨within, within⟩

/-- A tree without the `super` of the member it belongs to. -/
def lower (c : SuperContext) (n : Node) : Node := (n.fold c.step).whole

end SuperContext

end EcmaLower
