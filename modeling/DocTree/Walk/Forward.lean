import DocTree.Reading

/-!
# Walks forward in document order

The descendants of a node, and all that follows it. Both go down to a first child where there is
one. A walk over descendants remembers the siblings that it passed on its way down and so never
leaves its subtree; a walk over what follows climbs until a node has a sibling to its right.

## Main definitions

- `DescendantWalk.advance` — the next descendant
- `skipSubtree` — the first node after a subtree
- `FollowingWalk.advance` — the next node that follows
-/

namespace DocTree

/-- A walk over the nodes below an origin. -/
structure DescendantWalk where
  origin : Int
  /-- Whether the origin itself is still to be visited. -/
  selfDue : Bool
  done : Bool := false
  /-- Right siblings of nodes that were entered, last one first. -/
  pending : List Nat := []
deriving DecidableEq, Repr, Inhabited

namespace DescendantWalk

/-- Where the walk goes from here, and what it has to remember: down, else to the right, else back to
the last sibling that was passed. The siblings of the origin are not part of its subtree. -/
def plan (t : Snapshot) (here : Nat) (w : DescendantWalk) : DescendantWalk × Option Nat :=
  let right? := if (here : Int) = w.origin then none else t.right? here
  match t.firstChild? here with
  | some c => ({ w with pending := right?.toList ++ w.pending }, some c)
  | none =>
    match right? with
    | some s => (w, some s)
    | none => ({ w with pending := w.pending.tail }, w.pending.head?)

/-- Visit the next descendant. A sibling that was passed in one revision may be missing from the
revision where the walk goes on, so the place is looked up. -/
def advance (t : Snapshot) (here : Nat) (w : DescendantWalk) : Reading DescendantWalk Bool :=
  if w.done then pure false
  else if w.selfDue then do
    .keep { w with selfDue := false }
    pure true
  else do
    let (w, target) := w.plan t here
    .keep w
    let moved ← match target with
      | some k => .ask (t.find? k)
      | none => pure false
    .keep { w with done := !moved }
    pure moved

end DescendantWalk

/-- Go to the first node after the subtree of the node at `here`: the sibling to the right of the
nearest node upwards that has one. -/
def skipSubtree {σ : Type} (t : Snapshot) (here : Nat) : Reading σ Bool :=
  match t.right? here with
  | some s => .step (some s)
  | none =>
    match _h : t.parent? here with
    | some p => do
      if ← .step (some p) then skipSubtree t p else pure false
    | none => pure false
termination_by here
decreasing_by exact Snapshot.parent?_lt _h

/-- Go to the next node in document order that is neither an attribute nor a declaration. -/
def nextNode {σ : Type} (t : Snapshot) (here : Nat) : Reading σ Bool :=
  match t.firstChild? here with
  | some c => .step (some c)
  | none => skipSubtree t here

/-- A walk over the nodes that follow an origin and are not below it. -/
structure FollowingWalk where
  /-- Whether the origin is an attribute or a declaration, so that its owner's children follow. -/
  fromOwned : Bool
  started : Bool := false
  done : Bool := false
deriving DecidableEq, Repr, Inhabited

namespace FollowingWalk

/-- Visit the first node that follows the origin. -/
def start (t : Snapshot) (here : Nat) (w : FollowingWalk) : Reading FollowingWalk Bool :=
  if w.fromOwned then
    match t.parent? here with
    | some p => do
      if ← .step (some p) then nextNode t p else pure false
    | none => pure false
  else skipSubtree t here

/-- Visit the next node that follows. -/
def advance (t : Snapshot) (here : Nat) (w : FollowingWalk) : Reading FollowingWalk Bool :=
  if w.done then pure false
  else do
    .keep { w with started := true }
    let moved ← if w.started then nextNode t here else w.start t here
    .keep { w with started := true, done := !moved }
    pure moved

end FollowingWalk

end DocTree
