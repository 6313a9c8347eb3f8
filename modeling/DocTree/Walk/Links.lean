import DocTree.Reading

/-!
# Walks that follow one kind of link

The node itself, its parent, its ancestors, its children and its siblings are reached along a single
kind of link, so the position of the cursor is nearly all the state that is needed.
-/

namespace DocTree

/-- A walk that has one step in all; `done` once it has been made. -/
structure OneStepWalk where
  done : Bool := false
deriving DecidableEq, Repr, Inhabited

/-- Visit the node where the cursor is, once. -/
def OneStepWalk.stay (w : OneStepWalk) : Reading OneStepWalk Bool :=
  if w.done then pure false
  else do
    .keep ⟨true⟩
    pure true

/-- Visit the parent, once. The step counts as made also if it fails. -/
def OneStepWalk.toParent (t : Snapshot) (here : Nat) (w : OneStepWalk) : Reading OneStepWalk Bool :=
  if w.done then pure false
  else do
    .keep ⟨true⟩
    .step (t.parent? here)

/-- A climb; `selfDue` as long as the node where it starts is still to be visited. -/
structure AncestorWalk where
  selfDue : Bool
deriving DecidableEq, Repr, Inhabited

/-- Visit the next node up. -/
def AncestorWalk.advance (t : Snapshot) (here : Nat) (w : AncestorWalk) :
    Reading AncestorWalk Bool :=
  if w.selfDue then do
    .keep ⟨false⟩
    pure true
  else .step (t.parent? here)

/-- A walk over children; `entered` once it has gone down to the first one. -/
structure ChildWalk where
  entered : Bool := false
deriving DecidableEq, Repr, Inhabited

/-- Visit the next child: the first one, then one sibling after the other. -/
def ChildWalk.advance (t : Snapshot) (here : Nat) (w : ChildWalk) : Reading ChildWalk Bool :=
  if w.entered then .step (t.right? here)
  else do
    .keep ⟨true⟩
    .step (t.firstChild? here)

/-- The two sides on which a node has siblings. -/
inductive Side where
  | left
  | right
deriving DecidableEq, Repr, Inhabited

/-- Visit the next sibling on one side. -/
def Side.advance (t : Snapshot) (here : Nat) : Side → Reading Side Bool
  | left => .step (t.left? here)
  | right => .step (t.right? here)

end DocTree
