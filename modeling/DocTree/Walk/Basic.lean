import DocTree.Axis
import DocTree.Handle
import DocTree.Walk.Backward
import DocTree.Walk.Forward
import DocTree.Walk.Links
import DocTree.Walk.Owned

/-!
# Walks

A walk visits the nodes of one axis, each time it is advanced the next one, with a cursor that
starts at the origin. It knows of the origin only what the origin's handle says, and goes on from
wherever the cursor is.

## Main definitions

- `Walk` — the state of a walk along any axis
- `Axis.walk` — the walk that begins at an origin
- `Walk.advance` — one visit: `true` if the cursor is on a node of the axis now
-/

namespace DocTree

/-- A walk along one axis. -/
inductive Walk where
  | self (w : OneStepWalk)
  | parent (w : OneStepWalk)
  | ancestors (w : AncestorWalk)
  | children (w : ChildWalk)
  | descendants (w : DescendantWalk)
  | siblings (side : Side)
  | attributes (w : AttributeWalk)
  | namespaces (w : NamespaceWalk)
  | following (w : FollowingWalk)
  | preceding (w : PrecedingWalk)
deriving DecidableEq, Repr, Inhabited

/-- The walk along an axis from a node. -/
def Axis.walk (axis : Axis) (origin : Handle) : Walk :=
  let fromOwned := !origin.isStructural
  match axis with
  | self => .self {}
  | parent => .parent {}
  | ancestor => .ancestors { selfDue := false }
  | ancestorOrSelf => .ancestors { selfDue := true }
  | child => .children {}
  | descendant => .descendants { origin := origin.key, selfDue := false }
  | descendantOrSelf => .descendants { origin := origin.key, selfDue := true }
  | followingSibling => .siblings .right
  | precedingSibling => .siblings .left
  | .attribute => .attributes { owner := origin.key }
  | namespaceDecl => .namespaces { element? := some origin.key }
  | following => .following { fromOwned }
  | preceding => .preceding { fromOwned, withAncestors := false }
  | precedingOrAncestor => .preceding { fromOwned, withAncestors := true }

/-- Visit the next node, from the place `here` where the cursor is. The notes are what the walk has
become; they hold also if the storage fails on the way. -/
def Walk.advance (t : Snapshot) (here : Nat) : Walk → Reading Walk Bool
  | self w => w.stay.mapNotes self
  | parent w => (w.toParent t here).mapNotes parent
  | ancestors w => (w.advance t here).mapNotes ancestors
  | children w => (w.advance t here).mapNotes children
  | descendants w => (w.advance t here).mapNotes descendants
  | siblings side => (side.advance t here).mapNotes siblings
  | attributes w => (w.advance t here).mapNotes attributes
  | namespaces w => (w.advance t here).mapNotes namespaces
  | following w => (w.advance t here).mapNotes following
  | preceding w => (w.advance t here).mapNotes preceding

end DocTree
