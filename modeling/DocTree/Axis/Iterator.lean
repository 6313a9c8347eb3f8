import DocTree.NodeTest
import DocTree.Store
import DocTree.Walk.Basic

/-!
# Iterating an axis

A dispatcher answers "the nodes of this axis from this origin that pass this test" with an iterator.
Where the kind of the origin alone decides that there is nothing, or only the origin, no cursor is
opened. An iterator holds a cursor as long as its walk goes on, and gives it back when the walk ends
or fails.

## Main definitions

- `Dispatcher.dispatch` — an iterator over an axis
- `AxisIterator.next` — its next node, an error, or the end
-/

namespace DocTree

/-- Where nodes are looked for: a revision of a store, and the pool that knows their names. Stores
and pools go by their numbers. -/
structure Dispatcher where
  store : Nat
  revision : Nat
  pool : Nat
deriving DecidableEq, Repr, Inhabited

/-- How far an iterator is. -/
inductive Progress where
  | exhausted
  /-- Only the origin is left to be looked at. -/
  | pending
  | walking (walk : Walk) (cursor : Cursor)

/-- An iteration over the nodes of an axis. -/
structure AxisIterator where
  dispatcher : Dispatcher
  origin : Handle
  axis : Axis
  test : NodeTest
  progress : Progress

/-- How an iteration over an axis from a node of a given kind begins. -/
inductive Opening where
  /-- There is nothing on the axis. -/
  | nothing
  /-- There is the origin and nothing else. -/
  | originOnly
  /-- A walk has to find out. -/
  | walk
  /-- A walk has to find out, unless the origin has no children. -/
  | walkIfParent
deriving DecidableEq, Repr

/-- What the kind of the origin says about an axis. -/
def Axis.opening (axis : Axis) (kind : Kind) : Opening :=
  match axis with
  | self => .originOnly
  | ancestor | parent => if kind = .root then .nothing else .walk
  | ancestorOrSelf => if kind = .root then .originOnly else .walk
  | .attribute | namespaceDecl => if kind = .element then .walk else .nothing
  | child | descendant => .walkIfParent
  | followingSibling | precedingSibling =>
    if kind = .root || !kind.isStructural then .nothing else .walk
  | descendantOrSelf | following | preceding | precedingOrAncestor => .walk

namespace Dispatcher

/-- Start an iteration. -/
def dispatch (d : Dispatcher) (origin : Handle) (axis : Axis) (test : NodeTest) :
    StateM Store (Except AccessError AxisIterator) := do
  let iterator := AxisIterator.mk d origin axis test
  match axis.opening origin.kind with
  | .nothing => return .ok (iterator .exhausted)
  | .originOnly => return .ok (iterator .pending)
  | .walk =>
    match ← Store.openAt d.revision origin.key with
    | .error e => return .error e
    | .ok c => return .ok (iterator (.walking (axis.walk origin) c))
  | .walkIfParent =>
    match ← Store.openAt d.revision origin.key with
    | .error e => return .error e
    | .ok c =>
      if (c.snapshot.firstChild? c.place).isSome then
        return .ok (iterator (.walking (axis.walk origin) c))
      else
        Store.release c
        return .ok (iterator .exhausted)

end Dispatcher

/-- Advance a walk from place `here` until it is on a node that is accepted; the node and what the
walk has become, or nothing at the end. A walk visits no node twice, so `size + 1` visits are
enough. -/
def Walk.seek {σ : Type} (t : Snapshot) (accepts : Nat → Bool) :
    (visits : Nat) → Walk → (here : Nat) → Reading σ (Option Walk)
  | 0, _, _ => .done none
  | visits + 1, w, here => do
    let (moved, w, here) ← (w.advance t here).observe w here
    if !moved then return none
    else if accepts here then return some w
    else seek t accepts visits w here

namespace AxisIterator

/-- The next node: none at the end. An error is the last thing that an iterator delivers. -/
def next (it : AxisIterator) (pool : NamePool) :
    StateM Store (Option (Except AccessError Handle) × AxisIterator) := do
  match it.progress with
  | .exhausted => return (none, it)
  | .pending =>
    let found := if it.test.accepts pool it.origin then some (.ok it.origin) else none
    return (found, { it with progress := .exhausted })
  | .walking walk c =>
    let accepts := fun k => it.test.accepts pool (c.snapshot.handle c.revision k)
    let run ← Store.perform c (walk.seek c.snapshot accepts (c.snapshot.size + 1) c.place) ()
    match run.outcome with
    | .ok (some walk) =>
      return (some (.ok run.cursor.handle), { it with progress := .walking walk run.cursor })
    | .ok none =>
      Store.release run.cursor
      return (none, { it with progress := .exhausted })
    | .error e =>
      Store.release run.cursor
      return (some (.error e), { it with progress := .exhausted })

/-- Start the same iteration again. -/
def again (it : AxisIterator) : StateM Store (Except AccessError AxisIterator) :=
  it.dispatcher.dispatch it.origin it.axis it.test

/-- Give up the iteration. -/
def abandon (it : AxisIterator) : StateM Store Unit :=
  match it.progress with
  | .walking _ c => Store.release c
  | _ => pure ()

end AxisIterator

end DocTree
