import DocTree.Node.Lenient
import DocTree.Stream.Merge

/-!
# Streams of keys

Concurrent axes can be put together: a relay reads any other stream ahead, and a merge combines two
relays. The shape of a stream says what it is made of, and its state has the type that belongs to
the shape.

## Main definitions

- `Stream.Shape`, `Stream` — what streams are made of, and their states
- `Stream.next`, `Stream.stop` — the next key, and giving up
- `ConcurrentAxis`, `SetAxis` — the two kinds of streams that users handle
-/

namespace DocTree

/-- What a stream of keys is made of. -/
inductive Stream.Shape where
  | listed
  | handles
  | lenient
  | relayed (source : Shape)
  | merged (left right : Shape)
deriving DecidableEq, Repr, Inhabited

/-- The state of a stream of a given shape. -/
def Stream : Stream.Shape → Type
  | .listed => List Item
  | .handles => AxisIterator
  | .lenient => LenientAxis
  | .relayed source => Relay (Stream source)
  | .merged left right => Merge (Relay (Stream left)) (Relay (Stream right))

/-- The next handle of an iterator, as a key. -/
def AxisIterator.nextKey (it : AxisIterator) :
    StateM Registry (Option (Except AccessError Handle) × AxisIterator) := do
  let pool := (← get).pool it.dispatcher.pool
  Registry.onStore it.dispatcher.store (it.next pool)

namespace Stream

/-- No fewer keys than an iterator can still deliver. -/
def iteratorBound (it : AxisIterator) : Nat :=
  match it.progress with
  | .exhausted => 0
  | .pending => 1
  | .walking _ c => c.snapshot.size + 1

/-- No fewer keys than a relay can still deliver, if its source can deliver so many. -/
def relayBound {S : Type} (sourceBound : S → Nat) (r : Relay S) : Nat :=
  r.queue.length +
    match r.worker with
    | .ready source => sourceBound source
    | .offering _ source => sourceBound source + 1
    | .leaving _ | .finished => 0

/-- No fewer keys than a stream can still deliver. -/
def bound : (shape : Shape) → Stream shape → Nat
  | .listed, items => List.length (α := Item) items
  | .handles, it => iteratorBound it
  | .lenient, axis => match LenientAxis.nodes? axis with
    | some nodes => iteratorBound nodes.handles
    | none => 0
  | .relayed source, r => relayBound (bound source) r
  | .merged left right, s =>
    relayBound (bound left) (Merge.left s) + relayBound (bound right) (Merge.right s) + 3

mutual
def next : (shape : Shape) → Stream shape → StateM Registry (Option Item × Stream shape)
  | .listed, items => return (List.head? (α := Item) items, List.tail (α := Item) items)
  | .handles, it => do
    let (item, it) ← AxisIterator.nextKey it
    return (item.map (·.map (·.key)), it)
  | .lenient, axis => do
    let (item, axis) ← LenientAxis.next axis
    return (item.map (·.map (·.handle.key)), axis)
  | .relayed source, r => Relay.next (next source) (stop source) r
  | .merged left right, s =>
    Merge.next ⟨Relay.next (next left) (stop left), Relay.next (next right) (stop right)⟩
      (bound (.merged left right) s) s

def stop : (shape : Shape) → Stream shape → StateM Registry Unit
  | .listed, _ => pure ()
  | .handles, it => Registry.onStore (AxisIterator.dispatcher it).store (AxisIterator.abandon it)
  | .lenient, axis => LenientAxis.abandon axis
  | .relayed source, r => Relay.stop (next source) (stop source) r
  | .merged left right, s => do
    Relay.stop (next left) (stop left) (Merge.left s)
    Relay.stop (next right) (stop right) (Merge.right s)
end

end Stream

/-- An axis that is run concurrently with its reader. -/
structure ConcurrentAxis where
  shape : Stream.Shape
  relay : Relay (Stream shape)

/-- A set operation on two concurrent axes. -/
structure SetAxis where
  leftShape : Stream.Shape
  rightShape : Stream.Shape
  merge : Merge (Relay (Stream leftShape)) (Relay (Stream rightShape))

namespace ConcurrentAxis

def spawn (shape : Stream.Shape) (source : Stream shape) (capacity : Nat) : ConcurrentAxis :=
  ⟨shape, .start source capacity⟩

def next (a : ConcurrentAxis) : StateM Registry (Option Item × ConcurrentAxis) := do
  let (item, relay) ← Stream.next (.relayed a.shape) a.relay
  return (item, { a with relay })

def stop (a : ConcurrentAxis) : StateM Registry Unit := Stream.stop (.relayed a.shape) a.relay

/-- The keys on an axis from a node, run as far ahead as the document was configured for. -/
def ofAxis (n : Node) (axis : Axis) (test : NodeTest) : Access ConcurrentAxis := do
  let d ← n.getDocument
  return spawn .handles (← n.iterate axis test) d.config.concurrentBuffer

end ConcurrentAxis

namespace SetAxis

/-- Combine two concurrent axes. -/
def combine (operation : SetOperation) (left right : ConcurrentAxis) : SetAxis :=
  ⟨left.shape, right.shape, { operation, left := left.relay, right := right.relay }⟩

def next (a : SetAxis) : StateM Registry (Option Item × SetAxis) := do
  let (item, merge) ← Stream.next (.merged a.leftShape a.rightShape) a.merge
  return (item, { a with merge })

def stop (a : SetAxis) : StateM Registry Unit :=
  Stream.stop (.merged a.leftShape a.rightShape) a.merge

end SetAxis

end DocTree
