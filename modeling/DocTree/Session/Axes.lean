import DocTree.Session.Basic

/-!
# Sessions: axes

The axes of a session are of six types. All of them deliver keys; those that are not concurrent can
also tell handles.
-/

namespace DocTree

/-- What an axis of a session delivers. -/
inductive Found where
  | handle (h : Handle)
  | key (key : Int)

/-- The key of what was found. -/
def Found.toKey : Found → Int
  | handle h => h.key
  | key k => k

namespace Object

/-- No fewer items than an axis can still deliver, among them one error. -/
def bound : Object → Nat
  | nodes axis => Stream.iteratorBound axis.handles + 1
  | handles axis => Stream.iteratorBound axis + 1
  | lenient axis => Stream.bound .lenient axis + 1
  | concurrent axis => Stream.bound (.relayed axis.shape) axis.relay + 1
  | set axis => Stream.bound (.merged axis.leftShape axis.rightShape) axis.merge + 1
  | keys ks => ks.length
  | _ => 0

/-- The next item of an axis, none if the object is no axis. -/
def next? : Object →
    Option (StateM Registry (Option (Except AccessError Found) × Object))
  | nodes axis => some do
    let (item, axis) ← axis.next
    return (item.map (·.map fun n => .handle n.handle), nodes axis)
  | handles axis => some do
    let (item, axis) ← axis.nextKey
    return (item.map (·.map .handle), handles axis)
  | lenient axis => some do
    let (item, axis) ← axis.next
    return (item.map (·.map fun n => .handle n.handle), lenient axis)
  | concurrent axis => some do
    let (item, axis) ← axis.next
    return (item.map (·.map .key), concurrent axis)
  | set axis => some do
    let (item, axis) ← axis.next
    return (item.map (·.map .key), set axis)
  | keys ks => some (return (ks.head?.map fun k => .ok (.key k), keys ks.tail))
  | _ => none

/-- The next items of an axis, so many at most and, if `toEnd`, only up to the end. -/
def pull (toEnd : Bool) : (times : Nat) → Object →
    StateM Registry (List (Option (Except AccessError Found)) × Object)
  | 0, o => return ([], o)
  | times + 1, o =>
    match o.next? with
    | none => return ([], o)
    | some step => do
      let (item, o) ← step
      if toEnd && item.isNone then return ([], o)
      else
        let (items, o) ← pull toEnd times o
        return (item :: items, o)

/-- All items of an axis up to its end. -/
def drain (o : Object) : StateM Registry (List (Except AccessError Found) × Object) := do
  let (items, o) ← o.pull true (o.bound + 1)
  return (items.filterMap id, o)

end Object

namespace Session

open SessionM

/-- An axis, by its code or by itself. -/
inductive AxisChoice where
  | code (code : Nat)
  | axis (axis : Axis)

/-- The axis that is meant. -/
def AxisChoice.resolve : AxisChoice → Except AccessError Axis
  | code c => Axis.ofCode c
  | axis a => .ok a

def iterate (n : Node) (choice : AxisChoice) (test : NodeTest) : Access NodeAxis := do
  let axis ← choice.resolve
  return ⟨← n.iterate axis test, n.document⟩

def startNodes (node : String) (choice : AxisChoice) (test : NodeTest) (as? : Option String) :
    SessionM Unit := do
  let n ← getNode node
  assign as? (.nodes (← access (iterate n choice test)))

/-- Name an axis of nodes that ends where the storage fails. -/
def startLenient (node : String) (code : Nat) (test : NodeTest) (as? : Option String) :
    SessionM Unit := do
  let n ← getNode node
  assign as? (.lenient (← access (n.iterateLenient code test)))

def startHandles (document origin : String) (choice : AxisChoice) (test : NodeTest)
    (as? : Option String) : SessionM Unit := do
  let (_, d) ← getDocument document
  let h ← getHandle origin
  let it ← access do
    let axis ← choice.resolve
    Registry.access d.mount.store (d.dispatcher.dispatch h axis test)
  assign as? (.handles it)

/-- All that is on an axis from a node of a document. -/
def walk (document : String) (key : Int) (choice : AxisChoice) (test : NodeTest) :
    SessionM (List (Except AccessError Found)) := do
  let (id, d) ← getDocument document
  let n ← access (d.node id key)
  let axis ← access (iterate n choice test)
  let (items, o) ← onRegistry (Object.nodes axis).drain
  onRegistry o.giveUp
  return items

/-- All that is on each axis from a node of a document, in the order of the codes. -/
def walkAll (document : String) (key : Int) (test : NodeTest) :
    SessionM (List (List (Except AccessError Found))) := do
  let (id, d) ← getDocument document
  let n ← access (d.node id key)
  Axis.all.mapM fun a => do
    let axis ← access (iterate n (.axis a) test)
    let (items, o) ← onRegistry (Object.nodes axis).drain
    onRegistry o.giveUp
    return items

/-- Start the iteration of an axis again. -/
def another (name : String) (as? : Option String) : SessionM Unit := do
  match ← lookup? name with
  | some (.nodes axis) => assign as? (.nodes (← access axis.again))
  | some (.handles axis) =>
    assign as? (.handles (← access (Registry.access axis.dispatcher.store axis.again)))
  | _ => throw .noVariable

/-- Turn an axis of nodes into one of handles. -/
def intoHandles (name : String) (as? : Option String) : SessionM AxisIterator := do
  let axis ← find name fun | .nodes a => some a | _ => none
  unname name
  assign as? (.handles axis.handles)
  return axis.handles

/-- The next items of the axis that has a name. -/
def pull (name : String) (times : Nat) : SessionM (List (Option (Except AccessError Found))) := do
  let o ← find name fun o => if o.next?.isSome then some o else none
  let (items, o) ← onRegistry (o.pull false times)
  put name o
  return items

/-- All items up to the end of the axis that has a name. -/
def drain (name : String) : SessionM (List (Except AccessError Found)) := do
  let o ← find name fun o => if o.next?.isSome then some o else none
  let (items, o) ← onRegistry o.drain
  put name o
  return items

/-- The next node of an axis of nodes, which gets a name. -/
def pullNode (name : String) (as? : Option String) : SessionM (Option Node) := do
  let item ← match ← lookup? name with
    | some (.nodes axis) => do
      let (item, axis) ← onRegistry axis.next
      put name (.nodes axis)
      pure item
    | some (.lenient axis) => do
      let (item, axis) ← onRegistry axis.next
      put name (.lenient axis)
      pure item
    | _ => throw .noVariable
  match item with
  | none => return none
  | some (.ok n) =>
    assign as? (.node n)
    return some n
  | some (.error e) => throw (.access e)

/-- Name a list of items that is run concurrently. -/
def spawnList (items : List Item) (capacity : Nat) (as? : Option String) : SessionM Unit :=
  assign as? (.concurrent (.spawn .listed items capacity))

/-- Run an axis concurrently, in place of the axis itself. -/
def spawnAxis (name : String) (capacity : Nat) (as? : Option String) : SessionM Unit := do
  let axis : ConcurrentAxis ← match ← lookup? name with
    | some (.nodes a) => pure (.spawn .handles a.handles capacity)
    | some (.handles a) => pure (.spawn .handles a capacity)
    | some (.lenient a) => pure (.spawn .lenient a capacity)
    | some (.concurrent a) => pure (.spawn (.relayed a.shape) a.relay capacity)
    | some (.set a) => pure (.spawn (.merged a.leftShape a.rightShape) a.merge capacity)
    | _ => throw .noVariable
  unname name
  assign as? (.concurrent axis)

/-- Name an axis from a node that is run concurrently. An unknown axis is found out first. -/
def startConcurrent (node : String) (choice : AxisChoice) (test : NodeTest)
    (as? : Option String) : SessionM Unit := do
  let axis ← ofExcept choice.resolve
  let n ← getNode node
  assign as? (.concurrent (← access (ConcurrentAxis.ofAxis n axis test)))

/-- Combine two concurrent axes, in place of the axes themselves. -/
def combine (operation : SetOperation) (left right : String) (as? : Option String) :
    SessionM Unit := do
  let l ← getConcurrent left
  let r ← getConcurrent right
  if left = right then throw .noVariable
  unname left
  unname right
  assign as? (.set (.combine operation l r))

end Session

end DocTree
