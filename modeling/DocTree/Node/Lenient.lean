import DocTree.Node.Basic

/-!
# Lenient access to nodes

Some questions have an answer that stands for "nothing there". A lenient caller gets that answer
where the storage fails, and still hears of every other error. A lenient axis ends where the storage
fails.
-/

namespace DocTree

/-- The answer `absent` in place of a failure of the storage. -/
def Access.orAbsent {α : Type} (absent : α) (work : Access α) : Access α :=
  tryCatch work fun e => if e.isStorage then pure absent else throw e

namespace Node

/-- The parent, none if the storage fails. -/
def parentLenient (n : Node) : Access (Option Node) := Access.orAbsent none n.parent

/-- Whether there are children, no if the storage fails. -/
def hasChildrenLenient (n : Node) : Access Bool := Access.orAbsent false n.hasChildren

/-- The position among siblings, 0 if the storage fails. -/
def siblingPositionLenient (n : Node) : Access Nat := Access.orAbsent 0 n.siblingPosition

end Node

/-- An axis of a document as nodes. -/
structure NodeAxis where
  handles : AxisIterator
  document : Nat

namespace NodeAxis

/-- The next node. -/
def next (a : NodeAxis) : StateM Registry (Option (Except AccessError Node) × NodeAxis) := do
  let pool := (← get).pool a.handles.dispatcher.pool
  let (item, handles) ← Registry.onStore a.handles.dispatcher.store (a.handles.next pool)
  return (item.map (·.map fun h => ⟨h, a.document⟩), { a with handles })

/-- Start the same iteration again. -/
def again (a : NodeAxis) : Access NodeAxis := do
  return { a with handles := ← Registry.access a.handles.dispatcher.store a.handles.again }

/-- Give up the iteration. -/
def abandon (a : NodeAxis) : StateM Registry Unit :=
  Registry.onStore a.handles.dispatcher.store a.handles.abandon

end NodeAxis

/-- An axis that ends where the storage fails; none once it has ended. -/
structure LenientAxis where
  nodes? : Option NodeAxis

namespace LenientAxis

/-- The next node. A failure of the storage is an end, any other error the last thing delivered. -/
def next (a : LenientAxis) : StateM Registry (Option (Except AccessError Node) × LenientAxis) := do
  match a.nodes? with
  | none => return (none, a)
  | some nodes =>
    match ← nodes.next with
    | (some (.ok n), nodes) => return (some (.ok n), ⟨some nodes⟩)
    | (some (.error e), nodes) =>
      nodes.abandon
      return (if e.isStorage then none else some (.error e), ⟨none⟩)
    | (none, nodes) =>
      nodes.abandon
      return (none, ⟨none⟩)

/-- Give up the iteration. -/
def abandon (a : LenientAxis) : StateM Registry Unit :=
  match a.nodes? with
  | some nodes => nodes.abandon
  | none => pure ()

end LenientAxis

/-- The nodes on an axis; an unknown axis is an error, and where the storage fails the axis is
empty. -/
def Node.iterateLenient (n : Node) (code : Nat) (test : NodeTest) : Access LenientAxis :=
  Access.orAbsent ⟨none⟩ do
    let axis ← Axis.ofCode code
    return ⟨some ⟨← n.iterate axis test, n.document⟩⟩

end DocTree
