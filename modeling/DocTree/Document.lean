import DocTree.Axis.Iterator

/-!
# Documents

An open document is one revision of a store together with the pool for its names. It has a number
and a base URI, of which the latter can be changed while it is open.
-/

namespace DocTree

/-- A store as a tree of its own: nodes of two mounts belong to different trees, also if both give
access to the same store. -/
structure Mount where
  tree : Nat
  store : Nat
deriving DecidableEq, Repr, Inhabited

/-- How a document is to be opened. -/
structure Config where
  baseUri? : Option String := none
  /-- The number of the document, or none to have one assigned. -/
  documentNumber? : Option Nat := none
  /-- How many keys a concurrent axis may be ahead of its reader. -/
  concurrentBuffer : Nat := 64
deriving DecidableEq, Repr, Inhabited

/-- A document that is open. -/
structure Document where
  mount : Mount
  revision : Nat
  pool : Nat
  /-- The base URI where the document itself does not say. -/
  baseUri? : Option String
  number : Nat
  config : Config
deriving Repr, Inhabited

/-- The dispatcher for axes in a document. -/
def Document.dispatcher (d : Document) : Dispatcher := ⟨d.mount.store, d.revision, d.pool⟩

/-- Keys of nodes are not negative; a negative key stands for a value that is no node. -/
def validateNode (key : Int) : Except AccessError Unit :=
  if key < 0 then .error (.notANode key) else .ok ()

end DocTree
