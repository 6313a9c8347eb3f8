import DocTree.Document

/-!
# The registry of stores, pools and documents

Stores, name pools and documents are shared: what one user does to them another one sees. The
registry holds them under numbers. A document is gone when it has been released, and what refers to
it finds out; stores and pools stay.

The numbers that are assigned to documents come from one counter of the whole process. It has 64 bits
and comes round to zero after the last number. A process that has opened documents before is farther
on, so that a registry with nothing in it may begin with any value of the counter.

## Main definitions

- `Registry`, `Access` — the shared state, and operations on it that may fail
- `Registry.openDocument`, `Registry.releaseDocument` — the life of a document
- `Document.consult` — a reading in a document
-/

namespace DocTree

/-- All that is shared. -/
structure Registry where
  stores : Array Store := #[]
  pools : Array NamePool := #[]
  /-- The documents, none where one has been released. -/
  documents : Array (Option Document) := #[]
  /-- The number of mounts so far. -/
  trees : Nat := 0
  /-- The counter of the process: the number that is assigned next to a document without one of its
  own. -/
  nextNumber : UInt64 := 0
deriving Inhabited

/-- An operation on the registry that may fail; what it did before stays done. -/
abbrev Access := ExceptT AccessError (StateM Registry)

namespace Registry

variable {α : Type}

def store (r : Registry) (id : Nat) : Store := r.stores[id]?.getD {}

def onStore (id : Nat) (work : StateM Store α) : StateM Registry α :=
  modifyGet fun r =>
    let (a, s) := work (r.store id)
    (a, { r with stores := r.stores.setIfInBounds id s })

def pool (r : Registry) (id : Nat) : NamePool := r.pools[id]?.getD .empty

/-- Work on one pool. While the work goes on, nothing else refers to the pool. -/
def onPool (id : Nat) (work : StateM NamePool α) : StateM Registry α :=
  modifyGet fun r =>
    let p := r.pool id
    let r := { r with pools := r.pools.setIfInBounds id .empty }
    let (a, p) := work p
    (a, { r with pools := r.pools.setIfInBounds id p })

/-- Add a store, as a tree of its own. -/
def addStore (s : Store) : StateM Registry Mount :=
  modifyGet fun r =>
    (⟨r.trees, r.stores.size⟩, { r with stores := r.stores.push s, trees := r.trees + 1 })

/-- Give access to a store as another tree. -/
def remount (m : Mount) : StateM Registry Mount :=
  modifyGet fun r => (⟨r.trees, m.store⟩, { r with trees := r.trees + 1 })

def addPool : StateM Registry Nat :=
  modifyGet fun r => (r.pools.size, { r with pools := r.pools.push .empty })

/-- A document that has not been released. -/
def document? (r : Registry) (id : Nat) : Option Document := r.documents[id]?.join

def modifyDocument (id : Nat) (f : Document → Document) : StateM Registry Unit :=
  modify fun r => { r with documents := r.documents.modify id (·.map f) }

def releaseDocument (id : Nat) : StateM Registry Unit :=
  modify fun r => { r with documents := r.documents.setIfInBounds id none }

/-- The number of a document that is being opened. -/
def takeNumber (config : Config) : StateM Registry Nat :=
  modifyGet fun r =>
    match config.documentNumber? with
    | some n => (n, r)
    | none => (r.nextNumber.toNat, { r with nextNumber := r.nextNumber + 1 })

/-- Work on one store, in an operation that may fail. -/
def access (id : Nat) (work : StateM Store (Except AccessError α)) : Access α :=
  ExceptT.mk (onStore id work)

/-- Open a revision as a document. The revision has to be readable; a document that cannot be opened
takes no number. -/
def openDocument (mount : Mount) (revision pool : Nat) (config : Config) : Access Nat := do
  access mount.store do
    return (← Store.consult revision 0 () (fun _ _ => .done ()) fun _ => true).1
  let number ← takeNumber config
  let document : Document :=
    { mount, revision, pool, baseUri? := config.baseUri?, number, config }
  modifyGet fun r => (r.documents.size, { r with documents := r.documents.push (some document) })

/-- Open the last revision as a document. -/
def openLatest (mount : Mount) (pool : Nat) (config : Config) : Access Nat := do
  match ((← get).store mount.store).latest? with
  | some revision => openDocument mount revision pool config
  | none => throw (.storage .noRevisions)

end Registry

/-- Carry out a reading at a node of a document. -/
def Document.consult {α : Type} (d : Document) (key : Int)
    (reading : Snapshot → Nat → Reading Unit α) (reports : α → Bool) : Access α :=
  Registry.access d.mount.store do
    return (← Store.consult d.revision key () reading reports).1

/-- Carry out a reading at a node of a document, whose result does not depend on whether the cursor
can be closed well. -/
def Document.read {α : Type} (d : Document) (key : Int)
    (reading : Snapshot → Nat → Reading Unit α) : Access α :=
  d.consult key reading fun _ => false

/-- Carry out a reading at a node of a document that gives codes to names. The pool keeps the codes
also if the reading fails. -/
def Document.readNaming {α : Type} (d : Document) (key : Int)
    (reading : NamePool → Snapshot → Nat → Reading NamePool α) : Access α :=
  ExceptT.mk do
    let pool := (← get).pool d.pool
    let (outcome, pool) ← Registry.onStore d.mount.store <|
      Store.consult d.revision key pool (reading pool) fun _ => false
    Registry.onPool d.pool (set pool)
    return outcome

end DocTree
