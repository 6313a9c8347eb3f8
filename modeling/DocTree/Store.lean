import DocTree.Handle
import DocTree.Reading
import DocTree.Snapshot.Layout

/-!
# Stores

A store keeps the revisions of a document and lends cursors. It counts the cursors that are open and
meters every cursor it lends and every move that one makes. Two switches change how it looks from
outside: it may hide the names of nodes, and it may report an error when a cursor is closed.

A node operation borrows a cursor only while it runs: `Store.consult` opens one at a node, carries
out a reading and gives the cursor back, however the reading ends.

## Main definitions

- `Store.commit`, `Store.openCursor`, `Store.close` — the store itself
- `Store.openAt` — a cursor on a given node
- `Store.consult` — a reading with a cursor of its own
-/

namespace DocTree

/-- The revisions of a document, and the cursors that read them. -/
structure Store where
  revisions : Array Snapshot := #[]
  /-- The number of cursors that have been opened and not been closed. -/
  openCursors : Nat := 0
  meter : Meter := {}
  /-- Whether closing a cursor reports an error; the cursor is closed all the same. -/
  closeFails : Bool := false
  /-- Whether cursors do not tell the names of nodes. -/
  hidesNames : Bool := false
deriving Inhabited

namespace Store

variable {σ α : Type}

/-- The error that closing a cursor reports. -/
def closeFailure : StoreError := .backend "Close failed"

/-- The snapshot of a revision. -/
def snapshot? (s : Store) (revision : Nat) : Option Snapshot := s.revisions[revision]?

/-- What the cursors of the store see of a revision. -/
def view? (s : Store) (revision : Nat) : Option Snapshot :=
  (s.snapshot? revision).map fun t => if s.hidesNames then t.withoutNames else t

/-- The revision that was committed last. -/
def latest? (s : Store) : Option Nat :=
  if s.revisions.isEmpty then none else some (s.revisions.size - 1)

/-- Add a revision and tell its number. -/
def commit (c : Content) : StateM Store Nat :=
  modifyGet fun s =>
    (s.revisions.size, { s with revisions := s.revisions.push (.ofContent c) })

/-- Lend a cursor on the document node of a revision. The operation is paid for first, and only a
failure of the storage keeps the cursor from being lent. -/
def openCursor (revision : Nat) : StateM Store (Except StoreError Cursor) :=
  modifyGet fun s =>
    match s.meter.spend with
    | (.error e, meter) => (.error e, { s with meter })
    | (.ok _, meter) =>
      match s.view? revision with
      | none => (.error (.unknownRevision revision), { s with meter })
      | some snapshot =>
        (.ok { revision, snapshot }, { s with meter, openCursors := s.openCursors + 1 })

/-- Take back a cursor. Closing is not metered. -/
def close (c : Cursor) : StateM Store (Except StoreError Unit × Cursor) :=
  modifyGet fun s =>
    if c.isOpen then
      ((if s.closeFails then .error closeFailure else .ok (), { c with isOpen := false }),
        { s with openCursors := s.openCursors - 1 })
    else ((.error .cursorClosed, c), s)

/-- Take back a cursor, whatever is reported. -/
def release (c : Cursor) : StateM Store Unit := do
  let _ ← close c

/-- Carry out a reading with a cursor of this store. -/
def perform (c : Cursor) (r : Reading σ α) (init : σ) : StateM Store (Reading.Run σ α) :=
  modifyGet fun s =>
    let run := r.run init c s.meter
    (run, { s with meter := run.meter })

/-- Lend a cursor on the node with a given key. -/
def openAt (revision : Nat) (key : Int) : StateM Store (Except AccessError Cursor) := do
  match ← openCursor revision with
  | .error e => return .error (.storage e)
  | .ok c =>
    let run ← perform c (.ask (c.snapshot.find? key)) ()
    match run.outcome with
    | .ok true => return .ok run.cursor
    | .ok false =>
      release run.cursor
      return .error (.noSuchNode key)
    | .error e =>
      release run.cursor
      return .error e

/-- Carry out a reading that starts at the node with a given key, with a cursor of its own. What
`reports` picks among the results counts only if closing the cursor succeeds. -/
def consult (revision : Nat) (key : Int) (init : σ) (reading : Snapshot → Nat → Reading σ α)
    (reports : α → Bool) : StateM Store (Except AccessError α × σ) := do
  match ← openAt revision key with
  | .error e => return (.error e, init)
  | .ok c =>
    let run ← perform c (reading c.snapshot c.place) init
    let (closed, _) ← close run.cursor
    match run.outcome, closed with
    | .ok a, .error e => return (if reports a then .error (.storage e) else .ok a, run.state)
    | outcome, _ => return (outcome, run.state)

end Store

end DocTree
