import DocTree.Meter
import DocTree.Snapshot.Basic

/-!
# Cursors

A cursor stands on one node of a revision and tells what is stored there. It moves by asking the
storage for a place; each request is metered, and a request that is not granted leaves the cursor
where it is.
-/

namespace DocTree

/-- A position in a revision. -/
structure Cursor where
  revision : Nat
  snapshot : Snapshot
  /-- The place of the current node. -/
  place : Nat := 0
  /-- Whether the cursor has not been closed yet. -/
  isOpen : Bool := true

namespace Cursor

/-- The record of the current node. -/
def record (c : Cursor) : Record := c.snapshot.node c.place

/-- Ask for a place: the moved cursor, or nothing if the node is not there. The operation is paid for
first; only then does it matter whether the cursor is open, and last whether there is such a
node. -/
def request (c : Cursor) (target : Option Nat) (m : Meter) :
    Except StoreError (Option Cursor) × Meter :=
  match m.spend with
  | (.error e, m) => (.error e, m)
  | (.ok false, m) => (.ok none, m)
  | (.ok true, m) =>
    if c.isOpen then (.ok (target.map fun k => { c with place := k }), m)
    else (.error .cursorClosed, m)

/-- A cursor that arrives is on the place that was asked for. -/
theorem request_arrived {c c' : Cursor} {target : Option Nat} {m m' : Meter}
    (h : c.request target m = (.ok (some c'), m')) :
    ∃ k, target = some k ∧ c' = { c with place := k } := by
  unfold request at h
  split at h <;> try cases h
  split at h
  · obtain ⟨k, hk, rfl⟩ := Option.map_eq_some_iff.1 (Except.ok.inj (Prod.mk.inj h).1)
    exact ⟨k, hk, rfl⟩
  · cases h

end Cursor

end DocTree
