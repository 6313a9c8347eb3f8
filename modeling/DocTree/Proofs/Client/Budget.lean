import DocTree.Proofs.Client.Operation
import DocTree.Proofs.Node.DocumentOrder
import DocTree.Proofs.Registry.Budget

/-!
# Operations on documents and nodes under a budget

An operation asks for a certain number of operations on the storage if none of them is refused. With
a budget of at least that number it ends in the same way. With a smaller one it tells the error of
the storage, and never part of an answer; only lenient operations answer nevertheless.

## Main definitions

- `Operation.demand` — the operations on a store that an operation asks for

## Main statements

- `Operation.perform_within_budget` — operations under a budget
-/

namespace DocTree

namespace Registry

/-- The registry with nothing refused by one of the stores, before any operation on it. -/
def unlimited (id : Nat) (r : Registry) : Registry := r.setStore id (r.store id).unlimited

/-- The registry with a new budget for one of the stores. -/
def refill (id : Nat) (b : Int64) (r : Registry) : Registry :=
  r.remeter id ((r.store id).meter.refill b)

variable {r : Registry} {id : Nat}

/-- A new budget is one in place of none. -/
theorem refill_eq_limit (hid : id < r.stores.size) (b : Int64) :
    r.refill id b = (r.unlimited id).limit id b := by
  rw [limit, unlimited, store_setStore hid, setStore_setStore]
  rfl

end Registry

/-- The number of operations on a store that the operation asks for if none of them is refused. -/
def Operation.demand (o : Operation) (id : Nat) (r : Registry) : Nat :=
  ((o.perform.run (r.unlimited id)).2.store id).meter.used

/-- Let one of the stores have a budget that has just been set and beyond which operations on the
storage fail. An operation on a document or a node that has no answer in place of a failure ends as
without the budget, with the same answer and the same changes, if the budget is not less than what it
asks for. If it is less, the operation fails with the error of the storage. -/
theorem Operation.perform_within_budget (o : Operation) (ho : o.isLenient = false) (r : Registry)
    (id : Nat) (hid : id < r.stores.size) (hfault : (r.store id).meter.fault = .backend) (b : Int64)
    (hb : 0 ≤ b) :
    ((o.demand id r : Int) ≤ b.toInt →
      o.perform.run (r.refill id b) =
        ((o.perform.run (r.unlimited id)).1, (o.perform.run (r.unlimited id)).2.limit id b)) ∧
    (b.toInt < o.demand id r →
      (o.perform.run (r.refill id b)).1 = .error (.storage Meter.exhausted)) := by
  have hbreaks : o.perform.BreaksOff id b :=
    (Access.compositional_breaksOff hb).perform o fun habsent => by simp [ho] at habsent
  have hid' : id < (r.unlimited id).stores.size := by simpa [Registry.unlimited] using hid
  have hstore : (r.unlimited id).store id = (r.store id).unlimited := Registry.store_setStore hid _
  have hfree : ((r.unlimited id).store id).Unlimited := by
    rw [hstore]
    exact ⟨rfl, hfault⟩
  have hwithin : ((r.unlimited id).store id).Within b := by
    rw [hstore]
    show ((0 : Nat) : Int) ≤ b.toInt
    simpa using Int64.le_iff_toInt_le.1 hb
  rw [Registry.refill_eq_limit hid]
  constructor
  · intro hle
    exact hbreaks.within _ hid' hfree hwithin hle
  · intro hmore
    exact hbreaks.beyond _ hid' hfree hwithin (Store.not_within_iff.2 hmore)

/-- To compare an attribute with a text takes nine operations on the storage: with eight of them there
is no answer. -/
theorem Operation.perform_within_budget_compareOrder :
    ((compareOrder (Node.smallNode 0 2) (Node.smallNode 1 3)).perform.run
        (Node.smallRegistry.refill 0 9)).1 = .ok Ordering.lt ∧
      ((compareOrder (Node.smallNode 0 2) (Node.smallNode 1 3)).perform.run
        (Node.smallRegistry.refill 0 8)).1 = .error (.storage Meter.exhausted) := by
  have hdemand : (compareOrder (Node.smallNode 0 2) (Node.smallNode 1 3)).demand 0
      Node.smallRegistry = 9 := by decide +kernel
  have hbudget := perform_within_budget (compareOrder (Node.smallNode 0 2) (Node.smallNode 1 3)) rfl
    Node.smallRegistry 0 (by decide) rfl
  rw [hdemand] at hbudget
  constructor
  · rw [(hbudget 9 (by decide)).1 (by decide)]
    with_unfolding_all rfl
  · exact (hbudget 8 (by decide)).2 (by decide)

end DocTree
