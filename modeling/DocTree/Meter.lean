import DocTree.Error

/-!
# Metering storage operations

A meter counts the operations on a store and may grant only some of them. The budget is a 64-bit
word from which every operation takes one, also one that is refused; an operation goes ahead if
what is left before it is positive. What happens to a refused one depends on the `Fault`.

## Main definitions

- `Meter` — budget, operations so far and kind of fault
- `Meter.spend` — the answer to one more operation
-/

namespace DocTree

/-- What a store does with an operation beyond its budget. -/
inductive Fault where
  /-- The operation fails with an error of the storage. -/
  | backend
  /-- The node that the operation asks for seems to be missing. -/
  | missing
deriving DecidableEq, Repr, Inhabited

/-- A count of the operations on a store, with a budget. -/
structure Meter where
  /-- The budget; without one every operation is granted. -/
  budget? : Option Int64 := none
  fault : Fault := .backend
  /-- The operations that were asked for since the budget was set. -/
  used : Nat := 0
deriving Inhabited

namespace Meter

/-- The error with which a store fails beyond its budget. -/
def exhausted : StoreError := .backend "Injected storage fault"

/-- Whether the next operation is granted. The subtraction is that of words: a budget that has been
overdrawn far enough is positive again. -/
def grants (m : Meter) : Bool :=
  match m.budget? with
  | none => true
  | some budget => 0 < budget - Int64.ofNat m.used

/-- Ask for one operation: `true` if it is granted, `false` if its node is missing. -/
def spend (m : Meter) : Except StoreError Bool × Meter :=
  let answer :=
    if m.grants then .ok true
    else match m.fault with
      | .backend => .error exhausted
      | .missing => .ok false
  (answer, { m with used := m.used + 1 })

/-- Set a new budget. -/
def refill (m : Meter) (budget : Int64) : Meter :=
  { m with budget? := some budget, used := 0 }

@[simp] theorem used_spend (m : Meter) : m.spend.2.used = m.used + 1 := rfl

@[simp] theorem fault_spend (m : Meter) : m.spend.2.fault = m.fault := rfl

@[simp] theorem budget?_spend (m : Meter) : m.spend.2.budget? = m.budget? := rfl

end Meter

end DocTree
