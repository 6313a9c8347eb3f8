import DocTree.Session.Basic

/-!
# Sessions: handles, name tests and name pools
-/

namespace DocTree.Session

open SessionM

/-- The handle of the node or of the scope that has a name. -/
def handleOf (name : String) (as? : Option String) : SessionM Handle := do
  let h ← find name fun
    | .node n => some n.handle
    | .scope _ c => some c.handle
    | _ => none
  assign as? (.handle h)
  return h

/-- Whether a handle passes a test, with the names of a pool. -/
def testHandle (test : NodeTest) (handle pool : String) : SessionM Bool := do
  let h ← getHandle handle
  let id ← getPool pool
  return test.accepts ((← get).registry.pool id) h

/-- How many different handles there are among those that have the names. -/
def countHandles (names : List String) : SessionM Nat := do
  let handles ← names.mapM getHandle
  return handles.eraseDups.length

/-- Work on the pool that has a name. -/
def withPool {α : Type} (name : String) (work : StateM NamePool α) : SessionM α := do
  let id ← getPool name
  onRegistry (Registry.onPool id work)

/-- Give a code, with an operation that may fail. -/
def allocate (name : String) (work : NamePool → Except AccessError Nat × NamePool) :
    SessionM Nat := do
  ofExcept (← withPool name work)

/-- What came of giving codes to many names. -/
structure Filled where
  done : Nat
  last? : Option Nat
  stopped? : Option AccessError

/-- Give codes to names one after the other, up to the first error. -/
def fillPool (work : Nat → NamePool → Except AccessError Nat × NamePool) :
    (count index : Nat) → Filled → NamePool → Filled × NamePool
  | 0, _, filled, p => (filled, p)
  | count + 1, index, filled, p =>
    match work index p with
    | (.ok code, p) =>
      fillPool work count (index + 1) { filled with done := filled.done + 1, last? := some code } p
    | (.error e, p) => ({ filled with stopped? := some e }, p)

/-- Give codes to `count` names, numbered from `start` on. -/
def fill (name : String) (work : Nat → NamePool → Except AccessError Nat × NamePool)
    (start count : Nat) : SessionM Filled :=
  withPool name (fillPool work count start ⟨0, none, none⟩)

end DocTree.Session
