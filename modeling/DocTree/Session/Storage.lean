import DocTree.Session.Basic

/-!
# Sessions: stores, cursors and scopes

A cursor of a session is moved and closed by hand. A scope is a cursor that was opened on a node and
is closed at the latest when it is given up.
-/

namespace DocTree.Session

open SessionM

/-- Make a store with a budget. -/
def newStore (as? : Option String) (budget : Int64) (fault : Fault) (closeFails hidesNames : Bool) :
    SessionM Unit := do
  let meter : Meter := { budget? := some budget, fault }
  let mount ← onRegistry (Registry.addStore { meter, closeFails, hidesNames })
  assign as? (.store mount)

/-- Make a store available as another tree. -/
def cloneStore (name : String) (as? : Option String) : SessionM Unit := do
  let mount ← onRegistry (Registry.remount (← getMount name))
  assign as? (.store mount)

/-- Work on the store that has a name. -/
def withStore {α : Type} (name : String) (work : StateM Store α) : SessionM α := do
  let mount ← getMount name
  onRegistry (Registry.onStore mount.store work)

def setBudget (name : String) (budget : Int64) : SessionM Unit :=
  withStore name (modify fun s => { s with meter := s.meter.refill budget })

/-- Set whether closing a cursor of a store reports an error. -/
def setCloseFails (name : String) (on : Bool) : SessionM Unit :=
  withStore name (modify fun s => { s with closeFails := on })

def commit (name : String) (c : Content) : SessionM Nat := withStore name (Store.commit c)

def store (name : String) : SessionM Store := withStore name get

def openCursor (name : String) (revision : Nat) (as? : Option String) : SessionM Nat := do
  let mount ← getMount name
  match ← onRegistry (Registry.onStore mount.store (Store.openCursor revision)) with
  | .ok c =>
    assign as? (.cursor mount.store c)
    return c.place
  | .error e => throw (.store e)

def openScope (name : String) (revision : Nat) (key : Int) (as? : Option String) :
    SessionM Nat := do
  let mount ← getMount name
  let c ← access (Registry.access mount.store (Store.openAt revision key))
  assign as? (.scope mount.store c)
  return c.place

def openScopeIn (document : String) (key : Int) (as? : Option String) : SessionM Nat := do
  let (_, d) ← getDocument document
  let c ← access (Registry.access d.mount.store (Store.openAt d.revision key))
  assign as? (.scope d.mount.store c)
  return c.place

/-- A cursor, and whether it belongs to a scope. -/
def lookAt (name : String) : SessionM (Cursor × Bool) :=
  find name fun
    | .cursor _ c => some (c, false)
    | .scope _ c => some (c, true)
    | _ => none

/-- Carry out a reading with the cursor or the scope that has a name, and leave it where the reading
ends. -/
def perform {σ α : Type} (name : String) (reading : Snapshot → Nat → Reading σ α) (init : σ) :
    SessionM (Reading.Run σ α) := do
  let go (store : Nat) (c : Cursor) (object : Nat → Cursor → Object) := do
    let run ← onRegistry <| Registry.onStore store <|
      Store.perform c (reading c.snapshot c.place) init
    put name (object store run.cursor)
    return run
  match ← lookup? name with
  | some (.cursor store c) => go store c .cursor
  | some (.scope store c) => go store c .scope
  | _ => throw .noVariable

/-- Move a cursor or a scope: whether it arrived, and where it is afterwards. A cursor reports the
error of the store itself. -/
def move (name : String) (m : Move) : SessionM (Bool × Nat) := do
  let (_, isScope) ← lookAt name
  let run ← perform name (fun t here => m.reading t here) ()
  match run.outcome with
  | .ok moved => return (moved, run.cursor.place)
  | .error (.storage e) => throw (if isScope then .access (.storage e) else .store e)
  | .error e => throw (.access e)

/-- Close a cursor, which keeps its name, or a scope, which loses it. -/
def close (name : String) : SessionM Unit := do
  match ← lookup? name with
  | some (.cursor store c) =>
    let (closed, c) ← onRegistry (Registry.onStore store (Store.close c))
    put name (.cursor store c)
    if let .error e := closed then throw (.store e)
  | some (.scope store c) =>
    let (closed, _) ← onRegistry (Registry.onStore store (Store.close c))
    unname name
    if let .error e := closed then throw (.access (.storage e))
  | _ => throw .noVariable

/-- Close a scope and keep the handle of its node. The scope is gone also if closing fails. -/
def intoHandle (name : String) (as? : Option String) : SessionM Handle := do
  let (_, c) ← getScope name
  close name
  assign as? (.handle c.handle)
  return c.handle

/-- Advance a walk with the cursor of a scope, so many times. Each time the key where the scope is
now, or that there is no further node, or an error. -/
def advance (walk scope : String) : (times : Nat) → SessionM (List (Except AccessError (Option Nat)))
  | 0 => do
    let _ ← getWalk walk
    let _ ← getScope scope
    return []
  | times + 1 => do
    let w ← getWalk walk
    let _ ← getScope scope
    let run ← perform scope (fun t here => w.advance t here) w
    put walk (.walk run.state)
    let item := run.outcome.map fun moved => if moved then some run.cursor.place else none
    return item :: (← advance walk scope times)

end DocTree.Session
