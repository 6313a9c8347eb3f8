import DocTree.Move
import DocTree.Stream.Basic

/-!
# Sessions

A session is a sequence of operations on named things: stores, cursors, documents, nodes, axes and
so on share one space of names. Naming a thing gives up the one that had the name before. A cursor
that is given up without being closed stays open for its store; whatever opens cursors on its own
gives them back.

## Main definitions

- `Object` — what can have a name
- `Session`, `SessionM` — named objects over a registry, and operations on them
- `SessionM.assign`, `SessionM.discard` — naming and giving up
-/

namespace DocTree

/-- Something that can have a name. -/
inductive Object where
  | store (mount : Mount)
  | cursor (store : Nat) (cursor : Cursor)
  | scope (store : Nat) (cursor : Cursor)
  | handle (handle : Handle)
  | walk (walk : Walk)
  | pool (id : Nat)
  | document (id : Nat)
  | node (node : Node)
  | nodes (axis : NodeAxis)
  | handles (axis : AxisIterator)
  | lenient (axis : LenientAxis)
  | concurrent (axis : ConcurrentAxis)
  | set (axis : SetAxis)
  | keys (keys : List Int)

/-- Give up an object. -/
def Object.giveUp : Object → StateM Registry Unit
  | scope id c => Registry.onStore id (Store.release c)
  | document id => Registry.releaseDocument id
  | nodes axis => axis.abandon
  | handles axis => Registry.onStore axis.dispatcher.store axis.abandon
  | lenient axis => axis.abandon
  | concurrent axis => axis.stop
  | set axis => axis.stop
  | _ => pure ()

/-- Named objects over shared state. -/
structure Session where
  registry : Registry := {}
  objects : List (String × Object) := []
deriving Inhabited

/-- Why an operation of a session fails. -/
inductive Refusal where
  /-- A name stands for nothing, or for something of another type. -/
  | noVariable
  /-- Structured data is not of the form that is asked for. -/
  | unreadable
  | access (error : AccessError)
  | store (error : StoreError)
deriving DecidableEq, Repr, Inhabited

/-- An operation of a session; what it did before it failed stays done. -/
abbrev SessionM := ExceptT Refusal (StateM Session)

namespace SessionM

variable {α : Type}

/-- Work on the registry. -/
def onRegistry (work : StateM Registry α) : SessionM α :=
  modifyGet fun s =>
    let { registry, objects } := s
    let (a, registry) := work registry
    (a, { registry, objects })

/-- A value, or the error in place of it. -/
def ofExcept : Except AccessError α → SessionM α
  | .ok a => return a
  | .error e => throw (.access e)

/-- Work on the registry that may fail. -/
def access (work : Access α) : SessionM α := do
  ofExcept (← onRegistry work.run)

/-- The object that has a name. -/
def lookup? (name : String) : SessionM (Option Object) := return (← get).objects.lookup name

/-- The object that has a name, if `select` accepts it. -/
def find (name : String) (select : Object → Option α) : SessionM α := do
  match (← lookup? name).bind select with
  | some a => return a
  | none => throw .noVariable

/-- Put an object in the place of the one that has the name. -/
def put (name : String) (o : Object) : SessionM Unit :=
  modify fun s => { s with objects := (name, o) :: s.objects.filter (·.1 != name) }

/-- Let a name stand for nothing, without giving up its object. -/
def unname (name : String) : SessionM Unit :=
  modify fun s => { s with objects := s.objects.filter (·.1 != name) }

/-- Give up the object that has a name; whether there was one. -/
def discard (name : String) : SessionM Bool := do
  match ← lookup? name with
  | some o =>
    unname name
    onRegistry o.giveUp
    return true
  | none => return false

/-- Give an object a name, in place of what had it; without a name the object is given up. -/
def assign (name? : Option String) (o : Object) : SessionM Unit := do
  match name? with
  | none => onRegistry o.giveUp
  | some name =>
    let _ ← discard name
    put name o

def getMount (name : String) : SessionM Mount :=
  find name fun | .store m => some m | _ => none

def getHandle (name : String) : SessionM Handle :=
  find name fun | .handle h => some h | _ => none

def getWalk (name : String) : SessionM Walk :=
  find name fun | .walk w => some w | _ => none

/-- The scope that has a name, with its store. -/
def getScope (name : String) : SessionM (Nat × Cursor) :=
  find name fun | .scope store c => some (store, c) | _ => none

def getNode (name : String) : SessionM Node :=
  find name fun | .node n => some n | _ => none

/-- The document that has a name, with its number in the registry. -/
def getDocument (name : String) : SessionM (Nat × Document) := do
  let id ← find name fun | .document id => some id | _ => none
  match (← get).registry.document? id with
  | some d => return (id, d)
  | none => throw .noVariable

/-- The pool that has a name, or that of the document that has it. -/
def getPool (name : String) : SessionM Nat := do
  match ← lookup? name with
  | some (.pool id) => return id
  | _ => return (← getDocument name).2.pool

def getConcurrent (name : String) : SessionM ConcurrentAxis :=
  find name fun | .concurrent a => some a | _ => none

end SessionM

end DocTree
