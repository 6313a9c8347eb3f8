import DocTree.Session.Basic

/-!
# Sessions: documents and nodes
-/

namespace DocTree.Session

open SessionM

/-- Open a document, of a given revision or of the last one. -/
def openDocument (mount : Mount) (pool : Nat) (revision? : Option Nat) (config : Config)
    (as? : Option String) : SessionM Document := do
  let id ← access <| match revision? with
    | some revision => Registry.openDocument mount revision pool config
    | none => Registry.openLatest mount pool config
  match (← get).registry.document? id with
  | some d =>
    assign as? (.document id)
    return d
  | none => throw .noVariable

def setBaseUri (name uri : String) : SessionM Unit := do
  let (id, _) ← getDocument name
  onRegistry (Registry.modifyDocument id fun d => { d with baseUri? := some uri })

/-- The node of a document with a given key. -/
def node (document : String) (key : Int) (as? : Option String) : SessionM Node := do
  let (id, d) ← getDocument document
  let n ← access (d.node id key)
  assign as? (.node n)
  return n

/-- A node of a document that a handle speaks of; nothing is read. -/
def adapt (document handle : String) (as? : Option String) : SessionM Node := do
  let (id, _) ← getDocument document
  let n : Node := ⟨← getHandle handle, id⟩
  assign as? (.node n)
  return n

def ask {α : Type} (name : String) (question : Node → Access α) : SessionM α := do
  access (question (← getNode name))

/-- Ask a node for another one, which gets a name if there is one. -/
def askNode (name : String) (question : Node → Access (Option Node)) (as? : Option String) :
    SessionM (Option Node) := do
  let found ← ask name question
  if let some n := found then assign as? (.node n)
  return found

def compareNodes (a b : String) : SessionM Ordering := do
  access ((← getNode a).compareOrder (← getNode b))

/-- Whether two nodes are the same, and whether their handles are equal. -/
def same (a b : String) : SessionM (Bool × Bool) := do
  let a ← getNode a
  let b ← getNode b
  return (a.isSame b (← get).registry, a.handle == b.handle)

/-- How many different nodes there are among those that have the names. -/
def countNodes (names : List String) : SessionM Nat := do
  let nodes ← names.mapM getNode
  let r := (← get).registry
  return (nodes.foldl (fun distinct n =>
    if distinct.any (·.isSame n r) then distinct else n :: distinct) []).length

/-- Compare every two of some nodes of a document. -/
def orderTable (document : String) (keys : List Int) : SessionM (List (List Ordering)) := do
  let (id, d) ← getDocument document
  access do
    let nodes ← keys.mapM (d.node id)
    nodes.mapM fun a => nodes.mapM a.compareOrder

end DocTree.Session
