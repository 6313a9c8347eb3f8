/-!
# Errors

`StoreError` has the causes for which the storage below a document refuses an operation,
`AccessError` those for which an operation on nodes fails. `AccessError.category` sorts the latter:
a storage failure may pass, the other two classes will come back when the call is repeated.
-/

namespace DocTree

/-- Why a store refused an operation. -/
inductive StoreError where
  | unknownRevision (revision : Nat)
  | noRevisions
  | cursorClosed
  | backend (reason : String)
deriving DecidableEq, Repr, Inhabited

namespace StoreError

def message : StoreError → String
  | unknownRevision r => "Unknown revision: " ++ toString r
  | noRevisions => "Document store has no revisions"
  | cursorClosed => "Cursor used after it was closed"
  | backend reason => "Storage backend error: " ++ reason

def word : StoreError → String
  | unknownRevision _ => "UnknownRevision"
  | noRevisions => "NoRevisions"
  | cursorClosed => "CursorClosed"
  | backend _ => "Backend"

end StoreError

/-- The classes of errors that a caller may want to treat alike. -/
inductive ErrorClass where
  | capabilityAbsence
  | precondition
  | storage
deriving DecidableEq, Repr, Inhabited

def ErrorClass.word : ErrorClass → String
  | capabilityAbsence => "CapabilityAbsence"
  | precondition => "Precondition"
  | storage => "Storage"

/-- Why an operation on nodes failed. -/
inductive AccessError where
  | unsupported (facility : String)
  | foreignTree
  | unknownAxis (code : Nat)
  | notANode (key : Int)
  | noSuchNode (key : Int)
  | documentReleased
  | namePoolExhausted (field : String)
  | storage (cause : StoreError)
deriving DecidableEq, Repr, Inhabited

namespace AccessError

def message : AccessError → String
  | unsupported facility => facility ++ " not supported by the document store"
  | foreignTree => "Cannot compare the document order of nodes from different trees"
  | unknownAxis code => "Unknown axis number " ++ toString code
  | notANode key =>
    "XPTY0004: expected a node, found an atomic value (key " ++ toString key ++ ")"
  | noSuchNode key => "No node with key " ++ toString key ++ " in this revision"
  | documentReleased => "The document this node belongs to has been released"
  | namePoolExhausted field => "Name pool exhausted: no " ++ field ++ " code left for a new name"
  | storage cause => "Document store error: " ++ cause.message

def word : AccessError → String
  | unsupported _ => "Unsupported"
  | foreignTree => "ForeignTree"
  | unknownAxis _ => "UnknownAxis"
  | notANode _ => "NotANode"
  | noSuchNode _ => "NoSuchNode"
  | documentReleased => "DocumentReleased"
  | namePoolExhausted _ => "NamePoolExhausted"
  | storage _ => "Storage"

/-- The class of an error: a facility that is absent, a broken precondition or a failure of the
storage. -/
def category : AccessError → ErrorClass
  | unsupported _ => .capabilityAbsence
  | storage _ => .storage
  | _ => .precondition

/-- Every error but a storage failure is fatal: repeating the call will not help. -/
def isFatal (e : AccessError) : Bool := e.category ≠ .storage

def isStorage (e : AccessError) : Bool := e.category = .storage

end AccessError

end DocTree
