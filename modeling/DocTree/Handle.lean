import DocTree.Cursor

/-!
# Handles

A handle says which node is meant, and what is known of it without a look into the storage. Two
handles are equal as soon as their keys are; what else they say may even be wrong.
-/

namespace DocTree

structure Handle where
  key : Int
  revision : Nat
  kind : Kind
  name? : Option QName
deriving Repr, Inhabited

namespace Handle

/-- A handle that has a name only if its kind can have one. -/
def make (key : Int) (revision : Nat) (kind : Kind) (name? : Option QName) : Handle :=
  ⟨key, revision, kind, if kind.isNamed then name? else none⟩

/-- Handles are compared by key. -/
instance : BEq Handle where
  beq a b := a.key == b.key

/-- Equal handles have equal hashes. -/
instance : Hashable Handle where
  hash h := hash h.key

instance : LawfulHashable Handle where
  hash_eq a b h := by
    have : a.key = b.key := eq_of_beq h
    simp [hash, this]

/-- Negative keys stand for values that are no nodes. -/
def isNull (h : Handle) : Bool := h.key < 0

/-- Whether the node takes part in the order of siblings. -/
def isStructural (h : Handle) : Bool := h.kind.isStructural

/-- The URI and the local part by which name tests know a node. A namespace declaration has no URI
of its own. -/
def expandedName? (h : Handle) : Option (String × String) :=
  h.name?.map fun n =>
    match h.kind with
    | .namespaceDecl => ("", n.localPart)
    | _ => (n.uri, n.localPart)

end Handle

/-- The handle of the node at a place of a revision. -/
def Snapshot.handle (t : Snapshot) (revision k : Nat) : Handle :=
  .make k revision (t.kind k) (t.name? k)

/-- The handle of the node on which a cursor stands. -/
def Cursor.handle (c : Cursor) : Handle := c.snapshot.handle c.revision c.place

end DocTree
