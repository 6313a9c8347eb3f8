import DocTree.Reading

/-!
# Moves by hand

The moves that a user of a cursor can ask for. A move along a link that the node does not have is
answered without asking the storage; a move to a key or to a numbered attribute or declaration
always asks.
-/

namespace DocTree

/-- A move of a cursor. -/
inductive Move where
  | parent
  | firstChild
  | left
  | right
  | key (key : Int)
  | attribute (index : Nat)
  | namespaceDecl (index : Nat)
deriving DecidableEq, Repr, Inhabited

/-- The move as a reading at place `here`: whether the cursor arrived. -/
def Move.reading {σ : Type} (t : Snapshot) (here : Nat) : Move → Reading σ Bool
  | parent => .step (t.parent? here)
  | firstChild => .step (t.firstChild? here)
  | left => .step (t.left? here)
  | right => .step (t.right? here)
  | key k => .ask (t.find? k)
  | .attribute i => .ask (t.attributes here)[i]?
  | namespaceDecl i => .ask (t.namespaces here)[i]?

end DocTree
