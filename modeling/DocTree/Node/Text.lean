import DocTree.Walk.Forward
import DocTree.Handle

/-!
# The string value of a node

The document node and elements have the characters of all texts below them, in document order; every
other node has the value that is stored with it.
-/

namespace DocTree

variable {σ : Type}

/-- Append the texts that a walk over descendants still has to visit. A walk visits no node twice, so
as many visits as there are nodes are enough. -/
def DescendantWalk.gatherText (t : Snapshot) :
    (visits : Nat) → DescendantWalk → (here : Nat) → String → Reading σ String
  | 0, _, _, text => .done text
  | visits + 1, w, here, text => do
    let (moved, w, here) ← (w.advance t here).observe w here
    if !moved then return text
    else if t.kind here = .text then gatherText t visits w here (text ++ (t.value? here).getD "")
    else gatherText t visits w here text

/-- The string value of the node of a handle, which is at place `here`. -/
def Handle.stringValue (h : Handle) (t : Snapshot) (here : Nat) : Reading σ String :=
  if h.kind.isParental then
    DescendantWalk.gatherText t t.size { origin := h.key, selfDue := false } here ""
  else .done ((t.value? here).getD "")

end DocTree
