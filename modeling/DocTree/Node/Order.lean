import DocTree.Handle
import DocTree.Reading

/-!
# Positions and document order

The position of a node among its siblings, or among what its owner owns, is found by moving the
cursor. A path from the document node down has such a position at every level, together with a rank:
declarations come before attributes, attributes before children. Two nodes compare as their paths
do.

## Main definitions

- `Snapshot.countLeft`, `Snapshot.ownedPosition` — positions
- `Snapshot.path` — the path of a node
- `comparePaths` — the order of paths
-/

namespace DocTree

namespace Snapshot

variable {σ : Type} (t : Snapshot)

/-- Go left as far as possible; the number of steps, added to `count`, and the place reached. -/
def countLeft (here count : Nat) : Reading σ (Nat × Nat) :=
  match _h : t.left? here with
  | some l => do
    if ← .step (some l) then countLeft l (count + 1) else return (count, here)
  | none => return (count, here)
termination_by here
decreasing_by exact left?_lt _h

/-- The attributes of an element, or else its declarations. -/
def owned (attributes : Bool) (owner : Nat) : List Nat :=
  if attributes then t.attributes owner else t.namespaces owner

/-- Look for the node `key` among those that `owner` owns, from number `index` on and as long as there
are some left; its number and the place of the cursor, which has returned to the owner if the
storage let it. -/
def searchOwned (attributes : Bool) (owner key : Nat) :
    (left index here : Nat) → Reading σ (Nat × Nat)
  | 0, _, _ => .fail (.noSuchNode key)
  | left + 1, index, here => do
    let target := (t.owned attributes here)[index]?
    let moved ← .ask target
    let there := if moved then target.getD here else here
    let returned ← .ask (some owner)
    let back := if returned then owner else there
    if moved && there == key then return (index, back)
    else searchOwned attributes owner key left (index + 1) back

/-- The position of an attribute or a declaration among those of its owner, and the place of the
cursor afterwards. -/
def ownedPosition (here : Nat) : Reading σ (Nat × Nat) :=
  let attributes := t.kind here == .attribute
  match t.parent? here with
  | some owner => do
    if ← .step (some owner) then
      t.searchOwned attributes owner here (t.owned attributes owner).length 0 owner
    else .fail (.noSuchNode here)
  | none => .fail (.noSuchNode here)

/-- The path of the node at `here`, followed by `below`. Every level is nearer to the document node,
unless the storage keeps the cursor on an attribute or a declaration, which it does at most once;
`levels` has room for that. -/
def path : (levels here : Nat) → (below : List (Nat × Nat)) → Reading σ (List (Nat × Nat))
  | 0, _, below => .done below
  | levels + 1, here, below =>
    match t.kind here with
    | .root => .done below
    | .namespaceDecl => do
      let (i, here) ← t.ownedPosition here
      path levels here ((0, i) :: below)
    | .attribute => do
      let (i, here) ← t.ownedPosition here
      path levels here ((1, i) :: below)
    | _ => do
      let (i, first) ← t.countLeft here 0
      match t.parent? first with
      | some p =>
        if ← .step (some p) then path levels p ((2, i) :: below) else return (2, i) :: below
      | none => return (2, i) :: below

/-- The path of the node at `here`. -/
def pathOf (here : Nat) : Reading σ (List (Nat × Nat)) := t.path (t.size + 2) here []

end Snapshot

/-- Paths compare level by level, by rank and then by position; a node comes before what is below
it. -/
def comparePaths : List (Nat × Nat) → List (Nat × Nat) → Ordering
  | [], [] => .eq
  | [], _ :: _ => .lt
  | _ :: _, [] => .gt
  | (r, i) :: p, (s, j) :: q => (compare r s).then ((compare i j).then (comparePaths p q))

/-- The order of the node at `here` and the node of a handle. -/
def Handle.orderFrom {σ : Type} (other : Handle) (t : Snapshot) (here : Nat) :
    Reading σ Ordering := do
  let this ← t.pathOf here
  if ← .ask (t.find? other.key) then
    let that ← t.pathOf other.key.toNat
    return comparePaths this that
  else .fail (.noSuchNode other.key)

/-- The position of the node of a handle, which is at `here`. -/
def Handle.position {σ : Type} (h : Handle) (t : Snapshot) (here : Nat) : Reading σ Nat := do
  if h.isStructural then return (← t.countLeft here 0).1
  else return (← t.ownedPosition here).1

end DocTree
