import DocTree.Reading

/-!
# Walks backward in document order

The nodes before an origin, last one first, with its ancestors or without them. A step goes to the
last node of the subtree to the left or, at a first child, up to the parent. To leave the ancestors
out, the walk starts by climbing to the top and noting them all.

## Main definitions

- `sink` — go down to the last node of a subtree
- `stepBack` — the next node backward
- `PrecedingWalk.advance` — the next node that precedes
-/

namespace DocTree

/-- Go down to the last node of the subtree at `here`; if `sideways`, go to its last sibling first.
Where the storage does not let the cursor go on sideways, it goes down there. -/
def sink {σ : Type} (t : Snapshot) (here : Nat) (sideways : Bool) : Reading σ Unit :=
  if sideways then
    match _h : t.right? here with
    | some s => do
      if ← .step (some s) then sink t s true else sink t here false
    | none => sink t here false
  else
    match _h : t.firstChild? here with
    | some c => do
      if ← .step (some c) then sink t c true
    | none => pure ()
termination_by (t.size - here, sideways.toNat)
decreasing_by
  · have := Snapshot.right?_gt _h
    exact Prod.Lex.left _ _ (by omega)
  · simp_all [Prod.lex_def]
  · simp_all [Prod.lex_def]
  · have := Snapshot.firstChild?_gt _h
    exact Prod.Lex.left _ _ (by omega)

/-- Go to the next node backward that need not be skipped; only parents are ever skipped. -/
def stepBack {σ : Type} (t : Snapshot) (skips : Nat → Bool) (here : Nat) : Reading σ Bool :=
  match t.left? here with
  | some l => do
    if ← .step (some l) then
      sink t l false
      pure true
    else pure false
  | none =>
    match _h : t.parent? here with
    | some p => do
      if ← .step (some p) then
        if skips p then stepBack t skips p else pure true
      else pure false
    | none => pure false
termination_by here
decreasing_by exact Snapshot.parent?_lt _h

/-- A walk over the nodes that precede an origin. -/
structure PrecedingWalk where
  /-- Whether the origin is an attribute or a declaration, so that its owner precedes it. -/
  fromOwned : Bool
  withAncestors : Bool
  started : Bool := false
  done : Bool := false
  /-- The ancestors of the origin that were met on the first climb. -/
  ancestors : List Nat := []
deriving DecidableEq, Repr, Inhabited

namespace PrecedingWalk

/-- Climb from `here` as far as the storage lets the cursor go, noting every ancestor. -/
def climb (t : Snapshot) (here : Nat) (w : PrecedingWalk) : Reading PrecedingWalk PrecedingWalk :=
  match _h : t.parent? here with
  | some p => do
    if ← .step (some p) then
      .keep { w with ancestors := p :: w.ancestors }
      climb t p { w with ancestors := p :: w.ancestors }
    else pure w
  | none => pure w
termination_by here
decreasing_by exact Snapshot.parent?_lt _h

/-- Visit the next node backward from `here`. -/
def goBack (t : Snapshot) (here : Nat) (w : PrecedingWalk) : Reading PrecedingWalk Bool := do
  let moved ← stepBack t (fun p => !w.withAncestors && w.ancestors.contains p) here
  .keep { w with done := !moved }
  pure moved

/-- Note the ancestors of the node at `here`, which is the origin or its owner, and visit the first
node of the axis: the owner, if ancestors are wanted, or the next node backward. -/
def startAt (t : Snapshot) (here : Nat) (w : PrecedingWalk) : Reading PrecedingWalk Bool := do
  let w ← w.climb t here
  if ← .ask (some here) then
    if w.fromOwned && w.withAncestors then pure true else w.goBack t here
  else .fail (.noSuchNode here)

/-- Visit the first node of the axis. -/
def start (t : Snapshot) (here : Nat) (w : PrecedingWalk) : Reading PrecedingWalk Bool :=
  if w.fromOwned then
    match t.parent? here with
    | some p => do
      if ← .step (some p) then
        .keep { w with ancestors := p :: w.ancestors }
        startAt t p { w with ancestors := p :: w.ancestors }
      else w.goBack t here
    | none => w.goBack t here
  else w.startAt t here

/-- Visit the next node that precedes. -/
def advance (t : Snapshot) (here : Nat) (w : PrecedingWalk) : Reading PrecedingWalk Bool :=
  if w.done then pure false
  else if w.started then w.goBack t here
  else do
    .keep { w with started := true }
    start t here { w with started := true }

end PrecedingWalk

end DocTree
