import DocTree.Document
import DocTree.Stream.Relay

/-!
# Merging streams of keys

The union, the intersection or the difference of two streams whose keys ascend is found by looking at
the next key of each. The value `noKey`, less than every key, stands for a side that has ended.

## Main definitions

- `SetOperation` — the three operations
- `Merge` — two streams with a key of look-ahead on each
- `Merge.next` — the next key of the result
-/

namespace DocTree

/-- The value that stands in for a key where there is none. -/
def noKey : Int := -15

/-- The key of an item, or `noKey` at the end. -/
def keyOf : Option Item → Item
  | some item => item
  | none => .ok noKey

/-- An operation on two sets of nodes. -/
inductive SetOperation where
  | union
  | intersect
  | except
deriving DecidableEq, Repr, Inhabited

namespace SetOperation

def all : List SetOperation := [union, intersect, except]

def word : SetOperation → String
  | union => "Union"
  | intersect => "Intersect"
  | except => "Except"

def ofWord? (w : String) : Option SetOperation := all.find? fun o => o.word == w

end SetOperation

/-- Two streams that are being merged. -/
structure Merge (L R : Type) where
  operation : SetOperation
  left : L
  right : R
  /-- The next key on the left, `noKey` at the end. -/
  currentLeft : Int := noKey
  /-- The next key on the right, `noKey` at the end. -/
  currentRight : Int := noKey
  started : Bool := false
  done : Bool := false

namespace Merge

variable {L R : Type} {m : Type → Type} [Monad m]

/-- A step of a merge: it may fail, and what it did to the two streams stays done. -/
abbrev Step (L R : Type) (m : Type → Type) := ExceptT AccessError (StateT (Merge L R) m)

/-- How the two streams are advanced. -/
structure Sides (L R : Type) (m : Type → Type) where
  left : L → m (Option Item × L)
  right : R → m (Option Item × R)

/-- Look at the next key on the left. If the stream fails, the key stays. -/
def advanceLeft (pull : Sides L R m) : Step L R m Unit := do
  let (item, left) ← pull.left (← get).left
  modify fun s => { s with left }
  match keyOf item with
  | .ok key => modify fun s => { s with currentLeft := key }
  | .error e => throw e

/-- Look at the next key on the right. If the stream fails, the key stays. -/
def advanceRight (pull : Sides L R m) : Step L R m Unit := do
  let (item, right) ← pull.right (← get).right
  modify fun s => { s with right }
  match keyOf item with
  | .ok key => modify fun s => { s with currentRight := key }
  | .error e => throw e

/-- The next key of the union: the smaller one of the two. -/
def union (pull : Sides L R m) : Step L R m (Option Int) := do
  let s ← get
  let left := s.currentLeft
  let right := s.currentRight
  if left = noKey ∧ right = noKey then return none
  else if right = noKey ∨ (left ≠ noKey ∧ left < right) then
    advanceLeft pull
    return some left
  else if left = noKey ∨ right < left then
    advanceRight pull
    return some right
  else
    advanceLeft pull
    advanceRight pull
    return some left

/-- The next key of the intersection: the next one that both sides have. Every round takes at least
one key, so there are no more `rounds` than keys. -/
def intersect (pull : Sides L R m) : (rounds : Nat) → Step L R m (Option Int)
  | 0 => return none
  | rounds + 1 => do
    let s ← get
    let left := s.currentLeft
    let right := s.currentRight
    if left = noKey ∨ right = noKey then return none
    else if left < right then
      advanceLeft pull
      intersect pull rounds
    else if right < left then
      advanceRight pull
      intersect pull rounds
    else
      advanceLeft pull
      advanceRight pull
      return some left

/-- The next key of the difference: the next one on the left that the right does not have. A key on
the left that stands for no node is an error. -/
def except (pull : Sides L R m) : (rounds : Nat) → Step L R m (Option Int)
  | 0 => return none
  | rounds + 1 => do
    let s ← get
    let left := s.currentLeft
    let right := s.currentRight
    if left = noKey then return none
    else if let .error e := validateNode left then throw e
    else if right = noKey ∨ left < right then
      advanceLeft pull
      return some left
    else if right < left then
      advanceRight pull
      except pull rounds
    else
      advanceLeft pull
      advanceRight pull
      except pull rounds

/-- Find the next key, after a first look at both sides. -/
def find (pull : Sides L R m) (rounds : Nat) : Step L R m (Option Int) := do
  if !(← get).started then
    modify fun s => { s with started := true }
    advanceLeft pull
    advanceRight pull
  match (← get).operation with
  | .union => union pull
  | .intersect => intersect pull rounds
  | .except => except pull rounds

/-- The next key of the result; `rounds` is at least the number of keys that are left. After the end
and after an error there is nothing more. -/
def next (pull : Sides L R m) (rounds : Nat) (s : Merge L R) : m (Option Item × Merge L R) := do
  if s.done then return (none, s)
  else
    match ← (find pull rounds).run.run s with
    | (.ok (some key), s) => return (some (.ok key), s)
    | (.ok none, s) => return (none, { s with done := true })
    | (.error e, s) => return (some (.error e), { s with done := true })

end Merge

end DocTree
