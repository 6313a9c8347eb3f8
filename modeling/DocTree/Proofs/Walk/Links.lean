import DocTree.Proofs.Reading.Granted
import DocTree.Walk.Links

/-!
# Walks along one kind of link, undisturbed

Where nothing is refused, each of these walks goes to the end of its link, if there is a link, and
otherwise says that it is over and stays where it is.

## Main statements

- `OneStepWalk.yields_stay`, `OneStepWalk.yields_toParent` — the node itself, and its parent
- `AncestorWalk.yields_advance`, `ChildWalk.yields_advance`, `Side.yields_advance` — the other links
-/

namespace DocTree

open Reading

variable {t : Snapshot} {here : Nat}

/-- A walk with one step stays where it is, and is done then. -/
theorem OneStepWalk.yields_stay (w : OneStepWalk) (here : Nat) :
    w.stay.Yields w here (!w.done) ⟨true⟩ here := by
  obtain ⟨done⟩ := w
  cases done with
  | true => exact .done false _ here
  | false => exact (Yields.keep _ _ here).bind (.done true _ here)

/-- A walk with one step goes to the parent if there is one, and is done then. -/
theorem OneStepWalk.yields_toParent (w : OneStepWalk) (t : Snapshot) (here : Nat) :
    (w.toParent t here).Yields w here (!w.done && (t.parent? here).isSome) ⟨true⟩
      (if w.done then here else (t.parent? here).getD here) := by
  obtain ⟨done⟩ := w
  cases done with
  | true => exact .done false _ here
  | false => exact (Yields.keep _ _ here).bind (.step (t.parent? here) _ here)

/-- A climb begins with the node where it starts, if that is due, and goes on to the parent. -/
theorem AncestorWalk.yields_advance (w : AncestorWalk) (t : Snapshot) (here : Nat) :
    (w.advance t here).Yields w here (w.selfDue || (t.parent? here).isSome) ⟨false⟩
      (if w.selfDue then here else (t.parent? here).getD here) := by
  obtain ⟨selfDue⟩ := w
  cases selfDue with
  | true => exact (Yields.keep _ _ here).bind (.done true _ here)
  | false => exact .step (t.parent? here) _ here

/-- The node that a walk over children visits next. -/
def ChildWalk.target (w : ChildWalk) (t : Snapshot) (here : Nat) : Option Nat :=
  if w.entered then t.right? here else t.firstChild? here

/-- Children come after what links to them. -/
theorem ChildWalk.target_gt {w : ChildWalk} {m : Nat} (hm : w.target t here = some m) :
    here < m ∧ m < t.size := by
  unfold target at hm
  split at hm
  · exact Snapshot.right?_gt hm
  · exact Snapshot.firstChild?_gt hm

theorem ChildWalk.yields_advance (w : ChildWalk) (t : Snapshot) (here : Nat) :
    (w.advance t here).Yields w here (w.target t here).isSome ⟨true⟩
      ((w.target t here).getD here) := by
  obtain ⟨entered⟩ := w
  cases entered with
  | true => exact .step (t.right? here) _ here
  | false => exact (Yields.keep _ _ here).bind (.step (t.firstChild? here) _ here)

/-- The sibling on one side. -/
def Side.target (side : Side) (t : Snapshot) (here : Nat) : Option Nat :=
  match side with
  | left => t.left? here
  | right => t.right? here

theorem Side.yields_advance (side : Side) (t : Snapshot) (here : Nat) :
    (side.advance t here).Yields side here (side.target t here).isSome side
      ((side.target t here).getD here) := by
  cases side with
  | left => exact .step (t.left? here) _ here
  | right => exact .step (t.right? here) _ here

end DocTree
