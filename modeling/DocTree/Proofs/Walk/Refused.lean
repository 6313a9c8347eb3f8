import DocTree.Proofs.Reading.Refused
import DocTree.Proofs.Walk.Route

/-!
# Walks that are refused moves

A visit may be refused its moves from some point on. All walks but those backward over subtrees
take a refusal for the end: whenever the refusals set in, the visit says that there is no node, after
the first refusal or, in the search for namespaces, after the second one.

## Main definitions

- `Reading.Ending.Stops` — a visit came to no node

## Main statements

- `DescendantWalk.whenRefused_advance`, `FollowingWalk.whenRefused_advance`,
  `AttributeWalk.whenRefused_advance`, `NamespaceWalk.whenRefused_advance` — visits that stop
-/

namespace DocTree

open Reading Snapshot

variable {t : Snapshot} {σ : Type} {here n : Nat}

namespace Reading

/-- The visit came to no node, and asked for `n` operations at most. -/
def Ending.Stops (n : Nat) (e : Ending σ Bool) : Prop := e.outcome = .ok false ∧ e.cost ≤ n

theorem Ending.Stops.mono {m : Nat} {e : Ending σ Bool} (h : e.Stops n) (hle : n ≤ m) :
    e.Stops m := ⟨h.1, Nat.le_trans h.2 hle⟩

/-- A visit that consists in following a link stops if it is refused. -/
theorem WhenRefused.stops_step (link : Option Nat) (s : σ) (here : Nat) :
    (Reading.step link).WhenRefused (Ending.Stops 1) s here := by
  cases link with
  | none => trivial
  | some k => exact ⟨⟨rfl, Nat.le_refl 1⟩, trivial⟩

/-- A visit begins with a move, after whose refusal it stops. -/
theorem WhenRefused.stops_ask_bind {f : Bool → Reading σ Bool} {target : Option Nat} {s : σ}
    (hstop : ((f false).refused s here).Stops n)
    (hnext : (f target.isSome).WhenRefused (Ending.Stops (n + 1)) s (target.getD here)) :
    (Reading.ask target >>= f).WhenRefused (Ending.Stops (n + 1)) s here :=
  ⟨⟨hstop.1, Nat.succ_le_succ hstop.2⟩, hnext⟩

end Reading

section Links

theorem OneStepWalk.whenRefused_stay (w : OneStepWalk) (here : Nat) :
    w.stay.WhenRefused (Ending.Stops 1) w here := by
  unfold stay
  split
  · trivial
  · trivial

theorem OneStepWalk.whenRefused_toParent (w : OneStepWalk) (t : Snapshot) (here : Nat) :
    (w.toParent t here).WhenRefused (Ending.Stops 1) w here := by
  unfold toParent
  split
  · trivial
  · exact .note (.stops_step (t.parent? here) _ here)

theorem AncestorWalk.whenRefused_advance (w : AncestorWalk) (t : Snapshot) (here : Nat) :
    (w.advance t here).WhenRefused (Ending.Stops 1) w here := by
  unfold advance
  split
  · trivial
  · exact .stops_step (t.parent? here) w here

theorem ChildWalk.whenRefused_advance (w : ChildWalk) (t : Snapshot) (here : Nat) :
    (w.advance t here).WhenRefused (Ending.Stops 1) w here := by
  unfold advance
  split
  · exact .stops_step (t.right? here) w here
  · exact .note (.stops_step (t.firstChild? here) _ here)

theorem Side.whenRefused_advance (side : Side) (t : Snapshot) (here : Nat) :
    (side.advance t here).WhenRefused (Ending.Stops 1) side here := by
  cases side with
  | left => exact .stops_step (t.left? here) _ here
  | right => exact .stops_step (t.right? here) _ here

end Links

section Forward

theorem DescendantWalk.whenRefused_advance (w : DescendantWalk) (t : Snapshot) (here : Nat) :
    (w.advance t here).WhenRefused (Ending.Stops 1) w here := by
  unfold advance
  split
  · trivial
  · split
    · trivial
    · rcases w.plan t here with ⟨w', _ | k⟩
      · trivial
      · exact .note (.stops_ask_bind ⟨rfl, Nat.le_refl 0⟩ trivial)

theorem whenRefused_skipSubtree (t : Snapshot) (s : σ) (here : Nat) :
    (skipSubtree t here).WhenRefused (Ending.Stops 1) s here := by
  induction here using Nat.strongRecOn with
  | ind here ih =>
    rw [skipSubtree]
    cases t.right? here with
    | some r => exact .stops_step (some r) s here
    | none =>
      dsimp only
      split
      · rename_i p hp
        exact .stops_ask_bind ⟨rfl, Nat.le_refl 0⟩ (ih p (parent?_lt hp))
      · trivial

theorem whenRefused_nextNode (t : Snapshot) (s : σ) (here : Nat) :
    (nextNode t here).WhenRefused (Ending.Stops 1) s here := by
  unfold nextNode
  split
  · exact .stops_step _ s here
  · exact whenRefused_skipSubtree t s here

theorem FollowingWalk.whenRefused_start (w s : FollowingWalk) (t : Snapshot) (here : Nat) :
    (w.start t here).WhenRefused (Ending.Stops 1) s here := by
  unfold start
  split
  · split
    · rename_i p hp
      exact .stops_ask_bind ⟨rfl, Nat.le_refl 0⟩ (whenRefused_nextNode t s p)
    · trivial
  · exact whenRefused_skipSubtree t s here

theorem FollowingWalk.whenRefused_advance (w : FollowingWalk) (t : Snapshot) (here : Nat) :
    (w.advance t here).WhenRefused (Ending.Stops 1) w here := by
  -- The walk only notes what the move came to.
  have hnoted : ∀ {r : Reading FollowingWalk Bool} {s : FollowingWalk},
      r.WhenRefused (Ending.Stops 1) s here →
        (do
          let moved ← r
          .keep { w with started := true, done := !moved }
          pure moved).WhenRefused (Ending.Stops 1) s here := by
    intro r s hr
    refine hr.bind ?_ fun _ _ _ _ => trivial
    rintro ⟨outcome, state, place, cost⟩ ⟨rfl, hcost⟩
    exact ⟨rfl, hcost⟩
  unfold advance
  split
  · trivial
  · cases w.started with
    | true => exact .note (hnoted (whenRefused_nextNode t _ here))
    | false => exact .note (hnoted (whenRefused_start w _ t here))

end Forward

section Owned

theorem AttributeWalk.whenRefused_advance (w : AttributeWalk) (t : Snapshot) (here : Nat) :
    (w.advance t here).WhenRefused (Ending.Stops 1) w here := by
  have hattribute : ∀ place here, (do
      if ← .ask (t.attributes place)[w.index]? then
        .keep { w with index := w.index + 1 }
        pure true
      else pure false : Reading AttributeWalk Bool).WhenRefused (Ending.Stops 1) w here := by
    intro place here
    refine .stops_ask_bind ⟨rfl, Nat.le_refl 0⟩ ?_
    cases (t.attributes place)[w.index]? with
    | none => trivial
    | some k => trivial
  unfold advance
  by_cases hhome : (here : Int) = w.owner
  · simp only [hhome, if_true]
    exact hattribute here here
  · simp only [hhome, if_false]
    refine .stops_ask_bind ⟨rfl, Nat.le_refl 0⟩ ?_
    cases t.find? w.owner with
    | none => trivial
    | some k => exact hattribute _ k

namespace NamespaceWalk

theorem whenRefused_scan (t : Snapshot) (e index : Nat) (seen : List String) (s : NamespaceWalk) :
    (scan t e index seen).WhenRefused (Ending.Stops 2) s e := by
  induction e, index, seen using scan.induct t generalizing s with
  | case1 e index seen hkind =>
    rw [scan, if_pos hkind]
    trivial
  | case2 e index seen hkind ihNext ihParent =>
    rw [scan, if_neg hkind]
    refine .stops_ask_bind ?refused ?arrived
    case refused =>
      -- Refused the declaration, the walk goes on to the parent, and is refused that as well.
      split
      · rename_i harrived _
        cases harrived
      · split
        · exact ⟨rfl, Nat.le_refl 1⟩
        · exact ⟨rfl, Nat.zero_le 1⟩
    case arrived =>
      split
      · rename_i d harrived hd
        generalize judge (t.name? d) seen = verdict
        obtain ⟨counts, seen⟩ := verdict
        refine .note ?_
        cases counts with
        | true => trivial
        | false => exact .stops_ask_bind ⟨rfl, Nat.zero_le 1⟩ (ihNext d hd seen _)
      · split
        · rename_i p hp
          exact .note (.stops_ask_bind ⟨rfl, Nat.zero_le 1⟩ (ihParent p hp _))
        · trivial

theorem whenRefused_advance (w : NamespaceWalk) (t : Snapshot) (here : Nat) :
    (w.advance t here).WhenRefused (Ending.Stops 2) w here := by
  unfold advance
  cases w.element? with
  | none => trivial
  | some key =>
    by_cases hhere : (here : Int) = key
    · simp only [hhere, if_true]
      exact whenRefused_scan t here w.index w.seen w
    · simp only [hhere, if_false]
      refine .stops_ask_bind ⟨rfl, Nat.zero_le 1⟩ ?_
      cases hkey : t.find? key with
      | none => trivial
      | some e =>
        obtain ⟨-, rfl⟩ := find?_lt hkey
        exact whenRefused_scan t e w.index w.seen w

end NamespaceWalk

end Owned

end DocTree
