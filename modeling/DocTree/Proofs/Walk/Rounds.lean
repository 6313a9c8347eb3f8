import DocTree.Proofs.Walk.Backward
import DocTree.Walk.Basic

/-!
# Walks round by round

To advance a walk may take several rounds of a loop: up from parent to parent, down to the last node of
a subtree, from one declaration to the next. Here a call is cut into its rounds. What is done in one
round is said without recursion, so that nothing in the definitions promises that a call comes to an
end; and the call is what its rounds do one after the other.

## Main definitions

- `Walk.Point` — where a call is between two rounds
- `Walk.Point.round` — what is done in one round
- `Walk.enter` — what is done before the first round
- `Walk.attempt` — a call that is given up after so many rounds

## Main statements

- `Walk.Point.rest_eq` — the rest of a call is a round and the rest after that
- `Walk.advance_eq` — a call is what is done before the first round and the rest after that
- `Walk.run_advance` — a call that answers within so many rounds
-/

namespace DocTree

open Reading Snapshot

/-- Two readings that begin with the same move are the same if they are after either answer. -/
theorem Reading.move_congr {σ α : Type} (target : Option Nat) {f g : Bool → Reading σ α}
    (hstays : f false = g false) (harrives : f true = g true) : move target f = move target g :=
  congrArg (move target) (funext (Bool.forall_bool.2 ⟨hstays, harrives⟩))

namespace Walk

/-- Where a call is when a round begins, with the notes of the walk. -/
inductive Point where
  /-- On the way up to a node with a sibling to its right. -/
  | skipping (w : FollowingWalk)
  /-- On the way up to the document node, to note the ancestors of the node at `start`. -/
  | climbing (w : PrecedingWalk) (start : Nat)
  /-- Before a step to the left or up. -/
  | stepping (w : PrecedingWalk)
  /-- On the way down to a last node; if `sideways`, the next step is to the right. -/
  | sinking (w : PrecedingWalk) (sideways : Bool)
  /-- Before a look at the next declaration. -/
  | scanning (w : NamespaceWalk)

/-- How a call stands after a round. -/
inductive Stage where
  /-- The call has its answer. -/
  | settled (moved : Bool)
  /-- Another round begins, with the cursor at `here`. -/
  | going (p : Point) (here : Nat)

end Walk

namespace FollowingWalk

/-- Note whether the walk is over, and answer. -/
def settle (w : FollowingWalk) (moved : Bool) : Reading Walk Walk.Stage := do
  .keep (.following { w with started := true, done := !moved })
  pure (.settled moved)

/-- One round upward: to the right where there is a sibling, which is the end, or else to the parent. -/
def skip (t : Snapshot) (here : Nat) (w : FollowingWalk) : Reading Walk Walk.Stage :=
  match t.right? here with
  | some s => do w.settle (← .step (some s))
  | none =>
    match t.parent? here with
    | some p => do
      if ← .step (some p) then pure (.going (.skipping w) p) else w.settle false
    | none => w.settle false

/-- Go down where there is a child. Otherwise the way is up. -/
def descend (t : Snapshot) (here : Nat) (w : FollowingWalk) : Reading Walk Walk.Stage :=
  match t.firstChild? here with
  | some c => do w.settle (← .step (some c))
  | none => pure (.going (.skipping w) here)

/-- What is done before the first round. -/
def enter (t : Snapshot) (here : Nat) (w : FollowingWalk) : Reading Walk Walk.Stage :=
  if w.done then pure (.settled false)
  else do
    .keep (.following { w with started := true })
    if w.started then w.descend t here
    else if w.fromOwned then
      match t.parent? here with
      | some p => do
        if ← .step (some p) then w.descend t p else w.settle false
      | none => w.settle false
    else pure (.going (.skipping w) here)

end FollowingWalk

namespace PrecedingWalk

/-- Note whether the walk is over, and answer. -/
def settle (w : PrecedingWalk) (moved : Bool) : Reading Walk Walk.Stage := do
  .keep (.preceding { w with done := !moved })
  pure (.settled moved)

/-- Return to where the climb began. -/
def backTo (start : Nat) (w : PrecedingWalk) : Reading Walk Walk.Stage := do
  if ← .ask (some start) then
    if w.fromOwned && w.withAncestors then pure (.settled true)
    else pure (.going (.stepping w) start)
  else .fail (.noSuchNode start)

/-- One round of the climb: to the parent, or back to where it began. -/
def climbOnce (t : Snapshot) (here start : Nat) (w : PrecedingWalk) : Reading Walk Walk.Stage :=
  match t.parent? here with
  | some p => do
    if ← .step (some p) then
      .keep (.preceding { w with ancestors := p :: w.ancestors })
      pure (.going (.climbing { w with ancestors := p :: w.ancestors } start) p)
    else w.backTo start
  | none => w.backTo start

/-- One round backward: to the left, from where the way is down, or else to the parent. -/
def stepOnce (t : Snapshot) (here : Nat) (w : PrecedingWalk) : Reading Walk Walk.Stage :=
  match t.left? here with
  | some l => do
    if ← .step (some l) then pure (.going (.sinking w false) l) else w.settle false
  | none =>
    match t.parent? here with
    | some p => do
      if ← .step (some p) then
        if w.skips p then pure (.going (.stepping w) p) else w.settle true
      else w.settle false
    | none => w.settle false

/-- One round downward: to the sibling on the right, as long as there is one, or to the first child. -/
def sinkOnce (t : Snapshot) (here : Nat) (sideways : Bool) (w : PrecedingWalk) :
    Reading Walk Walk.Stage :=
  if sideways then
    match t.right? here with
    | some s => do
      if ← .step (some s) then pure (.going (.sinking w true) s)
      else pure (.going (.sinking w false) here)
    | none => pure (.going (.sinking w false) here)
  else
    match t.firstChild? here with
    | some c => do
      if ← .step (some c) then pure (.going (.sinking w true) c) else w.settle true
    | none => w.settle true

/-- What is done before the first round. -/
def enter (t : Snapshot) (here : Nat) (w : PrecedingWalk) : Reading Walk Walk.Stage :=
  if w.done then pure (.settled false)
  else if w.started then pure (.going (.stepping w) here)
  else do
    let w := { w with started := true }
    .keep (.preceding w)
    if w.fromOwned then
      match t.parent? here with
      | some p => do
        if ← .step (some p) then
          .keep (.preceding { w with ancestors := p :: w.ancestors })
          pure (.going (.climbing { w with ancestors := p :: w.ancestors } p) p)
        else pure (.going (.stepping w) here)
      | none => pure (.going (.stepping w) here)
    else pure (.going (.climbing w here) here)

end PrecedingWalk

namespace NamespaceWalk

/-- End the walk. -/
def settle (w : NamespaceWalk) : Reading Walk Walk.Stage := do
  .keep (.namespaces { w with element? := none })
  pure (.settled false)

/-- Go on with the declarations of the parent of the element at place `e`. -/
def leave (t : Snapshot) (e : Nat) (seen : List String) : Reading Walk Walk.Stage :=
  match t.parent? e with
  | some p => do
    .keep (.namespaces ⟨some p, 0, seen⟩)
    pure (.going (.scanning ⟨some p, 0, seen⟩) e)
  | none => pure (.going (.scanning ⟨none, 0, seen⟩) e)

/-- Look at declaration `index` of the element at place `e`, where the cursor is. After the last one
the declarations of the parent are next. -/
def scanOnce (t : Snapshot) (e index : Nat) (seen : List String) : Reading Walk Walk.Stage :=
  if t.kind e ≠ .element then settle ⟨some e, index, seen⟩
  else do
    match ← .ask (t.namespaces e)[index]?, (t.namespaces e)[index]? with
    | true, some n =>
      let (counts, seen) := judge (t.name? n) seen
      .keep (.namespaces ⟨some e, index + 1, seen⟩)
      if counts then pure (.settled true)
      else pure (.going (.scanning ⟨some e, index + 1, seen⟩) n)
    | _, _ => leave t e seen

/-- One round of the search: to the element, if the cursor is not there, and to its next
declaration. -/
def lookOnce (t : Snapshot) (here : Nat) (w : NamespaceWalk) : Reading Walk Walk.Stage :=
  match w.element? with
  | none => w.settle
  | some key => do
    if (here : Int) = key then scanOnce t here w.index w.seen
    else if ← .ask (t.find? key) then scanOnce t key.toNat w.index w.seen
    else w.settle

end NamespaceWalk

namespace Walk

/-- What is done in one round. -/
def Point.round (t : Snapshot) (here : Nat) : Point → Reading Walk Stage
  | skipping w => w.skip t here
  | climbing w start => w.climbOnce t here start
  | stepping w => w.stepOnce t here
  | sinking w sideways => w.sinkOnce t here sideways
  | scanning w => w.lookOnce t here

/-- What is done before the first round. Most walks have no loop and answer at once. -/
def enter (t : Snapshot) (here : Nat) : Walk → Reading Walk Stage
  | namespaces w => pure (.going (.scanning w) here)
  | following w => w.enter t here
  | preceding w => w.enter t here
  | w => Stage.settled <$> w.advance t here

/-- Go on for so many rounds at most. There is no answer if the call is not over then. -/
def Stage.proceed (t : Snapshot) : (rounds : Nat) → Stage → Reading Walk (Option Bool)
  | _, settled moved => pure (some moved)
  | 0, going _ _ => pure none
  | rounds + 1, going p here => do
    let stage ← p.round t here
    stage.proceed t rounds

/-- Advance a walk, but give up after so many rounds. -/
def attempt (t : Snapshot) (here rounds : Nat) (w : Walk) : Reading Walk (Option Bool) := do
  let stage ← w.enter t here
  stage.proceed t rounds

/-- What the loops are for: the rest of a call, from the beginning of a round. -/
def Point.rest (t : Snapshot) (here : Nat) : Point → Reading Walk Bool
  | skipping w => mapNotes Walk.following do
    let moved ← skipSubtree t here
    .keep { w with started := true, done := !moved }
    pure moved
  | climbing w start => mapNotes Walk.preceding do
    let w ← w.climb t here
    if ← .ask (some start) then
      if w.fromOwned && w.withAncestors then pure true else w.goBack t start
    else .fail (.noSuchNode start)
  | stepping w => (w.goBack t here).mapNotes Walk.preceding
  | sinking w sideways => mapNotes Walk.preceding do
    sink t here sideways
    .keep { w with done := false }
    pure true
  | scanning w => (w.advance t here).mapNotes Walk.namespaces

/-- The rest of a call. -/
def Stage.rest (t : Snapshot) : Stage → Reading Walk Bool
  | settled moved => pure moved
  | going p here => p.rest t here

section Rest

variable {t : Snapshot} {here : Nat}

theorem rest_skipping (t : Snapshot) (here : Nat) (w : FollowingWalk) :
    (Point.skipping w).rest t here = w.skip t here >>= Stage.rest t := by
  simp only [Point.rest, FollowingWalk.skip]
  rw [skipSubtree]
  cases t.right? here with
  | some s => rfl
  | none =>
    cases t.parent? here with
    | some p => exact move_congr (some p) rfl rfl
    | none => rfl

theorem rest_climbing (t : Snapshot) (here : Nat) (w : PrecedingWalk) (start : Nat) :
    (Point.climbing w start).rest t here = w.climbOnce t here start >>= Stage.rest t := by
  have hback : mapNotes Walk.preceding (do
      if ← .ask (some start) then
        if w.fromOwned && w.withAncestors then pure true else w.goBack t start
      else .fail (.noSuchNode start)) = w.backTo start >>= Stage.rest t := by
    refine move_congr (some start) rfl ?arrived
    case arrived => cases w.fromOwned && w.withAncestors <;> rfl
  simp only [Point.rest, PrecedingWalk.climbOnce]
  rw [PrecedingWalk.climb]
  cases t.parent? here with
  | some p => exact move_congr (some p) hback rfl
  | none => exact hback

theorem rest_stepping (t : Snapshot) (here : Nat) (w : PrecedingWalk) :
    (Point.stepping w).rest t here = w.stepOnce t here >>= Stage.rest t := by
  simp only [Point.rest, PrecedingWalk.stepOnce, PrecedingWalk.goBack]
  change mapNotes Walk.preceding (stepBack t w.skips here >>= _) = _
  rw [stepBack]
  cases t.left? here with
  | some l =>
    refine move_congr (some l) rfl ?left
    case left => exact congrArg (mapNotes Walk.preceding) (Reading.bind_assoc (sink t l false) _ _)
  | none =>
    cases t.parent? here with
    | some p =>
      refine move_congr (some p) rfl ?up
      case up => cases w.skips p <;> rfl
    | none => rfl

theorem rest_sinking (t : Snapshot) (here : Nat) (w : PrecedingWalk) (sideways : Bool) :
    (Point.sinking w sideways).rest t here = w.sinkOnce t here sideways >>= Stage.rest t := by
  simp only [Point.rest, PrecedingWalk.sinkOnce]
  cases sideways with
  | true =>
    cases hr : t.right? here with
    | some s =>
      rw [sink_of_right? hr]
      exact move_congr (some s) rfl rfl
    | none =>
      rw [sink_of_last hr]
      rfl
  | false =>
    cases hc : t.firstChild? here with
    | some c =>
      rw [sink_of_firstChild? hc]
      exact move_congr (some c) rfl rfl
    | none =>
      rw [sink_of_childless hc]
      rfl

/-- To go on with the search from another node, the cursor has to go back to the element first. -/
theorem rest_scanning_of_ne {e : Nat} (hne : here ≠ e) (he : e < t.size) (index : Nat)
    (seen : List String) :
    (Point.scanning ⟨some e, index, seen⟩).rest t here = mapNotes Walk.namespaces (do
      if ← .ask (some e) then NamespaceWalk.scan t e index seen
      else NamespaceWalk.finish ⟨some e, index, seen⟩) := by
  have hne' : ¬(here : Int) = e := by omega
  simp only [Point.rest, NamespaceWalk.advance, if_neg hne', find?_natCast he, Int.toNat_natCast]

/-- After the last declaration the search goes on at the parent, to which the cursor has to go first. -/
theorem rest_leave (t : Snapshot) (e : Nat) (seen : List String) :
    mapNotes Walk.namespaces (match _h : t.parent? e with
      | some p => do
        .keep ⟨some p, 0, seen⟩
        if ← .ask (some p) then NamespaceWalk.scan t p 0 seen
        else NamespaceWalk.finish ⟨some p, 0, seen⟩
      | none => NamespaceWalk.finish ⟨none, 0, seen⟩) =
      NamespaceWalk.leave t e seen >>= Stage.rest t := by
  rw [NamespaceWalk.leave]
  cases hp : t.parent? e with
  | some p =>
    have hpe := parent?_lt hp
    have hrest := rest_scanning_of_ne (Nat.ne_of_gt hpe)
      (Nat.lt_trans hpe (lt_size_of_parent? hp)) 0 seen
    exact congrArg (Reading.note _) hrest.symm
  | none => rfl

theorem mapNotes_scan (t : Snapshot) (e index : Nat) (seen : List String) :
    (NamespaceWalk.scan t e index seen).mapNotes Walk.namespaces =
      NamespaceWalk.scanOnce t e index seen >>= Stage.rest t := by
  have hleave := rest_leave t e seen
  rw [NamespaceWalk.scan, NamespaceWalk.scanOnce]
  split
  · rfl
  · cases hd : (t.namespaces e)[index]? with
    | none => exact move_congr none hleave hleave
    | some d =>
      refine move_congr (some d) hleave (congrArg (Reading.note _) ?looked)
      case looked =>
        obtain ⟨hed, hdt⟩ := (t.node_linked e).namespaces_gt d (List.mem_of_getElem? hd)
        change mapNotes Walk.namespaces
          (if (NamespaceWalk.judge (t.name? d) seen).1 then _ else _) =
            (if (NamespaceWalk.judge (t.name? d) seen).1 then _ else _) >>= _
        cases (NamespaceWalk.judge (t.name? d) seen).1 with
        | true => rfl
        -- The cursor is on the declaration then, and the next look is from there.
        | false => exact (rest_scanning_of_ne (Nat.ne_of_gt hed) (Nat.lt_trans hed hdt) _ _).symm

theorem rest_scanning (t : Snapshot) (here : Nat) (w : NamespaceWalk) :
    (Point.scanning w).rest t here = w.lookOnce t here >>= Stage.rest t := by
  obtain ⟨element?, index, seen⟩ := w
  simp only [Point.rest, NamespaceWalk.advance, NamespaceWalk.lookOnce]
  cases element? with
  | none => rfl
  | some key =>
    dsimp only
    split
    · rename_i hhere
      subst hhere
      exact mapNotes_scan t here index seen
    · exact move_congr (t.find? key) rfl (mapNotes_scan t key.toNat index seen)

/-- The rest of a call is a round, and the rest after that. -/
theorem Point.rest_eq (t : Snapshot) (here : Nat) (p : Point) :
    p.rest t here = p.round t here >>= Stage.rest t := by
  cases p with
  | skipping w => exact rest_skipping t here w
  | climbing w start => exact rest_climbing t here w start
  | stepping w => exact rest_stepping t here w
  | sinking w sideways => exact rest_sinking t here w sideways
  | scanning w => exact rest_scanning t here w

end Rest

theorem rest_descend (t : Snapshot) (here : Nat) (w : FollowingWalk) :
    mapNotes Walk.following (do
      let moved ← nextNode t here
      .keep { w with started := true, done := !moved }
      pure moved) = w.descend t here >>= Stage.rest t := by
  rw [nextNode, FollowingWalk.descend]
  cases t.firstChild? here <;> rfl

theorem advance_following (t : Snapshot) (here : Nat) (w : FollowingWalk) :
    (w.advance t here).mapNotes Walk.following = w.enter t here >>= Stage.rest t := by
  rw [FollowingWalk.advance, FollowingWalk.enter]
  split
  · rfl
  · refine congrArg (Reading.note _) ?_
    obtain ⟨fromOwned, started, isDone⟩ := w
    simp only [FollowingWalk.start]
    cases started with
    | true => exact rest_descend t here ⟨fromOwned, true, isDone⟩
    | false =>
      cases fromOwned with
      | false => rfl
      | true =>
        cases t.parent? here with
        | some p => exact move_congr (some p) rfl (rest_descend t p ⟨true, false, isDone⟩)
        | none => rfl

theorem advance_preceding (t : Snapshot) (here : Nat) (w : PrecedingWalk) :
    (w.advance t here).mapNotes Walk.preceding = w.enter t here >>= Stage.rest t := by
  rw [PrecedingWalk.advance, PrecedingWalk.enter]
  split
  · rfl
  · split
    · rfl
    · refine congrArg (Reading.note _) ?_
      simp only [PrecedingWalk.start]
      cases w.fromOwned with
      | false => rfl
      | true =>
        cases t.parent? here with
        | some p => exact move_congr (some p) rfl rfl
        | none => rfl

/-- A call is what is done before the first round, and the rest after that. -/
theorem advance_eq (t : Snapshot) (here : Nat) (w : Walk) :
    w.advance t here = w.enter t here >>= Stage.rest t := by
  cases w with
  | following w => exact advance_following t here w
  | preceding w => exact advance_preceding t here w
  | namespaces w => rfl
  | _ =>
    -- Without a loop the rest is the answer itself.
    simp only [enter, map_eq_pure_bind, Reading.bind_assoc]
    exact (bind_done _).symm

section Run

variable {t : Snapshot} {here : Nat} {w w' : Walk} {c c' : Cursor} {m m' : Meter} {moved : Bool}

/-- If the rest of a call answers within so many rounds, that is how it runs. -/
theorem Stage.run_rest {rounds : Nat} {stage : Stage}
    (h : (stage.proceed t rounds).run w c m = ⟨.ok (some moved), w', c', m'⟩) :
    (stage.rest t).run w c m = ⟨.ok moved, w', c', m'⟩ := by
  induction rounds generalizing stage w c m with
  | zero =>
    cases stage with
    | settled =>
      cases h
      rfl
    | going => cases h
  | succ rounds ih =>
    cases stage with
    | settled =>
      cases h
      rfl
    | going p here =>
      simp only [Stage.proceed, run_bind] at h
      simp only [Stage.rest, Point.rest_eq, run_bind]
      cases houtcome : ((p.round t here).run w c m).outcome with
      | error e =>
        rw [Run.andThen, houtcome] at h
        cases h
      | ok stage =>
        rw [Run.andThen, houtcome] at h ⊢
        exact ih h

/-- A call that answers within so many rounds runs as they do. Unlike the loops, the rounds can be
carried out by evaluation. -/
theorem run_advance (rounds : Nat)
    (h : (w.attempt t here rounds).run w c m = ⟨.ok (some moved), w', c', m'⟩) :
    (w.advance t here).run w c m = ⟨.ok moved, w', c', m'⟩ := by
  simp only [attempt, run_bind] at h
  simp only [advance_eq, run_bind]
  cases houtcome : ((w.enter t here).run w c m).outcome with
  | error e =>
    rw [Run.andThen, houtcome] at h
    cases h
  | ok stage =>
    rw [Run.andThen, houtcome] at h ⊢
    exact Stage.run_rest h

end Run

end Walk

end DocTree
