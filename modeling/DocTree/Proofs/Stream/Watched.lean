import DocTree.Proofs.Stream.Interleaved
import DocTree.Proofs.Stream.Sift

/-!
# Merges that are watched

The two sides of a merge may be anything that answers a pull, and what they answer may depend on the
state that they share with others. To say what a merge makes of it, the answers of the sides are
written down while it runs. This does not change what it delivers.

## Main definitions

- `Answers` — what the two sides of a merge have answered
- `Merge.watch` — the answers of a merge, and those of its sides
- `SetAxis.watch` — the same for two concurrent axes that are combined

## Main statements

- `Merge.watch_fst`, `SetAxis.watch_fst` — a merge that is watched answers what it answers anyway
-/

namespace DocTree

/-- What a source answers does not depend on what it does not see of the shared state. -/
theorem pulls_of_view {σ τ S : Type} {pull : S → StateM σ (Option Item × S)}
    {pull' : S → StateM τ (Option Item × S)} (view : τ → σ)
    (h : ∀ s st, pull s (view st) = ((pull' s st).1, view (pull' s st).2)) (times : Nat) (s : S)
    (st : τ) : (pulls pull times s (view st)).1 = (pulls pull' times s st).1 := by
  induction times generalizing s st with
  | zero => rfl
  | succ times ih => rw [pulls_succ (h s st), pulls_succ rfl, ih]

/-- What a pull keeps up, from a state that is not ruled out later on, holds after any number of
pulls. -/
theorem pulls_inv {σ S : Type} (pull : S → StateM σ (Option Item × S))
    {P : S → σ → List (Option Item) → Prop} {F : σ → Prop}
    (hback : ∀ s st, F (pull s st).2 → F st)
    (hstep : ∀ s st answers, P s st answers → F (pull s st).2 →
      P (pull s st).1.2 (pull s st).2 (answers ++ [(pull s st).1.1]))
    (times : Nat) {s : S} {st : σ} {answers : List (Option Item)} (h : P s st answers)
    (hF : F (pulls pull times s st).2) :
    ∃ s', P s' (pulls pull times s st).2 (answers ++ (pulls pull times s st).1) := by
  have hbefore (times : Nat) (s : S) (st : σ) : F (pulls pull times s st).2 → F st := by
    induction times generalizing s st with
    | zero => exact id
    | succ times ih =>
      rw [run_pulls_succ rfl]
      exact fun h => hback s st (ih _ _ h)
  induction times generalizing s st answers with
  | zero => exact ⟨s, (List.append_nil answers).symm ▸ h⟩
  | succ times ih =>
    rw [run_pulls_succ rfl] at hF ⊢
    obtain ⟨s', hs'⟩ := ih (hstep s st answers h (hbefore _ _ _ hF)) hF
    exact ⟨s', by simpa using hs'⟩

/-- What the two sides of a merge have answered, each in turn. -/
structure Answers where
  left : List (Option Item) := []
  right : List (Option Item) := []
deriving DecidableEq, Repr

/-- More has been written down. -/
structure Answers.Before (log log' : Answers) : Prop where
  left : log.left <+: log'.left
  right : log.right <+: log'.right

theorem Answers.Before.refl (log : Answers) : log.Before log :=
  ⟨List.prefix_rfl, List.prefix_rfl⟩

theorem Answers.Before.trans {log log' log'' : Answers} (h : log.Before log')
    (h' : log'.Before log'') : log.Before log'' :=
  ⟨h.left.trans h'.left, h.right.trans h'.right⟩

namespace Merge

variable {σ L R α β : Type}

/-- Write down what the sides answer. -/
def Sides.watched (pull : Sides L R (StateM σ)) : Sides L R (StateM (σ × Answers)) where
  left side := fun (st, log) =>
    let ((answer, side), st) := pull.left side st
    ((answer, side), st, { log with left := log.left ++ [answer] })
  right side := fun (st, log) =>
    let ((answer, side), st) := pull.right side st
    ((answer, side), st, { log with right := log.right ++ [answer] })

theorem Sides.watched_left (pull : Sides L R (StateM σ)) (left : L) (st : σ) (log : Answers) :
    pull.watched.left left (st, log) = (((pull.left left st).1.1, (pull.left left st).1.2),
      (pull.left left st).2, { log with left := log.left ++ [(pull.left left st).1.1] }) :=
  rfl

theorem Sides.watched_right (pull : Sides L R (StateM σ)) (right : R) (st : σ) (log : Answers) :
    pull.watched.right right (st, log) = (((pull.right right st).1.1, (pull.right right st).1.2),
      (pull.right right st).2, { log with right := log.right ++ [(pull.right right st).1.1] }) :=
  rfl

/-- What a merge answers to so many pulls, and what its sides answer meanwhile. -/
def watch (pull : Sides L R (StateM σ)) (rounds : Merge L R → Nat) (times : Nat) (s : Merge L R)
    (st : σ) : List (Option Item) × Answers :=
  let run := pulls (fun s => next pull.watched (rounds s) s) times s (st, {})
  (run.1, run.2.2)

section Run

variable {pull : Sides L R (StateM σ)} {s s' : Merge L R} {st st' : σ} {answer : Option Item}

/-- The left side has been asked. If it fails, the key stays. -/
theorem run_advanceLeft {left : L} (h : pull.left s.left st = ((answer, left), st')) :
    (advanceLeft pull).run.run s st =
      match keyOf answer with
      | .ok key => ((.ok (), { s with left, currentLeft := key }), st')
      | .error e => ((.error e, { s with left }), st') := by
  have hlift : (liftM (pull.left s.left) : Step L R (StateM σ) (Option Item × L)).run.run s st
      = ((.ok (answer, left), s), st') := by
    show ((Except.ok (pull.left s.left st).1, s), (pull.left s.left st).2) = _
    rw [h]
  have hget : (get : Step L R (StateM σ) (Merge L R)).run.run s st = ((.ok s, s), st) := rfl
  refine (run_bind_of_ok hget).trans ?_
  rw [run_bind_of_ok hlift]
  rcases answer with _ | _ | _ <;> rfl

/-- The right side has been asked. If it fails, the key stays. -/
theorem run_advanceRight {right : R} (h : pull.right s.right st = ((answer, right), st')) :
    (advanceRight pull).run.run s st =
      match keyOf answer with
      | .ok key => ((.ok (), { s with right, currentRight := key }), st')
      | .error e => ((.error e, { s with right }), st') := by
  have hlift : (liftM (pull.right s.right) : Step L R (StateM σ) (Option Item × R)).run.run s st
      = ((.ok (answer, right), s), st') := by
    show ((Except.ok (pull.right s.right st).1, s), (pull.right s.right st).2) = _
    rw [h]
  have hget : (get : Step L R (StateM σ) (Merge L R)).run.run s st = ((.ok s, s), st) := rfl
  refine (run_bind_of_ok hget).trans ?_
  rw [run_bind_of_ok hlift]
  rcases answer with _ | _ | _ <;> rfl

/-- A step that fails is not gone on with. -/
theorem run_bind_of_error {step : Step L R (StateM σ) α} {f : α → Step L R (StateM σ) β}
    {e : AccessError} (h : step.run.run s st = ((.error e, s'), st')) :
    (step >>= f).run.run s st = ((.error e, s'), st') := by
  rw [ExceptT.run_bind, StateT.run_bind]
  show StateT.bind (step.run.run s) _ st = _
  simp only [StateT.bind, h]
  rfl

end Run

/-- A step of a merge that is watched adds to what has been written down, and changes none of it. -/
def Grows (watched : Step L R (StateM (σ × Answers)) α) : Prop :=
  ∀ s st (log : Answers), log.Before (watched.run.run s (st, log)).2.2

/-- A step of a merge that is watched does what the step itself does. -/
structure Watches (watched : Step L R (StateM (σ × Answers)) α) (step : Step L R (StateM σ) α) :
    Prop where
  same : ∀ s st log, step.run.run s st
    = ((watched.run.run s (st, log)).1, (watched.run.run s (st, log)).2.1)
  grows : Grows watched

section Watches

variable {watched : Step L R (StateM (σ × Answers)) α} {step : Step L R (StateM σ) α}

theorem watches_pure (x : α) : Watches (L := L) (R := R) (σ := σ) (pure x) (pure x) :=
  ⟨fun _ _ _ => rfl, fun _ _ log => .refl log⟩

theorem watches_throw (e : AccessError) :
    Watches (α := α) (L := L) (R := R) (σ := σ) (throw e) (throw e) :=
  ⟨fun _ _ _ => rfl, fun _ _ log => .refl log⟩

theorem watches_modify (f : Merge L R → Merge L R) : Watches (σ := σ) (modify f) (modify f) :=
  ⟨fun _ _ _ => rfl, fun _ _ log => .refl log⟩

theorem watches_get_bind {watched : Merge L R → Step L R (StateM (σ × Answers)) α}
    {step : Merge L R → Step L R (StateM σ) α} (h : ∀ s, Watches (watched s) (step s)) :
    Watches (get >>= watched) (get >>= step) :=
  ⟨fun s st log => (h s).same s st log, fun s st log => (h s).grows s st log⟩

theorem Watches.bind {watched' : α → Step L R (StateM (σ × Answers)) β}
    {step' : α → Step L R (StateM σ) β} (h : Watches watched step)
    (h' : ∀ x, Watches (watched' x) (step' x)) : Watches (watched >>= watched') (step >>= step') := by
  constructor
  · intro s st log
    have hsame := h.same s st log
    rcases hrun : watched.run.run s (st, log) with ⟨⟨e | x, s₁⟩, st₁, log₁⟩
    · rw [hrun] at hsame
      rw [run_bind_of_error hrun, run_bind_of_error hsame]
    · rw [hrun] at hsame
      rw [run_bind_of_ok hrun, run_bind_of_ok hsame]
      exact (h' x).same s₁ st₁ log₁
  · intro s st log
    have hgrows := h.grows s st log
    rcases hrun : watched.run.run s (st, log) with ⟨⟨e | x, s₁⟩, st₁, log₁⟩
    · rw [hrun] at hgrows
      rw [run_bind_of_error hrun]
      exact hgrows
    · rw [hrun] at hgrows
      rw [run_bind_of_ok hrun]
      exact hgrows.trans ((h' x).grows s₁ st₁ log₁)

theorem watches_advanceLeft (pull : Sides L R (StateM σ)) :
    Watches (advanceLeft pull.watched) (advanceLeft pull) := by
  constructor
  · intro s st log
    rw [run_advanceLeft rfl, run_advanceLeft (pull.watched_left s.left st log)]
    rcases keyOf (pull.left s.left st).1.1 with e | key <;> rfl
  · intro s st log
    rw [run_advanceLeft (pull.watched_left s.left st log)]
    rcases keyOf (pull.left s.left st).1.1 with e | key <;>
      exact ⟨List.prefix_append _ _, List.prefix_rfl⟩

theorem watches_advanceRight (pull : Sides L R (StateM σ)) :
    Watches (advanceRight pull.watched) (advanceRight pull) := by
  constructor
  · intro s st log
    rw [run_advanceRight rfl, run_advanceRight (pull.watched_right s.right st log)]
    rcases keyOf (pull.right s.right st).1.1 with e | key <;> rfl
  · intro s st log
    rw [run_advanceRight (pull.watched_right s.right st log)]
    rcases keyOf (pull.right s.right st).1.1 with e | key <;>
      exact ⟨List.prefix_rfl, List.prefix_append _ _⟩

theorem watches_advance (pull : Sides L R (StateM σ)) (onLeft onRight : Bool) :
    Watches (advance pull.watched onLeft onRight) (advance pull onLeft onRight) := by
  cases onLeft <;> cases onRight
  · exact watches_pure ()
  · rw [advance_right, advance_right]
    exact watches_advanceRight pull
  · rw [advance_left, advance_left]
    exact watches_advanceLeft pull
  · rw [advance_both, advance_both]
    exact (watches_advanceLeft pull).bind fun _ => watches_advanceRight pull

theorem watches_sift (pull : Sides L R (StateM σ)) (o : SetOperation) (rounds : Nat) :
    Watches (sift pull.watched o rounds) (sift pull o rounds) := by
  induction rounds with
  | zero => exact watches_pure none
  | succ rounds ih =>
    unfold sift
    refine watches_get_bind fun s => ?_
    split
    · exact watches_pure none
    split
    · exact watches_throw _
    refine (watches_advance pull _ _).bind fun _ => ?_
    split
    · exact watches_pure _
    · exact ih

theorem watches_search (pull : Sides L R (StateM σ)) (rounds : Nat) :
    Watches (search pull.watched rounds) (search pull rounds) := by
  refine watches_get_bind fun s => ?_
  rw [union_eq_sift _ 0, union_eq_sift _ 0, intersect_eq_sift, intersect_eq_sift, except_eq_sift,
    except_eq_sift]
  cases s.operation <;> exact watches_sift pull _ _

theorem watches_find (pull : Sides L R (StateM σ)) (rounds : Nat) :
    Watches (find pull.watched rounds) (find pull rounds) := by
  refine watches_get_bind fun s => ?_
  cases s.started with
  | true => exact watches_search pull rounds
  | false =>
    exact (watches_modify _).bind fun _ => (watches_advanceLeft pull).bind fun _ =>
      (watches_advanceRight pull).bind fun _ => watches_search pull rounds

end Watches

section Watch

variable (pull : Sides L R (StateM σ)) (rounds : Merge L R → Nat)

theorem next_watched (rounds : Nat) (s : Merge L R) (st : σ) (log : Answers) :
    next pull rounds s st = ((next pull.watched rounds s (st, log)).1,
      (next pull.watched rounds s (st, log)).2.1) := by
  cases hdone : s.done with
  | true => rw [next_of_done hdone, next_of_done hdone]
  | false =>
    have hfind := (watches_find pull rounds).same s st log
    rcases hwatched : (find pull.watched rounds).run.run s (st, log) with ⟨⟨found, s'⟩, st', log'⟩
    rw [hwatched] at hfind
    rw [next_of_find hdone hfind, next_of_find hdone hwatched]

theorem before_next (rounds : Nat) (s : Merge L R) (st : σ) (log : Answers) :
    log.Before (next pull.watched rounds s (st, log)).2.2 := by
  cases hdone : s.done with
  | true =>
    rw [next_of_done hdone]
    exact .refl log
  | false =>
    have hfind := (watches_find pull rounds).grows s st log
    rcases hwatched : (find pull.watched rounds).run.run s (st, log) with ⟨⟨found, s'⟩, st', log'⟩
    rw [hwatched] at hfind
    rw [next_of_find hdone hwatched]
    rcases found with e | _ | key <;> exact hfind

/-- A merge that is watched answers what it answers anyway. -/
theorem watch_fst (times : Nat) (s : Merge L R) (st : σ) :
    (watch pull rounds times s st).1 = (pulls (fun s => next pull (rounds s) s) times s st).1 :=
  (pulls_of_view Prod.fst (fun s _ => next_watched pull (rounds s) s _ _) times s (st, {})).symm

end Watch

end Merge

namespace SetAxis

/-- How the two axes that are combined are read. -/
def sides (leftShape rightShape : Stream.Shape) :
    Merge.Sides (Relay (Stream leftShape)) (Relay (Stream rightShape)) (StateM Registry) :=
  ⟨Relay.next (Stream.next leftShape) (Stream.stop leftShape),
    Relay.next (Stream.next rightShape) (Stream.stop rightShape)⟩

/-- What the axis answers to so many pulls, and what the two axes that it combines answer
meanwhile. -/
def watch (times : Nat) (a : SetAxis) (r : Registry) : List (Option Item) × Answers :=
  Merge.watch (sides a.leftShape a.rightShape)
    (fun s => Stream.bound (.merged a.leftShape a.rightShape) s) times a.merge r

/-- An axis that is watched answers what it answers anyway. -/
theorem watch_fst (times : Nat) (a : SetAxis) (r : Registry) :
    (watch times a r).1 = (pulls SetAxis.next times a r).1 := by
  refine (Merge.watch_fst _ _ times a.merge r).trans (Eq.symm ?_)
  exact pulls_passed_on
    (fun merge => (⟨a.leftShape, a.rightShape, merge⟩ : SetAxis)) (fun _ _ => rfl) times a.merge r

end SetAxis

end DocTree
