import DocTree.Proofs.Layout.Subtree
import DocTree.Proofs.Reading.Granted
import DocTree.Walk.Forward

/-!
# Walks forward in document order, undisturbed

In a tree the structural node after a subtree is found where the subtree ends, and the one after a
node where its body starts. A walk over descendants goes from one to the other as long as that is
inside the subtree of its origin; what it remembers are the right siblings of the nodes between the
origin and the cursor.

## Main definitions

- `Snapshot.passed` — the siblings that a walk over descendants has passed
- `DescendantWalk.OnCourse` — the walk remembers those and is inside its subtree

## Main statements

- `DescendantWalk.OnCourse.yields_next` — the next descendant
- `FollowingWalk.OnCourse.yields_next` — the next node that follows
-/

namespace DocTree

open Reading Snapshot

variable {t : Snapshot} {σ : Type} {here origin k p : Nat}

theorem Snapshot.find?_of_le (h : t.size ≤ k) : t.find? (k : Nat) = none := by
  simp [find?, h]

theorem Snapshot.lt_size_of_find?_isSome (h : (t.find? (k : Nat)).isSome = true) : k < t.size := by
  by_contra hge
  simp [find?_of_le (Nat.le_of_not_lt hge)] at h

/-- The cursor goes to where the subtree ends, if that is in the table, and up to the document node
otherwise. -/
theorem yields_skipSubtree (h : t.IsTree) (s : σ) (hk : here < t.size)
    (hs : (t.kind here).isStructural = true) :
    (skipSubtree t here).Yields s here (t.find? (t.endOf here)).isSome s
      ((t.find? (t.endOf here)).getD 0) := by
  induction here using Nat.strongRecOn with
  | ind here ih =>
    rw [skipSubtree]
    cases hr : t.right? here with
    | some r =>
      rw [endOf_of_right? hs hr, find?_natCast (right?_gt hr).2]
      exact .step (some r) s here
    | none =>
      dsimp only
      split
      · rename_i p hp
        have hpk := parent?_lt hp
        rw [endOf_of_parent? hs hr hp]
        exact (Yields.step (some p) s here).bind
          (ih p hpk (by omega) (h.structural_parent hp))
      · rename_i hp
        obtain rfl := (h.parent?_eq_none_iff hk).1 hp
        rw [endOf_of_parentless hs hr hp, find?_of_le (Nat.le_refl _)]
        exact .done false s 0

/-- The cursor goes to the next structural node. -/
theorem yields_nextNode (h : t.IsTree) (s : σ) (hk : here < t.size)
    (hs : (t.kind here).isStructural = true) :
    (nextNode t here).Yields s here (t.find? (t.bodyStart here)).isSome s
      ((t.find? (t.bodyStart here)).getD 0) := by
  rw [nextNode]
  cases hc : t.firstChild? here with
  | some c =>
    rw [← h.firstChild?_eq_bodyStart hc, find?_natCast (firstChild?_gt hc).2]
    exact .step (some c) s here
  | none =>
    rw [← h.endOf_eq_bodyStart hk hc]
    exact yields_skipSubtree h s hk hs

/-- The right siblings of the nodes above `k` and below `origin`, lowest first: what a walk over the
descendants of `origin` has passed on its way to `k`. -/
def Snapshot.passed (t : Snapshot) (origin k : Nat) : List Nat :=
  if k = origin then []
  else
    match _h : t.parent? k with
    | some p => (if p = origin then none else t.right? p).toList ++ t.passed origin p
    | none => []
termination_by k
decreasing_by exact parent?_lt _h

theorem Snapshot.passed_self (t : Snapshot) (origin : Nat) : t.passed origin origin = [] := by
  rw [passed, if_pos rfl]

theorem Snapshot.passed_of_parent? (hk : k ≠ origin) (hp : t.parent? k = some p) :
    t.passed origin k =
      (if p = origin then none else t.right? p).toList ++ t.passed origin p := by
  rw [passed, if_neg hk]
  split <;> simp_all

/-- Siblings have the same behind them. -/
theorem Snapshot.passed_congr (hj : here ≠ origin) (hk : k ≠ origin)
    (hp : t.parent? here = t.parent? k) : t.passed origin here = t.passed origin k := by
  cases hpk : t.parent? k with
  | some p => rw [passed_of_parent? hj (hp.trans hpk), passed_of_parent? hk hpk]
  | none =>
    rw [passed, if_neg hj, passed, if_neg hk]
    split <;> split <;> simp_all

namespace Snapshot.IsTree

/-- The right sibling of a node below `origin` is below `origin`, and has the same behind it. -/
theorem right_below (h : t.IsTree) (hc : t.Contains origin k) (hne : k ≠ origin) {s : Nat}
    (hr : t.right? k = some s) : s < t.endOf origin ∧ t.passed origin s = t.passed origin k := by
  have hgt := right?_gt hr
  have hspec := h.right?_spec hr
  have hok := (h.bounds_of_contains hc).1
  obtain ⟨p, hp⟩ := h.exists_parent (lt_size_of_right? hr) (k := k) (by omega)
  have hcp := h.bounds_of_contains (contains_parent hc (Ne.symm hne) hp)
  have hsp := (h.bodyStart_le_endOf_and_lt_endOf_parent hgt.2).2 hspec.2.2 p (hspec.1.trans hp)
  exact ⟨by omega, passed_congr (by omega) hne hspec.1⟩

/-- Where a node below `origin` has no right sibling, the sibling that was passed last begins where
the subtree of the node ends; if none was passed, the subtree of `origin` ends there as well. -/
theorem passed_of_last (h : t.IsTree) (hc : t.Contains origin k) (hk : k < t.size)
    (hs : (t.kind k).isStructural = true) (hne : k ≠ origin) (hr : t.right? k = none) :
    (t.passed origin k = [] ∧ t.endOf k = t.endOf origin) ∨
      (t.passed origin k = t.endOf k :: t.passed origin (t.endOf k) ∧
        t.endOf k < t.endOf origin) := by
  induction k using Nat.strongRecOn with
  | ind k ih =>
    have hok := (h.bounds_of_contains hc).1
    obtain ⟨p, hp⟩ := h.exists_parent hk (by omega)
    have hpk := parent?_lt hp
    have hcp := contains_parent hc (Ne.symm hne) hp
    rw [passed_of_parent? hne hp, endOf_of_parent? hs hr hp]
    by_cases hpo : p = origin
    · -- The siblings of the origin do not count, so that the walk has passed none.
      subst hpo
      simp [passed_self]
    · rw [if_neg hpo]
      cases hrp : t.right? p with
      | none => exact ih p hpk hcp (by omega) (h.structural_parent hp) hpo hrp
      | some r =>
        obtain ⟨hlt, hpassed⟩ := h.right_below hcp hpo hrp
        rw [endOf_of_right? (h.structural_parent hp) hrp, hpassed]
        exact .inr ⟨rfl, hlt⟩

end Snapshot.IsTree

namespace DescendantWalk

variable {w : DescendantWalk}

/-- The walk is inside the subtree of its origin, and remembers the siblings that it has passed. -/
structure OnCourse (w : DescendantWalk) (t : Snapshot) (origin here : Nat) : Prop where
  origin_eq : w.origin = origin
  lt_size : here < t.size
  contains : t.Contains origin here
  structural : here ≠ origin → (t.kind here).isStructural = true
  pending_eq : w.pending = t.passed origin here

theorem onCourse_origin (hk : origin < t.size) (selfDue : Bool) :
    OnCourse { origin := origin, selfDue } t origin origin :=
  ⟨rfl, hk, .refl, fun hne => absurd rfl hne, (passed_self t origin).symm⟩

/-- Where the walk goes down, it goes to the next structural node. -/
theorem OnCourse.bodyStart_lt_of_child (h : t.IsTree) (hw : w.OnCourse t origin here) {c : Nat}
    (hc : t.firstChild? here = some c) :
    c = t.bodyStart here ∧ c < t.endOf origin ∧
      t.passed origin c = (if here = origin then none else t.right? here).toList ++ w.pending := by
  have hgt := firstChild?_gt hc
  have hspec := h.firstChild?_eq_some_iff.1 hc
  have hbounds := h.bounds_of_contains hw.contains
  have hlt := (h.bodyStart_le_endOf_and_lt_endOf_parent hgt.2).2 hspec.2.1 here hspec.1
  refine ⟨h.firstChild?_eq_bodyStart hc, by omega, ?_⟩
  rw [hw.pending_eq, passed_of_parent? (by omega) hspec.1]

/-- The next descendant is the next structural node, as long as that is inside the subtree. -/
theorem OnCourse.plan_eq (h : t.IsTree) (hw : w.OnCourse t origin here) :
    w.plan t here =
      if t.bodyStart here < t.endOf origin then
        ({ w with pending := t.passed origin (t.bodyStart here) }, some (t.bodyStart here))
      else ({ w with pending := [] }, none) := by
  have hcast : ((here : Int) = w.origin) ↔ here = origin := by
    rw [hw.origin_eq]
    omega
  simp only [plan, hcast]
  cases hc : t.firstChild? here with
  | some c =>
    obtain ⟨rfl, hlt, hpassed⟩ := hw.bodyStart_lt_of_child h hc
    rw [if_pos hlt, hpassed]
  | none =>
    rw [← h.endOf_eq_bodyStart hw.lt_size hc]
    by_cases hne : here = origin
    · subst hne
      simp [hw.pending_eq, passed_self]
    · simp only [if_neg hne]
      cases hr : t.right? here with
      | some s =>
        obtain ⟨hlt, hpassed⟩ := h.right_below hw.contains hne hr
        rw [endOf_of_right? (hw.structural hne) hr, if_pos hlt, hpassed, ← hw.pending_eq]
      | none =>
        obtain ⟨hnil, hend⟩ | ⟨hcons, hlt⟩ :=
          h.passed_of_last hw.contains hw.lt_size (hw.structural hne) hne hr
        · simp [hw.pending_eq, hnil, hend]
        · simp [hw.pending_eq, hcons, hlt]

/-- The walk visits its origin first, if that is due. -/
theorem yields_self (hdone : w.done = false) (hdue : w.selfDue = true) :
    (w.advance t here).Yields w here true { w with selfDue := false } here := by
  rw [advance, hdone, hdue]
  exact (Yields.keep w _ here).bind (.done true _ here)

theorem yields_over (hdone : w.done = true) : (w.advance t here).Yields w here false w here := by
  rw [advance, hdone]
  exact .done false w here

/-- The next descendant, as long as there is one. -/
theorem OnCourse.yields_next (h : t.IsTree) (hw : w.OnCourse t origin here)
    (hdone : w.done = false) (hdue : w.selfDue = false)
    (hlt : t.bodyStart here < t.endOf origin) :
    (w.advance t here).Yields w here true
      { w with pending := t.passed origin (t.bodyStart here), done := false }
      (t.bodyStart here) := by
  have hbounds := h.endOf_le_size (k := origin) (by
    have := (h.bounds_of_contains hw.contains).1
    have := hw.lt_size
    omega)
  have hfind : t.find? (t.bodyStart here) = some (t.bodyStart here) :=
    find?_natCast (by omega)
  simp only [advance, hdone, hdue, hw.plan_eq h, if_pos hlt, Bool.false_eq_true, if_false, hfind]
  exact (Yields.keep w _ here).bind
    ((Yields.ask _ _ here).bind ((Yields.keep _ _ _).bind (.done true _ _)))

/-- After the last descendant the walk is over. -/
theorem OnCourse.yields_end (h : t.IsTree) (hw : w.OnCourse t origin here)
    (hdone : w.done = false) (hdue : w.selfDue = false)
    (hge : ¬t.bodyStart here < t.endOf origin) :
    (w.advance t here).Yields w here false { w with pending := [], done := true } here := by
  simp only [advance, hdone, hdue, hw.plan_eq h, if_neg hge, Bool.false_eq_true, if_false]
  exact (Yields.keep w _ here).bind
    ((Yields.done false _ here).bind ((Yields.keep _ _ _).bind (.done false _ _)))

theorem OnCourse.next (h : t.IsTree) (hw : w.OnCourse t origin here)
    (hlt : t.bodyStart here < t.endOf origin) :
    OnCourse { w with pending := t.passed origin (t.bodyStart here), done := false } t origin
      (t.bodyStart here) := by
  have hbounds := h.bounds_of_contains hw.contains
  have hsize := hw.lt_size
  have hend := h.endOf_le_size (k := origin) (by omega)
  have hgt := bodyStart_gt t here
  refine ⟨hw.origin_eq, by omega, h.contains_of_bounds (by omega) (by omega) hlt, fun _ => ?_, rfl⟩
  cases hs : (t.kind here).isStructural with
  | true => exact h.structural_bodyStart hsize hs (by omega)
  | false =>
    -- Only the origin itself can be owned, and then it has nothing below it.
    by_cases hne : here = origin
    · rw [← hne, endOf_of_owned hs] at hlt
      omega
    · exact absurd (hw.structural hne) (by simp [hs])

end DescendantWalk

namespace FollowingWalk

variable {w : FollowingWalk}

/-- The walk knows whether the node where it starts is owned, and has come to structural nodes
since. -/
structure OnCourse (w : FollowingWalk) (t : Snapshot) (here : Nat) : Prop where
  lt_size : here < t.size
  structural : w.started = true → (t.kind here).isStructural = true
  fromOwned_eq : w.started = false → w.fromOwned = !(t.kind here).isStructural

theorem onCourse_origin (hk : here < t.size) :
    OnCourse { fromOwned := !(t.kind here).isStructural } t here :=
  ⟨hk, fun hstarted => by simp at hstarted, fun _ => rfl⟩

/-- The place where the walk goes next, if the table goes so far: at first behind the subtree of the
origin, or behind what its owner owns, and later to the next structural node. -/
def target (w : FollowingWalk) (t : Snapshot) (here : Nat) : Nat :=
  if w.started then t.bodyStart here
  else if w.fromOwned then t.bodyStart (t.home here)
  else t.endOf here

theorem OnCourse.lt_target (h : t.IsTree) (hw : w.OnCourse t here) : here < w.target t here := by
  unfold target
  split
  · have := bodyStart_gt t here
    omega
  · split
    · rename_i hstarted howned
      have hs : (t.kind here).isStructural = false := by
        simpa [howned] using hw.fromOwned_eq (by simpa using hstarted)
      obtain ⟨p, hp, hhome⟩ := h.home_of_owned hs hw.lt_size
      rw [hhome]
      exact h.lt_bodyStart_of_owned hp hs
    · exact h.lt_endOf hw.lt_size

theorem OnCourse.yields_start (h : t.IsTree) (hw : w.OnCourse t here) (hstarted : w.started = false)
    (s : FollowingWalk) :
    (w.start t here).Yields s here (t.find? (w.target t here)).isSome s
      ((t.find? (w.target t here)).getD 0) := by
  have howned := hw.fromOwned_eq hstarted
  simp only [target, hstarted, Bool.false_eq_true, if_false, start]
  cases hs : (t.kind here).isStructural with
  | true =>
    simp only [howned, hs, Bool.not_true, Bool.false_eq_true, if_false]
    exact yields_skipSubtree h s hw.lt_size hs
  | false =>
    obtain ⟨p, hp, hhome⟩ := h.home_of_owned hs hw.lt_size
    have hpk := parent?_lt hp
    have hlt := hw.lt_size
    simp only [howned, hs, Bool.not_false, if_true, hp, hhome]
    exact (Yields.step (some p) s here).bind
      (yields_nextNode h s (by omega) (h.structural_parent hp))

/-- The next node that follows is the target, if the table goes so far. -/
theorem OnCourse.yields_next (h : t.IsTree) (hw : w.OnCourse t here) (hdone : w.done = false) :
    (w.advance t here).Yields w here (t.find? (w.target t here)).isSome
      { w with started := true, done := !(t.find? (w.target t here)).isSome }
      ((t.find? (w.target t here)).getD 0) := by
  rw [advance, hdone]
  refine (Yields.keep w _ here).bind ?_
  cases hstarted : w.started with
  | true =>
    have hmove := yields_nextNode h { w with started := true, done := false } hw.lt_size
      (hw.structural hstarted)
    simp only [target, hstarted, if_true]
    exact hmove.bind ((Yields.keep _ _ _).bind (.done _ _ _))
  | false => exact (hw.yields_start h hstarted _).bind ((Yields.keep _ _ _).bind (.done _ _ _))

theorem yields_over (hdone : w.done = true) : (w.advance t here).Yields w here false w here := by
  rw [advance, hdone]
  exact .done false w here

theorem OnCourse.next (h : t.IsTree) (hw : w.OnCourse t here) (hlt : w.target t here < t.size)
    (done : Bool) : OnCourse { w with started := true, done } t (w.target t here) := by
  refine ⟨hlt, fun _ => ?_, by simp⟩
  unfold target at hlt ⊢
  split at hlt
  · rename_i hstarted
    rw [if_pos hstarted]
    exact h.structural_bodyStart hw.lt_size (hw.structural hstarted) hlt
  · rename_i hstarted
    have howned := hw.fromOwned_eq (by simpa using hstarted)
    rw [if_neg hstarted]
    cases hs : (t.kind here).isStructural with
    | true =>
      simp only [howned, hs, Bool.not_true, Bool.false_eq_true, if_false] at hlt ⊢
      exact h.structural_endOf hw.lt_size hs hlt
    | false =>
      obtain ⟨p, hp, hhome⟩ := h.home_of_owned hs hw.lt_size
      have hpk := parent?_lt hp
      have hsize := hw.lt_size
      simp only [howned, hs, Bool.not_false, if_true, hhome] at hlt ⊢
      exact h.structural_bodyStart (by omega) (h.structural_parent hp) hlt

end FollowingWalk

end DocTree
