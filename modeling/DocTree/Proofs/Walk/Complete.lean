import DocTree.Proofs.Walk.Order

/-!
# Walks that leave nothing out

What a walk in document order has still to visit can be told in advance from its state and the place
of the cursor. Each visit goes to a node that is due and leaves all others due, and the walk is over
only when nothing is due any more. So its route has just what was due at the origin.

## Main definitions

- `Covers` — a visit that leaves nothing out
- `DescendantWalk.Due`, `FollowingWalk.Due`, `PrecedingWalk.Due` — what is still to be visited

## Main statements

- `Route.mem_iff` — the route of a walk whose visits leave nothing out
- `Snapshot.IsTree.inside_iff` — what is strictly inside a node
- `DescendantWalk.mem_route`, `FollowingWalk.mem_route`, `PrecedingWalk.mem_route` — the routes from
  an origin
-/

namespace DocTree

open Reading Snapshot

variable {t : Snapshot} {here k : Nat} {ks : List Nat}

section Covers

variable {σ : Type} {walk : σ → Walk} {course : σ → Nat → Prop} {due : σ → Nat → Nat → Prop}

/-- Undisturbed, the walk `w` at `here` goes to a node that is due, and is on course there with all
others still due; or nothing is due and it is over. -/
def Covers (t : Snapshot) (walk : σ → Walk) (course : σ → Nat → Prop) (due : σ → Nat → Nat → Prop)
    (w : σ) (here : Nat) : Prop :=
  ∃ moved w' m, ((walk w).advance t here).Yields (walk w) here moved (walk w') m ∧
    (moved = true → course w' m ∧ ∀ j, due w here j ↔ j = m ∨ due w' m j) ∧
    (moved = false → ∀ j, ¬due w here j)

/-- If no visit leaves anything out, the route has just what is due. -/
theorem Route.mem_iff (hcovers : ∀ w here, course w here → Covers t walk course due w here) {w : σ}
    (hroute : Route t (walk w) here ks) (hw : course w here) (j : Nat) :
    j ∈ ks ↔ due w here j := by
  generalize hwalk : walk w = v at hroute
  induction hroute generalizing w with
  | stop hstop =>
    subst hwalk
    obtain ⟨moved, w', m, hyields, -, hover⟩ := hcovers w _ hw
    obtain ⟨rfl, -, -⟩ := hstop.unique hyields
    simp [hover rfl j]
  | visit hvisit rest ih =>
    subst hwalk
    obtain ⟨moved, w', m, hyields, hmoved, -⟩ := hcovers w _ hw
    obtain ⟨rfl, rfl, rfl⟩ := hvisit.unique hyields
    obtain ⟨hw', hdue⟩ := hmoved rfl
    rw [List.mem_cons, ih hw' rfl, hdue]

end Covers

/-- The structural nodes after a node are not before its body. -/
theorem Snapshot.IsTree.bodyStart_le_of_structural (h : t.IsTree) {j : Nat} (hj : here < j)
    (hs : (t.kind j).isStructural = true) : t.bodyStart here ≤ j := by
  by_contra hlt
  exact h.not_structural_between hj (by omega) hs

/-- The structural nodes strictly inside a node are those from its body to its end. -/
theorem Snapshot.IsTree.inside_iff (h : t.IsTree) (hk : k < t.size) {j : Nat}
    (hs : (t.kind j).isStructural = true) :
    t.Contains k j ∧ j ≠ k ↔ t.bodyStart k ≤ j ∧ j < t.endOf k := by
  have hend := h.endOf_le_size hk
  have hgt := bodyStart_gt t k
  constructor
  · rintro ⟨hc, hne⟩
    have hj := lt_size_of_contains hk hc
    have hbounds := (h.contains_iff hj).1 hc
    exact ⟨h.bodyStart_le_of_structural (by omega) hs, hbounds.2⟩
  · rintro ⟨hle, hlt⟩
    exact ⟨h.contains_of_bounds (by omega) (by omega) hlt, by omega⟩

namespace DescendantWalk

variable {w : DescendantWalk} {origin : Nat}

/-- The nodes that the walk has still to visit: what comes after the cursor in the subtree of its
origin, and first the origin itself if that is due. -/
def Due (t : Snapshot) (origin : Nat) (w : DescendantWalk) (here j : Nat) : Prop :=
  (w.selfDue = true ∧ j = here) ∨
    (here < j ∧ j < t.endOf origin ∧ (t.kind j).isStructural = true)

theorem covers (h : t.IsTree) (hw : w.done = false ∧ w.OnCourse t origin here) :
    Covers t .descendants (fun w here => w.done = false ∧ w.OnCourse t origin here) (Due t origin)
      w here := by
  obtain ⟨hdone, hcourse⟩ := hw
  by_cases hdue : w.selfDue = true
  · have hcourse' : OnCourse { w with selfDue := false } t origin here := { hcourse with }
    refine ⟨true, _, here, (yields_self hdone hdue).mapNotes Walk.descendants,
      fun _ => ⟨⟨hdone, hcourse'⟩, fun j => ?_⟩, by simp⟩
    simp [Due, hdue]
  · have hnot : w.selfDue = false := by simpa using hdue
    by_cases hlt : t.bodyStart here < t.endOf origin
    · have hgt := bodyStart_gt t here
      have hnext := hcourse.next h hlt
      have horigin := (h.bounds_of_contains hcourse.contains).1
      have hs := hnext.structural (by omega)
      refine ⟨true, _, _, (hcourse.yields_next h hdone hnot hlt).mapNotes Walk.descendants,
        fun _ => ⟨⟨rfl, hnext⟩, fun j => ?_⟩, by simp⟩
      simp only [Due, hnot, Bool.false_eq_true, false_and, false_or]
      constructor
      · rintro ⟨hj, hend, hjs⟩
        have hle := h.bodyStart_le_of_structural hj hjs
        by_cases heq : j = t.bodyStart here
        · exact .inl heq
        · exact .inr ⟨by omega, hend, hjs⟩
      · rintro (rfl | ⟨hj, hend, hjs⟩)
        · exact ⟨hgt, hlt, hs⟩
        · exact ⟨by omega, hend, hjs⟩
    · refine ⟨false, _, _, (hcourse.yields_end h hdone hnot hlt).mapNotes Walk.descendants,
        by simp, fun _ j => ?_⟩
      rintro (⟨hself, -⟩ | ⟨hj, hend, hjs⟩)
      · exact hdue hself
      · have hle := h.bodyStart_le_of_structural hj hjs
        omega

/-- The route through a subtree has the structural nodes strictly inside it. -/
theorem mem_route (h : t.IsTree) (hk : k < t.size)
    (hroute : Route t (.descendants { origin := k, selfDue := false }) k ks) (j : Nat) :
    j ∈ ks ↔ (t.kind j).isStructural = true ∧ t.Contains k j ∧ j ≠ k := by
  rw [hroute.mem_iff (fun _ _ hw => covers h hw) ⟨rfl, onCourse_origin hk false⟩]
  have hgt := bodyStart_gt t k
  simp only [Due, Bool.false_eq_true, false_and, false_or]
  constructor
  · rintro ⟨hkj, hend, hjs⟩
    exact ⟨hjs, (h.inside_iff hk hjs).2 ⟨h.bodyStart_le_of_structural hkj hjs, hend⟩⟩
  · rintro ⟨hjs, hinside⟩
    have hbounds := (h.inside_iff hk hjs).1 hinside
    exact ⟨by omega, hbounds.2, hjs⟩

end DescendantWalk

namespace FollowingWalk

variable {w : FollowingWalk}

/-- The nodes that the walk has still to visit: the structural ones from its target on. -/
def Due (t : Snapshot) (w : FollowingWalk) (here j : Nat) : Prop :=
  w.target t here ≤ j ∧ j < t.size ∧ (t.kind j).isStructural = true

theorem covers (h : t.IsTree) (hw : w.done = false ∧ w.OnCourse t here) :
    Covers t .following (fun w here => w.done = false ∧ w.OnCourse t here) (Due t) w here := by
  obtain ⟨hdone, hcourse⟩ := hw
  have hyields := (hcourse.yields_next h hdone).mapNotes Walk.following
  by_cases hlt : w.target t here < t.size
  · have hnext := hcourse.next h hlt false
    rw [find?_natCast hlt] at hyields
    refine ⟨true, _, _, hyields, fun _ => ⟨⟨rfl, hnext⟩, fun j => ?_⟩, by simp⟩
    have hbody : target { w with started := true, done := false } t (w.target t here) =
        t.bodyStart (w.target t here) := rfl
    have hgt := bodyStart_gt t (w.target t here)
    simp only [Due, Option.isSome_some, Bool.not_true, Option.getD_some, hbody]
    constructor
    · rintro ⟨hle, hj, hjs⟩
      by_cases heq : j = w.target t here
      · exact .inl heq
      · exact .inr ⟨h.bodyStart_le_of_structural (by omega) hjs, hj, hjs⟩
    · rintro (rfl | ⟨hle, hj, hjs⟩)
      · exact ⟨Nat.le_refl _, hlt, hnext.structural rfl⟩
      · exact ⟨by omega, hj, hjs⟩
  · rw [find?_of_le (Nat.le_of_not_lt hlt)] at hyields
    refine ⟨false, _, _, hyields, by simp, fun _ j => ?_⟩
    rintro ⟨hle, hj, -⟩
    omega

/-- The route has the structural nodes after the origin that are not inside its subtree. -/
theorem mem_route (h : t.IsTree) (hk : k < t.size)
    (hroute : Route t (.following { fromOwned := !(t.kind k).isStructural }) k ks) (j : Nat) :
    j ∈ ks ↔ k < j ∧ j < t.size ∧ (t.kind j).isStructural = true ∧ ¬t.Contains k j := by
  rw [hroute.mem_iff (fun _ _ hw => covers h hw) ⟨rfl, onCourse_origin hk⟩]
  have hend := h.lt_endOf hk
  by_cases hs : (t.kind k).isStructural = true
  · have htarget : target { fromOwned := !(t.kind k).isStructural } t k = t.endOf k := by
      simp [target, hs]
    rw [Due, htarget]
    constructor
    · rintro ⟨hle, hj, hjs⟩
      refine ⟨by omega, hj, hjs, fun hc => ?_⟩
      have hbounds := (h.contains_iff hj).1 hc
      omega
    · rintro ⟨hkj, hj, hjs, hc⟩
      refine ⟨?_, hj, hjs⟩
      by_contra hlt
      exact hc (h.contains_of_bounds hj (by omega) (by omega))
  · -- The content of the owner begins after all that is owned, and nothing is inside of it.
    have howned : (t.kind k).isStructural = false := by simpa using hs
    obtain ⟨p, hp, hhome⟩ := h.home_of_owned howned hk
    have hpk := parent?_lt hp
    have hbody := h.lt_bodyStart_of_owned hp howned
    have htarget : target { fromOwned := !(t.kind k).isStructural } t k = t.bodyStart p := by
      simp [target, howned, hhome]
    rw [Due, htarget]
    constructor
    · rintro ⟨hle, hj, hjs⟩
      have hkj : k < j := by omega
      exact ⟨hkj, hj, hjs, fun hc => Nat.ne_of_lt hkj (h.eq_of_contains_owned howned hc)⟩
    · rintro ⟨hkj, hj, hjs, -⟩
      exact ⟨h.bodyStart_le_of_structural (by omega) hjs, hj, hjs⟩

end FollowingWalk

namespace PrecedingWalk

variable {w : PrecedingWalk}

/-- The nodes that the walk has still to visit: the structural ones in front of the cursor. If
ancestors are left out, these are at first those of the origin, and then those that were noted. -/
def Due (t : Snapshot) (w : PrecedingWalk) (here j : Nat) : Prop :=
  j < here ∧ (t.kind j).isStructural = true ∧
    (w.withAncestors = true ∨ if w.started then j ∉ w.ancestors else ¬t.Contains j here)

theorem skips_eq_false_iff (w : PrecedingWalk) (j : Nat) :
    w.skips j = false ↔ w.withAncestors = true ∨ j ∉ w.ancestors := by
  by_cases hwanted : w.withAncestors = true
  · simp [skips, hwanted]
  · simp [skips, hwanted]

theorem covers (h : t.IsTree)
    (hw : w.done = false ∧ w.OnCourse t here ∧ (w.started = false → w.ancestors = [])) :
    Covers t .preceding (fun w here => w.done = false ∧ w.OnCourse t here ∧
      (w.started = false → w.ancestors = [])) (Due t) w here := by
  obtain ⟨hdone, hcourse, hfresh⟩ := hw
  obtain ⟨noted, found, hnoted, hfound, hyields⟩ := hcourse.yields_advance h hdone
  have hdue : ∀ j, Due t w here j ↔ j < here ∧ (t.kind j).isStructural = true ∧
      skips { w with ancestors := noted } j = false := by
    intro j
    rw [Due, skips_eq_false_iff]
    refine and_congr_right fun hj => and_congr_right fun _ => or_congr_right ?_
    by_cases hstarted : w.started = true
    · simp [hstarted, hnoted]
    · have hnot : w.started = false := by simpa using hstarted
      simp [hnot, hnoted, hfresh hnot, Nat.ne_of_lt hj]
  have hall : ∀ j ∈ noted, j < here → t.Contains j here :=
    fun j hj hlt => ((hnoted j).1 hj).elim (hcourse.noted j · hlt) fun hclimbed => hclimbed.2.1
  cases found with
  | some m =>
    obtain ⟨hm, hms, hskip, hlast⟩ := hfound
    refine ⟨true, _, m, hyields.mapNotes Walk.preceding, fun _ => ⟨⟨rfl, ?_, by simp⟩, fun j => ?_⟩,
      by simp⟩
    · exact .of_started rfl (Nat.lt_trans hm hcourse.lt_size) hms
        (noted_of_lt h hcourse.lt_size hm hall)
    · rw [hdue]
      have hdue' : Due t { w with started := true, ancestors := noted, done := !(some m).isSome } m j ↔
          j < m ∧ (t.kind j).isStructural = true ∧
            skips { w with ancestors := noted } j = false := by
        rw [Due, skips_eq_false_iff]
        rfl
      rw [hdue']
      constructor
      · rintro ⟨hj, hjs, hjskip⟩
        rcases Nat.lt_trichotomy j m with hjm | rfl | hmj
        · exact .inr ⟨hjm, hjs, hjskip⟩
        · exact .inl rfl
        · rw [hlast j hmj hj hjs] at hjskip
          cases hjskip
      · rintro (rfl | ⟨hjm, hjs, hjskip⟩)
        · exact ⟨hm, hms, hskip⟩
        · exact ⟨Nat.lt_trans hjm hm, hjs, hjskip⟩
  | none =>
    refine ⟨false, _, _, hyields.mapNotes Walk.preceding, by simp, fun _ j hj => ?_⟩
    obtain ⟨hlt, hjs, hskip⟩ := (hdue j).1 hj
    rw [hfound j hlt hjs] at hskip
    cases hskip

/-- The route of a walk that is under way has what the walk does not skip. -/
theorem OnCourse.mem_route_iff (h : t.IsTree) (hw : w.OnCourse t here) (hstarted : w.started = true)
    (hdone : w.done = false) (hroute : Route t (.preceding w) here ks) (j : Nat) :
    j ∈ ks ↔ j < here ∧ (t.kind j).isStructural = true ∧ w.skips j = false := by
  rw [hroute.mem_iff (fun _ _ hw => covers h hw) ⟨hdone, hw, by simp [hstarted]⟩, Due,
    skips_eq_false_iff, hstarted]
  rfl

/-- The route has the structural nodes in front of the origin, with its ancestors or without them. -/
theorem mem_route (h : t.IsTree) (hk : k < t.size) {withAncestors : Bool}
    (hroute : Route t
      (.preceding { fromOwned := !(t.kind k).isStructural, withAncestors }) k ks) (j : Nat) :
    j ∈ ks ↔ j < k ∧ (t.kind j).isStructural = true ∧
      (withAncestors = true ∨ ¬t.Contains j k) :=
  hroute.mem_iff (fun _ _ hw => covers h hw) ⟨rfl, onCourse_origin hk withAncestors, fun _ => rfl⟩ j

end PrecedingWalk

end DocTree
