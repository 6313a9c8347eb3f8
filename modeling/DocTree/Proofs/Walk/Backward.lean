import DocTree.Proofs.Layout.Subtree
import DocTree.Proofs.Reading.Granted
import DocTree.Walk.Backward

/-!
# Walks backward in document order, undisturbed

The structural node before a node is the last one of the subtree to its left, or its parent if there
is nothing to the left. Going from one to the other and leaving out some of the ancestors, the cursor
comes to the last node before that is not left out. What a walk leaves out it has met on the climb
with which it starts, and all of that contains the cursor as long as it is in front of it.

## Main definitions

- `Snapshot.LastBefore` — the last structural node before a place that is not left out
- `PrecedingWalk.OnCourse` — what the walk leaves out contains the cursor

## Main statements

- `yields_stepBack` — a step backward goes to the last node before
- `PrecedingWalk.OnCourse.yields_advance` — and so does every visit of the walk
-/

namespace DocTree

open Reading Snapshot

variable {t : Snapshot} {σ : Type} {here k p : Nat}

theorem sink_of_right? {r : Nat} (hr : t.right? here = some r) :
    sink (σ := σ) t here true =
      (do if ← .step (some r) then sink t r true else sink t here false) := by
  rw [sink, if_pos rfl]
  split <;> simp_all

theorem sink_of_last (hr : t.right? here = none) :
    sink (σ := σ) t here true = sink t here false := by
  rw [sink, if_pos rfl]
  split <;> simp_all

theorem sink_of_firstChild? {c : Nat} (hc : t.firstChild? here = some c) :
    sink (σ := σ) t here false = (do if ← .step (some c) then sink t c true) := by
  rw [sink, if_neg (by decide)]
  split <;> simp_all

theorem sink_of_childless (hc : t.firstChild? here = none) :
    sink (σ := σ) t here false = .done () := by
  rw [sink, if_neg (by decide)]
  split <;> simp_all

/-- The cursor goes down to the last node of a subtree: to one that has nothing below it and ends
where the subtree does, or, sideways, where the parent does. -/
theorem yields_sink (h : t.IsTree) (s : σ) (hk : here < t.size)
    (hs : (t.kind here).isStructural = true) (sideways : Bool) (e : Nat)
    (he : if sideways then (t.parent? here).map t.endOf = some e else t.endOf here = e) :
    ∃ m, (sink t here sideways).Yields s here () s m ∧ here ≤ m ∧ m < t.size ∧
      (t.kind m).isStructural = true ∧ t.bodyStart m = e := by
  induction here, sideways using sink.induct t with
  | case1 here r hr ih _ =>
    simp only [if_true] at he ih
    have hgt := right?_gt hr
    have hspec := h.right?_spec hr
    obtain ⟨m, hm, hle, hlast⟩ := ih hgt.2 hspec.2.2 (by rw [hspec.1, he])
    rw [sink_of_right? hr]
    exact ⟨m, (Yields.step (some r) s here).bind hm, by omega, hlast⟩
  | case2 here hr ih =>
    -- The last sibling ends where the parent does.
    simp only [if_true] at he
    obtain ⟨p, hp, hpe⟩ := Option.map_eq_some_iff.1 he
    rw [sink_of_last hr]
    exact ih hk hs (by simpa [endOf_of_parent? hs hr hp] using hpe)
  | case3 here sideways hside c hc ih =>
    obtain rfl : sideways = false := by simpa using hside
    simp only [Bool.false_eq_true, if_false, if_true] at he ih
    have hgt := firstChild?_gt hc
    have hspec := h.firstChild?_eq_some_iff.1 hc
    obtain ⟨m, hm, hle, hlast⟩ := ih hgt.2 hspec.2.1 (by rw [hspec.1, Option.map_some, he])
    rw [sink_of_firstChild? hc]
    exact ⟨m, (Yields.step (some c) s here).bind hm, by omega, hlast⟩
  | case4 here sideways hside hc =>
    obtain rfl : sideways = false := by simpa using hside
    simp only [Bool.false_eq_true, if_false] at he
    rw [sink_of_childless hc]
    exact ⟨here, .done () s here, Nat.le_refl _, hk, hs, by rw [← he, h.endOf_eq_bodyStart hk hc]⟩

/-- The last structural node before `k` that is not skipped, if there is one. -/
def Snapshot.LastBefore (t : Snapshot) (skips : Nat → Bool) (k : Nat) : Option Nat → Prop
  | some m => m < k ∧ (t.kind m).isStructural = true ∧ skips m = false ∧
      ∀ j, m < j → j < k → (t.kind j).isStructural = true → skips j = true
  | none => ∀ j < k, (t.kind j).isStructural = true → skips j = true

/-- There is no structural node between a node and where its body starts. -/
theorem Snapshot.IsTree.not_structural_between (h : t.IsTree) {j : Nat} (hj : p < j)
    (hjb : j < t.bodyStart p) : ¬(t.kind j).isStructural = true := by
  simp [(h.owned_of_lt_bodyStart hj hjb).1]

/-- What comes last before a node that is skipped also comes last before its first child. -/
theorem Snapshot.LastBefore.of_parent {skips : Nat → Bool} {found : Option Nat}
    (hfound : t.LastBefore skips p found) (h : t.IsTree) (hpk : p < k) (hk : k ≤ t.bodyStart p)
    (hskip : skips p = true) : t.LastBefore skips k found := by
  have hbetween : ∀ j, j < k → (t.kind j).isStructural = true → j < p ∨ skips j = true := by
    intro j hjk hjs
    rcases Nat.lt_trichotomy j p with hjp | rfl | hpj
    · exact .inl hjp
    · exact .inr hskip
    · exact absurd hjs (h.not_structural_between hpj (by omega))
  cases found with
  | none => exact fun j hjk hjs => (hbetween j hjk hjs).elim (hfound j · hjs) id
  | some m =>
    obtain ⟨hmp, hms, hmskip, hlast⟩ := hfound
    exact ⟨by omega, hms, hmskip,
      fun j hmj hjk hjs => (hbetween j hjk hjs).elim (hlast j hmj · hjs) id⟩

/-- If only nodes that contain the cursor are skipped, nothing in the subtree to the left is. -/
theorem Snapshot.IsTree.not_skips_of_left (h : t.IsTree) {skips : Nat → Bool}
    (hskips : ∀ j < here, skips j = true → t.Contains j here) {l m : Nat}
    (hl : t.left? here = some l) (hle : l ≤ m) (hm : m < here) : skips m = false := by
  by_contra hskip
  have hspec := h.right?_spec (h.right?_eq_some_iff.2 hl)
  obtain ⟨p, hp⟩ := h.exists_parent (lt_size_of_left? hl) (by omega)
  -- What contains the cursor and is in front of it contains its parent, which is further left.
  have hmp := (h.bounds_of_contains
    (contains_parent (hskips m hm (by simpa using hskip)) (by omega) hp)).1
  have hpl := parent?_lt (hspec.1.symm.trans hp)
  omega

/-- If only nodes that contain the cursor are skipped, a step backward goes to the last node before
that is not skipped. -/
theorem yields_stepBack (h : t.IsTree) (s : σ) (skips : Nat → Bool) (hk : here < t.size)
    (hs : (t.kind here).isStructural = true)
    (hskips : ∀ j < here, skips j = true → t.Contains j here) :
    ∃ found, t.LastBefore skips here found ∧
      (stepBack t skips here).Yields s here found.isSome s (found.getD 0) := by
  induction here using Nat.strongRecOn with
  | ind here ih =>
    rw [stepBack]
    cases hl : t.left? here with
    | some l =>
      have hlk := left?_lt hl
      have hspec := h.right?_spec (h.right?_eq_some_iff.2 hl)
      obtain ⟨m, hm, hle, hsize, hms, hbody⟩ := yields_sink h s (by omega) hspec.2.1 false here
        (by simpa using h.endOf_left hl)
      have hgt := bodyStart_gt t m
      refine ⟨some m, ⟨by omega, hms, h.not_skips_of_left hskips hl hle (by omega),
        fun j hmj hj hjs => ?_⟩, ?_⟩
      · exact absurd hjs (h.not_structural_between hmj (by omega))
      · exact (Yields.step (some l) s here).bind (hm.bind (.done true s m))
    | none =>
      dsimp only
      split
      · rename_i p hp
        have hpk := parent?_lt hp
        have hbody := h.firstChild?_eq_bodyStart (h.firstChild?_eq_some_iff.2 ⟨hp, hs, hl⟩)
        cases hskip : skips p with
        | false =>
          refine ⟨some p, ⟨hpk, h.structural_parent hp, hskip, fun j hpj hj hjs => ?_⟩, ?_⟩
          · exact absurd hjs (h.not_structural_between hpj (by omega))
          · refine (Yields.step (some p) s here).bind ?_
            simpa [hskip] using Yields.done true s p
        | true =>
          -- Between the parent and its first child there is nothing to visit.
          obtain ⟨found, hfound, hyields⟩ := ih p hpk (by omega) (h.structural_parent hp)
            fun j hj hskips' => IsTree.contains_parent (hskips j (by omega) hskips') (by omega) hp
          refine ⟨found, hfound.of_parent h hpk (by omega) hskip, ?_⟩
          refine (Yields.step (some p) s here).bind ?_
          simpa [hskip] using hyields
      · rename_i hp
        obtain rfl := (h.parent?_eq_none_iff hk).1 hp
        exact ⟨none, fun j hj => absurd hj (Nat.not_lt_zero j), .done false s 0⟩

namespace PrecedingWalk

variable {w : PrecedingWalk}

/-- The walk after it has climbed from `here`: the ancestors of that node are noted, too. -/
theorem yields_climb (w : PrecedingWalk) (t : Snapshot) (here : Nat) :
    ∃ noted top, (w.climb t here).Yields w here { w with ancestors := noted }
        { w with ancestors := noted } top ∧
      ∀ j, j ∈ noted ↔ j ∈ w.ancestors ∨ (t.Contains j here ∧ j ≠ here) := by
  induction here using Nat.strongRecOn generalizing w with
  | ind here ih =>
    rw [climb]
    split
    · rename_i p hp
      obtain ⟨noted, top, hyields, hnoted⟩ :=
        ih p (parent?_lt hp) { w with ancestors := p :: w.ancestors }
      refine ⟨noted, top, (Yields.step (some p) w here).bind ((Yields.keep _ _ p).bind hyields), ?_⟩
      intro j
      rw [hnoted, List.mem_cons, IsTree.contains_parent_iff hp]
      by_cases hjp : j = p
      · subst hjp
        simp [show t.Contains j j from .refl]
      · simp [hjp]
    · rename_i hp
      refine ⟨w.ancestors, here, .done w w here, fun j => ⟨.inl, ?_⟩⟩
      rintro (hmem | ⟨hc, hne⟩)
      · exact hmem
      · exact absurd (eq_of_contains hp hc) hne

/-- What the walk leaves out contains the cursor, as far as it is in front of it. Before it has
started, it knows whether its origin is owned. -/
structure OnCourse (w : PrecedingWalk) (t : Snapshot) (here : Nat) : Prop where
  lt_size : here < t.size
  structural : w.started = true → (t.kind here).isStructural = true
  fromOwned_eq : w.started = false → w.fromOwned = !(t.kind here).isStructural
  noted : ∀ j ∈ w.ancestors, j < here → t.Contains j here

theorem onCourse_origin (hk : here < t.size) (withAncestors : Bool) :
    OnCourse { fromOwned := !(t.kind here).isStructural, withAncestors } t here :=
  ⟨hk, fun hstarted => by simp at hstarted, fun _ => rfl, List.forall_mem_nil _⟩

theorem OnCourse.of_started (hstarted : w.started = true) (hk : here < t.size)
    (hs : (t.kind here).isStructural = true)
    (hnoted : ∀ j ∈ w.ancestors, j < here → t.Contains j here) : w.OnCourse t here :=
  ⟨hk, fun _ => hs, fun hnot => by simp [hstarted] at hnot, hnoted⟩

/-- Undisturbed, the walk comes to a node in front of `limit` and stays on course, or it is over. -/
def Visits (r : Reading PrecedingWalk Bool) (w : PrecedingWalk) (t : Snapshot)
    (here limit : Nat) : Prop :=
  ∃ moved w' m, r.Yields w here moved w' m ∧
    (moved = true → m < limit ∧ w'.OnCourse t m ∧ w'.started = true ∧ w'.done = false)

/-- What contains a node contains all nodes before it that are not before what contains it. -/
theorem noted_of_lt (h : t.IsTree) {noted : List Nat} {m : Nat} (hk : here < t.size) (hm : m < here)
    (hnoted : ∀ j ∈ noted, j < here → t.Contains j here) :
    ∀ j ∈ noted, j < m → t.Contains j m := by
  intro j hj hjm
  have hbounds := (h.contains_iff hk).1 (hnoted j hj (by omega))
  exact h.contains_of_bounds (by omega) (by omega) (by omega)

/-- Whether the walk goes past a node, which is one of the ancestors then. -/
def skips (w : PrecedingWalk) (p : Nat) : Bool := !w.withAncestors && w.ancestors.contains p

/-- A visit goes to the last node before that the walk does not go past. -/
theorem yields_goBack (h : t.IsTree) (hk : here < t.size) (hs : (t.kind here).isStructural = true)
    (hnoted : ∀ j ∈ w.ancestors, j < here → t.Contains j here) :
    ∃ found, t.LastBefore w.skips here found ∧
      (w.goBack t here).Yields w here found.isSome { w with done := !found.isSome }
        (found.getD 0) := by
  obtain ⟨found, hfound, hyields⟩ := yields_stepBack h w w.skips hk hs
    (fun j hj hskips => hnoted j (by simpa using (Bool.and_eq_true_iff.1 hskips).2) hj)
  exact ⟨found, hfound, hyields.bind ((Yields.keep _ _ _).bind (.done _ _ _))⟩

/-- The first visit, once the cursor is on a structural node: the owner itself, if it is wanted, or
the node before it. -/
theorem yields_startAt (h : t.IsTree) (hdone : w.done = false) (hk : here < t.size)
    (hs : (t.kind here).isStructural = true)
    (hnoted : ∀ j ∈ w.ancestors, j < here → t.Contains j here) :
    ∃ noted found, (∀ j, j ∈ noted ↔ j ∈ w.ancestors ∨ (t.Contains j here ∧ j ≠ here)) ∧
      (if w.fromOwned && w.withAncestors then found = some here
        else t.LastBefore (skips { w with ancestors := noted }) here found) ∧
      (w.startAt t here).Yields w here found.isSome
        { w with ancestors := noted, done := !found.isSome } (found.getD 0) := by
  obtain ⟨noted, top, hclimb, hclimbed⟩ := w.yields_climb t here
  have hall : ∀ j ∈ noted, j < here → t.Contains j here :=
    fun j hj hlt => ((hclimbed j).1 hj).elim (hnoted j · hlt) And.left
  cases howner : w.fromOwned && w.withAncestors with
  | true =>
    have hstay := Yields.done true { w with ancestors := noted } here
    simp only [hdone] at hstay
    refine ⟨noted, some here, hclimbed, rfl,
      hclimb.bind ((Yields.ask (some here) _ top).bind ?_)⟩
    simpa [howner, hdone] using hstay
  | false =>
    obtain ⟨found, hfound, hyields⟩ :=
      yields_goBack (w := { w with ancestors := noted }) h hk hs hall
    refine ⟨noted, found, hclimbed, hfound,
      hclimb.bind ((Yields.ask (some here) _ top).bind ?_)⟩
    simpa [howner] using hyields

/-- The first visit goes to the last node before that the walk does not go past, too. The owner of an
attribute or a declaration counts as an ancestor. -/
theorem yields_start (h : t.IsTree) (hdone : w.done = false) (hk : here < t.size)
    (howned : w.fromOwned = !(t.kind here).isStructural)
    (hnoted : ∀ j ∈ w.ancestors, j < here → t.Contains j here) :
    ∃ noted found, (∀ j, j ∈ noted ↔ j ∈ w.ancestors ∨ (t.Contains j here ∧ j ≠ here)) ∧
      t.LastBefore (skips { w with ancestors := noted }) here found ∧
      (w.start t here).Yields w here found.isSome
        { w with ancestors := noted, done := !found.isSome } (found.getD 0) := by
  cases hs : (t.kind here).isStructural with
  | true =>
    have hnot : w.fromOwned = false := by simp [howned, hs]
    obtain ⟨noted, found, hclimbed, hfound, hyields⟩ := yields_startAt h hdone hk hs hnoted
    refine ⟨noted, found, hclimbed, ?_, ?_⟩
    · simpa [hnot] using hfound
    · simpa [start, hnot] using hyields
  | false =>
    have hyes : w.fromOwned = true := by simp [howned, hs]
    obtain ⟨p, hp, -⟩ := h.home_of_owned hs hk
    have hpk := parent?_lt hp
    have hbody := h.lt_bodyStart_of_owned hp hs
    have hnotedp : ∀ j ∈ p :: w.ancestors, j < p → t.Contains j p := by
      intro j hj hjp
      rcases List.mem_cons.1 hj with rfl | hj
      · exact .refl
      · exact IsTree.contains_parent (hnoted j hj (by omega)) (by omega) hp
    obtain ⟨noted, found, hclimbed, hfound, hyields⟩ :=
      yields_startAt (w := { w with ancestors := p :: w.ancestors }) h hdone (by omega)
        (h.structural_parent hp) hnotedp
    refine ⟨noted, found, ?noted, ?found, ?yields⟩
    case noted =>
      intro j
      rw [hclimbed, List.mem_cons, IsTree.contains_parent_iff hp]
      by_cases hjp : j = p
      · subst hjp
        simp [show t.Contains j j from .refl]
      · simp [hjp]
    case found =>
      by_cases hwanted : w.withAncestors = true
      · -- Between the owner and what it owns there is nothing to visit.
        obtain rfl : found = some p := by simpa [hyes, hwanted] using hfound
        refine ⟨hpk, h.structural_parent hp, by simp [skips, hwanted], fun j hpj hj hjs => ?_⟩
        exact absurd hjs (h.not_structural_between hpj (by omega))
      · have hpast : p ∈ noted := (hclimbed p).2 (.inl List.mem_cons_self)
        have hlast : t.LastBefore (skips { w with ancestors := noted }) p found := by
          simpa only [hwanted, Bool.and_false, Bool.false_eq_true, if_false] using hfound
        exact hlast.of_parent h hpk (by omega) (by simp [skips, hwanted, hpast])
    case yields =>
      rw [start, if_pos hyes]
      simp only [hp]
      exact (Yields.step (some p) w here).bind ((Yields.keep _ _ p).bind hyields)

/-- Every visit goes to the last node before that the walk does not go past. With the first one, the
ancestors of the origin are noted. -/
theorem OnCourse.yields_advance (h : t.IsTree) (hw : w.OnCourse t here) (hdone : w.done = false) :
    ∃ noted found, (∀ j, j ∈ noted ↔
        j ∈ w.ancestors ∨ (w.started = false ∧ t.Contains j here ∧ j ≠ here)) ∧
      t.LastBefore (skips { w with ancestors := noted }) here found ∧
      (w.advance t here).Yields w here found.isSome
        { w with started := true, ancestors := noted, done := !found.isSome } (found.getD 0) := by
  cases hstarted : w.started with
  | true =>
    obtain ⟨found, hfound, hyields⟩ :=
      yields_goBack h hw.lt_size (hw.structural hstarted) hw.noted
    refine ⟨w.ancestors, found, by simp, hfound, ?_⟩
    rw [advance, if_neg (by simp [hdone]), if_pos hstarted, ← hstarted]
    exact hyields
  | false =>
    obtain ⟨noted, found, hnoted, hfound, hyields⟩ := yields_start
      (w := { w with started := true }) h hdone hw.lt_size (hw.fromOwned_eq hstarted) hw.noted
    refine ⟨noted, found, by simpa using hnoted, hfound, ?_⟩
    rw [advance, if_neg (by simp [hdone]), if_neg (by simp [hstarted])]
    exact (Yields.keep w _ here).bind hyields

/-- Every visit goes backward. -/
theorem OnCourse.visits_advance (h : t.IsTree) (hw : w.OnCourse t here) (hdone : w.done = false) :
    Visits (w.advance t here) w t here here := by
  obtain ⟨noted, found, hnoted, hfound, hyields⟩ := hw.yields_advance h hdone
  refine ⟨_, _, _, hyields, fun hmoved => ?_⟩
  obtain ⟨m, rfl⟩ := Option.isSome_iff_exists.1 hmoved
  obtain ⟨hm, hms, -, -⟩ := hfound
  have hall : ∀ j ∈ noted, j < here → t.Contains j here :=
    fun j hj hlt => ((hnoted j).1 hj).elim (hw.noted j · hlt) fun hclimbed => hclimbed.2.1
  exact ⟨hm, .of_started rfl (Nat.lt_trans hm hw.lt_size) hms (noted_of_lt h hw.lt_size hm hall),
    rfl, rfl⟩

theorem yields_over (hdone : w.done = true) : (w.advance t here).Yields w here false w here := by
  rw [advance, hdone]
  exact .done false w here

end PrecedingWalk

end DocTree
