import DocTree.Proofs.Axis.Order
import DocTree.Proofs.Walk.Complete

/-!
# The extent of an axis

On the axes in document order a walk visits exactly the nodes that the axis stands for, told by their
keys and by who contains them: those after the origin, those before it, and those inside it. Attributes
and declarations are never visited, but may be the origin.

## Main definitions

- `Axis.Visits` — a walk along an axis, from the opening of its cursor to its end

## Main statements

- `Axis.visits_preceding` — what comes before the origin, with ancestors and without
- `Axis.visits_descendant` — what is inside the origin
- `Axis.visits_following` — what comes after the origin
-/

namespace DocTree

open Reading Snapshot

variable {c : Content} {hidesNames : Bool} {revision k : Nat} {ks : List Nat} {axis : Axis}

/-- An ascending list begins with what is below a bound. -/
theorem eq_filter_append (h : ks.Pairwise (· < ·)) (n : Nat) :
    ks = ks.filter (· < n) ++ ks.filter (n ≤ ·) := by
  apply h.eq_of_mem_iff
  · refine List.pairwise_append.2 ⟨h.filter _, h.filter _, ?_⟩
    intro i hi j hj
    have hin : i < n := by simpa using (List.mem_filter.1 hi).2
    have hnj : n ≤ j := by simpa using (List.mem_filter.1 hj).2
    omega
  · intro j
    by_cases hj : j < n
    · simp [hj]
    · simp [Nat.le_of_not_lt hj]

@[simp] theorem Content.contains_seen {a : Nat} :
    (c.seen hidesNames).Contains a k ↔ (Snapshot.ofContent c).Contains a k := by
  cases hidesNames <;> simp [Content.seen]

namespace Axis

/-- In every store with the revision, if enough operations are granted, a cursor opens at the node `k`
and drains the walk along the axis from there, which visits the nodes of a list. There is only one such
list, since what a walk visits is determined. -/
def Visits (axis : Axis) (c : Content) (hidesNames : Bool) (revision k : Nat) (ks : List Nat) :
    Prop :=
  ∃ n, ∀ s : Store, s.snapshot? revision = some (.ofContent c) → s.hidesNames = hidesNames →
    s.meter.GrantsNext n →
    ∃ cursor s₁ s₂, Store.openAt revision ((c.seen hidesNames).handle revision k).key s =
        (.ok cursor, s₁) ∧
      (axis.walk ((c.seen hidesNames).handle revision k)).Drains cursor s₁
        (ks.map ((c.seen hidesNames).handle revision)) s₂

/-- In a store without a budget enough operations are granted. -/
theorem Visits.exists_drains (h : axis.Visits c hidesNames revision k ks) {s : Store}
    (hc : s.snapshot? revision = some (.ofContent c)) (hnames : s.hidesNames = hidesNames)
    (hunlimited : s.meter.budget? = none) :
    ∃ cursor s₁ s₂, Store.openAt revision ((c.seen hidesNames).handle revision k).key s =
        (.ok cursor, s₁) ∧
      (axis.walk ((c.seen hidesNames).handle revision k)).Drains cursor s₁
        (ks.map ((c.seen hidesNames).handle revision)) s₂ := by
  obtain ⟨n, hn⟩ := h
  exact hn s hc hnames (Meter.grantsNext_of_unlimited hunlimited n)

/-- A cursor that has been opened there already drains the walk. -/
theorem Visits.exists_drains_of_open (h : axis.Visits c hidesNames revision k ks) {s s₁ : Store}
    {cursor : Cursor} (hc : s.snapshot? revision = some (.ofContent c))
    (hnames : s.hidesNames = hidesNames) (hunlimited : s.meter.budget? = none)
    (hopen : Store.openAt revision ((c.seen hidesNames).handle revision k).key s =
      (.ok cursor, s₁)) :
    ∃ s₂, (axis.walk ((c.seen hidesNames).handle revision k)).Drains cursor s₁
      (ks.map ((c.seen hidesNames).handle revision)) s₂ := by
  obtain ⟨cursor', s₁', s₂, hopen', hdrains⟩ := h.exists_drains hc hnames hunlimited
  obtain ⟨hcursor, rfl⟩ := Prod.mk.inj (hopen'.symm.trans hopen)
  obtain rfl := Except.ok.inj hcursor
  exact ⟨s₂, hdrains⟩

/-- A walk with a cursor of its own visits the route. -/
theorem visits_of_route (hk : k < (c.seen hidesNames).size)
    (hroute : Route (c.seen hidesNames) (axis.walk ((c.seen hidesNames).handle revision k)) k ks) :
    axis.Visits c hidesNames revision k ks := by
  obtain ⟨n, hn⟩ := hroute.exists_drains revision
  refine ⟨2 + n, ?_⟩
  intro s hc hnames hs
  have hv := Store.view?_of_committed hc
  rw [hnames] at hv
  rw [Meter.grantsNext_add] at hs
  exact ⟨_, _, _, Store.openAt_of_grantsNext hv hk hs.1, hn _ hs.2⟩

/-- From every node the walk along an axis visits its route, in the order of the axis. -/
theorem exists_visits (hk : k < (c.seen hidesNames).size) (axis : Axis) (revision : Nat) :
    ∃ ks, Route (c.seen hidesNames) (axis.walk ((c.seen hidesNames).handle revision k)) k ks ∧
      axis.Visits c hidesNames revision k ks ∧
      ks.Pairwise ((axis.walk ((c.seen hidesNames).handle revision k)).Orders
        (c.seen hidesNames)) := by
  have htree := c.isTree_seen hidesNames
  obtain ⟨ks, hroute, -, -⟩ := axis.exists_route htree hk revision
  exact ⟨ks, hroute, visits_of_route hk hroute,
    (hroute.pairwise htree hk (axis.within_walk htree hk revision)).1⟩

/-- Backward from any node the walk visits exactly the structural nodes with smaller keys, by
descending keys: without those that contain the origin, or with them. -/
theorem visits_preceding (c : Content) (hidesNames : Bool) (revision k : Nat)
    (hk : k < (Snapshot.ofContent c).size) :
    ∃ before all : List Nat,
      Axis.preceding.Visits c hidesNames revision k before ∧ before.Pairwise (· > ·) ∧
      (∀ j, j ∈ before ↔ j < k ∧ ((Snapshot.ofContent c).kind j).isStructural = true ∧
        ¬(Snapshot.ofContent c).Contains j k) ∧
      Axis.precedingOrAncestor.Visits c hidesNames revision k all ∧ all.Pairwise (· > ·) ∧
      ∀ j, j ∈ all ↔ j < k ∧ ((Snapshot.ofContent c).kind j).isStructural = true := by
  have htree := c.isTree_seen hidesNames
  have hsize : k < (c.seen hidesNames).size := by simpa using hk
  obtain ⟨before, hbefore, hvisits, hsorted⟩ := exists_visits hsize .preceding revision
  obtain ⟨all, hall, hvisits', hsorted'⟩ := exists_visits hsize .precedingOrAncestor revision
  refine ⟨before, all, hvisits, hsorted, ?_, hvisits', hsorted', ?_⟩
  · intro j
    simpa using PrecedingWalk.mem_route htree hsize hbefore j
  · intro j
    simpa using PrecedingWalk.mem_route htree hsize hall j

/-- An element with an attribute, and in it an element, again with an attribute and with a text, and
a comment. -/
def nestedContent : Content :=
  .element { name := .ofLocal "a", attributes := [(.ofLocal "x", "1")] }
    (.element { name := .ofLocal "b", attributes := [(.ofLocal "y", "2")] } (.leaf (.text "t") .nil)
      (.leaf (.comment "c") .nil)) .nil

/-- The handle of a node of that. The inner element has the key 3, its attribute 4, its text 5 and the
comment 6. -/
def nested (key : Nat) : Handle := (nestedContent.seen false).handle 0 key

/-- A store with that as its only revision. -/
def nestedStore : Store := { revisions := #[.ofContent nestedContent] }

/-- Before the comment are the text and the inner element, and the outer one is around it. -/
theorem visits_preceding_comment :
    ∃ cursor s₁ s₂ s₃, Store.openAt 0 6 nestedStore = (.ok cursor, s₁) ∧
      (Axis.preceding.walk (nested 6)).Drains cursor s₁ [nested 5, nested 3] s₂ ∧
      (Axis.precedingOrAncestor.walk (nested 6)).Drains cursor s₁
        [nested 5, nested 3, nested 1, nested 0] s₃ := by
  obtain ⟨before, all, hbefore, -, -, hall, -, -⟩ :=
    visits_preceding nestedContent false 0 6 (by decide)
  obtain ⟨cursor, s₁, s₂, hopen, hdrains⟩ := hbefore.exists_drains (s := nestedStore) rfl rfl rfl
  obtain ⟨cursor', s₁', s₃, hopen', hdrains'⟩ := hall.exists_drains (s := nestedStore) rfl rfl rfl
  cases hopen'.symm.trans hopen
  obtain ⟨hcursor, rfl⟩ := Prod.mk.inj hopen
  obtain rfl := Except.ok.inj hcursor
  have hvisited : before.map ((nestedContent.seen false).handle 0) = [nested 5, nested 3] :=
    (hdrains.unique (.visit (Store.perform_of_run (Walk.run_advance 9 rfl)) rfl
      (.visit (Store.perform_of_run (Walk.run_advance 9 rfl)) rfl
        (.stop (Store.perform_of_run (Walk.run_advance 9 rfl)) rfl)))).1
  have hvisited' : all.map ((nestedContent.seen false).handle 0) =
      [nested 5, nested 3, nested 1, nested 0] :=
    (hdrains'.unique (.visit (Store.perform_of_run (Walk.run_advance 9 rfl)) rfl
      (.visit (Store.perform_of_run (Walk.run_advance 9 rfl)) rfl
        (.visit (Store.perform_of_run (Walk.run_advance 9 rfl)) rfl
          (.visit (Store.perform_of_run (Walk.run_advance 9 rfl)) rfl
            (.stop (Store.perform_of_run (Walk.run_advance 9 rfl)) rfl)))))).1
  rw [hvisited] at hdrains
  rw [hvisited'] at hdrains'
  exact ⟨_, _, s₂, s₃, rfl, hdrains, hdrains'⟩

/-- Inside any node the walk visits exactly the structural nodes that have it as a proper ancestor, by
ascending keys; and where the origin belongs to the axis, first that and then the same. -/
theorem visits_descendant (c : Content) (hidesNames : Bool) (revision k : Nat)
    (hk : k < (Snapshot.ofContent c).size) :
    ∃ inside : List Nat,
      Axis.descendant.Visits c hidesNames revision k inside ∧
      Axis.descendantOrSelf.Visits c hidesNames revision k (k :: inside) ∧
      inside.Pairwise (· < ·) ∧
      ∀ j, j ∈ inside ↔ ((Snapshot.ofContent c).kind j).isStructural = true ∧
        (Snapshot.ofContent c).Contains k j ∧ j ≠ k := by
  have htree := c.isTree_seen hidesNames
  have hsize : k < (c.seen hidesNames).size := by simpa using hk
  obtain ⟨inside, hroute, hvisits, hsorted⟩ := exists_visits hsize .descendant revision
  refine ⟨inside, hvisits, visits_of_route hsize (.visit ?_ hroute), hsorted, ?_⟩
  · exact (DescendantWalk.yields_self rfl rfl).mapNotes Walk.descendants
  · intro j
    simpa using DescendantWalk.mem_route htree hsize hroute j

/-- Inside the inner element is the text only, although a comment follows. -/
theorem visits_descendant_inner :
    ∃ cursor s₁ s₂ s₃, Store.openAt 0 3 nestedStore = (.ok cursor, s₁) ∧
      (Axis.descendant.walk (nested 3)).Drains cursor s₁ [nested 5] s₂ ∧
      (Axis.descendantOrSelf.walk (nested 3)).Drains cursor s₁ [nested 3, nested 5] s₃ := by
  obtain ⟨inside, hinside, hself, -, -⟩ := visits_descendant nestedContent false 0 3 (by decide)
  obtain ⟨cursor, s₁, s₂, hopen, hdrains⟩ := hinside.exists_drains (s := nestedStore) rfl rfl rfl
  obtain ⟨cursor', s₁', s₃, hopen', hdrains'⟩ := hself.exists_drains (s := nestedStore) rfl rfl rfl
  cases hopen'.symm.trans hopen
  obtain ⟨hcursor, rfl⟩ := Prod.mk.inj hopen
  obtain rfl := Except.ok.inj hcursor
  have hvisited := (hdrains.unique (.visit rfl rfl (.stop rfl rfl))).1
  rw [List.map_cons, hvisited] at hdrains'
  rw [hvisited] at hdrains
  exact ⟨_, _, s₂, s₃, rfl, hdrains, hdrains'⟩

/-- Forward from any node the walk visits exactly the structural nodes with greater keys that are not
inside the origin, by ascending keys. If an element owns the origin, these are first those inside the
element; and nothing comes after the document node. -/
theorem visits_following (c : Content) (hidesNames : Bool) (revision k : Nat)
    (hk : k < (Snapshot.ofContent c).size) :
    ∃ after : List Nat,
      Axis.following.Visits c hidesNames revision k after ∧ after.Pairwise (· < ·) ∧
      (∀ j, j ∈ after ↔ k < j ∧ j < (Snapshot.ofContent c).size ∧
        ((Snapshot.ofContent c).kind j).isStructural = true ∧ ¬(Snapshot.ofContent c).Contains k j) ∧
      (((Snapshot.ofContent c).kind k).isStructural = false →
        ∃ owner inside rest, (Snapshot.ofContent c).parent? k = some owner ∧
          after = inside ++ rest ∧
          ∀ j, j ∈ inside ↔ ((Snapshot.ofContent c).kind j).isStructural = true ∧
            (Snapshot.ofContent c).Contains owner j ∧ j ≠ owner) ∧
      ((Snapshot.ofContent c).kind k = .root → after = []) := by
  have htree := c.isTree_seen hidesNames
  have hsize : k < (c.seen hidesNames).size := by simpa using hk
  have horigin := Snapshot.isTree_ofContent c
  obtain ⟨after, hroute, hvisits, hsorted⟩ := exists_visits hsize .following revision
  have hmem : ∀ j, j ∈ after ↔ k < j ∧ j < (Snapshot.ofContent c).size ∧
      ((Snapshot.ofContent c).kind j).isStructural = true ∧
      ¬(Snapshot.ofContent c).Contains k j := by
    intro j
    simpa using FollowingWalk.mem_route htree hsize hroute j
  refine ⟨after, hvisits, hsorted, hmem, ?owned, ?root⟩
  case owned =>
    intro howned
    obtain ⟨p, hp, -⟩ := horigin.home_of_owned howned hk
    have hpk := parent?_lt hp
    have hpsize := Nat.lt_trans hpk hk
    refine ⟨p, _, _, hp, eq_filter_append hsorted ((Snapshot.ofContent c).endOf p), ?_⟩
    intro j
    rw [List.mem_filter, hmem, decide_eq_true_eq]
    have hbody := horigin.lt_bodyStart_of_owned hp howned
    have hend := horigin.endOf_le_size hpsize
    constructor
    · rintro ⟨⟨hkj, -, hjs, -⟩, hlt⟩
      exact ⟨hjs, (horigin.inside_iff hpsize hjs).2
        ⟨horigin.bodyStart_le_of_structural (by omega) hjs, hlt⟩⟩
    · rintro ⟨hjs, hinside⟩
      have hbounds := (horigin.inside_iff hpsize hjs).1 hinside
      have hkj : k < j := by omega
      exact ⟨⟨hkj, by omega, hjs,
        fun hc => Nat.ne_of_lt hkj (horigin.eq_of_contains_owned howned hc)⟩, hbounds.2⟩
  case root =>
    intro hroot
    obtain rfl := (horigin.kind_eq_root_iff hk).1 hroot
    refine List.eq_nil_iff_forall_not_mem.2 ?_
    intro j hj
    obtain ⟨-, hjsize, -, hnot⟩ := (hmem j).1 hj
    apply hnot
    apply horigin.contains_of_bounds hjsize (Nat.zero_le j)
    rw [horigin.endOf_zero]
    exact hjsize

/-- After the inner attribute come the text of its owner and the comment. -/
theorem visits_following_attribute :
    ∃ cursor s₁ s₂, Store.openAt 0 4 nestedStore = (.ok cursor, s₁) ∧
      (Axis.following.walk (nested 4)).Drains cursor s₁ [nested 5, nested 6] s₂ := by
  obtain ⟨after, hafter, -, -, -, -⟩ := visits_following nestedContent false 0 4 (by decide)
  obtain ⟨cursor, s₁, s₂, hopen, hdrains⟩ := hafter.exists_drains (s := nestedStore) rfl rfl rfl
  obtain ⟨hcursor, rfl⟩ := Prod.mk.inj hopen
  obtain rfl := Except.ok.inj hcursor
  have hvisited : after.map ((nestedContent.seen false).handle 0) = [nested 5, nested 6] :=
    (hdrains.unique (.visit (Store.perform_of_run (Walk.run_advance 9 rfl)) rfl
      (.visit (Store.perform_of_run (Walk.run_advance 9 rfl)) rfl
        (.stop (Store.perform_of_run (Walk.run_advance 9 rfl)) rfl)))).1
  rw [hvisited] at hdrains
  exact ⟨_, _, s₂, rfl, hdrains⟩

end Axis

end DocTree
