import DocTree.Proofs.Axis.Extent
import DocTree.Proofs.Layout.WellLinked

/-!
# Axes along links

A walk along one kind of link knows only the next node. Where it leads can be told from the parents
and the order of the keys alone: up to the document node, through all children of the origin, and
through the siblings on one side of it. The attributes of an element are those that have it as their
parent.

## Main statements

- `Axis.route_upward`, `Axis.route_rightward`, `Axis.route_attributes` — where a walk goes, along the
  links
- `Axis.mem_leftward` — the siblings before the origin
- `Axis.visits_along_links` — the same for all axes of this kind, told without links
-/

namespace DocTree

open Reading Snapshot

variable {t : Snapshot} {c : Content} {hidesNames : Bool} {revision here k p : Nat} {ks : List Nat}

/-- The siblings to the right are the chain from a node on without that node. -/
theorem Snapshot.cons_tail_chain (t : Snapshot) (k : Nat) : k :: (t.chain k).tail = t.chain k := by
  rw [chain]
  rfl

/-- To the left of a structural node are the siblings with smaller keys, and the one next to it has
the greatest of these keys. -/
theorem Snapshot.IsTree.before_iff (h : t.IsTree) (hs : (t.kind k).isStructural = true)
    (hp : t.parent? k = some p) (j : Nat) :
    j < k ∧ (t.kind j).isStructural = true ∧ t.parent? j = some p ↔
      ∃ l, t.left? k = some l ∧
        (j = l ∨ j < l ∧ (t.kind j).isStructural = true ∧ t.parent? j = some p) := by
  constructor
  · rintro ⟨hjk, hjs, hjp⟩
    cases hl : t.left? k with
    | none =>
      -- A first child begins where all children of its parent begin at the earliest.
      have hfirst := h.firstChild?_eq_bodyStart (h.firstChild?_eq_some_iff.2 ⟨hp, hs, hl⟩)
      have hbody := h.bodyStart_le_of_child hjp hjs
      omega
    | some l =>
      have hend := h.endOf_left hl
      have hlp := (h.right?_spec (h.right?_eq_some_iff.2 hl)).1.symm.trans hp
      refine ⟨l, rfl, ?_⟩
      rcases Nat.lt_trichotomy j l with hjl | rfl | hlj
      · exact .inr ⟨hjl, hjs, hjp⟩
      · exact .inl rfl
      · have hle := h.endOf_le_of_sibling hlj hlp hjp
        omega
  · rintro ⟨l, hl, rfl | ⟨hjl, hj⟩⟩
    · have hspec := h.right?_spec (h.right?_eq_some_iff.2 hl)
      exact ⟨left?_lt hl, hspec.2.1, hspec.1.symm.trans hp⟩
    · exact ⟨Nat.lt_trans hjl (left?_lt hl), hj⟩

namespace Axis

/-- A walk upward visits the ancestors, nearest first. -/
theorem route_upward (t : Snapshot) (k : Nat) :
    Route t (.ancestors { selfDue := false }) k (t.ancestors k) := by
  induction k using Snapshot.ancestors.induct t with
  | case1 k p hp ih =>
    have hyields := (AncestorWalk.yields_advance { selfDue := false } t k).mapNotes Walk.ancestors
    rw [hp] at hyields
    rw [ancestors_of_parent? hp]
    exact .visit hyields ih
  | case2 k hp =>
    have hyields := (AncestorWalk.yields_advance { selfDue := false } t k).mapNotes Walk.ancestors
    rw [hp] at hyields
    rw [ancestors_of_parentless hp]
    exact .stop hyields

/-- A walk that goes to the right and does not change visits the siblings on that side. -/
theorem route_rightward {w : Walk}
    (hyields : ∀ here, (w.advance t here).Yields w here (t.right? here).isSome w
      ((t.right? here).getD here)) (k : Nat) : Route t w k (t.chain k).tail := by
  induction k using Snapshot.chain.induct t with
  | case1 k ih =>
    have hk := hyields k
    cases hs : t.right? k with
    | some s =>
      rw [hs] at hk
      rw [chain_of_right? hs, List.tail_cons, ← cons_tail_chain]
      exact .visit hk (ih s hs)
    | none =>
      rw [hs] at hk
      rw [chain_of_last hs]
      exact .stop hk

theorem route_following (t : Snapshot) (k : Nat) : Route t (.siblings .right) k (t.chain k).tail :=
  route_rightward (w := .siblings .right)
    (fun here => (Side.yields_advance .right t here).mapNotes Walk.siblings) k

/-- So does a walk over children that has gone down already. -/
theorem route_entered (t : Snapshot) (k : Nat) : Route t (.children ⟨true⟩) k (t.chain k).tail :=
  route_rightward (w := .children ⟨true⟩)
    (fun here => (ChildWalk.yields_advance ⟨true⟩ t here).mapNotes Walk.children) k

/-- A walk over children goes to the first one and then to the right. -/
theorem route_children (t : Snapshot) (k : Nat) : Route t (.children {}) k (t.childChain k) := by
  have hyields := (ChildWalk.yields_advance {} t k).mapNotes Walk.children
  rw [ChildWalk.target, if_neg (by decide)] at hyields
  cases hc : t.firstChild? k with
  | some c =>
    rw [hc] at hyields
    simp only [childChain, hc]
    rw [← cons_tail_chain]
    exact .visit hyields (route_entered t c)
  | none =>
    rw [hc] at hyields
    simp only [childChain, hc]
    exact .stop hyields

/-- A walk over attributes visits those that it has not visited, in the order of the list. -/
theorem route_attributes (hk : k < t.size) (index here : Nat) :
    Route t (.attributes { owner := k, index }) here ((t.attributes k).drop index) := by
  induction hn : (t.attributes k).length - index generalizing index here with
  | zero =>
    have hyields := (AttributeWalk.yields_advance (w := { owner := k, index }) rfl hk here).mapNotes
      Walk.attributes
    have hnone : (t.attributes k)[index]? = none := List.getElem?_eq_none (by omega)
    rw [List.drop_eq_nil_of_le (by omega)]
    rw [hnone] at hyields
    exact .stop hyields
  | succ n ih =>
    have hyields := (AttributeWalk.yields_advance (w := { owner := k, index }) rfl hk here).mapNotes
      Walk.attributes
    have hindex : index < (t.attributes k).length := by omega
    rw [List.getElem?_eq_getElem hindex] at hyields
    rw [List.drop_eq_getElem_cons hindex]
    exact .visit hyields (ih (index + 1) _ (by omega))

/-- From its owner on, a walk over attributes visits the whole list. -/
theorem route_owner (hk : k < t.size) : Route t (.attributes { owner := k }) k (t.attributes k) := by
  have hroute := route_attributes hk 0 k
  rwa [List.drop_zero] at hroute

/-- A walk to the left leaves out no sibling. -/
theorem covers_leftward (h : t.IsTree) {side : Side}
    (hcourse : side = .left ∧ (t.kind here).isStructural = true ∧ t.parent? here = some p) :
    Covers t Walk.siblings
      (fun side here => side = .left ∧ (t.kind here).isStructural = true ∧ t.parent? here = some p)
      (fun _ here j => j < here ∧ (t.kind j).isStructural = true ∧ t.parent? j = some p)
      side here := by
  obtain ⟨rfl, hs, hp⟩ := hcourse
  have hyields := (Side.yields_advance .left t here).mapNotes Walk.siblings
  cases hl : t.left? here with
  | some l =>
    have hspec := h.right?_spec (h.right?_eq_some_iff.2 hl)
    rw [Side.target, hl] at hyields
    refine ⟨true, .left, l, hyields, fun _ => ⟨⟨rfl, hspec.2.1, hspec.1.symm.trans hp⟩, ?_⟩, by simp⟩
    intro j
    have hbefore := h.before_iff hs hp j
    simpa [hl] using hbefore
  | none =>
    rw [Side.target, hl] at hyields
    refine ⟨false, .left, here, hyields, by simp, ?_⟩
    intro _ j hj
    obtain ⟨l, hl', -⟩ := (h.before_iff hs hp j).1 hj
    cases hl.symm.trans hl'

/-- A walk to the left visits the siblings with smaller keys. -/
theorem mem_leftward (h : t.IsTree) (hs : (t.kind k).isStructural = true)
    (hp : t.parent? k = some p) (hroute : Route t (.siblings .left) k ks) (j : Nat) :
    j ∈ ks ↔ j < k ∧ (t.kind j).isStructural = true ∧ t.parent? j = some p :=
  hroute.mem_iff (fun _ _ hcourse => covers_leftward h hcourse) ⟨rfl, hs, hp⟩ j

/-- A walk to the right visits the siblings with greater keys. -/
theorem mem_rightward (h : t.IsTree) (hs : (t.kind k).isStructural = true)
    (hp : t.parent? k = some p) (hroute : Route t (.siblings .right) k ks) (j : Nat) :
    j ∈ ks ↔ k < j ∧ (t.kind j).isStructural = true ∧ t.parent? j = some p := by
  obtain rfl := hroute.unique (route_following t k)
  have hchain := h.mem_chain_iff (j := j) hp hs
  have hsorted := pairwise_chain t k
  rw [← cons_tail_chain] at hchain hsorted
  have hgt : j ∈ (t.chain k).tail → k < j := fun hj => List.rel_of_pairwise_cons hsorted hj
  rw [List.mem_cons] at hchain
  constructor
  · intro hj
    exact ⟨hgt hj, (hchain.1 (.inr hj)).2⟩
  · rintro ⟨hkj, hj⟩
    rcases hchain.2 ⟨Nat.le_of_lt hkj, hj⟩ with rfl | hmem
    · exact absurd hkj (Nat.lt_irrefl _)
    · exact hmem

/-- The document node and what is owned have no siblings, on either side. -/
theorem route_siblingless (h : t.IsTree) (hk : k < t.size)
    (hkind : t.kind k = .root ∨ (t.kind k).isStructural = false) (side : Side) :
    Route t (.siblings side) k [] := by
  obtain ⟨hleft, hright⟩ := h.sibling?_eq_none hk hkind
  have htarget : side.target t k = none := by cases side <;> assumption
  have hyields := (side.yields_advance t k).mapNotes Walk.siblings
  rw [htarget] at hyields
  exact .stop hyields

/-- Upward a walk visits the ancestors, and where the origin belongs to the axis, first that. -/
theorem visits_ancestors (hidesNames : Bool) (revision : Nat)
    (hk : k < (Snapshot.ofContent c).size) :
    Axis.ancestor.Visits c hidesNames revision k ((Snapshot.ofContent c).ancestors k) ∧
      Axis.ancestorOrSelf.Visits c hidesNames revision k
        (k :: (Snapshot.ofContent c).ancestors k) := by
  have hsize : k < (c.seen hidesNames).size := by simpa using hk
  have hroute := route_upward (c.seen hidesNames) k
  rw [c.ancestors_seen] at hroute
  refine ⟨visits_of_route hsize hroute, visits_of_route hsize (.visit ?_ hroute)⟩
  exact (AncestorWalk.yields_advance { selfDue := true } (c.seen hidesNames) k).mapNotes
    Walk.ancestors

/-- Downward a walk visits the children. -/
theorem visits_children (hidesNames : Bool) (revision : Nat)
    (hk : k < (Snapshot.ofContent c).size) :
    ∃ children : List Nat, Axis.child.Visits c hidesNames revision k children ∧
      children.Pairwise (· < ·) ∧
      ∀ j, j ∈ children ↔ ((Snapshot.ofContent c).kind j).isStructural = true ∧
        (Snapshot.ofContent c).parent? j = some k := by
  have htree := c.isTree_seen hidesNames
  have hsize : k < (c.seen hidesNames).size := by simpa using hk
  obtain ⟨children, hroute, hvisits, hsorted⟩ := exists_visits hsize .child revision
  refine ⟨children, hvisits, hsorted, ?_⟩
  obtain rfl := hroute.unique (route_children _ k)
  intro j
  rw [htree.mem_childChain_iff, c.kind_seen, c.parent?_seen]

/-- To either side of a structural node a walk visits the siblings there. -/
theorem visits_siblings (hidesNames : Bool) (revision : Nat)
    (hk : k < (Snapshot.ofContent c).size) :
    ∃ after before : List Nat,
      Axis.followingSibling.Visits c hidesNames revision k after ∧ after.Pairwise (· < ·) ∧
      Axis.precedingSibling.Visits c hidesNames revision k before ∧ before.Pairwise (· > ·) ∧
      (∀ p, ((Snapshot.ofContent c).kind k).isStructural = true →
        (Snapshot.ofContent c).parent? k = some p →
        ∀ j, (j ∈ after ↔ k < j ∧ ((Snapshot.ofContent c).kind j).isStructural = true ∧
            (Snapshot.ofContent c).parent? j = some p) ∧
          (j ∈ before ↔ j < k ∧ ((Snapshot.ofContent c).kind j).isStructural = true ∧
            (Snapshot.ofContent c).parent? j = some p)) ∧
      ((Snapshot.ofContent c).kind k = .root ∨
        ((Snapshot.ofContent c).kind k).isStructural = false → after = [] ∧ before = []) := by
  have htree := c.isTree_seen hidesNames
  have hsize : k < (c.seen hidesNames).size := by simpa using hk
  obtain ⟨after, hafter, hvisits, hsorted⟩ := exists_visits hsize .followingSibling revision
  obtain ⟨before, hbefore, hvisits', hsorted'⟩ := exists_visits hsize .precedingSibling revision
  refine ⟨after, before, hvisits, hsorted, hvisits', hsorted', ?structural, ?siblingless⟩
  case structural =>
    intro p hs hp j
    have hs' : ((c.seen hidesNames).kind k).isStructural = true := by simpa using hs
    have hp' : (c.seen hidesNames).parent? k = some p := by simpa using hp
    constructor
    · simpa using mem_rightward htree hs' hp' hafter j
    · simpa using mem_leftward htree hs' hp' hbefore j
  case siblingless =>
    intro hkind
    rw [← c.kind_seen hidesNames] at hkind
    exact ⟨hafter.unique (route_siblingless htree hsize hkind .right),
      hbefore.unique (route_siblingless htree hsize hkind .left)⟩

/-- A walk over attributes visits the list of the origin. -/
theorem visits_attributes (hk : k < (Snapshot.ofContent c).size) :
    Axis.attribute.Visits c hidesNames revision k ((Snapshot.ofContent c).attributes k) := by
  have hsize : k < (c.seen hidesNames).size := by simpa using hk
  have hroute := route_owner hsize
  rw [c.attributes_seen] at hroute
  exact visits_of_route hsize hroute

/-- The walks along links visit what the parents and the order of the keys say: upward the parent, the
parent of that and so on, to the document node; the children, ascending; of the siblings of a structural
node those with greater keys, ascending, or those with smaller keys, descending, where the document node
and what is owned have none; and the attributes in the order in which the element gives them. -/
theorem visits_along_links (c : Content) (hidesNames : Bool) (revision k : Nat)
    (hk : k < (Snapshot.ofContent c).size) :
    ∃ children after before owned : List Nat,
      (Axis.ancestor.Visits c hidesNames revision k ((Snapshot.ofContent c).ancestors k) ∧
        Axis.ancestorOrSelf.Visits c hidesNames revision k
          (k :: (Snapshot.ofContent c).ancestors k) ∧
        (k :: (Snapshot.ofContent c).ancestors k).IsChain
          (fun j p => (Snapshot.ofContent c).parent? j = some p) ∧
        (k :: (Snapshot.ofContent c).ancestors k).getLast? = some 0) ∧
      (Axis.child.Visits c hidesNames revision k children ∧ children.Pairwise (· < ·) ∧
        ∀ j, j ∈ children ↔ ((Snapshot.ofContent c).kind j).isStructural = true ∧
          (Snapshot.ofContent c).parent? j = some k) ∧
      (Axis.followingSibling.Visits c hidesNames revision k after ∧ after.Pairwise (· < ·) ∧
        Axis.precedingSibling.Visits c hidesNames revision k before ∧ before.Pairwise (· > ·) ∧
        (∀ p, ((Snapshot.ofContent c).kind k).isStructural = true →
          (Snapshot.ofContent c).parent? k = some p →
          ∀ j, (j ∈ after ↔ k < j ∧ ((Snapshot.ofContent c).kind j).isStructural = true ∧
              (Snapshot.ofContent c).parent? j = some p) ∧
            (j ∈ before ↔ j < k ∧ ((Snapshot.ofContent c).kind j).isStructural = true ∧
              (Snapshot.ofContent c).parent? j = some p)) ∧
        ((Snapshot.ofContent c).kind k = .root ∨
          ((Snapshot.ofContent c).kind k).isStructural = false → after = [] ∧ before = [])) ∧
      (Axis.attribute.Visits c hidesNames revision k owned ∧ owned.Pairwise (· < ·) ∧
        (∀ j, j ∈ owned ↔ (Snapshot.ofContent c).kind j = .attribute ∧
          (Snapshot.ofContent c).parent? j = some k) ∧
        ∀ head body next parent left, c.Places (.element head body next) parent k left →
          List.Forall₂ (fun j entry => (Snapshot.ofContent c).name? j = some entry.1 ∧
            (Snapshot.ofContent c).value? j = some entry.2) owned head.attributes) := by
  have horigin := Snapshot.isTree_ofContent c
  obtain ⟨hancestors, hself⟩ := visits_ancestors hidesNames revision hk
  obtain ⟨children, hchildren⟩ := visits_children hidesNames revision hk
  obtain ⟨after, before, hsiblings⟩ := visits_siblings hidesNames revision hk
  have hsorted : ((Snapshot.ofContent c).attributes k).Pairwise (· < ·) := by
    rw [horigin.attributes_eq k]
    exact List.pairwise_lt_range'
  exact ⟨children, after, before, _,
    ⟨hancestors, hself, isChain_ancestors _ k, horigin.getLast?_ancestors hk⟩, hchildren, hsiblings,
    visits_attributes hk, hsorted, fun j => horigin.mem_attributes_iff,
    fun _ _ _ _ _ hplaces => hplaces.forall₂_attributes⟩

/-- The inner element has two ancestors, a child, an attribute, and a sibling on one side only. -/
theorem visits_along_links_inner :
    ∃ cursor s₁ s₂ s₃ s₄ s₅ s₆, Store.openAt 0 3 nestedStore = (.ok cursor, s₁) ∧
      (Axis.ancestor.walk (nested 3)).Drains cursor s₁ [nested 1, nested 0] s₂ ∧
      (Axis.child.walk (nested 3)).Drains cursor s₁ [nested 5] s₃ ∧
      (Axis.followingSibling.walk (nested 3)).Drains cursor s₁ [nested 6] s₄ ∧
      (Axis.precedingSibling.walk (nested 3)).Drains cursor s₁ [] s₅ ∧
      (Axis.attribute.walk (nested 3)).Drains cursor s₁ [nested 4] s₆ := by
  obtain ⟨children, after, before, owned, ⟨hancestors, -⟩, ⟨hchildren, -⟩,
    ⟨hafter, -, hbefore, -⟩, ⟨howned, -⟩⟩ := visits_along_links nestedContent false 0 3 (by decide)
  obtain ⟨cursor, s₁, s₂, hopen, h₂⟩ := hancestors.exists_drains (s := nestedStore) rfl rfl rfl
  obtain ⟨s₃, h₃⟩ := hchildren.exists_drains_of_open (s := nestedStore) rfl rfl rfl hopen
  obtain ⟨s₄, h₄⟩ := hafter.exists_drains_of_open (s := nestedStore) rfl rfl rfl hopen
  obtain ⟨s₅, h₅⟩ := hbefore.exists_drains_of_open (s := nestedStore) rfl rfl rfl hopen
  obtain ⟨s₆, h₆⟩ := howned.exists_drains_of_open (s := nestedStore) rfl rfl rfl hopen
  obtain ⟨hcursor, rfl⟩ := Prod.mk.inj hopen
  obtain rfl := Except.ok.inj hcursor
  rw [(h₂.unique (.visit rfl rfl (.visit rfl rfl (.stop rfl rfl)))).1] at h₂
  rw [(h₃.unique (.visit rfl rfl (.stop rfl rfl))).1] at h₃
  rw [(h₄.unique (.visit rfl rfl (.stop rfl rfl))).1] at h₄
  rw [(h₅.unique (.stop rfl rfl)).1] at h₅
  rw [(h₆.unique (.visit rfl rfl (.stop rfl rfl))).1] at h₆
  exact ⟨_, _, s₂, s₃, s₄, s₅, s₆, rfl, h₂, h₃, h₄, h₅, h₆⟩

end Axis

end DocTree
