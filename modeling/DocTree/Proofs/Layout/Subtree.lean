import DocTree.Proofs.Layout.Tree
import Mathlib.Logic.Relation

/-!
# Subtrees

In a tree in document order the subtree of a node is an interval of places, which begins with the
node, what it owns and its first child. The structural nodes in ascending order are therefore reached
one from the other by `Snapshot.bodyStart`.

## Main definitions

- `Snapshot.Contains` — a node is in the subtree of another
- `Snapshot.home` — a structural node, or the owner of another
- `Snapshot.ancestors` — the nodes above another, nearest first

## Main statements

- `Snapshot.IsTree.contains_iff` — a subtree is an interval of places
- `Snapshot.IsTree.contains_parent_iff` — what is strictly around a node contains its parent
- `Snapshot.IsTree.structural_bodyStart` — the structural node after a structural node
- `Snapshot.IsTree.getLast?_ancestors` — above a node is at last the document node
-/

namespace DocTree

namespace Snapshot

variable {t : Snapshot} {a j k l p s : Nat}

/-- The node at `k` is in the subtree of the node at `a`: parents followed from `k` lead to `a`. -/
def Contains (t : Snapshot) (a k : Nat) : Prop :=
  Relation.ReflTransGen (fun p k => t.parent? k = some p) a k

/-- The owner of an attribute or a declaration; for other nodes the node itself. -/
def home (t : Snapshot) (k : Nat) : Nat :=
  if (t.kind k).isStructural then k else (t.parent? k).getD k

/-- The nodes above the node at `k`: its parent, the parent of that and so on. -/
def ancestors (t : Snapshot) (k : Nat) : List Nat :=
  match _h : t.parent? k with
  | some p => p :: ancestors t p
  | none => []
termination_by k
decreasing_by exact parent?_lt _h

theorem bodyStart_gt (t : Snapshot) (k : Nat) : k < t.bodyStart k := by
  unfold bodyStart
  omega

/-- What contains a node does not come after it. -/
theorem le_of_contains (hc : t.Contains a k) : a ≤ k := by
  induction hc with
  | refl => exact Nat.le_refl a
  | tail _ hp ih => exact Nat.le_trans ih (Nat.le_of_lt (parent?_lt hp))

/-- What a node that there is contains is there as well. -/
theorem lt_size_of_contains (ha : a < t.size) (hc : t.Contains a k) : k < t.size := by
  rcases Relation.ReflTransGen.cases_tail hc with rfl | ⟨p, -, hp⟩
  · exact ha
  · exact lt_size_of_parent? hp

@[simp] theorem contains_withoutNames : t.withoutNames.Contains a k ↔ t.Contains a k := by
  simp [Contains]

/-- A node without a parent is contained in no other. -/
theorem eq_of_contains (hp : t.parent? k = none) (hc : t.Contains a k) : a = k := by
  rcases Relation.ReflTransGen.cases_tail hc with heq | ⟨q, -, hqp⟩
  · exact heq.symm
  · rw [hp] at hqp
    cases hqp

theorem ancestors_of_parent? (hp : t.parent? k = some p) : t.ancestors k = p :: t.ancestors p := by
  rw [ancestors]
  split <;> simp_all

theorem ancestors_of_parentless (hp : t.parent? k = none) : t.ancestors k = [] := by
  rw [ancestors]
  split <;> simp_all

@[simp] theorem ancestors_withoutNames (t : Snapshot) (k : Nat) :
    t.withoutNames.ancestors k = t.ancestors k := by
  induction k using ancestors.induct t with
  | case1 k p hp ih => rw [ancestors_of_parent? (by simpa using hp), ancestors_of_parent? hp, ih]
  | case2 k hp => rw [ancestors_of_parentless (by simpa using hp), ancestors_of_parentless hp]

/-- From a node upward each one is the parent of the one before. -/
theorem isChain_ancestors (t : Snapshot) (k : Nat) :
    (k :: t.ancestors k).IsChain fun j p => t.parent? j = some p := by
  induction k using ancestors.induct t with
  | case1 k p hp ih =>
    rw [ancestors_of_parent? hp]
    exact List.isChain_cons_cons.2 ⟨hp, ih⟩
  | case2 k hp =>
    rw [ancestors_of_parentless hp]
    exact .singleton k

namespace IsTree

theorem structural_parent (h : t.IsTree) (hp : t.parent? k = some p) :
    (t.kind p).isStructural = true := by
  have hpar := h.isParental_parent hp
  cases hkind : t.kind p <;> simp_all [Kind.isParental, Kind.isStructural]

theorem exists_parent (h : t.IsTree) (hk : k < t.size) (h0 : k ≠ 0) :
    ∃ p, t.parent? k = some p :=
  Option.ne_none_iff_exists'.1 fun hnone => h0 ((h.parent?_eq_none_iff hk).1 hnone)

theorem attributes_of_not_element (h : t.IsTree) (hk : t.kind k ≠ .element) :
    t.attributes k = [] := by
  refine List.eq_nil_iff_forall_not_mem.2 ?_
  intro a ha
  obtain ⟨hattribute, hp⟩ := h.mem_attributes_iff.1 ha
  exact hk (h.owner_eq_element hp (by simp [hattribute, Kind.isStructural]))

theorem namespaces_of_not_element (h : t.IsTree) (hk : t.kind k ≠ .element) :
    t.namespaces k = [] := by
  refine List.eq_nil_iff_forall_not_mem.2 ?_
  intro d hd
  obtain ⟨hdeclaration, hp⟩ := h.mem_namespaces_iff.1 hd
  exact hk (h.owner_eq_element hp (by simp [hdeclaration, Kind.isStructural]))

/-- The document node and what is owned have no siblings. -/
theorem sibling?_eq_none (h : t.IsTree) (hk : k < t.size)
    (hkind : t.kind k = .root ∨ (t.kind k).isStructural = false) :
    t.left? k = none ∧ t.right? k = none := by
  refine ⟨Option.eq_none_iff_forall_ne_some.2 fun l hl => ?_,
    Option.eq_none_iff_forall_ne_some.2 fun r hr => ?_⟩
  · have hspec := h.right?_spec (h.right?_eq_some_iff.2 hl)
    rcases hkind with hroot | howned
    · have := (h.kind_eq_root_iff hk).1 hroot
      have := left?_lt hl
      omega
    · simp [howned] at hspec
  · have hspec := h.right?_spec hr
    rcases hkind with hroot | howned
    · -- A right sibling of the document node would have no parent either.
      have hgt := right?_gt hr
      have hnone := (h.parent?_eq_none_iff hk).2 ((h.kind_eq_root_iff hk).1 hroot)
      rw [← hspec.1, h.parent?_eq_none_iff hgt.2] at hnone
      omega
    · simp [howned] at hspec

theorem home_of_owned (h : t.IsTree) (hk : (t.kind k).isStructural = false) (hlt : k < t.size) :
    ∃ p, t.parent? k = some p ∧ t.home k = p := by
  have h0 : k ≠ 0 := by
    rintro rfl
    simp [(h.kind_eq_root_iff hlt).2 rfl, Kind.isStructural] at hk
  obtain ⟨p, hp⟩ := h.exists_parent hlt h0
  exact ⟨p, hp, by simp [home, hk, hp]⟩

/-- The last node upward is the document node. -/
theorem getLast?_ancestors (h : t.IsTree) (hk : k < t.size) :
    (k :: t.ancestors k).getLast? = some 0 := by
  induction k using ancestors.induct t with
  | case1 k p hp ih =>
    have hpk := parent?_lt hp
    rw [ancestors_of_parent? hp, List.getLast?_cons_cons]
    exact ih (by omega)
  | case2 k hp =>
    obtain rfl := (h.parent?_eq_none_iff hk).1 hp
    rw [ancestors_of_parentless hp]
    rfl

/-- The nodes between a node and its first child are those that it owns. -/
theorem owned_of_lt_bodyStart (h : t.IsTree) (hk : p < k) (hb : k < t.bodyStart p) :
    (t.kind k).isStructural = false ∧ t.parent? k = some p := by
  unfold bodyStart at hb
  by_cases hn : k < p + 1 + (t.namespaces p).length
  · have hmem : k ∈ t.namespaces p := by
      rw [h.namespaces_eq p, List.mem_range'_1]
      omega
    have hspec := h.mem_namespaces_iff.1 hmem
    exact ⟨by simp [hspec.1, Kind.isStructural], hspec.2⟩
  · have hmem : k ∈ t.attributes p := by
      rw [h.attributes_eq p, List.mem_range'_1]
      omega
    have hspec := h.mem_attributes_iff.1 hmem
    exact ⟨by simp [hspec.1, Kind.isStructural], hspec.2⟩

/-- What a node owns lies before its content. -/
theorem lt_bodyStart_of_owned (h : t.IsTree) (hp : t.parent? k = some p)
    (hk : (t.kind k).isStructural = false) : k < t.bodyStart p := by
  have hmem : k ∈ t.namespaces p ∨ k ∈ t.attributes p := by
    rw [h.mem_namespaces_iff, h.mem_attributes_iff]
    cases hkind : t.kind k <;> simp_all [Kind.isStructural]
  unfold bodyStart
  rcases hmem with hmem | hmem
  · rw [h.namespaces_eq p, List.mem_range'_1] at hmem
    omega
  · rw [h.attributes_eq p, List.mem_range'_1] at hmem
    omega

/-- The left sibling of a node ends where the node begins. -/
theorem endOf_left (h : t.IsTree) (hl : t.left? k = some l) : t.endOf l = k := by
  have hs := h.right?_eq_some_iff.2 hl
  exact endOf_of_right? (h.right?_spec hs).2.1 hs

/-- Children lie after what their parent owns. -/
theorem bodyStart_le_of_child (h : t.IsTree) (hp : t.parent? k = some p)
    (hk : (t.kind k).isStructural = true) : t.bodyStart p ≤ k := by
  induction k using Nat.strongRecOn with
  | ind k ih =>
    cases hl : t.left? k with
    | none =>
      exact Nat.le_of_eq (h.firstChild?_eq_bodyStart
        (h.firstChild?_eq_some_iff.2 ⟨hp, hk, hl⟩)).symm
    | some l =>
      have hs := h.right?_spec (h.right?_eq_some_iff.2 hl)
      have := ih l (left?_lt hl) (hs.1 ▸ hp) hs.2.1
      have := left?_lt hl
      omega

/-- A node has room for what it owns, and a child lies before the end of its parent. The induction
goes from the end of the table to its beginning. -/
theorem bodyStart_le_endOf_and_lt_endOf_parent (h : t.IsTree) (hk : k < t.size) :
    t.bodyStart k ≤ t.endOf k ∧
      ((t.kind k).isStructural = true → ∀ p, t.parent? k = some p → k < t.endOf p) := by
  induction hn : t.size - k using Nat.strongRecOn generalizing k with
  | ind n ih =>
    have hroom : t.bodyStart k ≤ t.endOf k := by
      cases hc : t.firstChild? k with
      | none => exact Nat.le_of_eq (h.endOf_eq_bodyStart hk hc).symm
      | some c =>
        -- The first child is stored behind, so that it is known to lie before the end.
        have hgt := firstChild?_gt hc
        have hspec := h.firstChild?_eq_some_iff.1 hc
        rw [← h.firstChild?_eq_bodyStart hc]
        exact Nat.le_of_lt ((ih (t.size - c) (by omega) hgt.2 rfl).2 hspec.2.1 k hspec.1)
    refine ⟨hroom, ?_⟩
    intro hs p hp
    cases hr : t.right? k with
    | none =>
      rw [← endOf_of_parent? hs hr hp]
      unfold bodyStart at hroom
      omega
    | some s =>
      have hgt := right?_gt hr
      have hspec := h.right?_spec hr
      have := (ih (t.size - s) (by omega) hgt.2 rfl).2 hspec.2.2 p (hspec.1.trans hp)
      omega

theorem bodyStart_le_endOf (h : t.IsTree) (hk : k < t.size) : t.bodyStart k ≤ t.endOf k :=
  (h.bodyStart_le_endOf_and_lt_endOf_parent hk).1

theorem lt_endOf (h : t.IsTree) (hk : k < t.size) : k < t.endOf k := by
  have := h.bodyStart_le_endOf hk
  unfold bodyStart at this
  omega

/-- The subtree of a node ends no later than that of its parent. -/
theorem endOf_le_endOf_parent (h : t.IsTree) (hp : t.parent? k = some p) :
    t.endOf k ≤ t.endOf p := by
  have hk := lt_size_of_parent? hp
  have hpk := parent?_lt hp
  cases hs : (t.kind k).isStructural with
  | false =>
    rw [endOf_of_owned hs]
    have := h.lt_bodyStart_of_owned hp hs
    have := h.bodyStart_le_endOf (show p < t.size by omega)
    omega
  | true =>
    cases hr : t.right? k with
    | none => exact Nat.le_of_eq (endOf_of_parent? hs hr hp)
    | some s =>
      have hspec := h.right?_spec hr
      rw [endOf_of_right? hs hr]
      exact Nat.le_of_lt <|
        (h.bodyStart_le_endOf_and_lt_endOf_parent (right?_gt hr).2).2 hspec.2.2 p
          (hspec.1.trans hp)

/-- A subtree lies behind its node and ends no later than any subtree around it. -/
theorem bounds_of_contains (h : t.IsTree) (hc : t.Contains a k) :
    a ≤ k ∧ t.endOf k ≤ t.endOf a := by
  induction hc with
  | refl => exact ⟨Nat.le_refl a, Nat.le_refl _⟩
  | @tail p k _ hp ih =>
    have := parent?_lt hp
    have := h.endOf_le_endOf_parent hp
    omega

/-- A node that is strictly inside a subtree is reached through its parent. -/
theorem contains_parent (hc : t.Contains a k) (hne : a ≠ k) (hp : t.parent? k = some p) :
    t.Contains a p := by
  rcases Relation.ReflTransGen.cases_tail hc with heq | ⟨q, hq, hqp⟩
  · exact absurd heq.symm hne
  · rw [hp, Option.some.injEq] at hqp
    exact hqp ▸ hq

/-- What is strictly around a node is what contains its parent. -/
theorem contains_parent_iff (hp : t.parent? k = some p) :
    t.Contains a k ∧ a ≠ k ↔ t.Contains a p := by
  constructor
  · rintro ⟨hc, hne⟩
    exact contains_parent hc hne hp
  · intro hc
    have hap := le_of_contains hc
    have hpk := parent?_lt hp
    exact ⟨hc.tail hp, by omega⟩

/-- Attributes and declarations contain nothing but themselves. -/
theorem eq_of_contains_owned (h : t.IsTree) (hs : (t.kind a).isStructural = false)
    (hc : t.Contains a k) : a = k := by
  rcases Relation.ReflTransGen.cases_head hc with heq | ⟨c, hca, -⟩
  · exact heq
  · rw [h.structural_parent hca] at hs
    cases hs

theorem contains_of_bounds (h : t.IsTree) (hk : k < t.size) (hak : a ≤ k) (hend : k < t.endOf a) :
    t.Contains a k := by
  induction k using Nat.strongRecOn generalizing a with
  | ind k ih =>
    rcases Nat.eq_or_lt_of_le hak with rfl | hlt
    · exact .refl
    obtain ⟨p, hp⟩ := h.exists_parent hk (by omega)
    have hpk := parent?_lt hp
    suffices hap : a ≤ p from
      (ih p hpk (by omega) hap (by omega)).tail hp
    by_contra hap
    -- What the parent owns has no subtree, so that a node between the parent and `k` is structural.
    have howned : t.bodyStart p ≤ a := by
      by_contra hb
      have := endOf_of_owned (h.owned_of_lt_bodyStart (p := p) (k := a) (by omega) (by omega)).1
      omega
    cases hs : (t.kind k).isStructural with
    | false =>
      have := h.lt_bodyStart_of_owned hp hs
      omega
    | true =>
      cases hl : t.left? k with
      | none =>
        have := h.firstChild?_eq_bodyStart (h.firstChild?_eq_some_iff.2 ⟨hp, hs, hl⟩)
        omega
      | some l =>
        have hlk := left?_lt hl
        have hlp := (h.right?_spec (h.right?_eq_some_iff.2 hl)).1.symm.trans hp
        have hend' := h.endOf_left hl
        -- The left sibling ends where `k` begins: `a` is around it, the same, or inside it.
        rcases Nat.lt_trichotomy a l with hal | rfl | hla
        · have := (h.bounds_of_contains (contains_parent
            (ih l hlk (by omega) (a := a) (by omega) (by omega)) (by omega) hlp)).1
          omega
        · omega
        · have := (h.bounds_of_contains
            (ih a hlt (by omega) (a := l) (by omega) (by omega))).2
          omega

/-- The subtree of a node ends before any later sibling begins. -/
theorem endOf_le_of_sibling (h : t.IsTree) (hjk : j < k) (hj : t.parent? j = some p)
    (hk : t.parent? k = some p) : t.endOf j ≤ k := by
  by_contra hend
  have hc := h.contains_of_bounds (a := j) (lt_size_of_parent? hk) (by omega) (by omega)
  have := (h.bounds_of_contains (contains_parent hc (by omega) hk)).1
  have := parent?_lt hj
  omega

/-- A subtree is an interval of places. -/
theorem contains_iff (h : t.IsTree) (hk : k < t.size) :
    t.Contains a k ↔ a ≤ k ∧ k < t.endOf a := by
  refine ⟨fun hc => ?_, fun hb => h.contains_of_bounds hk hb.1 hb.2⟩
  have := h.bounds_of_contains hc
  have := h.lt_endOf hk
  omega

/-- The document node contains all. -/
theorem endOf_zero (h : t.IsTree) : t.endOf 0 = t.size := by
  have hkind := (h.kind_eq_root_iff t.nonempty).2 rfl
  have hs : (t.kind 0).isStructural = true := by simp [hkind, Kind.isStructural]
  have hp := (h.parent?_eq_none_iff t.nonempty).2 rfl
  refine endOf_of_parentless hs ?_ hp
  cases hr : t.right? 0 with
  | none => rfl
  | some s =>
    obtain ⟨p, hs⟩ := h.exists_parent (right?_gt hr).2 (by have := right?_gt hr; omega)
    have := (h.right?_spec hr).1
    simp_all

theorem endOf_le_size (h : t.IsTree) (hk : k < t.size) : t.endOf k ≤ t.size := by
  have hc := h.contains_of_bounds (a := 0) hk (Nat.zero_le k) (by rw [h.endOf_zero]; exact hk)
  have := (h.bounds_of_contains hc).2
  rwa [h.endOf_zero] at this

/-- Where a subtree ends before the table does, a structural node begins. -/
theorem structural_endOf (h : t.IsTree) (hk : k < t.size) (hs : (t.kind k).isStructural = true)
    (hend : t.endOf k < t.size) : (t.kind (t.endOf k)).isStructural = true := by
  induction k using Nat.strongRecOn with
  | ind k ih =>
    cases hr : t.right? k with
    | some s =>
      rw [endOf_of_right? hs hr]
      exact (h.right?_spec hr).2.2
    | none =>
      cases hp : t.parent? k with
      | some p =>
        have hpk := parent?_lt hp
        rw [endOf_of_parent? hs hr hp] at hend ⊢
        exact ih p hpk (by omega) (h.structural_parent hp) hend
      | none =>
        rw [endOf_of_parentless hs hr hp] at hend
        omega

/-- After a structural node and what it owns comes the next structural node. -/
theorem structural_bodyStart (h : t.IsTree) (hk : k < t.size)
    (hs : (t.kind k).isStructural = true) (hend : t.bodyStart k < t.size) :
    (t.kind (t.bodyStart k)).isStructural = true := by
  cases hc : t.firstChild? k with
  | some c =>
    rw [← h.firstChild?_eq_bodyStart hc]
    exact (h.firstChild?_eq_some_iff.1 hc).2.1
  | none =>
    rw [← h.endOf_eq_bodyStart hk hc] at hend ⊢
    exact h.structural_endOf hk hs hend

end IsTree

end Snapshot

end DocTree
