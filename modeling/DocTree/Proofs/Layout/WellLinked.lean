import DocTree.Proofs.Layout.Subtree
import Mathlib.Data.List.Sort

/-!
# Well-linked snapshots

The links of a snapshot, read as a whole: from the first child to the right one gets all children in
ascending order, to the left one gets back the same way, and a node lists exactly the attributes and
the declarations whose parent it is.

## Main definitions

- `Snapshot.childChain` — the children of a node along the links
- `Snapshot.childNodes`, `Snapshot.ownedNodes` — the same by a search through the table
- `Snapshot.WellLinked` — links and parents say the same

## Main statements

- `Snapshot.ofContent_wellLinked` — the snapshot of a document is well linked
-/

namespace DocTree

namespace Snapshot

variable (t : Snapshot)

/-- The node at `k` and all siblings to its right, along the links. -/
def chain (k : Nat) : List Nat :=
  k :: match _h : t.right? k with
    | some s => chain s
    | none => []
termination_by t.size - k
decreasing_by
  have := right?_gt _h
  omega

/-- The children of the node at `p`: the first one and the siblings to its right. -/
def childChain (p : Nat) : List Nat :=
  match t.firstChild? p with
  | some c => t.chain c
  | none => []

/-- All structural nodes with parent `p`, in ascending order. -/
def childNodes (p : Nat) : List Nat :=
  (List.range t.size).filter fun k => (t.kind k).isStructural && t.parent? k == some p

/-- All nodes of a kind with parent `p`, in ascending order. -/
def ownedNodes (kind : Kind) (p : Nat) : List Nat :=
  (List.range t.size).filter fun k => t.kind k == kind && t.parent? k == some p

/-- The links of a snapshot are those that its parents and kinds ask for. -/
structure WellLinked : Prop where
  /-- The key of a record is its place. -/
  key_eq : ∀ k < t.size, (t.node k).key = k
  /-- The first record is the only document node. -/
  kind_eq_root_iff : ∀ k < t.size, (t.kind k = .root ↔ k = 0)
  /-- The first record is the only one without a parent. -/
  parent?_eq_none_iff : ∀ k < t.size, (t.parent? k = none ↔ k = 0)
  /-- Parents come first. -/
  parent_lt : ∀ k < t.size, ∀ p, t.parent? k = some p → p < k
  /-- Structural nodes lie below the document node or an element. -/
  parent_of_structural : ∀ k < t.size, (t.kind k).isStructural = true →
    ∀ p, t.parent? k = some p → t.kind p = .root ∨ t.kind p = .element
  /-- Attributes and declarations belong to an element. -/
  parent_of_owned : ∀ k < t.size, (t.kind k).isStructural = false →
    ∀ p, t.parent? k = some p → t.kind p = .element
  /-- The chain of a node are its structural children in ascending order. -/
  childChain_eq : ∀ p < t.size, t.childChain p = t.childNodes p
  childCount_eq : ∀ p < t.size, (t.node p).childCount = (t.childChain p).length
  /-- To the left is the way back. -/
  left?_eq_some_iff : ∀ j k, t.left? k = some j ↔ t.right? j = some k
  /-- Nothing is left of the first child. -/
  left?_firstChild : ∀ p c, t.firstChild? p = some c → t.left? c = none
  /-- Nothing is right of the last child. -/
  right?_last : ∀ p, ∀ c ∈ (t.childChain p).getLast?, t.right? c = none
  attributes_eq : ∀ p < t.size, t.attributes p = t.ownedNodes .attribute p
  namespaces_eq : ∀ p < t.size, t.namespaces p = t.ownedNodes .namespaceDecl p
  /-- Attributes and declarations have no links but that to their parent. -/
  bare : ∀ k < t.size, (t.kind k).isStructural = false →
    t.firstChild? k = none ∧ (t.node k).childCount = 0 ∧ t.left? k = none ∧ t.right? k = none ∧
      t.attributes k = [] ∧ t.namespaces k = []

variable {t} {j k p s c : Nat}

theorem chain_of_right? (hs : t.right? k = some s) : t.chain k = k :: t.chain s := by
  rw [chain]
  split <;> simp_all

theorem chain_of_last (hs : t.right? k = none) : t.chain k = [k] := by
  rw [chain]
  split <;> simp_all

/-- The chain from a node on is not empty and ends with a node that has nothing to its right. -/
theorem right?_getLast_chain (t : Snapshot) (k : Nat) :
    ∀ c ∈ (t.chain k).getLast?, t.right? c = none := by
  induction k using chain.induct t with
  | case1 k ih =>
    cases hs : t.right? k with
    | none =>
      rw [chain_of_last hs]
      simpa using hs
    | some s =>
      rw [chain_of_right? hs]
      intro c hc
      refine ih s hs c ?_
      cases hcs : t.chain s with
      | nil => rw [chain] at hcs; simp at hcs
      | cons x xs => simpa [hcs] using hc

theorem le_of_mem_chain (hj : j ∈ t.chain k) : k ≤ j := by
  induction k using chain.induct t with
  | case1 k ih =>
    cases hs : t.right? k with
    | none =>
      rw [chain_of_last hs, List.mem_singleton] at hj
      omega
    | some s =>
      have hgt := right?_gt hs
      rw [chain_of_right? hs, List.mem_cons] at hj
      rcases hj with rfl | hj
      · exact Nat.le_refl j
      · have := ih s hs hj
        omega

/-- To the right keys go up. -/
theorem pairwise_chain (t : Snapshot) (k : Nat) : (t.chain k).Pairwise (· < ·) := by
  induction k using chain.induct t with
  | case1 k ih =>
    cases hs : t.right? k with
    | none =>
      rw [chain_of_last hs]
      exact List.pairwise_singleton _ k
    | some s =>
      have hgt := right?_gt hs
      rw [chain_of_right? hs]
      refine List.pairwise_cons.2 ⟨fun j hj => ?_, ih s hs⟩
      have := le_of_mem_chain hj
      omega

/-- An ascending list with the same members as a part of a range is that part. -/
theorem eq_filter_range {keys : List Nat} {n : Nat} {selects : Nat → Bool}
    (hsorted : keys.Pairwise (· < ·)) (hmem : ∀ j, j ∈ keys ↔ j < n ∧ selects j = true) :
    keys = (List.range n).filter selects := by
  refine hsorted.eq_of_mem_iff (List.pairwise_lt_range.filter _) ?_
  intro j
  rw [hmem, List.mem_filter, List.mem_range]

namespace IsTree

/-- The siblings along the links are the structural nodes with the same parent from there on. -/
theorem mem_chain_iff (h : t.IsTree) (hp : t.parent? k = some p)
    (hk : (t.kind k).isStructural = true) :
    j ∈ t.chain k ↔ k ≤ j ∧ (t.kind j).isStructural = true ∧ t.parent? j = some p := by
  induction k using chain.induct t with
  | case1 k ih =>
    have hlt := lt_size_of_parent? hp
    have hend : k < j → t.parent? j = some p → t.endOf k ≤ j :=
      fun hkj hj => h.endOf_le_of_sibling hkj hp hj
    cases hs : t.right? k with
    | none =>
      have heq := endOf_of_parent? hk hs hp
      rw [chain_of_last hs, List.mem_singleton]
      constructor
      · rintro rfl
        exact ⟨Nat.le_refl j, hk, hp⟩
      · rintro ⟨hkj, hj, hjp⟩
        by_contra hne
        -- Behind the last sibling the parent has ended.
        have := hend (by omega) hjp
        have := (h.bodyStart_le_endOf_and_lt_endOf_parent (lt_size_of_parent? hjp)).2 hj p hjp
        omega
    | some s =>
      have hgt := right?_gt hs
      have hspec := h.right?_spec hs
      have heq := endOf_of_right? hk hs
      rw [chain_of_right? hs, List.mem_cons,
        ih s hs (hspec.1.trans hp) hspec.2.2]
      constructor
      · rintro (rfl | ⟨hsj, hj⟩)
        · exact ⟨Nat.le_refl j, hk, hp⟩
        · exact ⟨by omega, hj⟩
      · rintro ⟨hkj, hj, hjp⟩
        rcases Nat.eq_or_lt_of_le hkj with rfl | hlt'
        · exact .inl rfl
        · exact .inr ⟨by have := hend hlt' hjp; omega, hj, hjp⟩

/-- The children along the links are all children. -/
theorem mem_childChain_iff (h : t.IsTree) :
    j ∈ t.childChain p ↔ (t.kind j).isStructural = true ∧ t.parent? j = some p := by
  unfold childChain
  cases hc : t.firstChild? p with
  | some c =>
    have hspec := h.firstChild?_eq_some_iff.1 hc
    rw [h.mem_chain_iff hspec.1 hspec.2.1]
    refine ⟨fun hj => hj.2, fun hj => ⟨?_, hj⟩⟩
    rw [h.firstChild?_eq_bodyStart hc]
    exact h.bodyStart_le_of_child hj.2 hj.1
  | none =>
    refine ⟨fun hj => by simp at hj, fun ⟨hj, hp⟩ => ?_⟩
    -- The child lies where the childless parent has ended.
    have := lt_size_of_parent? hp
    have := parent?_lt hp
    have := h.endOf_eq_bodyStart (by omega) hc
    have := h.bodyStart_le_of_child hp hj
    have := (h.bodyStart_le_endOf_and_lt_endOf_parent (lt_size_of_parent? hp)).2 hj p hp
    omega

theorem childChain_eq (h : t.IsTree) (p : Nat) : t.childChain p = t.childNodes p := by
  have hsorted : (t.childChain p).Pairwise (· < ·) := by
    unfold childChain
    cases t.firstChild? p with
    | some c => exact pairwise_chain t c
    | none => exact List.Pairwise.nil
  refine eq_filter_range hsorted ?_
  intro j
  rw [h.mem_childChain_iff, Bool.and_eq_true, beq_iff_eq]
  exact ⟨fun hj => ⟨lt_size_of_parent? hj.2, hj⟩, fun hj => hj.2⟩

/-- What a node lists of one kind are all nodes of that kind that it owns. -/
theorem eq_ownedNodes {keys : List Nat} {kind : Kind} (hsorted : keys.Pairwise (· < ·))
    (hmem : ∀ j, j ∈ keys ↔ t.kind j = kind ∧ t.parent? j = some p) :
    keys = t.ownedNodes kind p := by
  refine eq_filter_range hsorted ?_
  intro j
  rw [hmem, Bool.and_eq_true, beq_iff_eq, beq_iff_eq]
  exact ⟨fun hj => ⟨lt_size_of_parent? hj.2, hj⟩, fun hj => hj.2⟩

theorem namespaces_eq_ownedNodes (h : t.IsTree) (p : Nat) :
    t.namespaces p = t.ownedNodes .namespaceDecl p := by
  have hsorted : (t.namespaces p).Pairwise (· < ·) := by
    rw [h.namespaces_eq p]
    exact List.pairwise_lt_range'
  exact eq_ownedNodes hsorted fun j => h.mem_namespaces_iff

theorem attributes_eq_ownedNodes (h : t.IsTree) (p : Nat) :
    t.attributes p = t.ownedNodes .attribute p := by
  have hsorted : (t.attributes p).Pairwise (· < ·) := by
    rw [h.attributes_eq p]
    exact List.pairwise_lt_range'
  exact eq_ownedNodes hsorted fun j => h.mem_attributes_iff

end IsTree

/-- The chain from a node on is longer by one than the sequence after the node. -/
theorem length_chain_of_next {doc next : Content} {m : Nat} (h : doc.Places next p m (some k))
    (hnext : next.firstKey? m = some m → ((ofContent doc).chain m).length = next.length) :
    ((ofContent doc).chain k).length = next.length + 1 := by
  have hr := h.right?
  cases hn : next.firstKey? m with
  | none =>
    obtain rfl := Content.firstKey?_eq_none hn
    rw [chain_of_last (hr.trans hn)]
    rfl
  | some s =>
    obtain ⟨rfl, -⟩ := Content.firstKey?_eq_some hn
    rw [chain_of_right? (hr.trans hn), List.length_cons, hnext hn]

/-- A sequence is as long as the chain that begins at its place. -/
theorem length_chain {doc s : Content} {left : Option Nat} (h : doc.Places s p k left)
    (hs : s.firstKey? k = some k) : ((ofContent doc).chain k).length = s.length := by
  induction s generalizing k left with
  | nil => simp at hs
  | leaf l next ih => exact length_chain_of_next h.afterLeaf (ih h.afterLeaf)
  | element head body next _ ih => exact length_chain_of_next h.afterElement (ih h.afterElement)

/-- A sequence with nothing before it is as long as the chain of its parent. -/
theorem length_childChain {doc s : Content} (h : doc.Places s p k none) :
    ((ofContent doc).childChain p).length = s.length := by
  unfold childChain
  rw [h.firstChild?]
  cases hs : s.firstKey? k with
  | none =>
    obtain rfl := Content.firstKey?_eq_none hs
    rfl
  | some m =>
    obtain ⟨rfl, -⟩ := Content.firstKey?_eq_some hs
    exact length_chain h hs

theorem ofContent_childCount (doc : Content) (hlt : p < (ofContent doc).size) :
    ((ofContent doc).node p).childCount = ((ofContent doc).childChain p).length := by
  cases Content.site_of_lt hlt with
  | document => rw [length_childChain .document, Content.node_document]
  | leaf h => simp [childChain, firstChild?, h.node_leaf]
  | element h => rw [length_childChain h.body, h.node_element]
  | declared h hi => simp [childChain, firstChild?, h.node_declaration hi]
  | attributed h hi => simp [childChain, firstChild?, h.node_attribute hi]

/-- The snapshot of a document is well linked. -/
theorem ofContent_wellLinked (doc : Content) : (ofContent doc).WellLinked := by
  have h := isTree_ofContent doc
  exact {
    key_eq := fun k _ => (node_linked _ k).key_eq
    kind_eq_root_iff := fun k hk => h.kind_eq_root_iff hk
    parent?_eq_none_iff := fun k hk => h.parent?_eq_none_iff hk
    parent_lt := fun k _ p hp => parent?_lt hp
    parent_of_structural := by
      intro k _ _ p hp
      have hpar := h.isParental_parent hp
      cases hkind : (ofContent doc).kind p <;> simp_all [Kind.isParental]
    parent_of_owned := fun k _ hk p hp => h.owner_eq_element hp hk
    childChain_eq := fun p _ => h.childChain_eq p
    childCount_eq := fun p hp => ofContent_childCount doc hp
    left?_eq_some_iff := fun j k => h.right?_eq_some_iff.symm
    left?_firstChild := fun p c hc => (h.firstChild?_eq_some_iff.1 hc).2.2
    right?_last := by
      intro p
      unfold childChain
      cases (ofContent doc).firstChild? p with
      | some c => exact right?_getLast_chain _ c
      | none => simp
    attributes_eq := fun p _ => h.attributes_eq_ownedNodes p
    namespaces_eq := fun p _ => h.namespaces_eq_ownedNodes p
    bare := by
      intro k _ hk
      obtain ⟨_, -, -, hc, hl, hr, ha, hn, hcount⟩ := owned_spec hk
      exact ⟨hc, hcount, hl, hr, ha, hn⟩ }

end Snapshot

end DocTree
