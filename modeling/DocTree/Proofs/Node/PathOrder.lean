import DocTree.Proofs.Node.Trail

/-!
# Paths in document order

Of two nodes the one with the smaller key has the smaller path. Either it is an ancestor of the other
node, or it is below a child or an owned node of an ancestor of the other, and there the two paths
part at different positions.

## Main statements

- `Snapshot.IsTree.comparePaths_trail` — paths compare as keys do
-/

namespace DocTree

/-- Paths with a common beginning compare as what comes after it. -/
theorem comparePaths_append_left (p q r : List (Nat × Nat)) :
    comparePaths (p ++ q) (p ++ r) = comparePaths q r := by
  induction p with
  | nil => rfl
  | cons step p ih =>
    obtain ⟨r, i⟩ := step
    simp [comparePaths, ih]

theorem comparePaths_self (p : List (Nat × Nat)) : comparePaths p p = .eq := by
  simpa [comparePaths] using comparePaths_append_left p [] []

theorem comparePaths_swap (p q : List (Nat × Nat)) :
    (comparePaths p q).swap = comparePaths q p := by
  induction p generalizing q with
  | nil => cases q <;> rfl
  | cons step p ih =>
    cases q with
    | nil => rfl
    | cons step' q => simp [comparePaths, Ordering.swap_then, ih, Nat.compare_swap]

/-- A path before another one is also before all that is below the other. -/
theorem comparePaths_append_right {p q : List (Nat × Nat)} (h : comparePaths p q = .lt)
    (r : List (Nat × Nat)) : comparePaths p (q ++ r) = .lt := by
  induction p generalizing q with
  | nil =>
    cases q with
    | nil => simp [comparePaths] at h
    | cons step q => rfl
  | cons step p ih =>
    cases q with
    | nil => simp [comparePaths] at h
    | cons step' q =>
      simp only [comparePaths, Ordering.then_eq_lt, List.cons_append] at h ⊢
      rcases h with h | ⟨hrank, h | ⟨hposition, h⟩⟩
      · exact .inl h
      · exact .inr ⟨hrank, .inl h⟩
      · exact .inr ⟨hrank, .inr ⟨hposition, ih h⟩⟩

namespace Snapshot

variable {t : Snapshot} {i j k p a : Nat}

/-- The path of a node begins with the paths of those that contain it. -/
theorem exists_trail_of_contains (hc : t.Contains a k) : ∃ below, t.trail k = t.trail a ++ below := by
  induction hc with
  | refl => exact ⟨[], by simp⟩
  | @tail p k _ hp ih =>
    obtain ⟨below, hbelow⟩ := ih
    exact ⟨below ++ [t.rung p k], by rw [trail_of_parent? hp, hbelow, List.append_assoc]⟩

namespace IsTree

/-- A child to the right of another one has more siblings to its left. -/
theorem leftCount_lt (h : t.IsTree) (hjk : j < k) (hj : t.parent? j = some p)
    (hjs : (t.kind j).isStructural = true) (hk : t.parent? k = some p)
    (hks : (t.kind k).isStructural = true) : t.leftCount j < t.leftCount k := by
  induction k using Nat.strongRecOn with
  | ind k ih =>
    cases hl : t.left? k with
    | none =>
      have hfirst := h.firstChild?_eq_bodyStart (h.firstChild?_eq_some_iff.2 ⟨hk, hks, hl⟩)
      have := h.bodyStart_le_of_child hj hjs
      omega
    | some l =>
      have hlk := left?_lt hl
      have hspec := h.right?_spec (h.right?_eq_some_iff.2 hl)
      have hlp : t.parent? l = some p := hspec.1.symm.trans hk
      rw [leftCount_of_left? hl]
      rcases Nat.lt_trichotomy j l with hjl | rfl | hlj
      · have := ih l hlk hjl hlp hspec.2.1
        omega
      · exact Nat.lt_succ_self _
      · -- `j` is not behind the left sibling: the subtree of that ends where `k` begins.
        have := h.endOf_le_of_sibling hlj hlp hj
        rw [h.endOf_left hl] at this
        omega

/-- Below one node, ranks and positions ascend with the places: declarations are stored before
attributes, and attributes before children. -/
theorem rung_lt (h : t.IsTree) (hjk : j < k) (hj : t.parent? j = some p)
    (hk : t.parent? k = some p) :
    (t.rung p j).1 < (t.rung p k).1 ∨
      (t.rung p j).1 = (t.rung p k).1 ∧ (t.rung p j).2 < (t.rung p k).2 := by
  rcases h.rung_cases hj with ⟨hjm, hjr⟩ | ⟨hjm, hjr⟩ | ⟨hjs, hjr⟩ <;>
    rcases h.rung_cases hk with ⟨hkm, hkr⟩ | ⟨hkm, hkr⟩ | ⟨hks, hkr⟩ <;> rw [hjr, hkr]
  · exact .inr ⟨rfl, h.idxOf_owned_lt false hjk hjm hkm⟩
  · exact .inl Nat.zero_lt_one
  · exact .inl Nat.zero_lt_two
  · rw [h.attributes_eq p, List.mem_range'_1] at hjm
    rw [h.namespaces_eq p, List.mem_range'_1] at hkm
    omega
  · exact .inr ⟨rfl, h.idxOf_owned_lt true hjk hjm hkm⟩
  · exact .inl Nat.one_lt_two
  · have hbody := h.bodyStart_le_of_child hj hjs
    rw [h.namespaces_eq p, List.mem_range'_1] at hkm
    unfold bodyStart at hbody
    omega
  · have hbody := h.bodyStart_le_of_child hj hjs
    rw [h.attributes_eq p, List.mem_range'_1] at hkm
    unfold bodyStart at hbody
    omega
  · exact .inr ⟨rfl, h.leftCount_lt hjk hj hjs hk hks⟩

/-- Paths that part below one node compare as the places where they do. -/
theorem comparePaths_rung (h : t.IsTree) (hjk : j < k) (hj : t.parent? j = some p)
    (hk : t.parent? k = some p) (q r : List (Nat × Nat)) :
    comparePaths (t.rung p j :: q) (t.rung p k :: r) = .lt := by
  simp only [comparePaths, Ordering.then_eq_lt, Nat.compare_eq_lt, Nat.compare_eq_eq]
  rcases h.rung_lt hjk hj hk with hrank | ⟨hrank, hposition⟩
  · exact .inl hrank
  · exact .inr ⟨hrank, .inl hposition⟩

/-- The smaller key has the smaller path. The induction climbs from the node with the greater key
until the other node is not behind the parent any more. -/
theorem comparePaths_trail_of_lt (h : t.IsTree) (hk : k < t.size) (hjk : j < k) :
    comparePaths (t.trail j) (t.trail k) = .lt := by
  induction k using Nat.strongRecOn with
  | ind k ih =>
    obtain ⟨p, hp⟩ := h.exists_parent hk (by omega)
    have hpk := parent?_lt hp
    rw [trail_of_parent? hp]
    rcases Nat.lt_trichotomy j p with hjp | rfl | hpj
    · exact comparePaths_append_right (ih p hpk (by omega) hjp) _
    · simpa [comparePaths] using comparePaths_append_left (t.trail j) [] [t.rung j k]
    · -- `j` is below a child or an owned node `a` of `p`, which lies before `k`.
      have hj : t.Contains p j := by
        have hend := h.lt_endOf hk
        have := h.endOf_le_endOf_parent hp
        exact h.contains_of_bounds (by omega) (by omega) (by omega)
      rcases Relation.ReflTransGen.cases_head hj with rfl | ⟨a, ha, haj⟩
      · omega
      have hak := (h.bounds_of_contains haj).1
      obtain ⟨below, hbelow⟩ := exists_trail_of_contains haj
      rw [hbelow, trail_of_parent? ha, List.append_assoc, comparePaths_append_left]
      exact h.comparePaths_rung (by omega) ha hp below []

/-- Paths compare as keys do. -/
theorem comparePaths_trail (h : t.IsTree) (hj : j < t.size) (hk : k < t.size) :
    comparePaths (t.trail j) (t.trail k) = compare j k := by
  rcases Nat.lt_trichotomy j k with hjk | rfl | hkj
  · rw [h.comparePaths_trail_of_lt hk hjk, Nat.compare_eq_lt.2 hjk]
  · rw [comparePaths_self, Nat.compare_eq_eq.2 rfl]
  · rw [← comparePaths_swap, h.comparePaths_trail_of_lt hj hkj, Nat.compare_eq_gt.2 hkj]
    rfl

end IsTree

end Snapshot

end DocTree
