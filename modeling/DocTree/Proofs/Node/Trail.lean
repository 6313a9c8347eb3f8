import DocTree.Node.Order
import DocTree.Proofs.Layout.Subtree
import DocTree.Proofs.Reading.Granted

/-!
# Positions and paths without a cursor

The position of a node among its siblings or among what its owner owns, and the path of positions
from the document node, as functions of the snapshot. A cursor that is refused nothing finds the
same.

## Main definitions

- `Snapshot.leftCount`, `Snapshot.rung` — a node's position at its level
- `Snapshot.trail` — the positions on the way from the document node

## Main statements

- `Snapshot.IsTree.yields_pathOf` — a cursor finds the path
-/

namespace DocTree

open Reading

namespace Snapshot

variable (t : Snapshot)

/-- The number of siblings to the left. -/
def leftCount (k : Nat) : Nat :=
  match _h : t.left? k with
  | some l => leftCount l + 1
  | none => 0
termination_by k
decreasing_by exact left?_lt _h

/-- The rank and the position of a node below its parent or owner. -/
def rung (p k : Nat) : Nat × Nat :=
  match t.kind k with
  | .namespaceDecl => (0, (t.namespaces p).idxOf k)
  | .attribute => (1, (t.attributes p).idxOf k)
  | _ => (2, t.leftCount k)

/-- The ranks and positions on the way from the document node down to a node. -/
def trail (k : Nat) : List (Nat × Nat) :=
  match _h : t.parent? k with
  | some p => trail p ++ [t.rung p k]
  | none => []
termination_by k
decreasing_by exact parent?_lt _h

variable {t} {σ : Type} {s : σ} {k l p : Nat}

theorem leftCount_of_left? (h : t.left? k = some l) : t.leftCount k = t.leftCount l + 1 := by
  rw [leftCount]
  split <;> simp_all

theorem leftCount_of_first (h : t.left? k = none) : t.leftCount k = 0 := by
  rw [leftCount]
  split <;> simp_all

theorem trail_of_parent? (h : t.parent? k = some p) : t.trail k = t.trail p ++ [t.rung p k] := by
  rw [trail]
  split <;> simp_all

theorem trail_of_parentless (h : t.parent? k = none) : t.trail k = [] := by
  rw [trail]
  split <;> simp_all

namespace IsTree

/-- A node with a parent is a declaration, an attribute or a child. -/
theorem rung_cases (h : t.IsTree) (hp : t.parent? k = some p) :
    (k ∈ t.namespaces p ∧ t.rung p k = (0, (t.namespaces p).idxOf k)) ∨
      (k ∈ t.attributes p ∧ t.rung p k = (1, (t.attributes p).idxOf k)) ∨
      ((t.kind k).isStructural = true ∧ t.rung p k = (2, t.leftCount k)) := by
  rw [h.mem_namespaces_iff, h.mem_attributes_iff]
  cases hkind : t.kind k <;> simp [rung, hkind, hp, Kind.isStructural]

/-- The cursor counts the siblings to the left and ends on the first one. -/
theorem yields_countLeft (h : t.IsTree) (s : σ) (k count : Nat) :
    ∃ first, t.parent? first = t.parent? k ∧
      (t.countLeft k count).Yields s k (count + t.leftCount k, first) s first := by
  induction k using Nat.strongRecOn generalizing count with
  | ind k ih =>
    cases hl : t.left? k with
    | none =>
      refine ⟨k, rfl, ?_⟩
      rw [leftCount_of_first hl, countLeft]
      split
      · simp_all
      · exact .done _ s k
    | some l =>
      obtain ⟨first, hfirst, hcount⟩ := ih l (left?_lt hl) (count + 1)
      have hp := (h.right?_spec (h.right?_eq_some_iff.2 hl)).1
      refine ⟨first, hfirst.trans hp.symm, ?_⟩
      rw [leftCount_of_left? hl, Nat.add_comm _ 1, ← Nat.add_assoc, countLeft]
      split
      · rename_i l' hl'
        obtain rfl : l = l' := by simpa [hl] using hl'
        exact (Yields.step (some l) s k).bind hcount
      · simp_all

/-- What a node owns is stored one after the other. -/
theorem exists_owned_eq_range' (h : t.IsTree) (attributes : Bool) (p : Nat) :
    ∃ first, t.owned attributes p = List.range' first (t.owned attributes p).length := by
  cases attributes with
  | false => exact ⟨_, h.namespaces_eq p⟩
  | true => exact ⟨_, h.attributes_eq p⟩

theorem nodup_owned (h : t.IsTree) (attributes : Bool) (p : Nat) :
    (t.owned attributes p).Nodup := by
  obtain ⟨first, heq⟩ := h.exists_owned_eq_range' attributes p
  rw [heq]
  exact List.nodup_range'

/-- Among what a node owns, positions ascend with the places. -/
theorem idxOf_owned_lt (h : t.IsTree) (attributes : Bool) {j k : Nat} (hjk : j < k)
    (hj : j ∈ t.owned attributes p) (hk : k ∈ t.owned attributes p) :
    (t.owned attributes p).idxOf j < (t.owned attributes p).idxOf k := by
  obtain ⟨first, heq⟩ := h.exists_owned_eq_range' attributes p
  have hposition : ∀ {i}, i ∈ t.owned attributes p →
      first + (t.owned attributes p).idxOf i = i := by
    intro i hi
    have hget := List.getElem_idxOf (List.idxOf_lt_length_of_mem hi)
    rw [List.getElem_of_eq heq, List.getElem_range'] at hget
    omega
  have := hposition hj
  have := hposition hk
  omega

/-- The cursor finds the node among those that its owner owns and is back on the owner. -/
theorem yields_searchOwned (h : t.IsTree) (s : σ) {attributes : Bool} {owner key i left index : Nat}
    (hi : (t.owned attributes owner)[i]? = some key) (hle : index ≤ i) (hlt : i < index + left) :
    (t.searchOwned attributes owner key left index owner).Yields s owner (i, owner) s owner := by
  induction left generalizing index with
  | zero => omega
  | succ left ih =>
    rw [searchOwned]
    refine (Yields.ask _ s owner).bind ((Yields.ask (some owner) s _).bind ?_)
    rcases Nat.eq_or_lt_of_le hle with rfl | hlt'
    · simpa [hi] using Yields.done (index, owner) s owner
    · have hlen : index < (t.owned attributes owner).length := by
        have := (List.getElem?_eq_some_iff.1 hi).1
        omega
      obtain ⟨other, hother⟩ : ∃ other, (t.owned attributes owner)[index]? = some other :=
        ⟨_, List.getElem?_eq_getElem hlen⟩
      -- What is owned is listed once, so that this is not yet the node.
      have hne : other ≠ key := by
        rintro rfl
        have := (List.getElem?_inj hlen (h.nodup_owned attributes owner)).1 (hother.trans hi.symm)
        omega
      simpa [hother, hne] using ih (Nat.succ_le_of_lt hlt') (by omega)

/-- The cursor finds the position of an attribute or a declaration and ends on the owner. -/
theorem yields_ownedPosition (h : t.IsTree) (s : σ) (hp : t.parent? k = some p)
    (hk : (t.kind k).isStructural = false) :
    (t.ownedPosition k).Yields s k ((t.rung p k).2, p) s p := by
  have hposition : ∀ attributes, (t.kind k == .attribute) = attributes →
      k ∈ t.owned attributes p →
      (t.ownedPosition k).Yields s k ((t.owned attributes p).idxOf k, p) s p := by
    rintro attributes rfl hmem
    have hlt := List.idxOf_lt_length_of_mem hmem
    simp only [ownedPosition, hp]
    refine (Yields.step (some p) s k).bind (h.yields_searchOwned s ?_ (Nat.zero_le _) (by omega))
    rw [List.getElem?_eq_getElem hlt, List.getElem_idxOf]
  cases hkind : t.kind k with
  | namespaceDecl =>
    simpa [rung, hkind, owned] using
      hposition false (by simp [hkind]) (h.mem_namespaces_iff.2 ⟨hkind, hp⟩)
  | «attribute» =>
    simpa [rung, hkind, owned] using
      hposition true (by simp [hkind]) (h.mem_attributes_iff.2 ⟨hkind, hp⟩)
  | _ => simp [hkind, Kind.isStructural] at hk

/-- From the node at `k` the cursor climbs to the document node and finds the path on the way, if
there are enough levels. -/
theorem yields_path (h : t.IsTree) (s : σ) (hk : k < t.size) {levels : Nat} (hlevels : k < levels)
    (below : List (Nat × Nat)) :
    (t.path levels k below).Yields s k (t.trail k ++ below) s 0 := by
  induction levels generalizing k below with
  | zero => omega
  | succ levels ih =>
    rcases Nat.eq_zero_or_pos k with rfl | hpos
    · rw [path, (h.kind_eq_root_iff hk).2 rfl, trail_of_parentless ((h.parent?_eq_none_iff hk).2 rfl)]
      exact .done below s 0
    obtain ⟨p, hp⟩ := h.exists_parent hk (by omega)
    have hpk := parent?_lt hp
    -- Whatever kind of step is found at this level, the climb goes on from the parent.
    have hup : ∀ step, (t.path levels p (step :: below)).Yields s p
        (t.trail p ++ step :: below) s 0 := fun step => ih (by omega) (by omega) _
    rw [path, trail_of_parent? hp, List.append_assoc]
    cases hkind : t.kind k with
    | root => simp [h.kind_eq_root_iff hk] at hkind; omega
    | namespaceDecl =>
      have hfound := h.yields_ownedPosition s hp (by simp [hkind, Kind.isStructural])
      simp only [rung, hkind] at hfound ⊢
      exact hfound.bind (hup _)
    | «attribute» =>
      have hfound := h.yields_ownedPosition s hp (by simp [hkind, Kind.isStructural])
      simp only [rung, hkind] at hfound ⊢
      exact hfound.bind (hup _)
    | _ =>
      obtain ⟨first, hfirst, hcount⟩ := h.yields_countLeft s k 0
      simp only [rung, hkind, Nat.zero_add] at hcount ⊢
      refine hcount.bind ?_
      simp only [hfirst, hp]
      exact (Yields.step (some p) s first).bind (hup _)

/-- A cursor that is refused nothing finds the path of a node and ends on the document node. -/
theorem yields_pathOf (h : t.IsTree) (s : σ) (hk : k < t.size) :
    (t.pathOf k).Yields s k (t.trail k) s 0 := by
  have hlevels : k < t.size + 2 := by omega
  have hpath := h.yields_path s hk hlevels []
  rwa [List.append_nil] at hpath

end IsTree

end Snapshot

end DocTree
