import DocTree.Proofs.Node.PathOrder
import DocTree.Proofs.Registry.Undisturbed

/-!
# Document order

Two nodes of the same revision compare as their keys do, from whatever open documents they were got
and however far their paths go together. So the comparison is a strict order of all nodes of the
tree, in which only the same nodes are equal. Nodes of different trees are not compared at all.

## Main statements

- `Handle.yields_orderFrom` — the comparison by a cursor that is refused nothing
- `Node.documentOrder` — the order of the nodes of a revision
-/

namespace DocTree

open Reading

theorem compare_natCast (i j : Nat) : compare (i : Int) j = compare i j := by
  rcases Nat.lt_trichotomy i j with hij | rfl | hji
  · rw [Nat.compare_eq_lt.2 hij, Int.compare_eq_lt.2 (by omega)]
  · rw [Nat.compare_eq_eq.2 rfl, Int.compare_eq_eq.2 rfl]
  · rw [Nat.compare_eq_gt.2 hji, Int.compare_eq_gt.2 (by omega)]

/-- A cursor that is refused nothing compares two nodes as their keys compare. -/
theorem Handle.yields_orderFrom {σ : Type} {t : Snapshot} (h : t.IsTree) (s : σ) {other : Handle}
    {j k : Nat} (hk : k < t.size) (hkey : other.key = j) (hj : j < t.size) :
    (other.orderFrom t k).Yields s k (compare k j) s 0 := by
  have hfind : t.find? other.key = some j := by rw [hkey, Snapshot.find?_natCast hj]
  have hnat : other.key.toNat = j := by omega
  rw [← h.comparePaths_trail hk hj, Handle.orderFrom, hfind, hnat]
  refine (h.yields_pathOf s hk).bind ((Yields.ask (some j) s 0).bind ?_)
  exact (h.yields_pathOf s hj).bind (.done _ s 0)

namespace Node

variable {x y z : Node} {r : Registry} {mount : Mount} {revision i j k : Nat} {c : Content}

theorem At.sameTree (hx : x.At r mount revision c i) (hy : y.At r mount revision c j) :
    x.sameTree y r = true := by
  obtain ⟨d, hd, hdm, -⟩ := hx.document
  obtain ⟨e, he, hem, -⟩ := hy.document
  simp [Node.sameTree, hx.revision_eq, hy.revision_eq, hd, he, hdm, hem]

theorem run_compareOrder (x y : Node) (r : Registry) :
    (x.compareOrder y).run r =
      if x.sameTree y r then
        if x.handle.key == y.handle.key then (.ok .eq, r)
        else (x.read y.handle.orderFrom).run r
      else (.error .foreignTree, r) := by
  rw [Node.compareOrder, ExceptT.run_bind]
  change ExceptT.run (if !x.sameTree y r then throw .foreignTree
    else if x.handle.key == y.handle.key then pure .eq
    else x.read y.handle.orderFrom : Access Ordering) r = _
  cases x.sameTree y r with
  | false => rfl
  | true =>
    cases x.handle.key == y.handle.key with
    | true => rfl
    | false => rfl

/-- Of one node no path is looked for. -/
theorem At.run_compareOrder_self (hx : x.At r mount revision c i) (hy : y.At r mount revision c i) :
    (x.compareOrder y).run r = (.ok .eq, r) := by
  have hkey : (x.handle.key == y.handle.key) = true := by simp [hx.key_eq, hy.key_eq]
  rw [run_compareOrder, hx.sameTree hy, if_pos rfl, hkey, if_pos rfl]

theorem At.run_compareOrder_of_ne (hx : x.At r mount revision c i) (hy : y.At r mount revision c j)
    (hij : i ≠ j) : (x.compareOrder y).run r = (x.read y.handle.orderFrom).run r := by
  have hkey : ¬(x.handle.key == y.handle.key) = true := by
    simpa [hx.key_eq, hy.key_eq, Int.ofNat_inj] using hij
  rw [run_compareOrder, hx.sameTree hy, if_pos rfl, if_neg hkey]

/-- Undisturbed, nodes of one revision compare as their keys do. -/
theorem At.answer_compareOrder (hx : x.At r mount revision c i) (hy : y.At r mount revision c j)
    (h : (x.compareOrder y).Undisturbed r) :
    (x.compareOrder y).answer r = .ok (compare i j) := by
  by_cases hij : i = j
  · subst hij
    rw [Access.answer, hx.run_compareOrder_self hy, Nat.compare_eq_eq.2 rfl]
  · have hrun := hx.run_compareOrder_of_ne hy hij
    have hread : (x.read y.handle.orderFrom).Undisturbed r := by
      intro store
      have hstore := h store
      rwa [hrun] at hstore
    have hanswer := hx.answer_read hread
    obtain ⟨n, hn⟩ := Handle.yields_orderFrom (c.isTree_seen (r.store mount.store).hidesNames) ()
      (by simpa using hx.lt_size) hy.key_eq (by simpa using hy.lt_size)
    rw [hn] at hanswer
    rwa [Access.answer, hrun]

theorem At.isSame_iff (hx : x.At r mount revision c i) (hy : y.At r mount revision c j) :
    x.isSame y r = true ↔ i = j := by
  rw [Node.isSame, hx.sameTree hy, hx.key_eq, hy.key_eq, Bool.and_true, beq_iff_eq, Int.ofNat_inj]

theorem sameTree_of_mount {d e : Document} (hd : r.document? x.document = some d)
    (he : r.document? y.document = some e) (h : d.mount.tree ≠ e.mount.tree) :
    x.sameTree y r = false := by
  have hne : x.document ≠ y.document := by
    intro heq
    rw [heq, he, Option.some.injEq] at hd
    exact h (by rw [hd])
  simp [Node.sameTree, hd, he, hne, h]

/-- Nodes of different trees are not compared. -/
theorem run_compareOrder_of_foreign (h : x.sameTree y r = false) :
    (x.compareOrder y).run r = (.error .foreignTree, r) := by
  rw [run_compareOrder, h, if_neg (by simp)]

/-- Document order. Undisturbed, two nodes of a revision compare as their keys do, equal only to
themselves, the other way round in reverse, and transitively. Nodes of different revisions or of
different mounts have no order. -/
theorem documentOrder (r : Registry) (mount : Mount) (revision : Nat) (c : Content) :
    (∀ (x y : Node) (i j : Nat), x.At r mount revision c i → y.At r mount revision c j →
      (x.compareOrder y).Undisturbed r →
      (x.compareOrder y).answer r = .ok (compare x.handle.key y.handle.key) ∧
        ((x.compareOrder y).answer r = .ok .eq ↔ x.isSame y r = true)) ∧
    (∀ (x y : Node) (i j : Nat), x.At r mount revision c i → y.At r mount revision c j →
      (x.compareOrder y).Undisturbed r → (y.compareOrder x).Undisturbed r →
      (y.compareOrder x).answer r = ((x.compareOrder y).answer r).map Ordering.swap) ∧
    (∀ (x y z : Node) (i j k : Nat), x.At r mount revision c i → y.At r mount revision c j →
      z.At r mount revision c k → (x.compareOrder y).Undisturbed r →
      (y.compareOrder z).Undisturbed r → (x.compareOrder z).Undisturbed r →
      (x.compareOrder y).answer r = .ok .lt → (y.compareOrder z).answer r = .ok .lt →
      (x.compareOrder z).answer r = .ok .lt) ∧
    (∀ x y : Node, x.handle.revision ≠ y.handle.revision →
      (x.compareOrder y).run r = (.error .foreignTree, r)) ∧
    (∀ (x y : Node) (d e : Document), r.document? x.document = some d →
      r.document? y.document = some e → d.mount.tree ≠ e.mount.tree →
      (x.compareOrder y).run r = (.error .foreignTree, r)) := by
  refine ⟨?keys, ?swap, ?trans, ?revisions, ?mounts⟩
  case keys =>
    intro x y i j hx hy h
    rw [hx.answer_compareOrder hy h, hx.key_eq, hy.key_eq, hx.isSame_iff hy, compare_natCast,
      Except.ok.injEq, Except.ok.injEq, Nat.compare_eq_eq]
    exact ⟨rfl, Iff.rfl⟩
  case swap =>
    intro x y i j hx hy h h'
    rw [hx.answer_compareOrder hy h, hy.answer_compareOrder hx h', Except.map, Nat.compare_swap]
  case trans =>
    intro x y z i j k hx hy hz h h' h'' hxy hyz
    rw [hx.answer_compareOrder hy h, Except.ok.injEq, Nat.compare_eq_lt] at hxy
    rw [hy.answer_compareOrder hz h', Except.ok.injEq, Nat.compare_eq_lt] at hyz
    rw [hx.answer_compareOrder hz h'', Nat.compare_eq_lt.2 (by omega)]
  case revisions =>
    intro x y h
    exact run_compareOrder_of_foreign (by simp [Node.sameTree, h])
  case mounts =>
    intro x y d e hd he h
    exact run_compareOrder_of_foreign (sameTree_of_mount hd he h)

/-- An element with an attribute and a text. -/
def smallContent : Content :=
  .element { name := .ofLocal "e", attributes := [(.ofLocal "a", "1")] }
    (.leaf (.text "t") .nil) .nil

/-- The only revision of a store as a document. -/
def smallDocument (mount : Mount) : Document := ⟨mount, 0, 0, none, 0, {}⟩

/-- A store with an element in its only revision. The first two documents are over one mount of the
store, the third is over another one. -/
def smallRegistry : Registry where
  stores := #[{ revisions := #[.ofContent smallContent] }]
  documents :=
    #[some (smallDocument ⟨0, 0⟩), some (smallDocument ⟨0, 0⟩), some (smallDocument ⟨1, 0⟩)]

/-- The node of one of the three documents with a given key. -/
def smallNode (document key : Nat) : Node :=
  ⟨(smallContent.seen false).handle 0 key, document⟩

theorem smallNode_at {document key : Nat} (hdocument : document < 2) (hkey : key < 4) :
    (smallNode document key).At smallRegistry ⟨0, 0⟩ 0 smallContent key where
  document := by
    have hcases : document = 0 ∨ document = 1 := by omega
    rcases hcases with rfl | rfl
    · exact ⟨smallDocument ⟨0, 0⟩, rfl, rfl, rfl⟩
    · exact ⟨smallDocument ⟨0, 0⟩, rfl, rfl, rfl⟩
  committed := rfl
  handle_eq := ⟨false, rfl⟩
  lt_size := hkey

/-- The attribute of the element comes before its text, whichever of the two documents they are from,
and the element before both. A node from the third document, or from another revision, is not
compared with them. -/
theorem documentOrder_attribute_text :
    ((smallNode 0 2).compareOrder (smallNode 1 3)).answer smallRegistry = .ok .lt ∧
      ((smallNode 1 3).compareOrder (smallNode 0 2)).answer smallRegistry = .ok .gt ∧
      ((smallNode 0 1).compareOrder (smallNode 1 3)).answer smallRegistry = .ok .lt ∧
      ((smallNode 0 2).compareOrder ⟨(smallContent.seen false).handle 1 3, 1⟩).run smallRegistry =
        (.error .foreignTree, smallRegistry) ∧
      ((smallNode 0 2).compareOrder (smallNode 2 3)).run smallRegistry =
        (.error .foreignTree, smallRegistry) := by
  have hfree : ∀ {α : Type} (a : Access α), a.Undisturbed smallRegistry :=
    fun a => Access.undisturbed_of_single a rfl rfl
  have hx : (smallNode 0 1).At smallRegistry ⟨0, 0⟩ 0 smallContent 1 :=
    smallNode_at (by decide) (by decide)
  have hy : (smallNode 0 2).At smallRegistry ⟨0, 0⟩ 0 smallContent 2 :=
    smallNode_at (by decide) (by decide)
  have hz : (smallNode 1 3).At smallRegistry ⟨0, 0⟩ 0 smallContent 3 :=
    smallNode_at (by decide) (by decide)
  obtain ⟨hkeys, hswap, htrans, hrevisions, hmounts⟩ :=
    documentOrder smallRegistry ⟨0, 0⟩ 0 smallContent
  have hxy := (hkeys _ _ _ _ hx hy (hfree _)).1
  have hyz := (hkeys _ _ _ _ hy hz (hfree _)).1
  refine ⟨hyz, ?_, ?_, hrevisions _ _ (by decide),
    hmounts _ _ (smallDocument ⟨0, 0⟩) (smallDocument ⟨1, 0⟩) rfl rfl (by decide)⟩
  · rw [hswap _ _ _ _ hy hz (hfree _) (hfree _), hyz]
    rfl
  · exact htrans _ _ _ _ _ _ hx hy hz (hfree _) (hfree _) (hfree _) hxy hyz

end Node

end DocTree
