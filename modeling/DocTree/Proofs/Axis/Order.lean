import DocTree.Proofs.Axis.Dispatch
import DocTree.Proofs.Stream.Merge
import DocTree.Proofs.Walk.Order

/-!
# The order of an axis

Undisturbed, an iterator over an axis that is called reverse delivers keys that descend, and over any
other axis but that of the namespaces, keys that ascend, as merges need them. The declarations in
scope are delivered from the nearest element to the farthest, so their keys do neither.

## Main statements

- `Axis.orders_walk` — the order in which the walk along an axis goes
- `Dispatcher.dispatch_in_order` — the order in which an iterator delivers
- `Dispatcher.declarations_in_scope_go_back` — the axis whose keys neither ascend nor descend
-/

namespace DocTree

open Snapshot

/-- The walk along an axis goes in the direction that the axis is said to have, except where it
visits declarations. -/
theorem Axis.orders_walk (axis : Axis) (origin : Handle) (t : Snapshot) :
    (axis.walk origin).Orders t =
      if axis = .namespaceDecl then t.DeclaredNearer
      else if axis.isReverse then (· > ·) else (· < ·) := by
  cases axis <;> rfl

/-- What is accepted of nodes in some order is in that order. -/
theorem Snapshot.pairwise_accepted (t : Snapshot) {ks : List Nat} {R : Nat → Nat → Prop}
    (h : ks.Pairwise R) (revision : Nat) (accepts : Handle → Bool) :
    ((ks.map (t.handle revision)).filter accepts).Pairwise
      fun x y => R x.key.toNat y.key.toNat := by
  have hall : (ks.map (t.handle revision)).Pairwise fun x y => R x.key.toNat y.key.toNat :=
    List.pairwise_map.2 h
  exact hall.filter accepts

namespace Dispatcher

/-- Whenever an axis is dispatched at a node of a committed revision and all operations are granted,
the iterator delivers the same handles. If the axis is called reverse, their keys strictly descend. If
it is not and is not that of the namespaces, their keys strictly ascend and are such as a merge needs.
On that axis the declarations of one element come in the order of their keys, and before those of any
element above it, which have smaller keys. -/
theorem dispatch_in_order (c : Content) (hidesNames : Bool) (d : Dispatcher) (k : Nat)
    (hk : k < (Snapshot.ofContent c).size) (axis : Axis) (test : NodeTest) (pool : NamePool) :
    ∃ (hs : List Handle) (n : Nat),
      (∀ s : Store, s.snapshot? d.revision = some (.ofContent c) → s.hidesNames = hidesNames →
        s.meter.GrantsNext n →
        ∃ it s₁ s₂, d.dispatch ((c.seen hidesNames).handle d.revision k) axis test s =
            (.ok it, s₁) ∧ it.Drains pool s₁ hs s₂) ∧
      (axis.isReverse = true → (hs.map (·.key)).Pairwise (· > ·)) ∧
      (axis.isReverse = false → axis ≠ .namespaceDecl → Ascends (hs.map (·.key))) ∧
      (axis = .namespaceDecl →
        (hs.map (·.key.toNat)).Pairwise (c.seen hidesNames).DeclaredNearer) := by
  have htree := c.isTree_seen hidesNames
  have hsize : k < (c.seen hidesNames).size := by simpa using hk
  obtain ⟨ks, hroute, hlength, -⟩ := axis.exists_route htree hsize d.revision
  have hdelivers : d.Delivers (c.seen hidesNames) k axis test pool _ :=
    delivers_route htree hsize hroute hlength
  obtain ⟨n, hn⟩ := hdelivers
  let hs := (ks.map ((c.seen hidesNames).handle d.revision)).filter (test.accepts pool)
  have hpairwise := (c.seen hidesNames).pairwise_accepted
    (hroute.pairwise htree hsize (axis.within_walk htree hsize d.revision)).1 d.revision
    (test.accepts pool)
  rw [axis.orders_walk] at hpairwise
  refine ⟨hs, n, ?delivers, ?reverse, ?forward, ?declarations⟩
  case delivers =>
    intro s hc hnames hs
    have hv := Store.view?_of_committed hc
    rw [hnames] at hv
    obtain ⟨it, s₁, hit, hdrains⟩ := hn s hv hs
    exact ⟨it, s₁, _, hit, hdrains⟩
  case reverse =>
    intro hreverse
    have hne : axis ≠ .namespaceDecl := by
      rintro rfl
      cases hreverse
    simp only [hne, hreverse, if_false, if_true] at hpairwise
    refine List.pairwise_map.2 (hpairwise.imp ?_)
    intro x y hxy
    omega
  case forward =>
    intro hforward hne
    simp only [hne, hforward, if_false, Bool.false_eq_true] at hpairwise
    refine ⟨List.pairwise_map.2 (hpairwise.imp ?_), ?_⟩
    · intro x y hxy
      omega
    · intro key hkey
      obtain ⟨x, hx, rfl⟩ := List.mem_map.1 hkey
      obtain ⟨j, -, rfl⟩ := List.mem_map.1 (List.mem_filter.1 hx).1
      exact Int.natCast_nonneg j
  case declarations =>
    rintro rfl
    exact List.pairwise_map.2 hpairwise

/-- An element `a` with a declaration, and in it an element `b` with two. -/
def declaringContent : Content :=
  .element { name := .ofLocal "a", namespaces := [("p", "u")] }
    (.element { name := .ofLocal "b", namespaces := [("q", "v"), ("r", "w")] } .nil .nil) .nil

/-- The handle of a node of that. The key of `b` is 3, the declarations have the keys 2, 4 and 5. -/
def declaring (key : Nat) : Handle := (declaringContent.seen false).handle 0 key

/-- A store with that as its only revision. -/
def declaringStore : Store := { revisions := #[.ofContent declaringContent] }

/-- The nodes before the last declaration, with its ancestors, by descending keys. -/
theorem dispatch_in_order_back :
    (∃ it s₁ s₂, dispatch ⟨0, 0, 0⟩ (declaring 5) .precedingOrAncestor .any declaringStore =
        (.ok it, s₁) ∧ it.Drains .empty s₁ [declaring 3, declaring 1, declaring 0] s₂) ∧
    ([declaring 3, declaring 1, declaring 0].map (·.key)).Pairwise (· > ·) := by
  obtain ⟨hs, n, hdelivers, hreverse, -, -⟩ := dispatch_in_order declaringContent false ⟨0, 0, 0⟩ 5
    (by decide) .precedingOrAncestor .any .empty
  obtain ⟨it, s₁, s₂, hit, hdrains⟩ := hdelivers declaringStore rfl rfl
    (Meter.grantsNext_of_unlimited rfl n)
  obtain ⟨hwalking, rfl⟩ := Prod.mk.inj hit
  obtain rfl := Except.ok.inj hwalking
  have hthree : hs = [declaring 3, declaring 1, declaring 0] :=
    (hdrains.unique (.item (AxisIterator.next_of_visit rfl (Walk.run_advance 9 rfl) rfl rfl)
      (.item (AxisIterator.next_of_visit rfl (Walk.run_advance 9 rfl) rfl rfl)
        (.item (AxisIterator.next_of_visit rfl (Walk.run_advance 9 rfl) rfl rfl)
          (.stop (AxisIterator.next_of_stop rfl (Walk.run_advance 9 rfl) rfl)))))).1
  subst hthree
  exact ⟨⟨_, _, s₂, hit, hdrains⟩, hreverse rfl⟩

/-- In the scope of `b` are its own two declarations and then that of `a`, whose key is less. -/
theorem declarations_in_scope_go_back :
    Axis.isReverse .namespaceDecl = false ∧
    (∃ it s₁ s₂, dispatch ⟨0, 0, 0⟩ (declaring 3) .namespaceDecl .any declaringStore = (.ok it, s₁) ∧
      it.Drains .empty s₁ [declaring 4, declaring 5, declaring 2] s₂) ∧
    ¬([declaring 4, declaring 5, declaring 2].map (·.key)).Pairwise (· < ·) :=
  ⟨rfl,
    ⟨_, _, _, rfl, .item (AxisIterator.next_of_visit rfl (Walk.run_advance 9 rfl) rfl rfl)
      (.item (AxisIterator.next_of_visit rfl (Walk.run_advance 9 rfl) rfl rfl)
        (.item (AxisIterator.next_of_visit rfl (Walk.run_advance 9 rfl) rfl rfl)
          (.stop (AxisIterator.next_of_stop rfl (Walk.run_advance 9 rfl) rfl))))⟩,
    by decide⟩

end Dispatcher

end DocTree
