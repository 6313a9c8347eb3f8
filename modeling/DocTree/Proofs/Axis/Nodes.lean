import DocTree.Node.Lenient
import DocTree.Proofs.Axis.Dispatch
import DocTree.Proofs.Registry.Budget
import DocTree.Proofs.Store.Steady

/-!
# The nodes on an axis

Asked up to its end, an axis from a node delivers nodes of the same document. Where nothing is refused
they stand for the places on the route of the walk, as far as the test accepts them. It does not matter
when the origin itself was read: an iteration needs its key and its kind, and, unless the origin is all
that there is to look at, delivers what it reads now.

## Main definitions

- `NodeAxis.Drains` — an axis asked up to its end
- `Node.OnAxis` — the nodes on an axis from a node
- `Content.nodeAt` — the node at a place, as it is read now

## Main statements

- `Node.OnAxis.unique` — there is one list of nodes on an axis
- `Node.At.onAxis` — the nodes on an axis are those on the route
- `Document.undisturbed_consult`, `Node.At.undisturbed_read` — without a budget a reading is not
  disturbed
-/

namespace DocTree

open Snapshot Store

section Origin

variable {origin : Handle} {axis : Axis} {pool : NamePool}

/-- The iterator with another origin. -/
def AxisIterator.withOrigin (origin : Handle) (it : AxisIterator) : AxisIterator :=
  { it with origin }

/-- Unless the origin is all that there is, an iterator is not left with it alone. -/
theorem Dispatcher.ensures_dispatch_not_pending (d : Dispatcher) (test : NodeTest)
    (hopening : axis.opening origin.kind ≠ .originOnly) :
    Ensures (d.dispatch origin axis test) (ifOk fun it => it.progress ≠ .pending) := by
  refine (d.ensures_dispatch_cases origin axis test).ifOk_mono ?_
  rintro it (rfl | ⟨honly, rfl⟩ | ⟨c, -, rfl⟩)
  · exact nofun
  · exact absurd honly hopening
  · exact nofun

/-- An iterator that is not left with its origin alone does not look at it, and never will be. -/
theorem AxisIterator.next_withOrigin (origin : Handle) {it : AxisIterator}
    (hit : it.progress ≠ .pending) (pool : NamePool) (s : Store) :
    (it.withOrigin origin).next pool s =
        (((it.next pool s).1.1, (it.next pool s).1.2.withOrigin origin), (it.next pool s).2) ∧
      (it.next pool s).1.2.progress ≠ .pending := by
  obtain ⟨d, origin', axis, test, progress⟩ := it
  unfold next withOrigin
  rcases progress with _ | _ | ⟨walk, c⟩
  · exact ⟨rfl, nofun⟩
  · exact absurd rfl hit
  · simp only [bind, StateT.bind]
    rcases Store.perform c _ () s with ⟨run, s'⟩
    dsimp only
    rcases run.outcome with e | _ | walk'
    · exact ⟨rfl, nofun⟩
    · exact ⟨rfl, nofun⟩
    · exact ⟨rfl, nofun⟩

theorem AxisIterator.Drains.withOrigin {it : AxisIterator} {s s' : Store} {hs : List Handle}
    (h : it.Drains pool s hs s') (hit : it.progress ≠ .pending) (origin : Handle) :
    (it.withOrigin origin).Drains pool s hs s' := by
  induction h with
  | stop h =>
    obtain ⟨hnext, -⟩ := next_withOrigin origin hit pool _
    rw [h] at hnext
    exact .stop hnext
  | item h rest ih =>
    obtain ⟨hnext, hlater⟩ := next_withOrigin origin hit pool _
    rw [h] at hnext hlater
    exact .item hnext (ih hlater)

/-- An iterator from the node `k`, with whatever name that had when it was read, delivers what is
accepted of the route from there. -/
theorem Dispatcher.exists_drains {d : Dispatcher} {s : Store} {c : Content} {k : Nat} {ks : List Nat}
    (hc : s.snapshot? d.revision = some (.ofContent c)) (hfree : s.meter.budget? = none)
    (hk : k < (Snapshot.ofContent c).size)
    (hroute : Route (c.seen s.hidesNames) (axis.walk ((c.seen s.hidesNames).handle d.revision k)) k
      ks)
    (hkey : origin.key = k) (hkind : origin.kind = (Snapshot.ofContent c).kind k)
    (hopening : axis.opening origin.kind ≠ .originOnly) (test : NodeTest) (pool : NamePool) :
    ∃ it s₁ s₂, d.dispatch origin axis test s = (.ok it, s₁) ∧ it.dispatcher = d ∧
      it.Drains pool s₁
        ((ks.map ((c.seen s.hidesNames).handle d.revision)).filter (test.accepts pool)) s₂ := by
  have htree := c.isTree_seen s.hidesNames
  have hsize : k < (c.seen s.hidesNames).size := by simpa using hk
  -- What the route visits is no longer than the table, so that an iterator gets to its end.
  obtain ⟨ks', hroute', hlength, -⟩ := axis.exists_route htree hsize d.revision
  obtain rfl := hroute.unique hroute'
  obtain ⟨n, hn⟩ : d.Delivers (c.seen s.hidesNames) k axis test pool _ :=
    delivers_route htree hsize hroute hlength
  obtain ⟨it, s₁, hdispatch, hdrains⟩ := hn s (Store.view?_of_committed hc)
    (Meter.grantsNext_of_unlimited hfree n)
  have hsame : origin.kind = ((c.seen s.hidesNames).handle d.revision k).kind :=
    hkind.trans (c.kind_seen s.hidesNames k).symm
  have hparts := d.ensures_dispatch_eq ((c.seen s.hidesNames).handle d.revision k) axis test s
  have hpending := d.ensures_dispatch_not_pending test (hsame ▸ hopening) s
  rw [hdispatch] at hparts hpending
  refine ⟨it.withOrigin origin, s₁, _, ?_, congrArg AxisIterator.dispatcher hparts,
    hdrains.withOrigin hpending origin⟩
  rw [d.dispatch_congr test test hkey hsame, hdispatch, hparts]
  rfl

end Origin

namespace NodeAxis

/-- Asking for the next node until there is none, with no error: the nodes that are delivered, and the
registry afterwards. -/
inductive Drains : NodeAxis → Registry → List Node → Registry → Prop where
  | stop {a a' : NodeAxis} {r r' : Registry} (h : a.next r = ((none, a'), r')) : Drains a r [] r'
  | item {a a' : NodeAxis} {r r' r'' : Registry} {y : Node} {ys : List Node}
      (h : a.next r = ((some (.ok y), a'), r')) (rest : Drains a' r' ys r'') :
      Drains a r (y :: ys) r''

variable {a : NodeAxis} {r r₁ r₂ : Registry} {ys ys' : List Node}

/-- What an axis delivers is determined. -/
theorem Drains.unique (h : a.Drains r ys r₁) (h' : a.Drains r ys' r₂) : ys = ys' ∧ r₁ = r₂ := by
  induction h generalizing ys' r₂ with
  | stop h =>
    cases h' with
    | stop h' => exact ⟨rfl, (Prod.mk.inj (h.symm.trans h')).2⟩
    | item h' rest' => exact nomatch (Prod.mk.inj (Prod.mk.inj (h.symm.trans h')).1).1
  | item h rest ih =>
    cases h' with
    | stop h' => exact nomatch (Prod.mk.inj (Prod.mk.inj (h.symm.trans h')).1).1
    | item h' rest' =>
      obtain ⟨hanswer, rfl⟩ := Prod.mk.inj (h.symm.trans h')
      simp only [Prod.mk.injEq, Option.some.injEq, Except.ok.injEq] at hanswer
      obtain ⟨rfl, rfl⟩ := hanswer
      obtain ⟨rfl, rfl⟩ := ih rest'
      exact ⟨rfl, rfl⟩

/-- The next node is made of the next handle. -/
theorem run_next (it : AxisIterator) (id : Nat) (r : Registry) :
    NodeAxis.next ⟨it, id⟩ r =
      (((it.next (r.pool it.dispatcher.pool) (r.store it.dispatcher.store)).1.1.map
          (·.map fun h => ⟨h, id⟩),
        ⟨(it.next (r.pool it.dispatcher.pool) (r.store it.dispatcher.store)).1.2, id⟩),
      r.setStore it.dispatcher.store
        (it.next (r.pool it.dispatcher.pool) (r.store it.dispatcher.store)).2) :=
  rfl

/-- The nodes on an axis are made of the handles. -/
theorem drains_of_handles {it : AxisIterator} {pool : NamePool} {s s' : Store} {hs : List Handle}
    (h : it.Drains pool s hs s') (id : Nat) {d : Dispatcher} (hit : it.dispatcher = d)
    (hid : d.store < r.stores.size) (hstore : r.store d.store = s) (hpool : r.pool d.pool = pool) :
    Drains ⟨it, id⟩ r (hs.map fun h => ⟨h, id⟩) (r.setStore d.store s') := by
  have hrun : ∀ {it : AxisIterator} {r : Registry} {s : Store}, it.dispatcher = d →
      r.store d.store = s → r.pool d.pool = pool → NodeAxis.next ⟨it, id⟩ r =
        (((it.next pool s).1.1.map (·.map fun h => ⟨h, id⟩), ⟨(it.next pool s).1.2, id⟩),
          r.setStore d.store (it.next pool s).2) := by
    rintro it r s rfl rfl rfl
    exact run_next it id r
  induction h generalizing r with
  | stop h =>
    apply Drains.stop
    rw [hrun hit hstore hpool, h]
    rfl
  | @item it it' s s' s'' x hs h rest ih =>
    have hit' : it'.dispatcher = d := by
      have hkept := it.ensures_next_eq pool s
      rw [h] at hkept
      exact (congrArg AxisIterator.dispatcher hkept).trans hit
    have hnext := hrun (r := r) hit hstore hpool
    rw [h] at hnext
    refine .item hnext ?_
    have hrest := ih (r := r.setStore d.store s') hit'
      (by rw [Registry.size_setStore]; exact hid) (Registry.store_setStore hid s') hpool
    rw [Registry.setStore_setStore] at hrest
    exact hrest

end NodeAxis

/-- A reading in a document whose store has no budget is not disturbed: it asks nothing of other
stores. -/
theorem Document.undisturbed_consult {α : Type} (d : Document) {r : Registry}
    (hfree : (r.store d.mount.store).meter.budget? = none) (key : Int)
    (reading : Snapshot → Nat → Reading Unit α) (reports : α → Bool) :
    (d.consult key reading reports).Undisturbed r := by
  intro id
  by_cases hid : d.mount.store = id
  · subst hid
    exact Meter.grantsNext_of_unlimited hfree _
  · rw [Document.run_consult, Registry.store_setStore_of_ne hid, Nat.sub_self]
    exact Meter.grantsNext_zero _

/-- The node at a place of a revision, as it is read through a document. -/
def Content.nodeAt (c : Content) (hidesNames : Bool) (revision document k : Nat) : Node :=
  ⟨(c.seen hidesNames).handle revision k, document⟩

namespace Node

/-- Asked up to its end, the axis from a node delivers the nodes of a list, and no error. -/
def OnAxis (x : Node) (axis : Axis) (test : NodeTest) (r : Registry) (ys : List Node) : Prop :=
  ∃ it r₁ r₂, (x.iterate axis test).run r = (.ok it, r₁) ∧
    NodeAxis.Drains ⟨it, x.document⟩ r₁ ys r₂

variable {x : Node} {axis : Axis} {test : NodeTest} {r : Registry} {ys ys' : List Node}
  {mount : Mount} {revision j k : Nat} {c : Content} {d : Document} {ks : List Nat}

/-- There is one list of nodes on an axis. -/
theorem OnAxis.unique (h : x.OnAxis axis test r ys) (h' : x.OnAxis axis test r ys') : ys = ys' := by
  obtain ⟨it, r₁, r₂, hrun, hdrains⟩ := h
  obtain ⟨it', r₁', r₂', hrun', hdrains'⟩ := h'
  obtain ⟨hit, rfl⟩ := Prod.mk.inj (hrun.symm.trans hrun')
  obtain rfl := Except.ok.inj hit
  exact (hdrains.unique hdrains').1

/-- Other places of the revision are read in the document of the node. -/
theorem At.nodeAt (h : x.At r mount revision c k) (hidesNames : Bool)
    (hj : j < (Snapshot.ofContent c).size) :
    (c.nodeAt hidesNames revision x.document j).At r mount revision c j where
  document := h.document
  committed := h.committed
  handle_eq := ⟨hidesNames, rfl⟩
  lt_size := hj

/-- Where nothing is refused, the nodes on an axis are those on the route of the walk that the test
accepts. -/
theorem At.onAxis (h : x.At r mount revision c k) (hd : r.document? x.document = some d)
    (hfree : (r.store mount.store).meter.budget? = none)
    (hopening : axis.opening ((Snapshot.ofContent c).kind k) ≠ .originOnly)
    (hroute : Route (c.seen (r.store mount.store).hidesNames)
      (axis.walk ((c.seen (r.store mount.store).hidesNames).handle revision k)) k ks)
    (test : NodeTest) :
    x.OnAxis axis test r
      ((ks.filter fun j => test.accepts (r.pool d.pool)
          ((c.seen (r.store mount.store).hidesNames).handle revision j)).map
        (c.nodeAt (r.store mount.store).hidesNames revision x.document)) := by
  obtain ⟨d', hd', rfl, rfl⟩ := h.document
  obtain rfl : d' = d := Option.some.inj (hd'.symm.trans hd)
  have hid : d'.mount.store < r.stores.size := Registry.lt_size_of_snapshot? h.committed
  have hkind : x.handle.kind = (Snapshot.ofContent c).kind k :=
    (h.kind_eq false).trans (c.kind_seen false k)
  obtain ⟨it, s₁, s₂, hdispatch, hit, hdrains⟩ : ∃ it s₁ s₂,
      d'.dispatcher.dispatch x.handle axis test (r.store d'.mount.store) = (.ok it, s₁) ∧
        it.dispatcher = d'.dispatcher ∧ it.Drains (r.pool d'.pool) s₁ _ s₂ :=
    Dispatcher.exists_drains h.committed hfree h.lt_size hroute h.key_eq hkind (hkind ▸ hopening)
      test (r.pool d'.pool)
  have hrun : (x.iterate axis test).run r = (.ok it, r.setStore d'.mount.store s₁) := by
    rw [run_iterate hd]
    show ((d'.dispatcher.dispatch x.handle axis test (r.store d'.mount.store)).1,
      r.setStore d'.mount.store
        (d'.dispatcher.dispatch x.handle axis test (r.store d'.mount.store)).2) = _
    rw [hdispatch]
  have hsize : d'.dispatcher.store < (r.setStore d'.mount.store s₁).stores.size := by
    rw [Registry.size_setStore]
    exact hid
  have hnodes := NodeAxis.drains_of_handles hdrains x.document hit hsize
    (Registry.store_setStore hid s₁) rfl
  rw [List.filter_map, List.map_map] at hnodes
  exact ⟨it, _, _, hrun, hnodes⟩

/-- Where nothing is refused to a store, a reading at a node in it is not disturbed. -/
theorem At.undisturbed_read {α : Type} (h : x.At r mount revision c k)
    (hfree : (r.store mount.store).meter.budget? = none)
    (reading : Snapshot → Nat → Reading Unit α) : (x.read reading).Undisturbed r := by
  obtain ⟨d, hd, rfl, rfl⟩ := h.document
  have hconsult := d.undisturbed_consult hfree x.handle.key reading fun _ => false
  intro id
  rw [run_read hd]
  exact hconsult id

end Node

end DocTree
