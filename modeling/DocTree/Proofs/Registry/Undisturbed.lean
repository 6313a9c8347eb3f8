import DocTree.Node.Basic
import DocTree.Proofs.Store.Granted

/-!
# Operations on nodes that are not disturbed

An operation on nodes is undisturbed if no store refuses any of the requests that it makes. A reading
in a document then ends as `Reading.ending` says. A node that was got from an open document keeps
saying which revision and which place it stands for.

## Main definitions

- `Access.answer` — what an operation answers
- `Access.Undisturbed` — no store refuses a request of the operation
- `Node.At` — the node stands for a place of a committed revision in an open document

## Main statements

- `Document.answer_consult` — the answer of an undisturbed reading
- `Document.at_of_node` — a document gives out nodes that stand for their places
-/

namespace DocTree

variable {α β : Type}

@[simp] theorem Content.size_seen (c : Content) (hidesNames : Bool) :
    (c.seen hidesNames).size = (Snapshot.ofContent c).size := by
  cases hidesNames <;> simp [Content.seen]

namespace Registry

variable {r : Registry} {id revision : Nat} {t : Snapshot}

/-- The registry with another store under a number. -/
def setStore (r : Registry) (id : Nat) (s : Store) : Registry :=
  { r with stores := r.stores.setIfInBounds id s }

theorem store_setStore (h : id < r.stores.size) (s : Store) : (r.setStore id s).store id = s := by
  simp [store, setStore, h]

/-- Work on one store changes that and no other. -/
theorem onStore_eq (id : Nat) (work : StateM Store α) (r : Registry) :
    onStore id work r = ((work (r.store id)).1, r.setStore id (work (r.store id)).2) :=
  rfl

theorem lt_size_of_snapshot? (h : (r.store id).snapshot? revision = some t) :
    id < r.stores.size := by
  by_contra hid
  have hnone : r.stores[id]? = none := by simpa using hid
  simp [store, hnone, Store.snapshot?] at h

theorem lt_size_of_view? (h : (r.store id).view? revision = some t) : id < r.stores.size := by
  obtain ⟨u, hu, -⟩ := Option.map_eq_some_iff.1 h
  exact lt_size_of_snapshot? hu

end Registry

namespace Access

section Bind

variable {a : Access α} {f : α → Access β} {r r' : Registry}

/-- After an answer it goes on. -/
theorem run_bind_of_ok {x : α} (h : a.run r = (.ok x, r')) : (a >>= f).run r = (f x).run r' := by
  rw [ExceptT.run_bind]
  simp only [bind, StateT.bind, h]

/-- A failure is not gone on from. -/
theorem run_bind_of_error {e : AccessError} (h : a.run r = (.error e, r')) :
    (a >>= f).run r = (.error e, r') := by
  rw [ExceptT.run_bind]
  simp only [bind, StateT.bind, h]
  rfl

/-- What an operation answers is made into something else. -/
theorem run_bind_pure (a : Access α) (f : α → β) (r : Registry) :
    (a >>= fun x => pure (f x)).run r = ((a.run r).1.map f, (a.run r).2) := by
  rcases h : a.run r with ⟨e | x, r'⟩
  · exact run_bind_of_error h
  · exact run_bind_of_ok h

end Bind

/-- What an operation answers. -/
def answer (a : Access α) (r : Registry) : Except AccessError α := (a.run r).1

theorem run_of_answer {a : Access α} {r : Registry} {x : Except AccessError α}
    (h : a.answer r = x) : a.run r = (x, (a.run r).2) :=
  Prod.ext h rfl

/-- No store refuses a request that the operation makes. -/
def Undisturbed (a : Access α) (r : Registry) : Prop :=
  ∀ id, (r.store id).meter.GrantsNext
    (((a.run r).2.store id).meter.used - (r.store id).meter.used)

/-- Where no store has a budget, nothing is disturbed. -/
theorem undisturbed_of_unlimited {r : Registry} (a : Access α)
    (h : ∀ id, (r.store id).meter.budget? = none) : a.Undisturbed r :=
  fun id => Meter.grantsNext_of_unlimited (h id) _

/-- Nor where the only store has none. -/
theorem undisturbed_of_single {r : Registry} {s : Store} (a : Access α) (hstores : r.stores = #[s])
    (hs : s.meter.budget? = none) : a.Undisturbed r := by
  refine undisturbed_of_unlimited a fun id => ?_
  rw [Registry.store, hstores]
  cases id with
  | zero => exact hs
  | succ id => rfl

end Access

namespace Document

variable {d : Document} {r : Registry} {t : Snapshot} {k : Nat}
  {reading : Snapshot → Nat → Reading Unit α} {reports : α → Bool}

theorem run_consult (d : Document) (key : Int) (reading : Snapshot → Nat → Reading Unit α)
    (reports : α → Bool) (r : Registry) :
    (d.consult key reading reports).run r =
      ((Store.consult d.revision key () reading reports (r.store d.mount.store)).1.1,
        r.setStore d.mount.store
          (Store.consult d.revision key () reading reports (r.store d.mount.store)).2) :=
  rfl

/-- An undisturbed reading in a document ends as it does when nothing is refused. -/
theorem answer_consult (hv : (r.store d.mount.store).view? d.revision = some t) (hk : k < t.size)
    (hclose : (r.store d.mount.store).closeFails = true → ∀ a, reports a = false)
    (h : (d.consult k reading reports).Undisturbed r) :
    (d.consult k reading reports).answer r = ((reading t k).ending () k).outcome := by
  have hid := Registry.lt_size_of_view? hv
  have hgrants : (r.store d.mount.store).meter.GrantsNext (2 + ((reading t k).ending () k).cost) := by
    have hstore := h d.mount.store
    rw [run_consult, Registry.store_setStore hid] at hstore
    exact Store.grantsNext_of_undisturbed_consult hv hk hstore
  rw [Access.answer, run_consult, Store.consult_of_grantsNext hv hk hclose hgrants]

end Document

namespace Node

/-- The node stands for the place `k` of a revision to which `c` was committed, and its document is
open. Whether its name was told when it was read does not matter. -/
structure At (n : Node) (r : Registry) (mount : Mount) (revision : Nat) (c : Content) (k : Nat) :
    Prop where
  document : ∃ d, r.document? n.document = some d ∧ d.mount = mount ∧ d.revision = revision
  committed : (r.store mount.store).snapshot? revision = some (.ofContent c)
  handle_eq : ∃ hidesNames, n.handle = (c.seen hidesNames).handle revision k
  lt_size : k < (Snapshot.ofContent c).size

variable {n : Node} {r : Registry} {mount : Mount} {revision k : Nat} {c : Content}

theorem At.key_eq (h : n.At r mount revision c k) : n.handle.key = k := by
  obtain ⟨hidesNames, heq⟩ := h.handle_eq
  rw [heq]
  rfl

theorem At.revision_eq (h : n.At r mount revision c k) : n.handle.revision = revision := by
  obtain ⟨hidesNames, heq⟩ := h.handle_eq
  rw [heq]
  rfl

theorem At.kind_eq (h : n.At r mount revision c k) (hidesNames : Bool) :
    n.handle.kind = (c.seen hidesNames).kind k := by
  obtain ⟨hides, heq⟩ := h.handle_eq
  rw [heq]
  cases hides <;> cases hidesNames <;> simp [Content.seen, Snapshot.handle, Handle.make]

theorem run_getDocument {d : Document} (hd : r.document? n.document = some d) :
    n.getDocument.run r = (.ok d, r) := by
  have hget : ExceptT.run (get : Access Registry) r = (.ok r, r) := rfl
  rw [getDocument, Access.run_bind_of_ok hget, hd]
  rfl

theorem run_getDocument_of_released (n : Node) (hd : r.document? n.document = none) :
    n.getDocument.run r = (.error .documentReleased, r) := by
  have hget : ExceptT.run (get : Access Registry) r = (.ok r, r) := rfl
  rw [getDocument, Access.run_bind_of_ok hget, hd]
  rfl

theorem run_read {d : Document} (hd : r.document? n.document = some d)
    (reading : Snapshot → Nat → Reading Unit α) :
    (n.read reading).run r = (d.read n.handle.key reading).run r :=
  Access.run_bind_of_ok (run_getDocument hd)

theorem run_iterate {d : Document} (hd : r.document? n.document = some d) (axis : Axis)
    (test : NodeTest) : (n.iterate axis test).run r =
      (Registry.access d.mount.store (d.dispatcher.dispatch n.handle axis test)).run r :=
  Access.run_bind_of_ok (run_getDocument hd)

theorem run_iterate_of_released (hd : r.document? n.document = none) (axis : Axis)
    (test : NodeTest) : (n.iterate axis test).run r = (.error .documentReleased, r) :=
  Access.run_bind_of_error (n.run_getDocument_of_released hd)

/-- An undisturbed reading at a node ends as it does when nothing is refused. -/
theorem At.answer_read (h : n.At r mount revision c k) {reading : Snapshot → Nat → Reading Unit α}
    (hread : (n.read reading).Undisturbed r) :
    (n.read reading).answer r =
      ((reading (c.seen (r.store mount.store).hidesNames) k).ending () k).outcome := by
  obtain ⟨d, hd, rfl, rfl⟩ := h.document
  -- The reading is made in the document of the node, with the key of the node.
  unfold Access.Undisturbed at hread
  rw [Access.answer, run_read hd, h.key_eq] at *
  refine d.answer_consult (Store.view?_of_committed h.committed) ?_ (fun _ _ => rfl) hread
  simpa using h.lt_size

end Node

namespace Document

variable {d : Document} {r : Registry} {c : Content} {id k : Nat}

theorem run_node (d : Document) (id k : Nat) (r : Registry) :
    (d.node id k).run r =
      (((d.consult k (fun t here => .done (t.handle d.revision here)) fun _ => true).run r).1.map
          (fun h => ⟨h, id⟩),
        ((d.consult k (fun t here => .done (t.handle d.revision here)) fun _ => true).run r).2) := by
  have hvalid : validateNode k = .ok () := by simp [validateNode]
  rw [Document.node, hvalid]
  change (d.consult k (fun t here => .done (t.handle d.revision here)) (fun _ => true) >>=
    fun h => (pure ⟨h, id⟩ : Access Node)).run r = _
  exact Access.run_bind_pure _ (fun h => (⟨h, id⟩ : Node)) r

/-- A document tells of a node what is stored at its key. -/
theorem answer_node (hc : (r.store d.mount.store).snapshot? d.revision = some (.ofContent c))
    (hk : k < (Snapshot.ofContent c).size) (hclose : (r.store d.mount.store).closeFails = false)
    (h : (d.node id k).Undisturbed r) :
    (d.node id k).answer r =
      .ok ⟨(c.seen (r.store d.mount.store).hidesNames).handle d.revision k, id⟩ := by
  have hconsult : (d.consult k (fun t here => .done (t.handle d.revision here))
      fun _ => true).Undisturbed r := by
    intro store
    have hstore := h store
    rwa [run_node] at hstore
  have hanswer := d.answer_consult (k := k) (Store.view?_of_committed hc) (by simpa using hk)
    (by simp [hclose]) hconsult
  rw [Access.answer] at hanswer
  rw [Access.answer, run_node, hanswer]
  rfl

/-- The nodes that a document gives out stand for their places. -/
theorem at_of_node (hd : r.document? id = some d)
    (hc : (r.store d.mount.store).snapshot? d.revision = some (.ofContent c))
    (hk : k < (Snapshot.ofContent c).size) (hclose : (r.store d.mount.store).closeFails = false)
    (h : (d.node id k).Undisturbed r) :
    ∃ n, (d.node id k).answer r = .ok n ∧ n.At r d.mount d.revision c k :=
  ⟨_, d.answer_node hc hk hclose h, ⟨d, hd, rfl, rfl⟩, hc, ⟨_, rfl⟩, hk⟩

end Document

end DocTree
