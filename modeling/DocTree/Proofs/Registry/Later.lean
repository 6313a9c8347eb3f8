import DocTree.Proofs.Registry.Conserved
import DocTree.Proofs.Store.Steady
import DocTree.Stream.Basic

/-!
# Later states of the registry

Documents come and go and can be changed, cursors are lent and given back. But no operation changes
what cursors see of a revision that has been committed, and none takes a code away from a name pool.

## Main definitions

- `Registry.Later` — a later state of the stores and the pools
- `Registry.Advances`, `Access.Advances` — work that leads to a later state

## Main statements

- `Registry.advances_onStore`, `Registry.advances_onPool` — work on one store or one pool
- `Access.compositional_advances` — operations advance as their pieces do
-/

namespace DocTree

variable {σ α β : Type}

/-- The notes that a reading leaves behind are its own, or those that it was given. -/
theorem Store.ensures_consult {P : σ → Prop} {init : σ} (hinit : P init) (revision : Nat) (key : Int)
    {reading : Snapshot → Nat → Reading σ α} (hnotes : ∀ t here, (reading t here).Notes P)
    (reports : α → Bool) :
    Ensures (consult revision key init reading reports) fun answer => P answer.2 := by
  refine (ensures_true _).bind fun opened _ => ?_
  cases opened with
  | error e => exact ensures_pure hinit
  | ok c =>
    have hrun : Ensures (perform c (reading c.snapshot c.place) init) fun run => P run.state :=
      fun s => (hnotes _ _).state_run hinit c s.meter
    refine hrun.bind fun run hstate => (ensures_true _).bind fun closed _ => ?_
    rcases closed with ⟨_ | _, _⟩ <;> rcases run.outcome with _ | _ <;> exact ensures_pure hstate

namespace Registry

variable {r r' r'' : Registry} {id : Nat}

/-- A later state of the registry: cursors see the same of the revisions that there were, and what had
a code in a pool has it still. -/
structure Later (r r' : Registry) : Prop where
  stores : ∀ id, (r.store id).Later (r'.store id)
  pools : ∀ id, (r.pool id).Extends (r'.pool id)

theorem Later.refl (r : Registry) : r.Later r := ⟨fun _ => .refl _, fun _ => .refl _⟩

theorem Later.trans (h : r.Later r') (h' : r'.Later r'') : r.Later r'' :=
  ⟨fun id => (h.stores id).trans (h'.stores id), fun id => (h.pools id).trans (h'.pools id)⟩

theorem later_setStore {s : Store} (h : (r.store id).Later s) : r.Later (r.setStore id s) where
  pools _ := .refl _
  stores other := by
    by_cases hother : id = other
    · subst hother
      by_cases hid : id < r.stores.size
      · rwa [store_setStore hid]
      · rw [setStore, Array.setIfInBounds_eq_of_size_le (Nat.le_of_not_lt hid)]
        exact .refl _
    · rw [store_setStore_of_ne hother]
      exact .refl _

theorem later_onPool {work : StateM NamePool α} (h : (r.pool id).Extends (work (r.pool id)).2) :
    r.Later (onPool id work r).2 :=
  ⟨fun _ => .refl _, extends_onPool r h⟩

/-- Work that leads to a later state of the registry. -/
def Advances (work : StateM Registry α) : Prop := ∀ r : Registry, r.Later (work r).2

theorem advances_pure (a : α) : Advances (pure a : StateM Registry α) := fun r => .refl r

theorem advances_get : Advances (get : StateM Registry Registry) := fun r => .refl r

theorem Advances.bind {work : StateM Registry α} {next : α → StateM Registry β} (h : Advances work)
    (hnext : ∀ a, Advances (next a)) : Advances (work >>= next) :=
  fun r => (h r).trans (hnext (work r).1 (work r).2)

theorem advances_onStore (id : Nat) {work : StateM Store α} (h : Store.Advances work) :
    Advances (onStore id work) :=
  fun _ => later_setStore (h _)

theorem advances_onPool (id : Nat) {work : StateM NamePool α}
    (h : ∀ p : NamePool, p.Extends (work p).2) : Advances (onPool id work) :=
  fun _ => later_onPool (h _)

end Registry

namespace Access

/-- However the operation ends, it leads to a later state of the registry. -/
def Advances (a : Access α) : Prop := Registry.Advances a.run

/-- Operations advance as the pieces do from which they are put together. -/
theorem compositional_advances : Compositional Advances where
  bind h hf := by
    rw [Advances, ExceptT.run_bind]
    refine Registry.Advances.bind h ?_
    intro outcome
    cases outcome with
    | error e => exact Registry.advances_pure _
    | ok x => exact hf x
  inspect _ hf r := hf r r
  aside {_ work} h hpools r := by
    have hstores : (work r).2.stores = r.stores := congrArg (·.2.stores) (h r r.stores)
    refine ⟨fun id => ?_, hpools r⟩
    show (r.store id).Later ((work r).2.store id)
    rw [Registry.store, Registry.store, hstores]
    exact .refl _
  consult store _ _ _ _ :=
    Registry.advances_onStore store
      ((Store.advances_consult _ _ _ _ _).bind fun _ => Store.advances_pure _)
  readNaming d key reading hnotes := by
    intro r
    let read := Store.consult d.revision key (r.pool d.pool) (reading (r.pool d.pool)) fun _ => false
    have hread : r.Later (Registry.onStore d.mount.store read r).2 :=
      Registry.advances_onStore _ (Store.advances_consult _ _ _ _ _) r
    have hgrown : (r.pool d.pool).Extends (Registry.onStore d.mount.store read r).1.2 :=
      Registry.ensures_onStore
        (Store.ensures_consult (.refl (r.pool d.pool)) _ _ (hnotes (r.pool d.pool)) _) _ r
    -- The pool that is put back is the one that was taken, and what the reading noted in it.
    refine hread.trans ?_
    show Registry.Later _ (Registry.onPool d.pool (set (Registry.onStore d.mount.store read r).1.2)
      (Registry.onStore d.mount.store read r).2).2
    exact Registry.later_onPool hgrown

theorem Advances.orAbsent {work : Access α} (absent : α) (h : work.Advances) :
    (Access.orAbsent absent work).Advances := by
  simp only [Advances, Access.orAbsent, tryCatch, tryCatchThe, MonadExceptOf.tryCatch,
    ExceptT.tryCatch, ExceptT.run_mk]
  refine Registry.Advances.bind h ?_
  intro outcome
  cases outcome with
  | ok x => exact Registry.advances_pure _
  | error e =>
    dsimp only
    split
    · exact Registry.advances_pure _
    · exact Registry.advances_pure _

end Access

/-! ### Iterators -/

open Registry

theorem Dispatcher.advances_access (d : Dispatcher) (origin : Handle) (axis : Axis)
    (test : NodeTest) : (access d.store (d.dispatch origin axis test)).Advances :=
  advances_onStore _ (d.advances_dispatch origin axis test)

theorem AxisIterator.advances_nextKey (it : AxisIterator) : Registry.Advances it.nextKey :=
  advances_get.bind fun _ => advances_onStore _ (it.advances_next _)

theorem NodeAxis.advances_next (a : NodeAxis) : Registry.Advances a.next :=
  advances_get.bind fun _ =>
    (advances_onStore _ (a.handles.advances_next _)).bind fun _ => advances_pure _

theorem NodeAxis.advances_abandon (a : NodeAxis) : Registry.Advances a.abandon :=
  advances_onStore _ a.handles.advances_abandon

theorem LenientAxis.advances_next (a : LenientAxis) : Registry.Advances a.next := by
  unfold next
  rcases a.nodes? with _ | nodes
  · exact advances_pure _
  · refine nodes.advances_next.bind ?_
    rintro ⟨_ | _ | _, nodes'⟩
    · exact nodes'.advances_abandon.bind fun _ => advances_pure _
    · exact nodes'.advances_abandon.bind fun _ => advances_pure _
    · exact advances_pure _

theorem LenientAxis.advances_abandon (a : LenientAxis) : Registry.Advances a.abandon := by
  unfold abandon
  rcases a.nodes? with _ | nodes
  · exact advances_pure _
  · exact nodes.advances_abandon

end DocTree
