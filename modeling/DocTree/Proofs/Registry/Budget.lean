import DocTree.Proofs.Registry.Compositional
import DocTree.Proofs.Store.Budget

/-!
# Operations under the budget of a store

One of the stores can have a budget or none. As with work on that store alone, an operation does the
same under the budget as without one if the store has the operations that it asks for. If not, it
tells the error of the storage.

## Main definitions

- `Registry.limit` — a budget for one store in place of none
- `Registry.BreaksOff` — work that goes on as without the budget, or breaks off

## Main statements

- `Registry.breaksOff_onStore` — work on any store
- `Access.compositional_breaksOff` — operations break off as their pieces do
-/

namespace DocTree

open Store (Exhausted)

variable {α β : Type} {id : Nat} {b : Int64}

namespace Registry

variable {r : Registry}

/-- The registry with a budget for one store; what has been used so far counts. -/
def limit (id : Nat) (b : Int64) (r : Registry) : Registry := r.setStore id ((r.store id).limit b)

theorem setStore_setStore (r : Registry) (id : Nat) (s s' : Store) :
    (r.setStore id s).setStore id s' = r.setStore id s' := by
  simp [setStore]

theorem setStore_comm {other : Nat} (hne : other ≠ id) (r : Registry) (s s' : Store) :
    (r.setStore id s).setStore other s' = (r.setStore other s').setStore id s := by
  simp [setStore, Array.setIfInBounds_comm s s' hne.symm]

/-- As `Store.BreaksOff`, for the budget of the store `id`. -/
structure BreaksOff (id : Nat) (b : Int64) (work : StateM Registry α) (failed : α → Prop) :
    Prop where
  metered : ∀ r : Registry, id < r.stores.size → id < (work r).2.stores.size ∧
    ∃ n, ((work r).2.store id).meter = (r.store id).meter.after n
  within : ∀ r : Registry, id < r.stores.size → (r.store id).Unlimited → (r.store id).Within b →
    ((work r).2.store id).Within b → work (r.limit id b) = ((work r).1, (work r).2.limit id b)
  beyond : ∀ r : Registry, id < r.stores.size → (r.store id).Unlimited → (r.store id).Within b →
    ¬((work r).2.store id).Within b → failed (work (r.limit id b)).1

/-- The store is within the budget before work after which it still is. -/
theorem BreaksOff.within_of_within {work : StateM Registry α} {failed : α → Prop}
    (h : BreaksOff id b work failed) (hid : id < r.stores.size)
    (hwithin : ((work r).2.store id).Within b) : (r.store id).Within b := by
  obtain ⟨-, n, hn⟩ := h.metered r hid
  refine hwithin.of_le ?_
  rw [hn, Meter.used_after]
  exact Nat.le_add_right _ _

/-- Work that neither looks at the stores nor changes them. -/
theorem breaksOff_of_stores {work : StateM Registry α} {failed : α → Prop}
    (h : ∀ r stores, work { r with stores } = ((work r).1, { (work r).2 with stores })) :
    BreaksOff id b work failed := by
  have hstores : ∀ r, (work r).2.stores = r.stores := fun r => congrArg (·.2.stores) (h r r.stores)
  have hstore : ∀ r, (work r).2.store id = r.store id := by
    intro r
    rw [store, store, hstores]
  refine ⟨?_, ?_, ?_⟩
  · intro r hid
    rw [hstores, hstore]
    exact ⟨hid, 0, rfl⟩
  · intro r _ _ _ _
    rw [limit, limit, setStore, setStore, hstore, hstores]
    exact h r _
  · intro r _ _ hwithin hmore
    rw [hstore] at hmore
    exact absurd hwithin hmore

theorem breaksOff_pure (a : α) (failed : α → Prop) :
    BreaksOff id b (pure a : StateM Registry α) failed :=
  breaksOff_of_stores fun _ _ => rfl

/-- Where the first piece of work breaks off, the second one must count as failed, whatever it does
then. -/
theorem BreaksOff.bind {work : StateM Registry α} {next : α → StateM Registry β} {failed₁ : α → Prop}
    {failed₂ : β → Prop} (h : BreaksOff id b work failed₁)
    (hnext : ∀ a, BreaksOff id b (next a) failed₂)
    (hfailed : ∀ a, failed₁ a → Ensures (next a) failed₂) :
    BreaksOff id b (work >>= next) failed₂ where
  metered r hid := by
    obtain ⟨hid', n, hn⟩ := h.metered r hid
    obtain ⟨hid'', m, hm⟩ := (hnext (work r).1).metered (work r).2 hid'
    refine ⟨hid'', n + m, ?_⟩
    rw [hn, Meter.after_after] at hm
    exact hm
  within r hid hfree hr hmore := by
    obtain ⟨hid', n, hn⟩ := h.metered r hid
    have hboth : ((next (work r).1 (work r).2).2.store id).Within b := hmore
    have hfirst : ((work r).2.store id).Within b := (hnext _).within_of_within hid' hboth
    show next (work (r.limit id b)).1 (work (r.limit id b)).2 = _
    rw [h.within r hid hfree hr hfirst]
    exact (hnext _).within _ hid' (hfree.of_after hn) hfirst hboth
  beyond r hid hfree hr hmore := by
    obtain ⟨hid', n, hn⟩ := h.metered r hid
    show failed₂ (next (work (r.limit id b)).1 (work (r.limit id b)).2).1
    by_cases hfirst : ((work r).2.store id).Within b
    · rw [h.within r hid hfree hr hfirst]
      exact (hnext _).beyond _ hid' (hfree.of_after hn) hfirst hmore
    · exact hfailed _ (h.beyond r hid hfree hr hfirst) _

/-- Work that begins with a look at the registry, but not at its meters. -/
theorem breaksOff_get_bind {next : Registry → StateM Registry β} {failed : β → Prop}
    (hmeter : ∀ r id m, next (r.remeter id m) = next r)
    (hnext : ∀ r, BreaksOff id b (next r) failed) : BreaksOff id b (get >>= next) failed where
  metered r := (hnext r).metered r
  within r hid hfree hr hmore := by
    show next (r.limit id b) (r.limit id b) = _
    rw [show next (r.limit id b) = next r from hmeter r id _]
    exact (hnext r).within r hid hfree hr hmore
  beyond r hid hfree hr hmore := by
    show failed (next (r.limit id b) (r.limit id b)).1
    rw [show next (r.limit id b) = next r from hmeter r id _]
    exact (hnext r).beyond r hid hfree hr hmore

/-- Work on a store; only if it is this one the budget matters. -/
theorem breaksOff_onStore {work : StateM Store α} {failed : α → Prop}
    (h : Store.BreaksOff b work failed) (other : Nat) :
    BreaksOff id b (onStore other work) failed := by
  by_cases hother : other = id
  · subst hother
    refine ⟨?_, ?_, ?_⟩
    · intro r hid
      rw [onStore_eq, size_setStore, store_setStore hid]
      exact ⟨hid, h.metered (r.store other)⟩
    · intro r hid hfree hr hmore
      rw [onStore_eq, store_setStore hid] at hmore
      rw [onStore_eq, onStore_eq, limit, store_setStore hid, h.within _ hfree hr hmore, setStore_setStore, limit,
        store_setStore hid, setStore_setStore]
    · intro r hid hfree hr hmore
      rw [onStore_eq, store_setStore hid] at hmore
      rw [onStore_eq, limit, store_setStore hid]
      exact h.beyond _ hfree hr hmore
  · refine ⟨?_, ?_, ?_⟩
    · intro r hid
      rw [onStore_eq, size_setStore, store_setStore_of_ne hother]
      exact ⟨hid, 0, rfl⟩
    · intro r _ _ _ _
      rw [onStore_eq, onStore_eq, limit, store_setStore_of_ne (Ne.symm hother), setStore_comm hother, limit,
        store_setStore_of_ne hother]
    · intro r _ _ hr hmore
      rw [onStore_eq, store_setStore_of_ne hother] at hmore
      exact absurd hr hmore

end Registry

namespace Access

/-- The operation does the same under the budget of the store `id` as without one if it does not ask
for more, and otherwise fails with the error of the storage. -/
def BreaksOff (id : Nat) (b : Int64) (a : Access α) : Prop := Registry.BreaksOff id b a.run Exhausted

/-- Operations break off as the pieces do from which they are put together. -/
theorem compositional_breaksOff (hb : 0 ≤ b) : Compositional (BreaksOff id b) where
  bind h hf := by
    rw [BreaksOff, ExceptT.run_bind]
    refine Registry.BreaksOff.bind h ?_ ?_
    · intro outcome
      cases outcome with
      | error e => exact Registry.breaksOff_pure _ _
      | ok x => exact hf x
    · rintro _ rfl
      exact ensures_pure rfl
  inspect {_ f} hmeter hf := by
    have hrun : Registry.BreaksOff id b ((get : StateM Registry Registry) >>= fun r => (f r).run)
        Exhausted :=
      Registry.breaksOff_get_bind (fun r id m => congrArg ExceptT.run (hmeter r id m)) hf
    exact hrun
  aside h _ := Registry.breaksOff_of_stores h
  consult store revision key reading reports := by
    have hconsult : Store.BreaksOff b
        (do return (← Store.consult revision key () reading reports).1) Exhausted :=
      (Store.breaksOff_consult hb revision key () reading reports).bind
        (fun _ => Store.breaksOff_pure _ _) fun _ hfailed => ensures_pure hfailed
    exact Registry.breaksOff_onStore hconsult store
  readNaming d key reading _ := by
    refine Registry.breaksOff_get_bind (fun _ _ _ => rfl) ?_
    intro r
    refine (Registry.breaksOff_onStore (Store.breaksOff_consult hb _ _ _ _ _) _).bind ?_ ?_
    · intro answer
      have hkept : Registry.BreaksOff id b (Registry.onPool d.pool (set answer.2)) fun _ => False :=
        Registry.breaksOff_of_stores fun _ _ => rfl
      exact hkept.bind (fun _ => Registry.breaksOff_pure _ _) fun _ h => h.elim
    · intro answer hfailed
      exact (ensures_true _).bind fun _ _ => ensures_pure hfailed

end Access

end DocTree
