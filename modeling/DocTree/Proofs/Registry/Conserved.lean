import DocTree.Proofs.Registry.Compositional
import DocTree.Proofs.Store.Conserved

/-!
# Operations that leave no cursor behind

Work on the registry keeps account of the cursors of one store as work on that store does; work on
another store does not change the account. An operation is balanced if every store has lent as many
cursors after it as before, however it ends.

## Main definitions

- `Registry.Conserves` — work that keeps account of the cursors of one store
- `Access.Balanced` — an operation that leaves no cursor behind

## Main statements

- `Registry.conserves_onStore` — work on any store
- `Access.compositional_balanced` — operations are balanced if their pieces are
-/

namespace DocTree

variable {α β : Type} {id before : Nat}

namespace Registry

/-- As `Store.Conserves`, for the cursors of the store `id`. -/
def Conserves (id before : Nat) (work : StateM Registry α) (after : α → Nat) : Prop :=
  ∀ r : Registry, id < r.stores.size → before ≤ (r.store id).openCursors →
    id < (work r).2.stores.size ∧
      ((work r).2.store id).openCursors + before = (r.store id).openCursors + after (work r).1

theorem conserves_pure {a : α} {after : α → Nat} (h : after a = before) :
    Conserves id before (pure a : StateM Registry α) after := by
  subst h
  exact fun _ hid _ => ⟨hid, rfl⟩

/-- The second part of the work needs to keep account only for the results that there can be. -/
theorem Conserves.bind_of_ensures {work : StateM Registry α} {next : α → StateM Registry β}
    {between : α → Nat} {after : β → Nat} {P : α → Prop} (h : Conserves id before work between)
    (hwork : Ensures work P) (hnext : ∀ a, P a → Conserves id (between a) (next a) after) :
    Conserves id before (work >>= next) after := by
  intro r hid hbefore
  obtain ⟨hid', hcount⟩ := h r hid hbefore
  obtain ⟨hid'', hrest⟩ := hnext (work r).1 (hwork r) (work r).2 hid' (by omega)
  refine ⟨hid'', ?_⟩
  show ((next (work r).1 (work r).2).2.store id).openCursors + before =
    (r.store id).openCursors + after (next (work r).1 (work r).2).1
  omega

theorem Conserves.bind {work : StateM Registry α} {next : α → StateM Registry β}
    {between : α → Nat} {after : β → Nat} (h : Conserves id before work between)
    (hnext : ∀ a, Conserves id (between a) (next a) after) :
    Conserves id before (work >>= next) after :=
  h.bind_of_ensures (ensures_true work) fun a _ => hnext a

/-- What is in hand afterwards may be told in another way, for the results that there can be. -/
theorem Conserves.congr {work : StateM Registry α} {after after' : α → Nat}
    (h : Conserves id before work after) (hafter : Ensures work fun a => after a = after' a) :
    Conserves id before work after' := by
  intro r hid hbefore
  rw [← hafter r]
  exact h r hid hbefore

/-- Work that leaves the stores as they are conserves all cursors. -/
theorem conserves_of_stores {work : StateM Registry α} (h : ∀ r, (work r).2.stores = r.stores) :
    Conserves id before work fun _ => before := by
  intro r hid _
  refine ⟨by rw [h]; exact hid, ?_⟩
  simp only [store, h]

theorem conserves_get : Conserves id before (get : StateM Registry Registry) fun _ => before :=
  conserves_of_stores fun _ => rfl

/-- Work on a store; only if it is this one the cursors in hand count. -/
theorem conserves_onStore (id : Nat) {work : StateM Store α} {after : α → Nat}
    (h : Store.Conserves before work after) (other : Nat) :
    Conserves id (if other = id then before else 0) (onStore other work)
      fun a => if other = id then after a else 0 := by
  intro r hid hbefore
  show id < (r.setStore other (work (r.store other)).2).stores.size ∧
    ((r.setStore other (work (r.store other)).2).store id).openCursors +
        (if other = id then before else 0) =
      (r.store id).openCursors + if other = id then after (work (r.store other)).1 else 0
  refine ⟨by simpa using hid, ?_⟩
  by_cases hother : other = id
  · subst hother
    simp only [if_true] at hbefore ⊢
    rw [store_setStore hid]
    exact h (r.store other) hbefore
  · rw [store_setStore_of_ne hother, if_neg hother, if_neg hother]

/-- Work on a store that leaves nothing in hand. -/
theorem conserves_onStore_of_balanced {work : StateM Store α}
    (h : Store.Conserves 0 work fun _ => 0) (other : Nat) :
    Conserves id 0 (onStore other work) fun _ => 0 := by
  have hwork := conserves_onStore id h other
  simpa using hwork

theorem ensures_onStore {work : StateM Store α} {P : α → Prop} (h : Ensures work P) (id : Nat) :
    Ensures (onStore id work) P :=
  fun r => h (r.store id)

end Registry

namespace Access

/-- However the operation ends, every store has as many open cursors as before. -/
def Balanced (a : Access α) : Prop := ∀ id, Registry.Conserves id 0 a.run fun _ => 0

/-- The first operation is balanced; what the second one has in hand then is left. -/
theorem Balanced.bind_conserves {a : Access α} {f : α → Access β} {after : β → Nat}
    (h : a.Balanced) (hf : ∀ x, Registry.Conserves id 0 (f x).run (inHand after)) :
    Registry.Conserves id 0 (a >>= f).run (inHand after) := by
  rw [ExceptT.run_bind]
  refine (h id).bind ?_
  intro outcome
  cases outcome with
  | error e => exact Registry.conserves_pure rfl
  | ok x => exact hf x

/-- An answer in place of a failure has nothing in hand. -/
theorem conserves_orAbsent {absent : α} {work : Access α} {after : α → Nat}
    (h : Registry.Conserves id 0 work.run (inHand after)) (habsent : after absent = 0) :
    Registry.Conserves id 0 (orAbsent absent work).run (inHand after) := by
  simp only [orAbsent, tryCatch, tryCatchThe, MonadExceptOf.tryCatch, ExceptT.tryCatch,
    ExceptT.run_mk]
  refine h.bind ?_
  intro outcome
  cases outcome with
  | ok x => exact Registry.conserves_pure rfl
  | error e =>
    dsimp only
    split
    · exact Registry.conserves_pure habsent
    · exact Registry.conserves_pure rfl

theorem Balanced.orAbsent {work : Access α} (absent : α) (h : work.Balanced) :
    (Access.orAbsent absent work).Balanced := by
  intro id
  have hnone : ∀ outcome : Except AccessError α, inHand (fun _ => 0) outcome = 0 := by
    intro outcome
    cases outcome <;> rfl
  have hwork : Registry.Conserves id 0 work.run (inHand fun _ => 0) :=
    (h id).congr fun _ => (hnone _).symm
  exact (conserves_orAbsent hwork rfl).congr fun _ => hnone _

/-- Balanced operations are put together from balanced pieces. -/
theorem compositional_balanced : Compositional Balanced where
  bind h hf id := by
    rw [ExceptT.run_bind]
    refine (h id).bind ?_
    intro outcome
    cases outcome with
    | error e => exact Registry.conserves_pure rfl
    | ok x => exact hf x id
  inspect _ hf _ r := hf r _ r
  aside h _ _ := Registry.conserves_of_stores fun r => congrArg (·.2.stores) (h r r.stores)
  consult store _ _ _ _ _ :=
    Registry.conserves_onStore_of_balanced
      ((Store.conserves_consult _ _ _ _ _).bind fun _ => Store.conserves_pure rfl) store
  readNaming d _ _ _ _ := by
    refine Registry.conserves_get.bind ?_
    intro r
    refine (Registry.conserves_onStore_of_balanced (Store.conserves_consult _ _ _ _ _) _).bind ?_
    intro answer
    exact (Registry.conserves_of_stores fun _ => rfl).bind fun _ => Registry.conserves_pure rfl

end Access

end DocTree
