import DocTree.Reading

/-!
# Readings that are granted all they ask for

Where the storage refuses nothing, a reading is a pure computation: it arrives wherever it asks for a
place that exists. `Reading.ending` says how it ends then, with the number of operations that it asks
for. A run under a meter that grants so many operations ends in the same way.

## Main definitions

- `Meter.GrantsNext` — the next operations are granted
- `Reading.ending` — how a reading ends that is refused nothing
- `Reading.Yields` — a reading ends well, with its result, its last note and its place

## Main statements

- `Reading.run_of_grantsNext` — the run of a reading that is refused nothing
- `Reading.run_of_granted` — such a run does not depend on the meter
- `Reading.Yields.bind` — readings one after the other
-/

namespace DocTree

namespace Meter

variable {m : Meter} {n k : Nat}

/-- The meter after `n` more operations. -/
def after (m : Meter) (n : Nat) : Meter := { m with used := m.used + n }

/-- The next `n` operations are granted. -/
def GrantsNext (m : Meter) (n : Nat) : Prop := ∀ i < n, (m.after i).grants = true

@[simp] theorem used_after (m : Meter) (n : Nat) : (m.after n).used = m.used + n := rfl

@[simp] theorem after_after (m : Meter) (n k : Nat) : (m.after n).after k = m.after (n + k) := by
  simp [after, Nat.add_assoc]

theorem spend_snd (m : Meter) : m.spend.2 = m.after 1 := rfl

theorem grantsNext_zero (m : Meter) : m.GrantsNext 0 := by
  simp [GrantsNext]

/-- Operations are granted in two portions if they are granted together. -/
theorem grantsNext_add : m.GrantsNext (n + k) ↔ m.GrantsNext n ∧ (m.after n).GrantsNext k := by
  constructor
  · intro h
    refine ⟨fun i hi => h i (by omega), ?_⟩
    intro i hi
    rw [after_after]
    exact h (n + i) (by omega)
  · rintro ⟨hn, hk⟩ i hi
    by_cases hin : i < n
    · exact hn i hin
    · have := hk (i - n) (by omega)
      rwa [after_after, Nat.add_sub_cancel' (by omega)] at this

theorem GrantsNext.mono (h : m.GrantsNext n) (hk : k ≤ n) : m.GrantsNext k :=
  fun i hi => h i (by omega)

/-- The operation that is asked for next is granted. -/
theorem GrantsNext.spend (h : m.GrantsNext n) (hn : 0 < n) : m.spend = (.ok true, m.after 1) := by
  have hgrants : m.grants = true := h 0 hn
  simp [Meter.spend, hgrants, after]

/-- Without a budget every number of operations is granted. -/
theorem grantsNext_of_unlimited (h : m.budget? = none) (n : Nat) : m.GrantsNext n := by
  intro i _
  simp [grants, after, h]

end Meter

/-- Every request is paid for. -/
theorem Cursor.meter_request (c : Cursor) (target : Option Nat) (m : Meter) :
    (c.request target m).2 = m.after 1 := by
  rw [← m.spend_snd]
  unfold request
  rcases m.spend with ⟨_ | _ | _, m'⟩ <;> dsimp only
  split <;> rfl

/-- A request that is granted is answered by the cursor alone. -/
theorem Cursor.request_of_grantsNext {m : Meter} (h : m.GrantsNext 1) (c : Cursor)
    (target : Option Nat) :
    c.request target m
      = (if c.isOpen then .ok (target.map fun k => { c with place := k }) else .error .cursorClosed,
        m.after 1) := by
  rw [request, h.spend Nat.one_pos]
  dsimp only
  split <;> rfl

namespace Reading

variable {σ τ α β : Type}

/-- How a reading ended that was refused nothing. -/
structure Ending (σ α : Type) where
  outcome : Except AccessError α
  /-- The last note. -/
  state : σ
  place : Nat
  /-- The number of operations that were asked for. -/
  cost : Nat

/-- How a reading from a place ends that is refused nothing. -/
def ending : Reading σ α → σ → (here : Nat) → Ending σ α
  | done a, s, here => ⟨.ok a, s, here, 0⟩
  | fail e, s, here => ⟨.error e, s, here, 0⟩
  | note s rest, _, here => rest.ending s here
  | move target next, s, here =>
    let e := (next target.isSome).ending s (target.getD here)
    { e with cost := e.cost + 1 }

/-- A move that is granted takes the cursor to the place that was asked for. -/
theorem run_move {target : Option Nat} (next : Bool → Reading σ α) (s : σ) {c : Cursor} {m : Meter}
    (hopen : c.isOpen = true) (hm : m.GrantsNext 1) :
    (move target next).run s c m =
      (next target.isSome).run s { c with place := target.getD c.place } (m.after 1) := by
  have hrequest := Cursor.request_of_grantsNext hm c target
  rw [if_pos hopen] at hrequest
  simp only [run, hrequest]
  cases target <;> rfl

/-- A reading that is refused nothing runs to its ending. -/
theorem run_of_grantsNext (r : Reading σ α) (s : σ) {c : Cursor} {m : Meter}
    (hopen : c.isOpen = true) (hm : m.GrantsNext (r.ending s c.place).cost) :
    r.run s c m = ⟨(r.ending s c.place).outcome, (r.ending s c.place).state,
      { c with place := (r.ending s c.place).place }, m.after (r.ending s c.place).cost⟩ := by
  induction r generalizing s c m with
  | done a => rfl
  | fail e => rfl
  | note s' rest ih => exact ih s' hopen hm
  | move target next ih =>
    -- The move takes the first of the operations, and the rest of the reading the others.
    simp only [ending] at hm ⊢
    rw [Nat.add_comm, Meter.grantsNext_add] at hm
    rw [run_move next s hopen hm.1,
      ih target.isSome s (c := { c with place := target.getD c.place }) hopen hm.2,
      Meter.after_after, Nat.add_comm 1]

theorem exists_meter_run_move {target : Option Nat} {next : Bool → Reading σ α} (s : σ) (c : Cursor)
    (m : Meter) (hnext : ∀ moved c m, ∃ n, ((next moved).run s c m).meter = m.after n) :
    ∃ n, ((move target next).run s c m).meter = m.after (1 + n) := by
  have hpaid : (c.request target m).2 = m.after 1 := c.meter_request target m
  rcases hreq : c.request target m with ⟨_ | _ | c', m'⟩ <;> rw [hreq] at hpaid <;>
    obtain rfl := hpaid <;> simp only [run, hreq]
  · exact ⟨0, rfl⟩
  · obtain ⟨n, hn⟩ := hnext false c (m.after 1)
    exact ⟨n, by rw [hn, Meter.after_after]⟩
  · obtain ⟨n, hn⟩ := hnext true c' (m.after 1)
    exact ⟨n, by rw [hn, Meter.after_after]⟩

/-- A run asks for a number of operations and changes the meter in no other way. -/
theorem exists_meter_run (r : Reading σ α) (s : σ) (c : Cursor) (m : Meter) :
    ∃ n, (r.run s c m).meter = m.after n := by
  induction r generalizing s c m with
  | done a => exact ⟨0, rfl⟩
  | fail e => exact ⟨0, rfl⟩
  | note s' rest ih => exact ih s' c m
  | move target next ih =>
    obtain ⟨n, hn⟩ := exists_meter_run_move s c m fun moved => ih moved s
    exact ⟨1 + n, hn⟩

/-- If no operation of a run is refused, the first one is granted to the move, and the others to what
comes after it. -/
theorem grantsNext_of_run_move {target : Option Nat} {next : Bool → Reading σ α} {s : σ} {c : Cursor}
    {m : Meter} (hm : m.GrantsNext (((move target next).run s c m).meter.used - m.used)) :
    m.GrantsNext 1 ∧ (m.after 1).GrantsNext
      (((move target next).run s c m).meter.used - (m.after 1).used) := by
  obtain ⟨n, hn⟩ : ∃ n, ((move target next).run s c m).meter = m.after (1 + n) :=
    exists_meter_run_move s c m fun moved => exists_meter_run (next moved) s
  rw [hn, Meter.used_after, Nat.add_sub_cancel_left, Meter.grantsNext_add] at hm
  rw [hn, Meter.used_after, Meter.used_after, ← Nat.add_assoc, Nat.add_sub_cancel_left]
  exact hm

/-- If no operation of a run is refused, all that the reading asks for are granted. -/
theorem grantsNext_cost_of_run (r : Reading σ α) (s : σ) {c : Cursor} {m : Meter}
    (hopen : c.isOpen = true) (hm : m.GrantsNext ((r.run s c m).meter.used - m.used)) :
    m.GrantsNext (r.ending s c.place).cost := by
  induction r generalizing s c m with
  | done a => exact Meter.grantsNext_zero m
  | fail e => exact Meter.grantsNext_zero m
  | note s' rest ih => exact ih s' hopen hm
  | move target next ih =>
    obtain ⟨hmove, hrest⟩ := grantsNext_of_run_move hm
    rw [run_move next s hopen hmove] at hrest
    simp only [ending]
    rw [Nat.add_comm, Meter.grantsNext_add]
    exact ⟨hmove, ih target.isSome s (c := { c with place := target.getD c.place }) hopen hrest⟩

/-- A run that is granted all it asks for does not depend on the meter. -/
theorem run_of_granted (r : Reading σ α) (s : σ) (c : Cursor) {m m' : Meter}
    (h : m.GrantsNext ((r.run s c m).meter.used - m.used))
    (h' : m'.GrantsNext ((r.run s c m').meter.used - m'.used)) :
    r.run s c m' = { r.run s c m with meter := (r.run s c m').meter } := by
  induction r generalizing s c m m' with
  | done => rfl
  | fail => rfl
  | note s' rest ih => exact ih s' c h h'
  | move target next ih =>
    obtain ⟨hmove, hrest⟩ := grantsNext_of_run_move h
    obtain ⟨hmove', hrest'⟩ := grantsNext_of_run_move h'
    simp only [run, Cursor.request_of_grantsNext hmove, Cursor.request_of_grantsNext hmove']
      at hrest hrest' ⊢
    by_cases hopen : c.isOpen
    · simp only [hopen, if_true] at hrest hrest' ⊢
      cases target with
      | none => exact ih false s c hrest hrest'
      | some k => exact ih true s _ hrest hrest'
    · simp only [hopen]
      rfl

/-- Refused nothing, the reading ends well: with result `a`, last note `s'` and at place `k'`. -/
def Yields (r : Reading σ α) (s : σ) (k : Nat) (a : α) (s' : σ) (k' : Nat) : Prop :=
  ∃ n, r.ending s k = ⟨.ok a, s', k', n⟩

/-- The number of operations that a reading asks for if it is refused nothing. -/
def cost (r : Reading σ α) (s : σ) (k : Nat) : Nat := (r.ending s k).cost

section Yields

variable {r : Reading σ α} {s s' s'' : σ} {k k' k'' : Nat} {a c : α} {b : β}

theorem yields_done_iff : (done c).Yields s k a s' k' ↔ c = a ∧ s = s' ∧ k = k' := by
  simp [Yields, ending]

theorem not_yields_fail {e : AccessError} : ¬(fail e : Reading σ α).Yields s k a s' k' := by
  simp [Yields, ending]

theorem yields_move_iff {target : Option Nat} {next : Bool → Reading σ α} :
    (move target next).Yields s k a s' k' ↔
      (next target.isSome).Yields s (target.getD k) a s' k' := by
  constructor
  · rintro ⟨n, h⟩
    simp only [ending, Ending.mk.injEq] at h
    obtain ⟨hout, hstate, hplace, -⟩ := h
    exact ⟨_, by rw [← hout, ← hstate, ← hplace]⟩
  · rintro ⟨n, h⟩
    exact ⟨n + 1, by simp only [ending, h]⟩

/-- The observer of a move is where the cursor is. -/
theorem ite_isSome_getD (target : Option Nat) (k : Nat) :
    (if target.isSome then target.getD k else k) = target.getD k := by
  cases target <;> rfl

namespace Yields

theorem done (a : α) (s : σ) (k : Nat) : (Reading.done a).Yields s k a s k :=
  yields_done_iff.2 ⟨rfl, rfl, rfl⟩

theorem note (h : r.Yields s' k a s'' k') : (Reading.note s' r).Yields s k a s'' k' := h

theorem move {target : Option Nat} {next : Bool → Reading σ α}
    (h : (next target.isSome).Yields s (target.getD k) a s' k') :
    (Reading.move target next).Yields s k a s' k' :=
  yields_move_iff.2 h

theorem ask (target : Option Nat) (s : σ) (k : Nat) :
    (Reading.ask target).Yields s k target.isSome s (target.getD k) := move (done _ s _)

/-- A link is followed if it is there. -/
theorem step (link : Option Nat) (s : σ) (k : Nat) :
    (Reading.step link).Yields s k link.isSome s (link.getD k) := by
  cases link with
  | none => exact done false s k
  | some l => exact move (done true s l)

theorem keep (s s' : σ) (k : Nat) : (Reading.keep s').Yields s k () s' k := note (done () s' k)

/-- The second of two readings starts where the first one ends. -/
theorem bind {f : α → Reading σ β} (h : r.Yields s k a s' k')
    (hf : (f a).Yields s' k' b s'' k'') : (r >>= f).Yields s k b s'' k'' := by
  induction r generalizing s k with
  | done c =>
    obtain ⟨rfl, rfl, rfl⟩ := yields_done_iff.1 h
    exact hf
  | fail e => exact absurd h not_yields_fail
  | note t rest ih => exact ih h
  | move target next ih => exact move (ih target.isSome (yields_move_iff.1 h))

/-- Notes are rewritten along the way. -/
theorem mapNotes {r : Reading τ α} {s s' : τ} (f : τ → σ) (h : r.Yields s k a s' k') :
    (r.mapNotes f).Yields (f s) k a (f s') k' := by
  induction r generalizing s k with
  | done c =>
    obtain ⟨rfl, rfl, rfl⟩ := yields_done_iff.1 h
    exact done c (f s) k
  | fail e => exact absurd h not_yields_fail
  | note t rest ih => exact ih h
  | move target next ih => exact move (ih target.isSome (yields_move_iff.1 h))

/-- An observed reading tells where it ends, and leaves no notes. -/
theorem observe {r : Reading τ α} {s s' : τ} (u : σ) (h : r.Yields s k a s' k') :
    (r.observe s k).Yields u k (a, s', k') u k' := by
  induction r generalizing s k with
  | done c =>
    obtain ⟨rfl, rfl, rfl⟩ := yields_done_iff.1 h
    exact done (c, s, k) u k
  | fail e => exact absurd h not_yields_fail
  | note t rest ih => exact ih h
  | move target next ih =>
    refine move ?_
    rw [ite_isSome_getD]
    exact ih target.isSome (yields_move_iff.1 h)

/-- If both of two readings yield something together, the first one does so by itself. -/
theorem of_bind {f : α → Reading σ β} (h : (r >>= f).Yields s k b s'' k'') :
    ∃ a s' k', r.Yields s k a s' k' ∧ (f a).Yields s' k' b s'' k'' := by
  induction r generalizing s k with
  | done a => exact ⟨a, s, k, done a s k, h⟩
  | fail e => exact absurd h not_yields_fail
  | note t rest ih => exact ih h
  | move target next ih =>
    obtain ⟨a, s', k', hyields, hrest⟩ := ih target.isSome (yields_move_iff.1 h)
    exact ⟨a, s', k', hyields.move, hrest⟩

theorem of_mapNotes {r : Reading τ α} {s : τ} {f : τ → σ} {u : σ}
    (h : (r.mapNotes f).Yields (f s) k a u k') : ∃ s', u = f s' ∧ r.Yields s k a s' k' := by
  induction r generalizing s k with
  | done c =>
    obtain ⟨rfl, rfl, rfl⟩ := yields_done_iff.1 h
    exact ⟨s, rfl, done c s k⟩
  | fail e => exact absurd h not_yields_fail
  | note t rest ih => exact ih h
  | move target next ih =>
    obtain ⟨s', hs', hyields⟩ := ih target.isSome (yields_move_iff.1 h)
    exact ⟨s', hs', hyields.move⟩

theorem of_observe {r : Reading τ α} {s : τ} {u u' : σ} {seen : α × τ × Nat}
    (h : (r.observe s k).Yields u k seen u' k') :
    r.Yields s k seen.1 seen.2.1 seen.2.2 ∧ u' = u ∧ k' = seen.2.2 := by
  induction r generalizing s k with
  | done c =>
    obtain ⟨rfl, rfl, rfl⟩ := yields_done_iff.1 h
    exact ⟨done c s k, rfl, rfl⟩
  | fail e => exact absurd h not_yields_fail
  | note t rest ih => exact ih h
  | move target next ih =>
    rw [Reading.observe, yields_move_iff, ite_isSome_getD] at h
    obtain ⟨hyields, hrest⟩ := ih target.isSome h
    exact ⟨hyields.move, hrest⟩

/-- What a reading yields is determined. -/
theorem unique {a' : α} (h : r.Yields s k a s' k') (h' : r.Yields s k a' s'' k'') :
    a = a' ∧ s' = s'' ∧ k' = k'' := by
  obtain ⟨n, h⟩ := h
  obtain ⟨m, h'⟩ := h'
  rw [h, Ending.mk.injEq, Except.ok.injEq] at h'
  exact ⟨h'.1, h'.2.1, h'.2.2.1⟩

/-- The second of two readings asks for more operations than the first one. -/
theorem cost_bind (h : r.Yields s k a s' k') (f : α → Reading σ β) :
    (r >>= f).cost s k = r.cost s k + (f a).cost s' k' := by
  induction r generalizing s k with
  | done c =>
    obtain ⟨rfl, rfl, rfl⟩ := yields_done_iff.1 h
    exact (Nat.zero_add _).symm
  | fail e => exact absurd h not_yields_fail
  | note t rest ih => exact ih h
  | move target next ih =>
    have hrest := ih target.isSome (yields_move_iff.1 h)
    show ((next target.isSome >>= f).cost s (target.getD k)) + 1 =
      (next target.isSome).cost s (target.getD k) + 1 + (f a).cost s' k'
    rw [hrest, Nat.add_right_comm]

/-- A reading that yields something does so in a run that grants what it asks for. -/
theorem run {c : Cursor} {m : Meter} (h : r.Yields s c.place a s' k') (hopen : c.isOpen = true)
    (hm : m.GrantsNext (r.cost s c.place)) :
    r.run s c m = ⟨.ok a, s', { c with place := k' }, m.after (r.cost s c.place)⟩ := by
  rw [run_of_grantsNext r s hopen hm]
  obtain ⟨n, h⟩ := h
  simp [cost, h]

end Yields

end Yields

end Reading

end DocTree
