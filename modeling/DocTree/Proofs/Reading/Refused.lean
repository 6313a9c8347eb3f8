import DocTree.Proofs.Reading.Granted

/-!
# Readings that are refused moves

From some point on a storage may refuse every move: it answers that the node is missing, and the
cursor stays where it is. A reading goes on all the same, with that answer, and `Reading.refused`
says how it ends. `Reading.WhenRefused` is about the whole of a reading: at whichever of its moves
the refusals set in, it ends in one of the ways that are meant.

## Main definitions

- `Meter.RefusesNext`, `Meter.RunsOut` — the next operations are refused, as if nodes were missing
- `Reading.refused` — how a reading ends that is refused every move
- `Reading.WhenRefused` — how it may end, whenever the refusals set in

## Main statements

- `Reading.WhenRefused.bind` — readings one after the other
- `Reading.WhenRefused.run` — the run of a reading that is refused moves from some point on
-/

namespace DocTree

namespace Meter

variable {m : Meter} {n k : Nat}

/-- The next `n` operations are refused, as if their nodes were missing. -/
def RefusesNext (m : Meter) (n : Nat) : Prop :=
  m.fault = .missing ∧ ∀ i < n, (m.after i).grants = false

theorem RefusesNext.mono (h : m.RefusesNext n) (hk : k ≤ n) : m.RefusesNext k :=
  ⟨h.1, fun i hi => h.2 i (by omega)⟩

theorem RefusesNext.after {i : Nat} (h : m.RefusesNext n) (hk : i + k ≤ n) :
    (m.after i).RefusesNext k := by
  refine ⟨h.1, ?_⟩
  intro j hj
  rw [after_after]
  exact h.2 (i + j) (by omega)

/-- The operation that is asked for next is refused. -/
theorem RefusesNext.spend (h : m.RefusesNext n) (hn : 0 < n) :
    m.spend = (.ok false, m.after 1) := by
  have hrefuses : m.grants = false := h.2 0 hn
  have hanswer : m.spend.1 = .ok false := by
    simp only [Meter.spend, hrefuses, h.1]
    rfl
  exact Prod.ext hanswer m.spend_snd

/-- The next `n` operations are granted, and `k` operations after them are refused. -/
structure RunsOut (m : Meter) (n k : Nat) : Prop where
  grants : m.GrantsNext n
  refuses : (m.after n).RefusesNext k

theorem RunsOut.after {i : Nat} (h : m.RunsOut (i + n) k) : (m.after i).RunsOut n k := by
  refine ⟨(grantsNext_add.1 h.grants).2, ?_⟩
  rw [after_after]
  exact h.refuses

/-- If not even two operations are granted, the second one is refused. -/
theorem RunsOut.refuses_second (h : m.RunsOut n (k + 2)) (hn : n < 2) :
    (m.after 1).RefusesNext 1 := by
  obtain rfl | rfl : n = 0 ∨ n = 1 := by omega
  · have hall : m.RefusesNext (k + 2) := h.refuses
    exact hall.after (by omega)
  · exact h.refuses.mono (by omega)

end Meter

namespace Reading

variable {σ τ α β : Type}

/-- How a reading ends that is refused every move. The cost counts the refusals. -/
def refused : Reading σ α → σ → (here : Nat) → Ending σ α
  | done a, s, here => ⟨.ok a, s, here, 0⟩
  | fail e, s, here => ⟨.error e, s, here, 0⟩
  | note s rest, _, here => rest.refused s here
  | move _ next, s, here =>
    let e := (next false).refused s here
    { e with cost := e.cost + 1 }

/-- At whichever of its moves the refusals set in, the reading has an ending with property `P` from
there. -/
def WhenRefused (P : Ending σ α → Prop) : Reading σ α → σ → (here : Nat) → Prop
  | done _, _, _ => True
  | fail _, _, _ => True
  | note s rest, _, here => rest.WhenRefused P s here
  | move target next, s, here =>
    P ((move target next).refused s here) ∧
      (next target.isSome).WhenRefused P s (target.getD here)

variable {r : Reading σ α} {s s' : σ} {here k : Nat} {P : Ending σ α → Prop}

/-- A cursor that is refused every move stays where it is. -/
theorem place_refused (r : Reading σ α) (s : σ) (here : Nat) : (r.refused s here).place = here := by
  induction r generalizing s with
  | done a => rfl
  | fail e => rfl
  | note s' rest ih => exact ih s'
  | move target next ih => exact ih false s

/-- How it goes on after an ending, if every move is refused from there. -/
def Ending.thenRefused (e : Ending σ α) (f : α → Reading σ β) : Ending σ β :=
  match e.outcome with
  | .ok a =>
    let e' := (f a).refused e.state e.place
    { e' with cost := e.cost + e'.cost }
  | .error err => ⟨.error err, e.state, e.place, e.cost⟩

theorem refused_bind (r : Reading σ α) (f : α → Reading σ β) (s : σ) (here : Nat) :
    (r >>= f).refused s here = (r.refused s here).thenRefused f := by
  induction r generalizing s with
  | done a => simp [Ending.thenRefused, refused]
  | fail e => rfl
  | note s' rest ih => exact ih s'
  | move target next ih =>
    have hrest := ih false s
    simp only [move_bind, refused, hrest, Ending.thenRefused]
    split
    · simp [Nat.add_right_comm]
    · rfl

theorem refused_mapNotes (r : Reading τ α) (f : τ → σ) (s : τ) (here : Nat) :
    (r.mapNotes f).refused (f s) here =
      { r.refused s here with state := f (r.refused s here).state } := by
  induction r generalizing s with
  | done a => rfl
  | fail e => rfl
  | note s' rest ih => exact ih s'
  | move target next ih => simp only [mapNotes, refused, ih false s]

/-- What an observer of a reading tells at an ending. -/
def Ending.observed (e : Ending τ α) (u : σ) : Ending σ (α × τ × Nat) :=
  ⟨e.outcome.map fun a => (a, e.state, e.place), u, e.place, e.cost⟩

theorem refused_observe (r : Reading τ α) (s : τ) (u : σ) (here : Nat) :
    (r.observe s here).refused u here = (r.refused s here).observed u := by
  induction r generalizing s with
  | done a => rfl
  | fail e => rfl
  | note s' rest ih => exact ih s'
  | move target next ih =>
    simp only [observe, refused, Bool.false_eq_true, if_false, ih false s, Ending.observed]

namespace WhenRefused

theorem mono {Q : Ending σ α → Prop} (h : r.WhenRefused P s here) (hPQ : ∀ e, P e → Q e) :
    r.WhenRefused Q s here := by
  induction r generalizing s here with
  | done a => trivial
  | fail e => trivial
  | note s' rest ih => exact ih h
  | move target next ih => exact ⟨hPQ _ h.1, ih target.isSome h.2⟩

theorem note (h : r.WhenRefused P s' here) : (Reading.note s' r).WhenRefused P s here := h

/-- The refusals set in before the second reading or during it. -/
theorem bind {f : α → Reading σ β} {Q : Ending σ β → Prop} (h : r.WhenRefused P s here)
    (hstop : ∀ e, P e → Q (e.thenRefused f))
    (hnext : ∀ a s' m, r.Yields s here a s' m → (f a).WhenRefused Q s' m) :
    (r >>= f).WhenRefused Q s here := by
  induction r generalizing s here with
  | done a => exact hnext a s here (.done a s here)
  | fail e => trivial
  | note s' rest ih => exact ih h fun a s'' m hyields => hnext a s'' m hyields.note
  | move target next ih =>
    refine ⟨?_, ih target.isSome h.2 fun a s' m hyields => hnext a s' m hyields.move⟩
    show Q ((move target next >>= f).refused s here)
    rw [refused_bind]
    exact hstop _ h.1

theorem mapNotes {r : Reading τ α} {s : τ} {P : Ending τ α → Prop} {Q : Ending σ α → Prop}
    (f : τ → σ) (h : r.WhenRefused P s here)
    (hPQ : ∀ e, P e → Q { e with state := f e.state }) :
    (r.mapNotes f).WhenRefused Q (f s) here := by
  induction r generalizing s here with
  | done a => trivial
  | fail e => trivial
  | note s' rest ih => exact ih h
  | move target next ih =>
    refine ⟨?_, ih target.isSome h.2⟩
    show Q (((move target next).mapNotes f).refused (f s) here)
    rw [refused_mapNotes]
    exact hPQ _ h.1

theorem observe {r : Reading τ α} {s : τ} {P : Ending τ α → Prop} (h : r.WhenRefused P s here)
    (u : σ) : (r.observe s here).WhenRefused (fun x => ∃ e, P e ∧ x = e.observed u) u here := by
  induction r generalizing s here with
  | done a => trivial
  | fail e => trivial
  | note s' rest ih => exact ih h
  | move target next ih =>
    refine ⟨⟨_, h.1, ?_⟩, ?_⟩
    · show ((move target next).observe s here).refused u here = _
      rw [refused_observe]
    · dsimp only
      rw [ite_isSome_getD]
      exact ih target.isSome h.2

end WhenRefused

section Run

variable {c : Cursor} {m : Meter} {n limit : Nat}

/-- A reading that is refused every move runs to the ending for that, and does not move the cursor. -/
theorem run_of_refusesNext (r : Reading σ α) (s : σ) (c : Cursor)
    (hm : m.RefusesNext (r.refused s c.place).cost) :
    r.run s c m = ⟨(r.refused s c.place).outcome, (r.refused s c.place).state, c,
      m.after (r.refused s c.place).cost⟩ := by
  induction r generalizing s m with
  | done a => rfl
  | fail e => rfl
  | note s' rest ih => exact ih s' hm
  | move target next ih =>
    simp only [refused] at hm ⊢
    have hrequest : c.request target m = (.ok none, m.after 1) := by
      simp only [Cursor.request, hm.spend (Nat.succ_pos _)]
    have hrest := hm.after (Nat.le_of_eq (Nat.add_comm 1 _))
    simp only [run, hrequest]
    rw [ih false s hrest, Meter.after_after, Nat.add_comm 1]

/-- If the moves that are granted are not enough, the run ends in one of the ways that are meant. -/
theorem WhenRefused.run (h : r.WhenRefused P s c.place) (hopen : c.isOpen = true)
    (hm : m.RunsOut n limit) (hless : n < r.cost s c.place) (hcost : ∀ e, P e → e.cost ≤ limit) :
    ∃ e, P e ∧
      r.run s c m = ⟨e.outcome, e.state, { c with place := e.place }, m.after (n + e.cost)⟩ := by
  induction r generalizing s c m n with
  | done a => exact absurd hless (Nat.not_lt_zero n)
  | fail e => exact absurd hless (Nat.not_lt_zero n)
  | note s' rest ih => exact ih h hopen hm hless
  | move target next ih =>
    cases n with
    | zero =>
      -- This is the first move that is refused, and so are those after it.
      have hall : m.RefusesNext ((move target next).refused s c.place).cost :=
        hm.refuses.mono (hcost _ h.1)
      refine ⟨_, h.1, ?_⟩
      rw [run_of_refusesNext _ s c hall, place_refused, Nat.zero_add]
    | succ n =>
      rw [Nat.add_comm] at hm
      have hone : m.GrantsNext 1 := (Meter.grantsNext_add.1 hm.grants).1
      obtain ⟨e, he, hrun⟩ := ih target.isSome (c := { c with place := target.getD c.place }) h.2
        hopen hm.after (Nat.lt_of_succ_lt_succ hless)
      refine ⟨e, he, ?_⟩
      rw [run_move next s hopen hone, hrun, Meter.after_after, ← Nat.add_assoc, Nat.add_comm 1 n]

end Run

end Reading

end DocTree
