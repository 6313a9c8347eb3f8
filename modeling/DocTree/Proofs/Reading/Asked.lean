import DocTree.Proofs.Reading.Granted

/-!
# What a reading may ask for

A bound for the operations of a reading, together with what holds of its result. Both are about every
way in which its moves may be answered, and so about every budget and every kind of refusal.

## Main definitions

- `Reading.AsksAtMost` — so many operations at most, and what holds of the result

## Main statements

- `Reading.AsksAtMost.bind` — readings one after the other
- `Reading.AsksAtMost.bind_congr` — what comes after a reading matters only for results that it may have
- `Reading.AsksAtMost.used_run` — the run of such a reading
-/

namespace DocTree

namespace Reading

variable {σ τ α β : Type} {P : α → Prop} {Q : β → Prop} {r : Reading σ α} {n k : Nat}

/-- Whatever its moves answer, the reading asks for so many operations at most, and it fails or has `P`
of its result. -/
def AsksAtMost (P : α → Prop) : Reading σ α → Nat → Prop
  | done a, _ => P a
  | fail _, _ => True
  | note _ rest, n => rest.AsksAtMost P n
  | move _ _, 0 => False
  | move _ next, n + 1 => ∀ moved, (next moved).AsksAtMost P n

namespace AsksAtMost

theorem mono (h : r.AsksAtMost P n) (hn : n ≤ k) : r.AsksAtMost P k := by
  induction r generalizing n k with
  | done a => exact h
  | fail e => trivial
  | note s rest ih => exact ih h hn
  | move target next ih =>
    obtain _ | n := n
    · exact h.elim
    · obtain ⟨k, rfl⟩ := Nat.exists_eq_add_of_lt hn
      exact fun moved => ih moved (h moved) (by omega)

theorem bind {f : α → Reading σ β} (h : r.AsksAtMost P n) (hf : ∀ a, P a → (f a).AsksAtMost Q k) :
    (r >>= f).AsksAtMost Q (n + k) := by
  induction r generalizing n with
  | done a => exact (hf a h).mono (Nat.le_add_left k n)
  | fail e => trivial
  | note s rest ih => exact ih h
  | move target next ih =>
    obtain _ | n := n
    · exact h.elim
    · rw [Nat.add_right_comm]
      exact fun moved => ih moved (h moved)

/-- The first part of a reading asks for no more than the whole. -/
theorem of_bind {f : α → Reading σ β} (h : (r >>= f).AsksAtMost Q n) :
    r.AsksAtMost (fun _ => True) n := by
  induction r generalizing n with
  | done a => trivial
  | fail e => trivial
  | note s rest ih => exact ih h
  | move target next ih =>
    obtain _ | n := n
    · exact h.elim
    · exact fun moved => ih moved (h moved)

/-- How it goes on matters only for the results that there may be. -/
theorem bind_congr {f g : α → Reading σ β} (h : r.AsksAtMost P n) (hfg : ∀ a, P a → f a = g a) :
    r >>= f = r >>= g := by
  induction r generalizing n with
  | done a => exact hfg a h
  | fail e => rfl
  | note s rest ih => exact congrArg (note s) (ih h)
  | move target next ih =>
    obtain _ | n := n
    · exact h.elim
    · exact congrArg (move target) (funext fun moved => ih moved (h moved))

theorem mapNotes (f : σ → τ) (h : r.AsksAtMost P n) : (r.mapNotes f).AsksAtMost P n := by
  induction r generalizing n with
  | done a => exact h
  | fail e => trivial
  | note s rest ih => exact ih h
  | move target next ih =>
    obtain _ | n := n
    · exact h.elim
    · exact fun moved => ih moved (h moved)

theorem step (link : Option Nat) :
    (step link : Reading σ Bool).AsksAtMost (fun _ => True) 1 := by
  cases link with
  | none => trivial
  | some k => exact fun _ => trivial

/-- The run of such a reading pays for no more. -/
theorem used_run (h : r.AsksAtMost P n) (s : σ) (c : Cursor) (m : Meter) :
    (r.run s c m).meter.used ≤ m.used + n := by
  induction r generalizing n s c m with
  | done a => exact Nat.le_add_right _ _
  | fail e => exact Nat.le_add_right _ _
  | note s' rest ih => exact ih h s' c m
  | move target next ih =>
    obtain _ | n := n
    · exact h.elim
    · have hrest : ∀ moved c', ((next moved).run s c' (m.after 1)).meter.used ≤ m.used + (n + 1) := by
        intro moved c'
        have hle := ih moved (h moved) s c' (m.after 1)
        rw [Meter.used_after] at hle
        omega
      -- The answer to the move, whichever it is, has been paid for.
      have hpaid := c.meter_request target m
      rw [run]
      rcases hreq : c.request target m with ⟨_ | _ | c', m'⟩ <;> rw [hreq] at hpaid <;>
        obtain rfl := hpaid
      · exact Nat.add_le_add_left (Nat.le_add_left 1 n) m.used
      · exact hrest false c
      · exact hrest true c'

end AsksAtMost

end Reading

end DocTree
