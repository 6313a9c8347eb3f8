import Std.Data.HashMap

/-!
# Numbering values by first occurrence

An interner gives every new value the next number, from zero on, and the same number ever after. A
table of the values and a hash index say the same, in both directions.
-/

namespace DocTree

/-- The values met so far, numbered in the order in which they were met. -/
structure Interner (α : Type) [BEq α] [Hashable α] where
  values : Array α
  index : Std.HashMap α Nat
  /-- The index finds the places of the table, and each value has one place. -/
  agrees : ∀ (a : α) (i : Nat), index[a]? = some i ↔ values[i]? = some a

namespace Interner

variable {α : Type} [BEq α] [Hashable α]

/-- No value met yet. -/
def empty : Interner α := ⟨#[], ∅, by simp⟩

/-- How many values have a number. -/
def size (s : Interner α) : Nat := s.values.size

/-- The number of a value that was met before. -/
def find? (s : Interner α) (a : α) : Option Nat := s.index[a]?

@[simp] theorem find?_empty (a : α) : (empty : Interner α).find? a = none := by
  simp [find?, empty]

/-- The value with a number. -/
def value? (s : Interner α) (i : Nat) : Option α := s.values[i]?

theorem find?_eq_some_iff {s : Interner α} {a : α} {i : Nat} :
    s.find? a = some i ↔ s.value? i = some a := s.agrees a i

theorem find?_lt {s : Interner α} {a : α} {i : Nat} (h : s.find? a = some i) : i < s.size := by
  rw [find?_eq_some_iff, value?, Array.getElem?_eq_some_iff] at h
  exact h.1

variable [LawfulBEq α] [LawfulHashable α]

/-- Number a value that was not met before. -/
def add (s : Interner α) (a : α) (h : s.find? a = none) : Interner α :=
  match s, h with
  | ⟨values, index, agrees⟩, h =>
    let next := values.size
    ⟨values.push a, index.insert a next, by
      intro b i
      have hb := agrees b i
      have ha : ∀ j : Nat, values[j]? ≠ some a := by
        intro j hj
        rw [← agrees a j] at hj
        simp only [find?] at h
        simp [h] at hj
      rw [Std.HashMap.getElem?_insert, Array.getElem?_push]
      by_cases hab : a = b
      · subst hab
        by_cases hi : i = values.size
        · simp [hi, next]
        · simp [hi, ha i, next]
          omega
      · by_cases hi : i = values.size
        · simp [hi, hab, agrees b]
        · simp [hi, hab, hb]⟩

/-- The number of a value, which is a new one if there is room below `limit`; without room, nothing. -/
def intern (s : Interner α) (limit : Nat) (a : α) : Option Nat × Interner α :=
  match h : s.find? a with
  | some i => (some i, s)
  | none =>
    let next := s.size
    if next < limit then (some next, s.add a h) else (none, s)

end Interner

end DocTree
