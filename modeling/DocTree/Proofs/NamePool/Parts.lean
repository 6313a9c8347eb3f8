import DocTree.Proofs.NamePool.Codes
import Mathlib.Data.Set.Card

/-!
# What a pool gives numbers to

A call for a code has two parts numbered, one after the other: a name code those of an expanded name
and of its prefix, a namespace code those of a prefix and of a URI. Each part has its number in a
field of its own, and what happens in one field does not matter to another one. So a call either is
refused for its first part, and then nothing has happened, or is refused for its second part, and then
the first one has a number, or gets its code.

## Main definitions

- `NamePool.Part`, `NamePool.number?` — the things that have numbers, and their numbers
- `NamePool.Denies` — a part has no number, and its field has none left
- `NamePool.Call.parts?` — the two parts of a call for a code

## Main statements

- `NamePool.reply_of_denies_first`, `NamePool.reply_of_denies_second`, `NamePool.reply_of_not_denies` —
  the three ways in which a call for a code can end
- `NamePool.count_eq_ncard`, `NamePool.exists_number?_iff` — a field has numbered its parts from zero on
-/

namespace DocTree

namespace Interner

variable {α : Type} [BEq α] [Hashable α] {s : Interner α} {a b : α} {limit : Nat}

/-- The numbers that have been given are the first ones. -/
theorem exists_find?_iff (s : Interner α) (i : Nat) : (∃ a, s.find? a = some i) ↔ i < s.size := by
  constructor
  · rintro ⟨a, ha⟩
    exact find?_lt ha
  · intro hi
    exact ⟨s.values[i], find?_eq_some_iff.2 (Array.getElem?_eq_getElem hi)⟩

variable [LawfulBEq α] [LawfulHashable α]

theorem intern_of_full (h : s.find? a = none) (hfull : limit ≤ s.size) :
    s.intern limit a = (none, s) := by
  unfold intern
  split
  · next i hi => rw [h] at hi; cases hi
  · exact if_neg (Nat.not_lt.2 hfull)

/-- Whether or not there is room for a value, all others keep their numbers. -/
theorem find?_intern_of_ne (h : b ≠ a) : (s.intern limit a).2.find? b = s.find? b := by
  classical
  unfold intern
  split
  · rfl
  · next hnone =>
    by_cases hroom : s.size < limit
    · rw [if_pos hroom, find?_add, if_neg h.symm]
    · rw [if_neg hroom]

end Interner

namespace NamePool

/-- What a pool gives numbers to. -/
inductive Part where
  | name (uri localPart : String)
  | qualifier (qualifier : String)
  | uri (uri : String)
deriving DecidableEq

namespace Part

/-- The field of codes that the part has its number in, as an error calls it. -/
def field : Part → String
  | name .. => "fingerprint"
  | qualifier _ => "prefix"
  | uri _ => "namespace URI"

/-- How many numbers there are in that field. -/
def limit : Part → Nat
  | name .. => fingerprintLimit
  | qualifier _ => qualifierLimit
  | uri _ => uriLimit

end Part

variable {p p' : NamePool} {part x first second : Part} {call : Call} {i : Nat}

/-- The number of a part that has one. -/
def number? (p : NamePool) : Part → Option Nat
  | .name uri localPart => p.names.find? (uri, localPart)
  | .qualifier qualifier => p.qualifiers.find? qualifier
  | .uri uri => p.uris.find? uri

/-- How many numbers have been given in the field of a part. -/
def count (p : NamePool) : Part → Nat
  | .name .. => p.names.size
  | .qualifier _ => p.qualifiers.size
  | .uri _ => p.uris.size

/-- Give a part a number, a new one if need be. -/
def internPart (p : NamePool) : Part → Except AccessError Nat × NamePool
  | .name uri localPart => p.internName uri localPart
  | .qualifier qualifier => p.internQualifier qualifier
  | .uri uri => p.internUri uri

/-- The part has no number, and there is none left in its field. -/
def Denies (p : NamePool) (part : Part) : Prop :=
  p.number? part = none ∧ part.limit ≤ p.count part

section InternPart

theorem internPart_of_denies (h : p.Denies part) :
    p.internPart part = (.error (.namePoolExhausted part.field), p) := by
  obtain ⟨hnone, hfull⟩ := h
  cases part
  all_goals
    simp only [number?, Part.limit, count] at hnone hfull
    simp [internPart, internName, internQualifier, internUri, Interner.intern_of_full hnone hfull,
      codeOr, Part.field]

theorem internPart_of_number? (h : p.number? part = some i) : p.internPart part = (.ok i, p) := by
  cases part
  all_goals
    simp only [number?] at h
    simp [internPart, internName, internQualifier, internUri, Interner.intern_of_find? h, codeOr]

/-- A part that has no number gets the next one. -/
theorem internPart_of_room (h : p.number? part = none) (hroom : p.count part < part.limit) :
    (p.internPart part).1 = .ok (p.count part) ∧
      (p.internPart part).2.number? part = some (p.count part) ∧
      (p.internPart part).2.count part = p.count part + 1 := by
  classical
  cases part
  all_goals
    simp only [number?, Part.limit, count] at h hroom
    simp [internPart, internName, internQualifier, internUri, Interner.intern_of_room h hroom,
      codeOr, number?, count, Interner.find?_add, Interner.size_add]

/-- Whether or not there is room for a part, all others keep their numbers. -/
theorem number?_internPart_of_ne (h : x ≠ part) :
    (p.internPart part).2.number? x = p.number? x := by
  cases part <;> cases x <;> first | rfl | skip
  all_goals
    refine Interner.find?_intern_of_ne ?_
    simpa using h

theorem count_internPart_of_field_ne (h : x.field ≠ part.field) :
    (p.internPart part).2.count x = p.count x := by
  cases part <;> cases x <;> first | rfl | exact absurd rfl h

theorem denies_internPart_iff (h : x.field ≠ part.field) :
    (p.internPart part).2.Denies x ↔ p.Denies x := by
  have hne : x ≠ part := fun hx => h (congrArg Part.field hx)
  rw [Denies, Denies, number?_internPart_of_ne hne, count_internPart_of_field_ne h]

theorem room_of_not_denies (h : ¬p.Denies part) (hnone : p.number? part = none) :
    p.count part < part.limit := by
  by_contra hfull
  exact h ⟨hnone, Nat.le_of_not_lt hfull⟩

/-- A part that is not denied a number has one then. -/
theorem internPart_of_not_denies (h : ¬p.Denies part) :
    ∃ i p', p.internPart part = (.ok i, p') ∧ p'.number? part = some i := by
  cases hnumber : p.number? part with
  | some i => exact ⟨i, p, internPart_of_number? hnumber, hnumber⟩
  | none =>
    obtain ⟨hcode, hnumber', -⟩ := internPart_of_room hnumber (room_of_not_denies h hnumber)
    exact ⟨_, _, Prod.ext hcode rfl, hnumber'⟩

/-- A part that was given a number has it then. -/
theorem number?_of_internPart (h : p.internPart part = (.ok i, p')) : p'.number? part = some i := by
  by_cases hdenies : p.Denies part
  · rw [internPart_of_denies hdenies] at h
    cases h
  · obtain ⟨j, q, hintern, hnumber⟩ := internPart_of_not_denies hdenies
    rw [hintern] at h
    cases h
    exact hnumber

theorem isSome_number?_internPart (h : ¬p.Denies part) (x : Part) :
    ((p.internPart part).2.number? x).isSome ↔ x = part ∨ (p.number? x).isSome := by
  by_cases hx : x = part
  · obtain ⟨i, p', hintern, hnumber⟩ := internPart_of_not_denies h
    simp [hx, hintern, hnumber]
  · simp [hx, number?_internPart_of_ne hx]

end InternPart

/-- What a call for a code has numbered, in this order. -/
def Call.parts? : Call → Option (Part × Part)
  | .name qualifier uri localPart => some (.name uri localPart, .qualifier qualifier)
  | .namespaceDecl qualifier uri => some (.qualifier qualifier, .uri uri)
  | _ => none

section Reply

/-- The two parts of a call have their numbers in two fields. -/
theorem field_ne_of_parts? (h : call.parts? = some (first, second)) :
    second.field ≠ first.field := by
  cases call with
  | name | namespaceDecl =>
    obtain ⟨rfl, rfl⟩ := Prod.mk.inj (Option.some.inj h)
    simp [Part.field]
  | fingerprint | expandedName => cases h

/-- A call for a code has its parts numbered and puts the numbers together. -/
theorem reply_eq_fillBoth (h : call.parts? = some (first, second)) : ∃ combine, ∀ p : NamePool,
    p.reply call = (.code (fillBoth (p.internPart first) (·.internPart second) combine).1,
      (fillBoth (p.internPart first) (·.internPart second) combine).2) := by
  cases call with
  | name =>
    obtain ⟨rfl, rfl⟩ := Prod.mk.inj (Option.some.inj h)
    exact ⟨fun f k => k * fingerprintLimit + f, fun p => rfl⟩
  | namespaceDecl =>
    obtain ⟨rfl, rfl⟩ := Prod.mk.inj (Option.some.inj h)
    exact ⟨fun k u => k * uriLimit + u, fun p => rfl⟩
  | fingerprint | expandedName => cases h

/-- If the first part is denied a number, nothing happens. -/
theorem reply_of_denies_first (hparts : call.parts? = some (first, second)) (h : p.Denies first) :
    p.reply call = (.code (.error (.namePoolExhausted first.field)), p) := by
  obtain ⟨combine, hreply⟩ := reply_eq_fillBoth hparts
  rw [hreply, internPart_of_denies h]
  rfl

/-- If only the second part is denied a number, the first one has a number all the same. -/
theorem reply_of_denies_second (hparts : call.parts? = some (first, second)) (h : ¬p.Denies first)
    (h' : p.Denies second) : p.reply call =
      (.code (.error (.namePoolExhausted second.field)), (p.internPart first).2) := by
  obtain ⟨combine, hreply⟩ := reply_eq_fillBoth hparts
  obtain ⟨i, p₁, hintern, -⟩ := internPart_of_not_denies h
  have hsecond := (denies_internPart_iff (p := p) (field_ne_of_parts? hparts)).2 h'
  rw [hintern] at hsecond
  rw [hreply, hintern]
  simp [fillBoth, internPart_of_denies hsecond]

/-- If neither part is denied a number, there is a code. -/
theorem reply_of_not_denies (hparts : call.parts? = some (first, second)) (h : ¬p.Denies first)
    (h' : ¬p.Denies second) : ∃ code, p.reply call =
      (.code (.ok code), ((p.internPart first).2.internPart second).2) := by
  obtain ⟨combine, hreply⟩ := reply_eq_fillBoth hparts
  have hsecond := (denies_internPart_iff (p := p) (field_ne_of_parts? hparts)).not.2 h'
  obtain ⟨i, p₁, hintern, -⟩ := internPart_of_not_denies h
  rw [hintern] at hsecond
  obtain ⟨j, p₂, hintern', -⟩ := internPart_of_not_denies hsecond
  refine ⟨combine i j, ?_⟩
  rw [hreply, hintern]
  simp [fillBoth, hintern']

/-- A call without parts asks for no code, and changes nothing. -/
theorem reply_of_partless (h : call.parts? = none) :
    (∀ answer, (p.reply call).1 ≠ .code answer) ∧ (p.reply call).2 = p := by
  cases call with
  | name | namespaceDecl => cases h
  | fingerprint | expandedName => exact ⟨fun _ => nofun, rfl⟩

/-- After a call that got a code, its two parts have numbers, and else those that had one before. -/
theorem isSome_number?_reply (hparts : call.parts? = some (first, second)) (h : ¬p.Denies first)
    (h' : ¬p.Denies second) (x : Part) :
    ((p.reply call).2.number? x).isSome ↔ x = second ∨ x = first ∨ (p.number? x).isSome := by
  have hsecond := (denies_internPart_iff (p := p) (field_ne_of_parts? hparts)).not.2 h'
  obtain ⟨code, hreply⟩ := reply_of_not_denies hparts h h'
  rw [hreply, isSome_number?_internPart hsecond, isSome_number?_internPart h]

end Reply

/-- A code that was given for a declaration is there, whatever the pool was before. -/
theorem codes_of_allocateNamespace {qualifier uri : String} {code : Nat}
    (h : p.allocateNamespace qualifier uri = (.ok code, p')) :
    p'.Codes code (.namespaceDecl qualifier uri) := by
  rw [allocateNamespace_eq] at h
  rcases hfirst : p.internQualifier qualifier with ⟨e | k, p₁⟩
  · rw [hfirst] at h
    cases h
  · rcases hsecond : p₁.internUri uri with ⟨e | u, p₂⟩
    · simp [hfirst, fillBoth, hsecond] at h
    · simp only [hfirst, fillBoth, hsecond, Prod.mk.injEq, Except.ok.injEq] at h
      obtain ⟨rfl, rfl⟩ := h
      have hk : p₁.number? (.qualifier qualifier) = some k := number?_of_internPart hfirst
      have hu : p₂.number? (.uri uri) = some u := number?_of_internPart hsecond
      have hgrows := p₁.extends_internUri uri
      rw [hsecond] at hgrows
      exact ⟨k, u, hgrows.qualifiers _ _ hk, hu, rfl⟩

section Fields

/-- No two parts have the same number in one field. -/
theorem number?_injective {y : Part} (hfield : x.field = y.field) (hx : p.number? x = some i)
    (hy : p.number? y = some i) : x = y := by
  -- Parts of different kinds have their numbers in different fields.
  cases x <;> cases y <;> simp only [Part.field, String.reduceEq] at hfield
  all_goals
    have heq := Interner.find?_injective hx hy
    simpa using heq

/-- The numbers that have been given in a field are the first ones. -/
theorem exists_number?_iff (p : NamePool) (x : Part) (i : Nat) :
    (∃ y, y.field = x.field ∧ p.number? y = some i) ↔ i < p.count x := by
  cases x with
  | name uri localPart =>
    rw [count, ← p.names.exists_find?_iff]
    constructor
    · rintro ⟨y, hfield, hnumber⟩
      cases y with
      | name uri localPart => exact ⟨(uri, localPart), hnumber⟩
      | _ => simp [Part.field] at hfield
    · rintro ⟨⟨uri, localPart⟩, hnumber⟩
      exact ⟨.name uri localPart, rfl, hnumber⟩
  | qualifier qualifier =>
    rw [count, ← p.qualifiers.exists_find?_iff]
    constructor
    · rintro ⟨y, hfield, hnumber⟩
      cases y with
      | qualifier qualifier => exact ⟨qualifier, hnumber⟩
      | _ => simp [Part.field] at hfield
    · rintro ⟨qualifier, hnumber⟩
      exact ⟨.qualifier qualifier, rfl, hnumber⟩
  | uri uri =>
    rw [count, ← p.uris.exists_find?_iff]
    constructor
    · rintro ⟨y, hfield, hnumber⟩
      cases y with
      | uri uri => exact ⟨uri, hnumber⟩
      | _ => simp [Part.field] at hfield
    · rintro ⟨uri, hnumber⟩
      exact ⟨.uri uri, rfl, hnumber⟩

/-- As many parts have a number in a field as numbers have been given there. -/
theorem count_eq_ncard (p : NamePool) (x : Part) :
    p.count x = {y | (p.number? y).isSome ∧ y.field = x.field}.ncard := by
  choose part hfield hnumber using fun i : Fin (p.count x) => (p.exists_number?_iff x i).2 i.isLt
  have hinjective : Function.Injective part := by
    intro i j hij
    have hi := hnumber i
    rw [hij, hnumber j] at hi
    exact Fin.ext (Option.some.inj hi).symm
  have hrange : {y | (p.number? y).isSome ∧ y.field = x.field} = Set.range part := by
    ext y
    constructor
    · rintro ⟨hy, hyfield⟩
      obtain ⟨i, hi⟩ := Option.isSome_iff_exists.1 hy
      have hlt := (p.exists_number?_iff x i).1 ⟨y, hyfield, hi⟩
      exact ⟨⟨i, hlt⟩, number?_injective ((hfield ⟨i, hlt⟩).trans hyfield.symm) (hnumber _) hi⟩
    · rintro ⟨i, rfl⟩
      exact ⟨Option.isSome_iff_exists.2 ⟨i, hnumber i⟩, hfield i⟩
  rw [hrange, ← Nat.card_coe_set_eq, Nat.card_range_of_injective hinjective, Nat.card_fin]

end Fields

theorem Bounded.count_le (h : p.Bounded) (x : Part) : p.count x ≤ x.limit := by
  cases x with
  | name => exact h.names
  | qualifier => exact h.qualifiers
  | uri => exact h.uris

end NamePool

end DocTree
