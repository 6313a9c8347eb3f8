import DocTree.Node.Declarations
import DocTree.NodeTest

/-!
# Name pools only grow

What has a number in an interner keeps it, and what has a code in a pool keeps that, whatever else
is allocated and whether or not there is room for it. A pool is also handed on from note to note of
a reading, and what a reading leaves behind is one of its notes.

A node test that asks for a fingerprint looks its names up in the pool. If the fingerprint has been
allocated, the answer cannot change any more: a name with another number keeps that, and a name
without one will get another number.

## Main definitions

- `Interner.Extends`, `NamePool.Extends` — all that has a code keeps it
- `Reading.Notes` — a property of all notes of a reading
- `NodeTest.Settled` — a test whose answers cannot change any more

## Main statements

- `NamePool.extends_allocate`, `NamePool.extends_allocateNamespace` — allocating codes
- `Snapshot.notes_declaredCodes` — the codes of declarations
- `NodeTest.Settled.accepts_eq` — a settled test accepts the same nodes for ever
-/

namespace DocTree

namespace Interner

variable {α : Type} [BEq α] [Hashable α] {s s' s'' : Interner α} {a b : α} {i : Nat}

/-- All that has a number in the first interner has the same one in the second. -/
def Extends (s s' : Interner α) : Prop := ∀ a i, s.find? a = some i → s'.find? a = some i

theorem Extends.refl (s : Interner α) : s.Extends s := fun _ _ h => h

theorem Extends.trans (h : s.Extends s') (h' : s'.Extends s'') : s.Extends s'' :=
  fun a i hi => h' a i (h a i hi)

theorem find?_injective (ha : s.find? a = some i) (hb : s.find? b = some i) : a = b := by
  rw [find?_eq_some_iff] at ha hb
  exact Option.some.inj (ha.symm.trans hb)

variable [LawfulBEq α] [LawfulHashable α]

theorem size_add (s : Interner α) (h : s.find? a = none) : (s.add a h).size = s.size + 1 := by
  simp only [size, add, Array.size_push]

theorem find?_add (s : Interner α) (h : s.find? a = none) (b : α) [Decidable (a = b)] :
    (s.add a h).find? b = if a = b then some s.size else s.find? b := by
  have hvalue : ∀ i, (s.add a h).value? i = if i = s.size then some a else s.value? i := by
    intro i
    simp only [value?, add, size]
    exact Array.getElem?_push
  by_cases hab : a = b
  · subst hab
    rw [if_pos rfl, find?_eq_some_iff, hvalue, if_pos rfl]
  · rw [if_neg hab]
    ext i
    rw [find?_eq_some_iff, find?_eq_some_iff, hvalue]
    by_cases hi : i = s.size
    · -- The new number is that of `a`, and the old table has no value with it.
      have hnone : s.value? i = none := by simp [value?, hi, size]
      simp [hi, hab, hi ▸ hnone]
    · rw [if_neg hi]

theorem extends_add (s : Interner α) (h : s.find? a = none) : s.Extends (s.add a h) := by
  intro b i hi
  classical
  have hab : a ≠ b := by
    rintro rfl
    rw [h] at hi
    cases hi
  rw [find?_add, if_neg hab, hi]

theorem extends_intern (s : Interner α) (limit : Nat) (a : α) :
    s.Extends (s.intern limit a).2 := by
  unfold intern
  split
  · exact .refl s
  · next hnone =>
    by_cases hroom : s.size < limit
    · rw [if_pos hroom]
      exact s.extends_add hnone
    · rw [if_neg hroom]
      exact .refl s

end Interner

namespace NamePool

variable {p p' p'' : NamePool}

/-- All that has a code in the first pool has the same one in the second. -/
structure Extends (p p' : NamePool) : Prop where
  names : p.names.Extends p'.names
  qualifiers : p.qualifiers.Extends p'.qualifiers
  uris : p.uris.Extends p'.uris

theorem Extends.refl (p : NamePool) : p.Extends p := ⟨.refl _, .refl _, .refl _⟩

theorem Extends.trans (h : p.Extends p') (h' : p'.Extends p'') : p.Extends p'' :=
  ⟨h.names.trans h'.names, h.qualifiers.trans h'.qualifiers, h.uris.trans h'.uris⟩

theorem extends_internName (p : NamePool) (uri localPart : String) :
    p.Extends (p.internName uri localPart).2 :=
  ⟨p.names.extends_intern _ _, .refl _, .refl _⟩

theorem extends_internQualifier (p : NamePool) (qualifier : String) :
    p.Extends (p.internQualifier qualifier).2 :=
  ⟨.refl _, p.qualifiers.extends_intern _ _, .refl _⟩

theorem extends_internUri (p : NamePool) (uri : String) : p.Extends (p.internUri uri).2 :=
  ⟨.refl _, .refl _, p.uris.extends_intern _ _⟩

/-- Two fields are filled one after the other. If there is no code for the second one, the first one
stays filled. -/
def fillBoth (first : Except AccessError Nat × NamePool)
    (second : NamePool → Except AccessError Nat × NamePool) (combine : Nat → Nat → Nat) :
    Except AccessError Nat × NamePool :=
  match first with
  | (.error e, p) => (.error e, p)
  | (.ok a, p) =>
    match second p with
    | (.error e, p) => (.error e, p)
    | (.ok b, p) => (.ok (combine a b), p)

theorem allocate_eq (p : NamePool) (qualifier uri localPart : String) :
    p.allocate qualifier uri localPart =
      fillBoth (p.internName uri localPart) (·.internQualifier qualifier)
        fun f k => k * fingerprintLimit + f :=
  rfl

theorem allocateNamespace_eq (p : NamePool) (qualifier uri : String) :
    p.allocateNamespace qualifier uri =
      fillBoth (p.internQualifier qualifier) (·.internUri uri) fun k u => k * uriLimit + u :=
  rfl

/-- A field that was filled stays filled. -/
theorem extends_fillBoth {first : Except AccessError Nat × NamePool}
    {second : NamePool → Except AccessError Nat × NamePool} (combine : Nat → Nat → Nat)
    (hfirst : p.Extends first.2) (hsecond : ∀ p : NamePool, p.Extends (second p).2) :
    p.Extends (fillBoth first second combine).2 := by
  obtain ⟨_ | a, p₁⟩ := first
  · exact hfirst
  · have hrest := hfirst.trans (hsecond p₁)
    unfold fillBoth
    dsimp only
    generalize second p₁ = answer at hrest
    obtain ⟨_ | b, p₂⟩ := answer
    · exact hrest
    · exact hrest

theorem extends_allocate (p : NamePool) (qualifier uri localPart : String) :
    p.Extends (p.allocate qualifier uri localPart).2 := by
  rw [allocate_eq]
  exact extends_fillBoth _ (p.extends_internName uri localPart)
    fun p => p.extends_internQualifier qualifier

theorem extends_allocateNamespace (p : NamePool) (qualifier uri : String) :
    p.Extends (p.allocateNamespace qualifier uri).2 := by
  rw [allocateNamespace_eq]
  exact extends_fillBoth _ (p.extends_internQualifier qualifier) fun p => p.extends_internUri uri

end NamePool

namespace Reading

variable {σ α β : Type} {P : σ → Prop}

/-- Whatever a reading notes has the property, however its moves end. -/
def Notes (P : σ → Prop) : Reading σ α → Prop
  | done _ => True
  | fail _ => True
  | note s rest => P s ∧ rest.Notes P
  | move _ next => ∀ moved, (next moved).Notes P

/-- What a reading leaves behind is what was there before or one of its notes. -/
theorem Notes.state_run {r : Reading σ α} (h : r.Notes P) {s : σ} (hs : P s) (c : Cursor)
    (m : Meter) : P (r.run s c m).state := by
  induction r generalizing s c m with
  | done => exact hs
  | fail => exact hs
  | note s' rest ih => exact ih h.2 h.1 c m
  | move target next ih =>
    unfold run
    split
    · exact hs
    · exact ih false (h false) hs _ _
    · exact ih true (h true) hs _ _

theorem Notes.bind {r : Reading σ α} {f : α → Reading σ β} (h : r.Notes P)
    (hf : ∀ a, (f a).Notes P) : (r >>= f).Notes P := by
  induction r with
  | done a => exact hf a
  | fail => trivial
  | note s rest ih => exact ⟨h.1, ih h.2⟩
  | move target next ih => exact fun moved => ih moved (h moved)

end Reading

namespace Snapshot

/-- The codes of declarations are written into a pool that only grows. -/
theorem notes_writeCodes (t : Snapshot) {p pool : NamePool} (hp : p.Extends pool)
    (owner left index here : Nat) (codes : List Int) :
    (t.writeCodes owner left index here pool codes).Notes p.Extends := by
  induction left generalizing index here pool codes with
  | zero => trivial
  | succ left ih =>
    unfold writeCodes
    split
    · exact fun _ => trivial
    · next n _ =>
      rintro (_ | _)
      · trivial
      · dsimp only
        cases t.name? n with
        | none => exact fun _ => ih hp _ _ _
        | some name =>
          have hgrows := hp.trans (pool.extends_allocateNamespace name.localPart name.uri)
          dsimp only
          generalize pool.allocateNamespace name.localPart name.uri = answer at hgrows
          obtain ⟨e | code, pool'⟩ := answer
          · exact ⟨hgrows, trivial⟩
          · exact ⟨hgrows, fun _ => ih hgrows _ _ _⟩

theorem notes_declaredCodes (t : Snapshot) (lent? : Option (List Int)) (pool : NamePool)
    (here : Nat) : (t.declaredCodes lent? pool here).Notes pool.Extends := by
  unfold declaredCodes
  dsimp only
  split
  · trivial
  · exact (t.notes_writeCodes (.refl pool) _ _ _ _ _).bind fun _ => trivial

end Snapshot

namespace NodeTest

/-- A test is settled if what it accepts does not depend on what a pool has yet to learn: if it asks
for a fingerprint, then for one that has been allocated. -/
def Settled (pool : NamePool) : NodeTest → Prop
  | fingerprint _ code => (pool.expandedName? code).isSome
  | _ => True

/-- A settled test accepts the same nodes for ever. -/
theorem Settled.accepts_eq {test : NodeTest} {p p' : NamePool} (h : test.Settled p)
    (hp : p.Extends p') (x : Handle) : test.accepts p' x = test.accepts p x := by
  cases test with
  | any => rfl
  | kind _ => rfl
  | name _ _ _ => rfl
  | predicate _ => rfl
  | fingerprint k code =>
    refine congrArg (x.kind == k && ·) ?_
    rcases x.expandedName? with _ | ⟨uri, localPart⟩
    · rfl
    · simp only [Option.bind_some]
      cases hf : p.fingerprint? uri localPart with
      | some f =>
        have hf' : p'.fingerprint? uri localPart = some f := hp.names _ _ hf
        rw [hf']
      | none =>
        cases hf' : p'.fingerprint? uri localPart with
        | none => rfl
        | some f =>
          -- The code had a name before, which keeps it, and that name is another one.
          have hother : (f : Int) ≠ code := by
            rintro rfl
            obtain ⟨name, hname⟩ : ∃ name, p.names.value? f = some name := by
              simpa [Settled, NamePool.expandedName?, Option.isSome_iff_exists] using h
            have hkept := hp.names _ _ (Interner.find?_eq_some_iff.2 hname)
            obtain rfl := Interner.find?_injective hkept hf'
            rw [NamePool.fingerprint?, Interner.find?_eq_some_iff.2 hname] at hf
            cases hf
          simpa using hother

end NodeTest

end DocTree
