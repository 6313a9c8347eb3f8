import DocTree.Reading

/-!
# Walks over attributes and namespaces

Attributes and namespace declarations belong to an element, and the cursor returns there between two
of them. The namespaces in scope are those that the element and its ancestors declare; a prefix
counts where it is declared first, and a declaration that binds it to no URI hides it.

## Main definitions

- `AttributeWalk.advance` — the next attribute
- `NamespaceWalk.advance` — the next namespace in scope
-/

namespace DocTree

/-- A walk over the attributes of an element. -/
structure AttributeWalk where
  owner : Int
  /-- How many attributes have been visited. -/
  index : Nat := 0
deriving DecidableEq, Repr, Inhabited

/-- Visit the next attribute. -/
def AttributeWalk.advance (t : Snapshot) (here : Nat) (w : AttributeWalk) :
    Reading AttributeWalk Bool := do
  let home := (here : Int) = w.owner
  if ← if home then pure true else .ask (t.find? w.owner) then
    let place := if home then here else w.owner.toNat
    if ← .ask (t.attributes place)[w.index]? then
      .keep { w with index := w.index + 1 }
      pure true
    else pure false
  else pure false

/-- A walk over the namespaces in scope. -/
structure NamespaceWalk where
  /-- The element whose declarations are visited now, none at the end. -/
  element? : Option Int
  /-- How many of its declarations have been looked at. -/
  index : Nat := 0
  /-- The prefixes met so far. -/
  seen : List String := []
deriving DecidableEq, Repr, Inhabited

namespace NamespaceWalk

/-- End the walk. -/
def finish (w : NamespaceWalk) : Reading NamespaceWalk Bool := do
  .keep { w with element? := none }
  pure false

/-- Whether a declaration with this name counts after those of the prefixes `seen`, and the prefixes
seen after it. -/
def judge (name? : Option QName) (seen : List String) : Bool × List String :=
  match name? with
  | none => (false, seen)
  | some name =>
    if name.localPart ∈ seen then (false, seen)
    else (!name.uri.isEmpty, name.localPart :: seen)

/-- Visit the next declaration that counts, from declaration `index` of the element at place `e` on.
The cursor is on that element; it goes on to the parent when there are no more declarations. -/
def scan (t : Snapshot) (e index : Nat) (seen : List String) : Reading NamespaceWalk Bool :=
  if t.kind e ≠ .element then finish ⟨some e, index, seen⟩
  else do
    let arrived ← .ask (t.namespaces e)[index]?
    match arrived, _h : (t.namespaces e)[index]? with
    | true, some n =>
      let (counts, seen) := judge (t.name? n) seen
      .keep ⟨some e, index + 1, seen⟩
      if counts then pure true
      else if ← .ask (some e) then scan t e (index + 1) seen
      else finish ⟨some e, index + 1, seen⟩
    | _, _ =>
      match _h : t.parent? e with
      | some p =>
        .keep ⟨some p, 0, seen⟩
        if ← .ask (some p) then scan t p 0 seen else finish ⟨some p, 0, seen⟩
      | none => finish ⟨none, 0, seen⟩
termination_by (e, (t.namespaces e).length - index)
decreasing_by
  · have := (List.getElem?_eq_some_iff.1 _h).1
    exact Prod.Lex.right _ (by omega)
  · exact Prod.Lex.left _ _ (Snapshot.parent?_lt _h)

/-- Visit the next namespace in scope. -/
def advance (t : Snapshot) (here : Nat) (w : NamespaceWalk) : Reading NamespaceWalk Bool :=
  match w.element? with
  | none => finish w
  | some key => do
    if (here : Int) = key then scan t here w.index w.seen
    else if ← .ask (t.find? key) then scan t key.toNat w.index w.seen
    else finish w

end NamespaceWalk

end DocTree
