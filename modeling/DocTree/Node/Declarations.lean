import DocTree.Handle
import DocTree.NamePool.Basic
import DocTree.Reading

/-!
# Declared namespaces as codes

The namespace declarations of an element are delivered as a list of integer codes. A caller may lend
a list that is long enough; what it holds beyond the declarations is kept, with `NamePool.listEnd`
between.
-/

namespace DocTree

/-- The list in which codes are delivered: the one lent, if it has room, or a new one. -/
def codeBuffer (lent? : Option (List Int)) (count : Nat) : List Int :=
  match lent? with
  | some lent => if count ≤ lent.length then lent else List.replicate count 0
  | none => List.replicate count 0

namespace Snapshot

variable (t : Snapshot)

/-- Write the codes of the declarations of `owner` from number `index` on, as many as are left. The
notes are the pool, which keeps the codes it has given also if the reading fails. -/
def writeCodes (owner : Nat) : (left index here : Nat) → NamePool → List Int →
    Reading NamePool (List Int)
  | 0, _, _, _, codes => .done codes
  | left + 1, index, here, pool, codes =>
    match (t.namespaces here)[index]? with
    | none => do
      let _ ← .ask none
      .fail (.noSuchNode owner)
    | some n => do
      if ← .ask (some n) then
        match t.name? n with
        | none =>
          let returned ← .ask (some owner)
          writeCodes owner left (index + 1) (if returned then owner else n) pool codes
        | some name =>
          match pool.allocateNamespace name.localPart name.uri with
          | (.error e, pool) =>
            .keep pool
            .fail e
          | (.ok code, pool) =>
            .keep pool
            let returned ← .ask (some owner)
            writeCodes owner left (index + 1) (if returned then owner else n) pool
              (codes.set index code)
      else .fail (.noSuchNode owner)

/-- The codes of the declarations of the element at `here`. A list that is longer than needed has
`NamePool.listEnd` after them. -/
def declaredCodes (lent? : Option (List Int)) (pool : NamePool) (here : Nat) :
    Reading NamePool (List Int) := do
  let count := (t.namespaces here).length
  if count = 0 then return []
  let codes ← t.writeCodes here count 0 here pool (codeBuffer lent? count)
  return if count < codes.length then codes.set count NamePool.listEnd else codes

end Snapshot

end DocTree
