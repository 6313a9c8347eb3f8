import DocTree.Handle
import DocTree.Reading

/-!
# Attribute values and base URIs

An attribute is looked up by URI and local part, the first one counts. The base URI of a node is the
value of the nearest attribute `xml:base` on an element from the node upwards.
-/

namespace DocTree

namespace Snapshot

variable {σ : Type} (t : Snapshot)

/-- Look for an attribute with a given name among those of `owner`, from number `index` on and as long
as there are some left; its value and the place of the cursor, which has returned to the owner if
the storage let it. -/
def searchAttribute (uri localPart : String) (owner : Nat) :
    (left index here : Nat) → Reading σ (Option String × Nat)
  | 0, _, here => .done (none, here)
  | left + 1, index, here => do
    match (t.attributes here)[index]? with
    | none =>
      let _ ← .ask none
      return (none, here)
    | some a =>
      if ← .ask (some a) then
        let returned ← .ask (some owner)
        let back := if returned then owner else a
        if (t.name? a).any (·.isNamed uri localPart) then
          return (some ((t.value? a).getD ""), back)
        else searchAttribute uri localPart owner left (index + 1) back
      else return (none, here)

/-- The value of the first attribute of the node at `here` with a given name, and the place of the
cursor afterwards. -/
def findAttribute (uri localPart : String) (here : Nat) : Reading σ (Option String × Nat) :=
  t.searchAttribute uri localPart here (t.attributes here).length 0 here

/-- The value of `xml:base` on the nearest element from the node at `here` upwards that has this
attribute. Every level is nearer to the document node, unless the storage keeps the cursor on an
attribute, which it does at most once; `levels` has room for that. -/
def nearestBase : (levels here : Nat) → Reading σ (Option String)
  | 0, _ => .done none
  | levels + 1, here => do
    let (found, here) ←
      if t.kind here = .element then t.findAttribute xmlNamespace "base" here
      else pure (none, here)
    match found with
    | some value => return some value
    | none =>
      match t.parent? here with
      | some p => if ← .step (some p) then nearestBase levels p else return none
      | none => return none

/-- The base URI that the document itself gives the node at `here`. -/
def baseAt (here : Nat) : Reading σ (Option String) := t.nearestBase (t.size + 2) here

end Snapshot

end DocTree
