import DocTree.Kind
import DocTree.QName

/-!
# What a document says

`Content` is what a user describes: a sequence of elements, texts, comments and processing
instructions, where an element has namespace declarations, attributes and content of its own.
Nothing in it says where a node is stored.

## Main definitions

- `Content` — a sequence of nodes with everything below them
- `Event` — one step of a description that is given piece by piece
- `Content.ofEvents` — the content that a list of events describes
-/

namespace DocTree

/-- A node that has nothing below it. -/
inductive Leaf where
  | text (value : String)
  | comment (value : String)
  | instruction (target data : String)
deriving DecidableEq, Repr, Inhabited

namespace Leaf

/-- The kind of a leaf. -/
def kind : Leaf → Kind
  | text _ => .text
  | comment _ => .comment
  | instruction _ _ => .instruction

/-- Only processing instructions have a name, their target. -/
def name? : Leaf → Option QName
  | instruction target _ => some (.ofLocal target)
  | _ => none

/-- The characters of a leaf. -/
def value : Leaf → String
  | text v | comment v | instruction _ v => v

end Leaf

/-- What the start of an element says. -/
structure ElementHead where
  name : QName
  /-- Prefixes and the URIs they are bound to, in the order of their declaration. -/
  namespaces : List (String × String) := []
  /-- Attribute names and values, in the order of their declaration. -/
  attributes : List (QName × String) := []
deriving DecidableEq, Repr, Inhabited

/-- A sequence of sibling nodes. -/
inductive Content where
  | nil
  | element (head : ElementHead) (body next : Content)
  | leaf (here : Leaf) (next : Content)
deriving DecidableEq, Repr, Inhabited

namespace Content

/-- The number of nodes of the sequence itself. -/
def length : Content → Nat
  | nil => 0
  | element _ _ next => next.length + 1
  | leaf _ next => next.length + 1

/-- Whether the sequence has no node. -/
def isEmpty : Content → Bool
  | nil => true
  | _ => false

/-- The sequence in reverse, followed by another. -/
def reverseOnto : Content → Content → Content
  | nil, acc => acc
  | element head body next, acc => next.reverseOnto (element head body acc)
  | leaf l next, acc => next.reverseOnto (leaf l acc)

/-- The sequence in reverse; what is below its nodes keeps its order. -/
def reverse (c : Content) : Content := c.reverseOnto nil

@[simp] theorem length_reverseOnto (c acc : Content) :
    (c.reverseOnto acc).length = c.length + acc.length := by
  induction c generalizing acc with
  | nil => simp [reverseOnto, length]
  | element head body next _ ih => simp [reverseOnto, length, ih]; omega
  | leaf l next ih => simp [reverseOnto, length, ih]; omega

end Content

/-- One step of a description. Declarations and attributes belong to the element that is open,
also when some of its content has already been given. -/
inductive Event where
  | startElement (name : QName)
  | endElement
  | declare (qualifier uri : String)
  | attribute (name : QName) (value : String)
  | leaf (l : Leaf)
deriving DecidableEq, Repr, Inhabited

/-- A description that is under way: the elements that are open, innermost first, each with the
content that precedes it in its parent, latest node first. -/
structure Draft where
  /-- The content given so far at the innermost level, latest node first. -/
  given : Content := .nil
  /-- The elements that are open, each with what was given before it, latest node first. -/
  openElements : List (ElementHead × Content) := []
deriving Inhabited

namespace Draft

/-- End the innermost element that is open, if there is one. -/
def close (d : Draft) : Draft :=
  match d.openElements with
  | [] => d
  | (head, before) :: outer => ⟨.element head d.given.reverse before, outer⟩

/-- Change the head of the innermost element that is open, if there is one. -/
def amend (d : Draft) (f : ElementHead → ElementHead) : Draft :=
  match d.openElements with
  | [] => d
  | (head, before) :: outer => { d with openElements := (f head, before) :: outer }

/-- Take one event into account. -/
def add (d : Draft) : Event → Draft
  | .startElement name => ⟨.nil, ({ name }, d.given) :: d.openElements⟩
  | .endElement => d.close
  | .declare qualifier uri =>
    d.amend fun h => { h with namespaces := h.namespaces ++ [(qualifier, uri)] }
  | .attribute name value =>
    d.amend fun h => { h with attributes := h.attributes ++ [(name, value)] }
  | .leaf l => { d with given := .leaf l d.given }

/-- The content described, with every open element ended. -/
def finish (d : Draft) : Content :=
  (d.openElements.foldl (fun d _ => d.close) d).given.reverse

end Draft

/-- The content that a list of events describes; elements that are open at the end are ended
there. -/
def Content.ofEvents (events : List Event) : Content :=
  (events.foldl Draft.add {}).finish

end DocTree
