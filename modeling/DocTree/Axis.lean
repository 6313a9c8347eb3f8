import DocTree.Error

/-!
# Axes

The fourteen directions in which a document tree is searched from a node, with their numeric codes.
-/

namespace DocTree

/-- A direction of search. -/
inductive Axis where
  | ancestor
  | ancestorOrSelf
  | attribute
  | child
  | descendant
  | descendantOrSelf
  | following
  | followingSibling
  | namespaceDecl
  | parent
  | preceding
  | precedingSibling
  | self
  | precedingOrAncestor
deriving DecidableEq, Repr, Inhabited

namespace Axis

/-- All axes in the order of their codes. -/
def all : List Axis :=
  [ancestor, ancestorOrSelf, .attribute, child, descendant, descendantOrSelf, following,
    followingSibling, namespaceDecl, parent, preceding, precedingSibling, self, precedingOrAncestor]

/-- The code of an axis. -/
def code : Axis → Nat
  | ancestor => 0
  | ancestorOrSelf => 1
  | .attribute => 2
  | child => 3
  | descendant => 4
  | descendantOrSelf => 5
  | following => 6
  | followingSibling => 7
  | namespaceDecl => 8
  | parent => 9
  | preceding => 10
  | precedingSibling => 11
  | self => 12
  | precedingOrAncestor => 13

/-- The axis of a code. -/
def ofCode (code : Nat) : Except AccessError Axis :=
  match all[code]? with
  | some axis => .ok axis
  | none => .error (.unknownAxis code)

theorem ofCode_code (axis : Axis) : ofCode axis.code = .ok axis := by
  cases axis <;> rfl

/-- The axes that are said to deliver nodes in reverse document order. -/
def isReverse : Axis → Bool
  | ancestor | ancestorOrSelf | preceding | precedingSibling | precedingOrAncestor => true
  | _ => false

/-- The word for an axis. -/
def word : Axis → String
  | ancestor => "Ancestor"
  | ancestorOrSelf => "AncestorOrSelf"
  | .attribute => "Attribute"
  | child => "Child"
  | descendant => "Descendant"
  | descendantOrSelf => "DescendantOrSelf"
  | following => "Following"
  | followingSibling => "FollowingSibling"
  | namespaceDecl => "Namespace"
  | parent => "Parent"
  | preceding => "Preceding"
  | precedingSibling => "PrecedingSibling"
  | self => "SelfNode"
  | precedingOrAncestor => "PrecedingOrAncestor"

/-- The axis that a word stands for. -/
def ofWord? (w : String) : Option Axis := all.find? fun a => a.word == w

end Axis

end DocTree
