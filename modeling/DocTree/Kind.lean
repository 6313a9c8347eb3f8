/-!
# Kinds of nodes

The seven kinds of nodes that a document tree has, with the two ways in which they are told apart:
*structural* kinds take part in the order of siblings, *named* kinds can carry a name.
-/

namespace DocTree

inductive Kind where
  | root
  | element
  | attribute
  | namespaceDecl
  | text
  | comment
  | instruction
deriving DecidableEq, Repr, Inhabited

namespace Kind

/-- The number of a kind in the numbering that the Document Object Model uses, where a namespace
declaration is 13. -/
def id : Kind → Nat
  | element => 1
  | .attribute => 2
  | text => 3
  | instruction => 7
  | comment => 8
  | root => 9
  | namespaceDecl => 13

/-- The kinds whose nodes are children or the document node itself; attributes and namespace
declarations belong to an element without being among its children. -/
def isStructural : Kind → Bool
  | .attribute | namespaceDecl => false
  | _ => true

/-- The kinds whose nodes may have a name. -/
def isNamed : Kind → Bool
  | element | .attribute | namespaceDecl | instruction => true
  | root | text | comment => false

/-- The kinds whose nodes may have children. -/
def isParental : Kind → Bool
  | root | element => true
  | _ => false

def all : List Kind :=
  [root, element, .attribute, namespaceDecl, text, comment, instruction]

/-- The word for a kind in texts and in serialised form. -/
def word : Kind → String
  | root => "Root"
  | element => "Element"
  | .attribute => "Attribute"
  | namespaceDecl => "Namespace"
  | text => "Text"
  | comment => "Comment"
  | instruction => "ProcessingInstruction"

/-- The kind that a word stands for. -/
def ofWord? (w : String) : Option Kind :=
  all.find? fun k => k.word == w

end Kind

end DocTree
