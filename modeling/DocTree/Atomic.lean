import DocTree.Kind

/-!
# Atomic values

What a node becomes where a plain value is asked for. Characters from the content of a document are
untyped, those of comments and processing instructions are strings.
-/

namespace DocTree

/-- A value that is not a node. -/
inductive Atomic where
  | string (value : String)
  | untyped (value : String)
deriving DecidableEq, Repr, Inhabited

namespace Atomic

def text : Atomic → String
  | string v | untyped v => v

def isUntyped : Atomic → Bool
  | untyped _ => true
  | string _ => false

/-- The value of a node of a given kind with given characters. -/
def ofNode (kind : Kind) (value : String) : Atomic :=
  match kind with
  | .comment | .instruction => .string value
  | _ => .untyped value

end Atomic

/-- The type that a node without a schema has. -/
inductive TypeAnnotation where
  | untyped
  | untypedAtomic
deriving DecidableEq, Repr, Inhabited

namespace TypeAnnotation

def all : List TypeAnnotation := [untyped, untypedAtomic]

def word : TypeAnnotation → String
  | untyped => "Untyped"
  | untypedAtomic => "UntypedAtomic"

def ofWord? (w : String) : Option TypeAnnotation := all.find? fun a => a.word == w

/-- Attributes are annotated as atomic, all other nodes as untyped. -/
def ofKind : Kind → TypeAnnotation
  | .attribute => untypedAtomic
  | _ => untyped

end TypeAnnotation

end DocTree
