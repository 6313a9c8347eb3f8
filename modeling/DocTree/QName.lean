/-!
# Qualified names

A qualified name has the prefix it was written with, a local part and the URI of its namespace.
The prefix only matters for display; what a name *is* are the other two.
-/

namespace DocTree

/-- The namespace of the prefix `xml`, to which `xml:base` belongs. -/
def xmlNamespace : String := "http://www.w3.org/XML/1998/namespace"

structure QName where
  /-- The prefix the name was written with, empty for none. -/
  qualifier : String
  /-- The part after the colon. -/
  localPart : String
  /-- The namespace, empty for none. -/
  uri : String
deriving DecidableEq, Repr, Inhabited

namespace QName

/-- A name without prefix and namespace. -/
def ofLocal (localPart : String) : QName := ⟨"", localPart, ""⟩

/-- A name in the namespace of the prefix `xml`. -/
def xml (localPart : String) : QName := ⟨"xml", localPart, xmlNamespace⟩

/-- The name as written: prefix, colon and local part, or the local part alone. -/
def display (n : QName) : String :=
  if n.qualifier.isEmpty then n.localPart else n.qualifier ++ ":" ++ n.localPart

/-- Whether this is the name that a namespace URI and a local part make. -/
def isNamed (n : QName) (uri localPart : String) : Bool :=
  n.uri == uri && n.localPart == localPart

end QName

end DocTree
