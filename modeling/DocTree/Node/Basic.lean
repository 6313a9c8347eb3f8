import DocTree.Atomic
import DocTree.Node.Attributes
import DocTree.Node.Declarations
import DocTree.Node.Order
import DocTree.Node.Text
import DocTree.Registry

/-!
# Nodes

A node is a handle in a document. What its handle says, it tells at once; for the rest it opens a
cursor in its document, if that has not been released. The kind that the handle claims decides which
questions need the storage at all.

## Main definitions

- `Node`, `Document.node` — nodes and how to get at them
- `Node.stringValue`, `Node.compareOrder`, … — what a node can be asked
- `Node.iterate` — the nodes on an axis
-/

namespace DocTree

/-- A node of a document, which goes by its number. -/
structure Node where
  handle : Handle
  document : Nat
deriving Repr, Inhabited

/-- A node is hashed as its handle is, whatever its document. -/
instance : Hashable Node where
  hash n := hash n.handle

namespace Node

/-- The number of the kind of a node. -/
def kindId (n : Node) : Nat := n.handle.kind.id

/-- The local part of the name of a node; for a declaration that is the prefix. -/
def localPart (n : Node) : String :=
  if n.handle.kind.isNamed then (n.handle.name?.map (·.localPart)).getD "" else ""

/-- Whether the kind has names with a prefix and a namespace. -/
def isQualified (n : Node) : Bool := n.handle.kind == .element || n.handle.kind == .attribute

/-- The prefix of the name of a node. -/
def qualifier (n : Node) : String :=
  if n.isQualified then (n.handle.name?.map (·.qualifier)).getD "" else ""

/-- The namespace of the name of a node. -/
def uri (n : Node) : String :=
  if n.isQualified then (n.handle.name?.map (·.uri)).getD "" else ""

/-- The name of a node as it is written. -/
def displayName (n : Node) : String := QName.display ⟨n.qualifier, n.localPart, n.uri⟩

/-- The type annotation of a node. -/
def annotation (n : Node) : TypeAnnotation := .ofKind n.handle.kind

/-- A text that identifies the node in its document. -/
def generatedId (n : Node) : String := toString n.handle.key

/-- Without a schema no node is an identifier. -/
def isId (_ : Node) : Bool := false

/-- The document of a node. -/
def getDocument (n : Node) : Access Document := do
  match (← get).document? n.document with
  | some d => return d
  | none => throw .documentReleased

/-- Carry out a reading at a node. -/
def read {α : Type} (n : Node) (reading : Snapshot → Nat → Reading Unit α) : Access α := do
  (← n.getDocument).read n.handle.key reading

/-- Whether two nodes are of the same tree: the same revision of the same mount. A document that has
been released is only known to be itself. -/
def sameTree (a b : Node) (r : Registry) : Bool :=
  a.handle.revision == b.handle.revision &&
    (a.document == b.document ||
      match r.document? a.document, r.document? b.document with
      | some d, some e => d.mount.tree == e.mount.tree
      | _, _ => false)

/-- Whether two nodes are the same. -/
def isSame (a b : Node) (r : Registry) : Bool :=
  a.handle.key == b.handle.key && a.sameTree b r

/-- The order of two nodes in their document. -/
def compareOrder (a b : Node) : Access Ordering := do
  if !a.sameTree b (← get) then throw .foreignTree
  else if a.handle.key == b.handle.key then return .eq
  else a.read b.handle.orderFrom

/-- The string value of a node. -/
def stringValue (n : Node) : Access String := n.read n.handle.stringValue

/-- The node as a value. -/
def atomize (n : Node) : Access Atomic :=
  return .ofNode n.handle.kind (← n.stringValue)

/-- The typed value of a node, which is a single value. -/
def typedValue (n : Node) : Access (List Atomic) := return [← n.atomize]

/-- The name code of a node; only elements, attributes and processing instructions have one. -/
def nameCode (n : Node) : Access (Option Nat) := do
  if n.isQualified || n.handle.kind == .instruction then
    let d ← n.getDocument
    let code ← ExceptT.mk <| Registry.onPool d.pool fun p =>
      p.allocate n.qualifier n.uri n.localPart
    return some code
  else return none

/-- The fingerprint of the name of a node. -/
def fingerprint (n : Node) : Access (Option Nat) :=
  return (← n.nameCode).map NamePool.fingerprintOf

/-- The node at the end of a link, if there is one and the storage lets the cursor go there. -/
def follow (n : Node) (link : Snapshot → Nat → Option Nat) : Access (Option Node) := do
  let d ← n.getDocument
  let found ← d.consult n.handle.key
    (fun t here => do
      if ← .step (link t here) then return (link t here).map (t.handle d.revision) else return none)
    Option.isSome
  return found.map fun h => ⟨h, n.document⟩

/-- The parent; the document node has none. -/
def parent (n : Node) : Access (Option Node) :=
  if n.handle.kind = .root then return none else n.follow Snapshot.parent?

/-- The first child. -/
def firstChild (n : Node) : Access (Option Node) :=
  if n.handle.kind.isParental then n.follow Snapshot.firstChild? else return none

/-- Whether a node of this kind can have siblings. -/
def hasSiblings (n : Node) : Bool := n.handle.isStructural && n.handle.kind != .root

/-- The sibling after a node. -/
def nextSibling (n : Node) : Access (Option Node) :=
  if n.hasSiblings then n.follow Snapshot.right? else return none

/-- The sibling before a node. -/
def previousSibling (n : Node) : Access (Option Node) :=
  if n.hasSiblings then n.follow Snapshot.left? else return none

/-- Whether a node has children. -/
def hasChildren (n : Node) : Access Bool :=
  if n.handle.kind.isParental then n.read fun t here => .done (t.firstChild? here).isSome
  else return false

/-- The position of a node among its siblings, or among the attributes or declarations of its
owner. -/
def siblingPosition (n : Node) : Access Nat :=
  if n.handle.kind = .root then return 0 else n.read n.handle.position

/-- The value of an attribute of an element. -/
def attributeValue (n : Node) (uri localPart : String) : Access (Option String) :=
  if n.handle.kind = .element then
    n.read fun t here => return (← t.findAttribute uri localPart here).1
  else return none

/-- The value of the attribute whose name has a fingerprint. -/
def attributeByFingerprint (n : Node) (code : Int) : Access (Option String) := do
  let d ← n.getDocument
  match ((← get).pool d.pool).expandedName? code with
  | some name => n.attributeValue name.uri name.localPart
  | none => return none

/-- The base URI of a node: what the document says nearest to it, or else that of the document. -/
def baseUri (n : Node) : Access (Option String) := do
  let d ← n.getDocument
  match ← d.read n.handle.key Snapshot.baseAt with
  | some uri => return some uri
  | none => return d.baseUri?

/-- The base URI of the document of a node. -/
def systemId (n : Node) : Access (Option String) := return (← n.getDocument).baseUri?

/-- Change the base URI of the document of a node. -/
def setSystemId (n : Node) (uri : String) : Access Unit := do
  let _ ← n.getDocument
  Registry.modifyDocument n.document fun d => { d with baseUri? := some uri }

/-- The codes of the namespaces that an element declares. -/
def declaredNamespaces (n : Node) (lent? : Option (List Int)) : Access (Option (List Int)) := do
  if n.handle.kind = .element then
    let d ← n.getDocument
    return some (← d.readNaming n.handle.key fun pool t here => t.declaredCodes lent? pool here)
  else return none

/-- Texts have no lines here. -/
def lineNumber (_ : Node) : Access Nat := throw (.unsupported "Line numbers")

/-- Texts have no columns here. -/
def columnNumber (_ : Node) : Access Nat := throw (.unsupported "Column numbers")

/-- Without a schema nothing refers to identifiers. -/
def isIdref (_ : Node) : Access Bool := throw (.unsupported "IDREF detection")

/-- Without a schema nothing is nilled. -/
def isNilled (_ : Node) : Access Bool := throw (.unsupported "Nilled status")

/-- The handles on an axis from a node. -/
def iterate (n : Node) (axis : Axis) (test : NodeTest) : Access AxisIterator := do
  let d ← n.getDocument
  Registry.access d.mount.store (d.dispatcher.dispatch n.handle axis test)

end Node

/-- The node of a document with a given key. -/
def Document.node (d : Document) (id : Nat) (key : Int) : Access Node := do
  validateNode key
  let h ← d.consult key (fun t here => .done (t.handle d.revision here)) fun _ => true
  return ⟨h, id⟩

/-- The document node of the document of a node. -/
def Node.root (n : Node) : Access Node := do
  (← n.getDocument).node n.document 0

end DocTree
