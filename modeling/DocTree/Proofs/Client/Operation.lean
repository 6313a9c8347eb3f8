import DocTree.Proofs.Registry.Conserved

/-!
# Operations on documents and nodes

All that documents and nodes can be asked but to iterate an axis, as one type. An operation borrows
cursors only while it goes on: however it ends, every store has lent as many as before.

## Main definitions

- `Operation` — what documents and nodes can be asked
- `Operation.perform` — the answer, of the type that belongs to the operation
- `Operation.isLenient` — whether failures of the storage are answered

## Main statements

- `Access.Compositional.perform` — what holds of the pieces holds of the operation
- `Operation.balanced_perform` — an operation leaves no cursor behind
-/

namespace DocTree

/-- A question to a node or a document, or a change of a document. -/
inductive Operation where
  | openDocument (mount : Mount) (revision pool : Nat) (config : Config)
  | openLatest (mount : Mount) (pool : Nat) (config : Config)
  | releaseDocument (id : Nat)
  | setBaseUri (id : Nat) (uri : String)
  | node (d : Document) (id : Nat) (key : Int)
  | getDocument (n : Node)
  | compareOrder (n other : Node)
  | stringValue (n : Node)
  | atomize (n : Node)
  | typedValue (n : Node)
  | nameCode (n : Node)
  | fingerprint (n : Node)
  | parent (n : Node)
  | parentLenient (n : Node)
  | firstChild (n : Node)
  | nextSibling (n : Node)
  | previousSibling (n : Node)
  | root (n : Node)
  | hasChildren (n : Node)
  | hasChildrenLenient (n : Node)
  | siblingPosition (n : Node)
  | siblingPositionLenient (n : Node)
  | attributeValue (n : Node) (uri localPart : String)
  | attributeByFingerprint (n : Node) (code : Int)
  | baseUri (n : Node)
  | systemId (n : Node)
  | setSystemId (n : Node) (uri : String)
  | declaredNamespaces (n : Node) (lent? : Option (List Int))
  | lineNumber (n : Node)
  | columnNumber (n : Node)
  | isIdref (n : Node)
  | isNilled (n : Node)

namespace Operation

/-- The type of the answer. -/
def Answer : Operation → Type
  | openDocument .. | openLatest .. => Nat
  | releaseDocument .. | setBaseUri .. | setSystemId .. => Unit
  | node .. | root .. => Node
  | getDocument .. => Document
  | compareOrder .. => Ordering
  | stringValue .. => String
  | atomize .. => Atomic
  | typedValue .. => List Atomic
  | nameCode .. | fingerprint .. => Option Nat
  | parent .. | parentLenient .. | firstChild .. | nextSibling .. | previousSibling .. => Option Node
  | hasChildren .. | hasChildrenLenient .. | isIdref .. | isNilled .. => Bool
  | siblingPosition .. | siblingPositionLenient .. | lineNumber .. | columnNumber .. => Nat
  | attributeValue .. | attributeByFingerprint .. | baseUri .. | systemId .. => Option String
  | declaredNamespaces .. => Option (List Int)

/-- Perform the operation. -/
def perform : (o : Operation) → Access o.Answer
  | openDocument mount revision pool config => Registry.openDocument mount revision pool config
  | openLatest mount pool config => Registry.openLatest mount pool config
  | releaseDocument id => monadLift (Registry.releaseDocument id)
  | setBaseUri id uri =>
    monadLift (Registry.modifyDocument id fun d => { d with baseUri? := some uri })
  | node d id key => d.node id key
  | getDocument n => n.getDocument
  | compareOrder n other => n.compareOrder other
  | stringValue n => n.stringValue
  | atomize n => n.atomize
  | typedValue n => n.typedValue
  | nameCode n => n.nameCode
  | fingerprint n => n.fingerprint
  | parent n => n.parent
  | parentLenient n => n.parentLenient
  | firstChild n => n.firstChild
  | nextSibling n => n.nextSibling
  | previousSibling n => n.previousSibling
  | root n => n.root
  | hasChildren n => n.hasChildren
  | hasChildrenLenient n => n.hasChildrenLenient
  | siblingPosition n => n.siblingPosition
  | siblingPositionLenient n => n.siblingPositionLenient
  | attributeValue n uri localPart => n.attributeValue uri localPart
  | attributeByFingerprint n code => n.attributeByFingerprint code
  | baseUri n => n.baseUri
  | systemId n => n.systemId
  | setSystemId n uri => n.setSystemId uri
  | declaredNamespaces n lent? => n.declaredNamespaces lent?
  | lineNumber n => n.lineNumber
  | columnNumber n => n.columnNumber
  | isIdref n => n.isIdref
  | isNilled n => n.isNilled

/-- Whether the operation has an answer in place of a failure of the storage. -/
def isLenient : Operation → Bool
  | parentLenient _ | hasChildrenLenient _ | siblingPositionLenient _ => true
  | _ => false

end Operation

/-- The parts of an operation pass their property on to it. What a lenient operation puts in place of
a failure is not among those parts. -/
theorem Access.Compositional.perform {P : ∀ {α : Type}, Access α → Prop} (h : Compositional P)
    (o : Operation)
    (habsent : o.isLenient = true → ∀ {α : Type} (absent : α) {work : Access α}, P work →
      P (orAbsent absent work)) : P o.perform := by
  cases o with
  | openDocument mount revision pool config => exact h.openDocument mount revision pool config
  | openLatest mount pool config => exact h.openLatest mount pool config
  | releaseDocument id => exact h.lift (fun _ _ => rfl) fun _ => rfl
  | setBaseUri id uri => exact h.modifyDocument id _
  | node d id key => exact h.node d id key
  | getDocument n => exact h.getDocument n
  | compareOrder n other => exact h.compareOrder n other
  | stringValue n => exact h.read n _
  | atomize n => exact h.atomize n
  | typedValue n => exact h.bind (h.atomize n) fun _ => h.pure _
  | nameCode n => exact h.nameCode n
  | fingerprint n => exact h.bind (h.nameCode n) fun _ => h.pure _
  | parent n => exact h.parent n
  | parentLenient n => exact habsent rfl none (h.parent n)
  | firstChild n => exact h.firstChild n
  | nextSibling n => exact h.sibling n _
  | previousSibling n => exact h.sibling n _
  | root n => exact h.bind (h.getDocument n) fun d => h.node d n.document 0
  | hasChildren n => exact h.hasChildren n
  | hasChildrenLenient n => exact habsent rfl false (h.hasChildren n)
  | siblingPosition n => exact h.siblingPosition n
  | siblingPositionLenient n => exact habsent rfl (0 : Nat) (h.siblingPosition n)
  | attributeValue n uri localPart => exact h.attributeValue n uri localPart
  | attributeByFingerprint n code => exact h.attributeByFingerprint n code
  | baseUri n => exact h.baseUri n
  | systemId n => exact h.bind (h.getDocument n) fun _ => h.pure _
  | setSystemId n uri => exact h.setSystemId n uri
  | declaredNamespaces n lent? => exact h.declaredNamespaces n lent?
  | lineNumber n => exact h.throw _
  | columnNumber n => exact h.throw _
  | isIdref n => exact h.throw _
  | isNilled n => exact h.throw _

/-- However an operation ends, every store has lent as many cursors as before. -/
theorem Operation.balanced_perform (o : Operation) : o.perform.Balanced :=
  Access.compositional_balanced.perform o fun _ _ absent _ h => h.orAbsent absent

end DocTree
