import DocTree.Handle
import DocTree.NamePool.Basic

/-!
# Node tests

A node test accepts some of the nodes that an axis visits. It looks at the handle of a node alone,
and never gives a name a code.
-/

namespace DocTree

/-- A condition on nodes. -/
inductive NodeTest where
  | any
  | kind (kind : Kind)
  | name (kind : Kind) (uri localPart : String)
  | fingerprint (kind : Kind) (code : Int)
  | predicate (accepts : Handle → Bool)
deriving Inhabited

namespace NodeTest

/-- Whether a node passes. -/
def accepts (test : NodeTest) (pool : NamePool) (h : Handle) : Bool :=
  match test with
  | any => true
  | kind k => h.kind == k
  | name k uri localPart => h.kind == k && h.expandedName? == some (uri, localPart)
  | fingerprint k code =>
    h.kind == k &&
      match h.expandedName?.bind fun (uri, localPart) => pool.fingerprint? uri localPart with
      | some found => (found : Int) == code
      | none => false
  | predicate p => p h

/-- The test for a key that leaves a given remainder. -/
def keyModulo (m r : Int) : NodeTest := .predicate fun h => h.key % m == r

/-- The test for whether a handle has a name. -/
def hasName (expected : Bool) : NodeTest := .predicate fun h => h.name?.isSome == expected

end NodeTest

end DocTree
