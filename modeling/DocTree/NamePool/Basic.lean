import DocTree.Error
import DocTree.NamePool.Interner
import DocTree.QName

/-!
# Name pools

A name pool gives names integer codes, so that names are compared as integers. The *fingerprint* of
a name stands for its URI and local part; the *name code* has the fingerprint in its low 20 bits and
the code of the prefix above; a *namespace code* has the code of a URI in its low 16 bits and that of
a prefix above. Prefix codes serve both and are bounded by ten bits.

## Main definitions

- `NamePool` — the names, prefixes and URIs met so far
- `NamePool.allocate`, `NamePool.allocateNamespace` — codes for names and declarations
- `NamePool.fingerprint?`, `NamePool.expandedName?` — look-up in both directions
-/

namespace DocTree

/-- The codes handed out so far. -/
structure NamePool where
  /-- URIs with local parts. -/
  names : Interner (String × String)
  qualifiers : Interner String
  uris : Interner String

namespace NamePool

/-- How many fingerprints there are. -/
def fingerprintLimit : Nat := 1 <<< 20

/-- How many codes of prefixes there are. -/
def qualifierLimit : Nat := 1 <<< 10

/-- How many codes of URIs there are. -/
def uriLimit : Nat := 1 <<< 16

/-- The part of a name code that is its fingerprint. -/
def fingerprintMask : Nat := fingerprintLimit - 1

/-- The number that ends a list of namespace codes. -/
def listEnd : Int := -1

/-- A pool that knows the empty prefix and the empty URI only, each with code 0. -/
def empty : NamePool where
  names := .empty
  qualifiers := Interner.empty.add "" (Interner.find?_empty "")
  uris := Interner.empty.add "" (Interner.find?_empty "")

/-- The fingerprint of a name that has one. -/
def fingerprint? (p : NamePool) (uri localPart : String) : Option Nat :=
  p.names.find? (uri, localPart)

/-- The name of a fingerprint, without a prefix. -/
def expandedName? (p : NamePool) (fingerprint : Int) : Option QName :=
  if 0 ≤ fingerprint then
    (p.names.value? fingerprint.toNat).map fun (uri, localPart) => ⟨"", localPart, uri⟩
  else none

/-- A code that is there, or the field that has none left. -/
def codeOr (field : String) : Option Nat → Except AccessError Nat
  | some code => .ok code
  | none => .error (.namePoolExhausted field)

/-- The fingerprint of a name, a new one if need be. -/
def internName : NamePool → (uri localPart : String) → Except AccessError Nat × NamePool
  | ⟨names, qualifiers, uris⟩, uri, localPart =>
    let (code?, names) := names.intern fingerprintLimit (uri, localPart)
    (codeOr "fingerprint" code?, ⟨names, qualifiers, uris⟩)

/-- The code of a prefix, a new one if need be. -/
def internQualifier : NamePool → (qualifier : String) → Except AccessError Nat × NamePool
  | ⟨names, qualifiers, uris⟩, qualifier =>
    let (code?, qualifiers) := qualifiers.intern qualifierLimit qualifier
    (codeOr "prefix" code?, ⟨names, qualifiers, uris⟩)

/-- The code of a URI, a new one if need be. -/
def internUri : NamePool → (uri : String) → Except AccessError Nat × NamePool
  | ⟨names, qualifiers, uris⟩, uri =>
    let (code?, uris) := uris.intern uriLimit uri
    (codeOr "namespace URI" code?, ⟨names, qualifiers, uris⟩)

/-- The name code of a name. The fingerprint is allocated first and stays allocated if there is no
code left for the prefix. -/
def allocate (p : NamePool) (qualifier uri localPart : String) :
    Except AccessError Nat × NamePool :=
  match p.internName uri localPart with
  | (.error e, p) => (.error e, p)
  | (.ok fingerprint, p) =>
    match p.internQualifier qualifier with
    | (.error e, p) => (.error e, p)
    | (.ok code, p) => (.ok (code * fingerprintLimit + fingerprint), p)

/-- The code of a namespace declaration. The code of the prefix is allocated first and stays
allocated if there is none left for the URI. -/
def allocateNamespace (p : NamePool) (qualifier uri : String) :
    Except AccessError Nat × NamePool :=
  match p.internQualifier qualifier with
  | (.error e, p) => (.error e, p)
  | (.ok code, p) =>
    match p.internUri uri with
    | (.error e, p) => (.error e, p)
    | (.ok uriCode, p) => (.ok (code * uriLimit + uriCode), p)

/-- The fingerprint in a name code. -/
def fingerprintOf (code : Nat) : Nat := code % fingerprintLimit

end NamePool

end DocTree
