import DocTree.Atomic
import DocTree.Datum.Basic
import DocTree.Document

/-!
# Names, handles, values and configurations as structured data

How each type is written, and what is accepted when it is read.
-/

namespace DocTree

/-- A kind is its word. -/
def Kind.toDatum (k : Kind) : Datum := .text k.word

/-- Read a kind. -/
def Kind.ofDatum? (d : Datum) : Option Kind := d.word?.bind Kind.ofWord?

/-- An annotation is its word. -/
def TypeAnnotation.toDatum (a : TypeAnnotation) : Datum := .text a.word

/-- Read an annotation. -/
def TypeAnnotation.ofDatum? (d : Datum) : Option TypeAnnotation :=
  d.word?.bind TypeAnnotation.ofWord?

/-- A name has three texts as fields. -/
def QName.toDatum (n : QName) : Datum :=
  .record [("prefix", .text n.qualifier), ("local_name", .text n.localPart),
    ("namespace_uri", .text n.uri)]

/-- Read a name. -/
def QName.ofDatum? (d : Datum) : Option QName := do
  match ← d.fields? ["prefix", "local_name", "namespace_uri"] false with
  | [qualifier, localPart, uri] =>
    return ⟨← Datum.required? Datum.text? qualifier, ← Datum.required? Datum.text? localPart,
      ← Datum.required? Datum.text? uri⟩
  | _ => none

/-- A handle has its key, revision, kind and name as fields. -/
def Handle.toDatum (h : Handle) : Datum :=
  .record [("key", .int h.key), ("revision", .int h.revision), ("kind", h.kind.toDatum),
    ("name", (h.name?.map QName.toDatum).getD .null)]

/-- Read a handle. It may have a name also if its kind has none. -/
def Handle.ofDatum? (d : Datum) : Option Handle := do
  match ← d.fields? ["key", "revision", "kind", "name"] false with
  | [key, revision, kind, name] =>
    return ⟨← Datum.required? Datum.int64? key, ← Datum.required? Datum.nat64? revision,
      ← Datum.required? Kind.ofDatum? kind, ← Datum.optional? QName.ofDatum? name⟩
  | _ => none

/-- A value is an alternative with its characters as content. -/
def Atomic.toDatum : Atomic → Datum
  | string s => .record [("String", .text s)]
  | untyped s => .record [("UntypedAtomic", .text s)]

/-- Read a value. -/
def Atomic.ofDatum? (d : Datum) : Option Atomic := do
  match ← d.variant? with
  | ("String", content) => return .string (← content.text?)
  | ("UntypedAtomic", content) => return .untyped (← content.text?)
  | _ => none

/-- A configuration is written without the fields that it leaves open. -/
def Config.toDatum (c : Config) : Datum :=
  .record <|
    (c.baseUri?.map fun uri => ("base_uri", Datum.text uri)).toList ++
    (c.documentNumber?.map fun n => ("document_number", Datum.int n)).toList ++
    [("concurrent_buffer", .int c.concurrentBuffer)]

/-- Read a configuration. Every field may be left out, and so may the last items of a list. -/
def Config.ofDatum? (d : Datum) : Option Config := do
  match ← d.fields? ["base_uri", "document_number", "concurrent_buffer"] true with
  | [baseUri, documentNumber, buffer] =>
    let concurrentBuffer ← match buffer with
      | none => some ({} : Config).concurrentBuffer
      | some n => n.nat64?
    return { baseUri? := ← Datum.optional? Datum.text? baseUri,
             documentNumber? := ← Datum.optional? Datum.nat64? documentNumber,
             concurrentBuffer }
  | _ => none

end DocTree
