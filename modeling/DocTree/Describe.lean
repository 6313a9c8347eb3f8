import DocTree.Stream.Basic

/-!
# Descriptions

One-line texts that show what a value is made of: the name of its type and its fields, texts in
quotes.
-/

namespace DocTree.Describe

/-- A digit of the hexadecimal system. -/
def hexDigit (n : Nat) : Char := if n < 10 then Char.ofNat (48 + n) else Char.ofNat (87 + n)

/-- A character inside quotes. Quotes and backslashes are escaped, and so are characters that do not
print. -/
def quotedChar (c : Char) : String :=
  if c = '"' then "\\\""
  else if c = '\\' then "\\\\"
  else if c = '\n' then "\\n"
  else if c = '\t' then "\\t"
  else if c = '\r' then "\\r"
  else if c.toNat = 0 then "\\0"
  else if c.toNat < 32 ∨ c.toNat = 127 then
    let low := String.singleton (hexDigit (c.toNat % 16))
    let high := if c.toNat < 16 then "" else String.singleton (hexDigit (c.toNat / 16))
    "\\u\x7b" ++ high ++ low ++ "\x7d"
  else String.singleton c

/-- A text in quotes. -/
def quoted (s : String) : String :=
  "\"" ++ String.join (s.toList.map quotedChar) ++ "\""

/-- A value with named fields. -/
def fields (name : String) (parts : List (String × String)) : String :=
  name ++ " \x7b " ++ ", ".intercalate (parts.map fun (field, text) => field ++ ": " ++ text)
    ++ " \x7d"

/-- A value that may be absent. -/
def optional {α : Type} (describe : α → String) : Option α → String
  | none => "None"
  | some a => "Some(" ++ describe a ++ ")"

/-- A truth value. -/
def bool (b : Bool) : String := if b then "true" else "false"

/-- A qualified name. -/
def qname (n : QName) : String :=
  fields "QualifiedName"
    [("prefix", quoted n.qualifier), ("local_name", quoted n.localPart),
      ("namespace_uri", quoted n.uri)]

/-- A handle. -/
def handle (h : Handle) : String :=
  fields "NodeHandle"
    [("key", toString h.key), ("revision", toString h.revision), ("kind", h.kind.word),
      ("name", optional qname h.name?)]

/-- A node. -/
def node (n : Node) : String := fields "NodeAdapter" [("handle", handle n.handle)]

/-- A node test. -/
def nodeTest : NodeTest → String
  | .any => "node()"
  | .kind k => k.word ++ "()"
  | .name k uri localPart => k.word ++ "(Q\x7b" ++ uri ++ "\x7d" ++ localPart ++ ")"
  | .fingerprint k code => k.word ++ "(#" ++ toString code ++ ")"
  | .predicate _ => "predicate"

/-- A store. -/
def store (s : Store) : String :=
  fields "MemoryDocumentStore"
    [("revisions", toString s.revisions.size), ("open_cursors", toString s.openCursors)]

/-- A document. -/
def document (d : Document) : String :=
  fields "DocumentScope"
    [("revision", toString d.revision), ("document_number", toString d.number),
      ("base_uri", optional quoted d.baseUri?)]

/-- An iteration over an axis. -/
def axisIterator (it : AxisIterator) : String :=
  fields "AxisIterator"
    [("axis", it.axis.word), ("origin", handle it.origin), ("test", nodeTest it.test)]

/-- A relay. -/
def relay {S : Type} (r : Relay S) : String :=
  fields "ConcurrentAxis" [("running", bool r.attached)]

/-- A set operation on two relays. -/
def setAxis (a : SetAxis) : String :=
  fields "ConcurrentSetAxis"
    [("operation", a.merge.operation.word), ("left", relay a.merge.left),
      ("right", relay a.merge.right), ("current_left", toString a.merge.currentLeft),
      ("current_right", toString a.merge.currentRight), ("started", bool a.merge.started),
      ("done", bool a.merge.done)]

end DocTree.Describe
