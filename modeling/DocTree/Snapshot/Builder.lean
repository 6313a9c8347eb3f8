import DocTree.Snapshot.Layout

/-!
# Building a table record by record

The records of a document can be written while its content is gone through, with no size known in
advance. Each node is added at the end of the table, and its key is the number of records that were
there before it. An element is entered before anything that belongs to it: it learns of a declaration
or an attribute when that is added, and of its content when all of that has been. Nodes with the same
parent are linked when the last of them is complete.

## Main definitions

- `Table` — the records so far
- `Table.flatten` — adding a sequence of nodes with everything below
- `Table.link` — linking the nodes of a sequence to each other and to their parent
- `Table.build` — the records of a document
-/

namespace DocTree

/-- The records that have been written so far. -/
abbrev Table := Array Record

namespace Table

/-- The key of the record that is added next. -/
def nextKey (t : Table) : Nat := t.size

/-- Add a record that belongs to the element at place `owner`, which takes note of its key. -/
def addOwned (note : Nat → Record → Record) (owner : Nat) (record : Nat → Record) (t : Table) :
    Table :=
  (t.modify owner (note t.nextKey)).push (record t.nextKey)

/-- Add a namespace declaration. It is named by the prefix that it binds. -/
def declare (owner : Nat) (t : Table) (binding : String × String) : Table :=
  addOwned (fun key r => { r with namespaces := r.namespaces ++ [key] }) owner (fun key =>
    { key, kind := .namespaceDecl, name? := some ⟨"", binding.1, binding.2⟩, value? := some binding.2,
      parent? := some owner }) t

/-- Add an attribute. -/
def attach (owner : Nat) (t : Table) (pair : QName × String) : Table :=
  addOwned (fun key r => { r with attributes := r.attributes ++ [key] }) owner (fun key =>
    { key, kind := .attribute, name? := some pair.1, value? := some pair.2,
      parent? := some owner }) t

/-- Link every two nodes of which one comes right after the other. -/
def linkSiblings : List Nat → Table → Table
  | l :: r :: keys, t =>
    linkSiblings (r :: keys) <|
      (t.modify l fun node => { node with right? := some r }).modify r fun node =>
        { node with left? := some l }
  | _, t => t

/-- Link the children of a node to it and to each other. -/
def link (parent : Nat) (children : List Nat) (t : Table) : Table :=
  linkSiblings children <| t.modify parent fun node =>
    { node with firstChild? := children.head?, childCount := children.length }

/-- Add an element with its declarations and its attributes. -/
def addElement (parent : Nat) (head : ElementHead) (t : Table) : Table :=
  let key := t.nextKey
  let t := t.push { key, kind := .element, name? := some head.name, parent? := some parent }
  let t := head.namespaces.foldl (declare key) t
  head.attributes.foldl (attach key) t

/-- Add a sequence of nodes below `parent`, each with everything below it; the keys of the nodes of the
sequence come with the table. -/
def flatten (parent : Nat) : Content → Table → Table × List Nat
  | .nil, t => (t, [])
  | .leaf l next, t =>
    let key := t.nextKey
    let t := t.push
      { key, kind := l.kind, name? := l.name?, value? := some l.value, parent? := some parent }
    let (t, keys) := flatten parent next t
    (t, key :: keys)
  | .element head body next, t =>
    let key := t.nextKey
    let (t, children) := flatten key body (t.addElement parent head)
    let (t, keys) := flatten parent next (link key children t)
    (t, key :: keys)

/-- The records of a document with the given content. -/
def build (c : Content) : Table :=
  let (t, children) := flatten 0 c #[{ key := 0, kind := .root }]
  link 0 children t

end Table

end DocTree
