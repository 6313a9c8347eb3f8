import DocTree.Kind
import DocTree.QName

/-!
# Snapshots: documents as tables of linked records

A revision of a document is a table with one record per node. The key of a node is its place in
the table, and records refer to each other by key. Every snapshot satisfies `Record.Linked`: links
to a parent and to the left go back in the table, links to children, to the right and to owned
nodes go forward and stay inside. So a climb or a descent along links comes to an end.

## Main definitions

- `Record` — a node with its links
- `Record.Linked` — the direction of the links
- `Snapshot` — a table of linked records that is not empty
- `Snapshot.get?` — look-up by an arbitrary integer key
-/

namespace DocTree

/-- A node as it is stored. -/
structure Record where
  key : Nat
  kind : Kind
  name? : Option QName := none
  value? : Option String := none
  parent? : Option Nat := none
  firstChild? : Option Nat := none
  left? : Option Nat := none
  right? : Option Nat := none
  childCount : Nat := 0
  attributes : List Nat := []
  namespaces : List Nat := []
deriving DecidableEq, Repr, Inhabited

/-- The links of the record at place `k` of a table of `n` records: those to the parent and to the
left go back, all others go forward and stay in the table. -/
structure Record.Linked (n k : Nat) (r : Record) : Prop where
  key_eq : r.key = k
  parent_lt : ∀ p ∈ r.parent?, p < k
  left_lt : ∀ l ∈ r.left?, l < k
  firstChild_gt : ∀ c ∈ r.firstChild?, k < c ∧ c < n
  right_gt : ∀ s ∈ r.right?, k < s ∧ s < n
  attributes_gt : ∀ a ∈ r.attributes, k < a ∧ a < n
  namespaces_gt : ∀ a ∈ r.namespaces, k < a ∧ a < n

/-- One revision of a document. -/
structure Snapshot where
  records : Array Record
  nonempty : 0 < records.size
  linked : ∀ k (h : k < records.size), records[k].Linked records.size k

namespace Snapshot

variable (t : Snapshot)

abbrev size : Nat := t.records.size

/-- The place of the node with a given key, if there is such a node. -/
def find? (key : Int) : Option Nat :=
  if 0 ≤ key ∧ key.toNat < t.size then some key.toNat else none

def get? (key : Int) : Option Record :=
  (t.find? key).bind (t.records[·]?)

/-- The record at a place; outside the table a document node without links. -/
def node (k : Nat) : Record :=
  t.records[k]?.getD { key := k, kind := .root }

/-- Whether a node with a parent lies at a place, and where that is. -/
def parent? (k : Nat) : Option Nat := (t.node k).parent?

def firstChild? (k : Nat) : Option Nat := (t.node k).firstChild?

/-- The sibling before the node at a place. -/
def left? (k : Nat) : Option Nat := (t.node k).left?

/-- The sibling after the node at a place. -/
def right? (k : Nat) : Option Nat := (t.node k).right?

def kind (k : Nat) : Kind := (t.node k).kind

def name? (k : Nat) : Option QName := (t.node k).name?

def value? (k : Nat) : Option String := (t.node k).value?

def attributes (k : Nat) : List Nat := (t.node k).attributes

def namespaces (k : Nat) : List Nat := (t.node k).namespaces

theorem node_eq_getElem {k : Nat} (h : k < t.size) : t.node k = t.records[k] := by
  simp [node, h]

/-- Every record that a place shows is linked, also outside the table. -/
theorem node_linked (k : Nat) : (t.node k).Linked t.size k := by
  by_cases h : k < t.size
  · rw [t.node_eq_getElem h]
    exact t.linked k h
  · have hn : t.node k = { key := k, kind := .root } := by
      simp [node, size] at *
      simp [h]
    rw [hn]
    constructor <;> simp

variable {t}

theorem parent?_lt {k p : Nat} (h : t.parent? k = some p) : p < k :=
  (t.node_linked k).parent_lt p h

theorem left?_lt {k l : Nat} (h : t.left? k = some l) : l < k :=
  (t.node_linked k).left_lt l h

theorem firstChild?_gt {k c : Nat} (h : t.firstChild? k = some c) : k < c ∧ c < t.size :=
  (t.node_linked k).firstChild_gt c h

theorem right?_gt {k s : Nat} (h : t.right? k = some s) : k < s ∧ s < t.size :=
  (t.node_linked k).right_gt s h

theorem find?_natCast {k : Nat} (h : k < t.size) : t.find? k = some k := by
  simp [find?, h]

theorem find?_lt {key : Int} {k : Nat} (h : t.find? key = some k) : k < t.size ∧ (k : Int) = key := by
  unfold find? at h
  split at h
  · simp only [Option.some.injEq] at h
    omega
  · simp at h

/-- The same revision as it looks through a store that does not tell names. -/
def withoutNames (t : Snapshot) : Snapshot where
  records := t.records.map fun r => { r with name? := none }
  nonempty := by simpa using t.nonempty
  linked := by
    intro k h
    have h' : k < t.records.size := by simpa using h
    have hl := t.linked k h'
    simp only [Array.getElem_map, Array.size_map]
    exact ⟨hl.key_eq, hl.parent_lt, hl.left_lt, hl.firstChild_gt, hl.right_gt, hl.attributes_gt,
      hl.namespaces_gt⟩

end Snapshot

end DocTree
