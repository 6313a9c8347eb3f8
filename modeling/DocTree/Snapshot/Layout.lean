import DocTree.Content
import DocTree.Snapshot.Basic

/-!
# Laying out content as a snapshot

The nodes of a document are stored in document order: the document node first, then each element
followed by its namespace declarations, its attributes and its content. The keys of a node's
relatives are therefore known from sizes alone, and a record is written once with all its links.

## Main definitions

- `Content.size` — the number of nodes of a sequence with everything below
- `Content.records` — the records of a sequence that starts at a given place
- `Snapshot.ofContent` — the snapshot of a document

## Main statements

- `Content.length_records` — a sequence takes as many records as it has nodes
- `Content.linked_records` — these records are linked
-/

namespace DocTree

namespace ElementHead

/-- The number of nodes that the head of an element makes: the element, its declarations and its
attributes. -/
def size (h : ElementHead) : Nat := 1 + h.namespaces.length + h.attributes.length

/-- The places of the namespace declarations of an element at place `k`. -/
def namespaceKeys (h : ElementHead) (k : Nat) : List Nat :=
  List.range' (k + 1) h.namespaces.length

/-- The places of the attributes of an element at place `k`. -/
def attributeKeys (h : ElementHead) (k : Nat) : List Nat :=
  List.range' (k + 1 + h.namespaces.length) h.attributes.length

/-- The records of the namespace declarations of an element at place `k`. A declaration is named by
the prefix that it binds. -/
def namespaceRecords (h : ElementHead) (k : Nat) : List Record :=
  h.namespaces.mapIdx fun i (qualifier, uri) =>
    { key := k + 1 + i, kind := .namespaceDecl, name? := some ⟨"", qualifier, uri⟩,
      value? := some uri, parent? := some k }

/-- The records of the attributes of an element at place `k`. -/
def attributeRecords (h : ElementHead) (k : Nat) : List Record :=
  h.attributes.mapIdx fun i (name, value) =>
    { key := k + 1 + h.namespaces.length + i, kind := .attribute, name? := some name,
      value? := some value, parent? := some k }

end ElementHead

namespace Content

/-- The number of nodes of a sequence with everything below. -/
def size : Content → Nat
  | nil => 0
  | element head body next => head.size + body.size + next.size
  | leaf _ next => 1 + next.size

/-- The place of the first node of a sequence that starts at place `k`. -/
def firstKey? (c : Content) (k : Nat) : Option Nat :=
  if c.isEmpty then none else some k

/-- The records of a sequence below the node `parent` that starts at place `k` with `left` as the
node before it. -/
def records : Content → (parent k : Nat) → (left : Option Nat) → List Record
  | nil, _, _, _ => []
  | leaf l next, parent, k, left =>
    { key := k, kind := l.kind, name? := l.name?, value? := some l.value, parent? := some parent,
      left? := left, right? := next.firstKey? (k + 1) } :: next.records parent (k + 1) (some k)
  | element head body next, parent, k, left =>
    let inner := k + head.size
    let after := inner + body.size
    { key := k, kind := .element, name? := some head.name, parent? := some parent,
      firstChild? := body.firstKey? inner, left? := left, right? := next.firstKey? after,
      childCount := body.length, attributes := head.attributeKeys k,
      namespaces := head.namespaceKeys k } ::
      (head.namespaceRecords k ++ (head.attributeRecords k ++
        (body.records k inner none ++ next.records parent after (some k))))

end Content

/-- Consecutive records from place `k` on, of a table of `n`, are linked. -/
def LinkedFrom (n k : Nat) (rs : List Record) : Prop :=
  ∀ (i : Nat) (r : Record), rs[i]? = some r → r.Linked n (k + i)

theorem linkedFrom_nil (n k : Nat) : LinkedFrom n k [] := by
  simp [LinkedFrom]

theorem linkedFrom_cons {n k : Nat} {r : Record} {rs : List Record} (hr : r.Linked n k)
    (hrs : LinkedFrom n (k + 1) rs) : LinkedFrom n k (r :: rs) := by
  intro i s hs
  cases i with
  | zero => simp_all
  | succ i =>
    have := hrs i s (by simpa using hs)
    rwa [show k + (i + 1) = k + 1 + i by omega]

theorem linkedFrom_append {n k m : Nat} {rs ss : List Record} (hrs : LinkedFrom n k rs)
    (hm : k + rs.length = m) (hss : LinkedFrom n m ss) : LinkedFrom n k (rs ++ ss) := by
  subst hm
  intro i s hs
  by_cases hi : i < rs.length
  · exact hrs i s (by rwa [List.getElem?_append_left hi] at hs)
  · have := hss (i - rs.length) s (by rwa [List.getElem?_append_right (by omega)] at hs)
    rwa [show k + rs.length + (i - rs.length) = k + i by omega] at this

namespace ElementHead

variable (h : ElementHead) (k : Nat)

@[simp] theorem length_namespaceRecords : (h.namespaceRecords k).length = h.namespaces.length := by
  simp [namespaceRecords]

@[simp] theorem length_attributeRecords : (h.attributeRecords k).length = h.attributes.length := by
  simp [attributeRecords]

/-- A record that only has a parent, which lies further back, is linked. -/
theorem linked_owned {n j : Nat} {r : Record} (hr : r.key = j) (hp : r.parent? = some k)
    (hk : k < j) (hc : r.firstChild? = none) (hl : r.left? = none) (hs : r.right? = none)
    (ha : r.attributes = []) (hn : r.namespaces = []) : r.Linked n j where
  key_eq := hr
  parent_lt := by simp_all
  left_lt := by simp [hl]
  firstChild_gt := by simp [hc]
  right_gt := by simp [hs]
  attributes_gt := by simp [ha]
  namespaces_gt := by simp [hn]

theorem linked_namespaceRecords (n : Nat) : LinkedFrom n (k + 1) (h.namespaceRecords k) := by
  intro i r hr
  simp only [namespaceRecords, List.getElem?_mapIdx, Option.map_eq_some_iff] at hr
  obtain ⟨_, _, rfl⟩ := hr
  exact linked_owned k rfl rfl (by omega) rfl rfl rfl rfl rfl

theorem linked_attributeRecords (n : Nat) :
    LinkedFrom n (k + 1 + h.namespaces.length) (h.attributeRecords k) := by
  intro i r hr
  simp only [attributeRecords, List.getElem?_mapIdx, Option.map_eq_some_iff] at hr
  obtain ⟨_, _, rfl⟩ := hr
  exact linked_owned k rfl rfl (by omega) rfl rfl rfl rfl rfl

end ElementHead

namespace Content

theorem firstKey?_eq_some {c : Content} {k j : Nat} (h : c.firstKey? k = some j) :
    j = k ∧ 0 < c.size := by
  cases c with
  | nil => simp [firstKey?, isEmpty] at h
  | leaf l next =>
    simp only [firstKey?, isEmpty, Bool.false_eq_true, if_false, Option.some.injEq] at h
    exact ⟨h.symm, by simp only [size]; omega⟩
  | element head body next =>
    simp only [firstKey?, isEmpty, Bool.false_eq_true, if_false, Option.some.injEq] at h
    exact ⟨h.symm, by simp only [size, ElementHead.size]; omega⟩

theorem length_records (c : Content) (parent k : Nat) (left : Option Nat) :
    (c.records parent k left).length = c.size := by
  induction c generalizing parent k left with
  | nil => rfl
  | leaf l next ih =>
    simp only [records, size, List.length_cons, ih]
    omega
  | element head body next ihb ihn =>
    simp only [records, size, ElementHead.size, List.length_cons, List.length_append,
      ElementHead.length_namespaceRecords, ElementHead.length_attributeRecords, ihb, ihn]
    omega

/-- The first node of a sequence that starts at place `j` lies between a place before it and the end
of a table that has room for the sequence. -/
theorem firstKey?_bounds {c : Content} {n k j s : Nat} (h : c.firstKey? j = some s) (hk : k < j)
    (hn : j + c.size ≤ n) : k < s ∧ s < n := by
  have := firstKey?_eq_some h
  omega

/-- The records of a sequence are linked, if its parent and the node before it lie further back and
the table has room for them. -/
theorem linked_records (c : Content) {n parent k : Nat} {left : Option Nat} (hp : parent < k)
    (hl : ∀ l ∈ left, l < k) (hn : k + c.size ≤ n) :
    LinkedFrom n k (c.records parent k left) := by
  induction c generalizing parent k left with
  | nil => exact linkedFrom_nil n k
  | leaf l next ih =>
    simp only [size] at hn
    refine linkedFrom_cons ?_ (ih (by omega) (by simp) (by omega))
    exact {
      key_eq := rfl
      parent_lt := by simpa using hp
      left_lt := hl
      firstChild_gt := by simp
      right_gt := fun s hs => firstKey?_bounds hs (by omega) (by omega)
      attributes_gt := by simp
      namespaces_gt := by simp }
  | element head body next ihb ihn =>
    have hsize : head.size = 1 + head.namespaces.length + head.attributes.length := rfl
    simp only [size] at hn
    refine linkedFrom_cons ?_ <|
      linkedFrom_append (head.linked_namespaceRecords k n) (by simp) <|
      linkedFrom_append (m := k + head.size) (head.linked_attributeRecords k n) ?_ <|
      linkedFrom_append (m := k + head.size + body.size) (ihb (by omega) (by simp) (by omega)) ?_ <|
      ihn (by omega) ?_ (by omega)
    · exact {
        key_eq := rfl
        parent_lt := by simpa using hp
        left_lt := hl
        firstChild_gt := fun s hs => firstKey?_bounds hs (by omega) (by omega)
        right_gt := fun s hs => firstKey?_bounds hs (by omega) (by omega)
        attributes_gt := by
          intro a ha
          simp only [ElementHead.attributeKeys, List.mem_range'_1] at ha
          omega
        namespaces_gt := by
          intro a ha
          simp only [ElementHead.namespaceKeys, List.mem_range'_1] at ha
          omega }
    · rw [ElementHead.length_attributeRecords]
      omega
    · rw [length_records]
    · intro l hl'
      cases hl'
      omega

end Content

namespace Snapshot

/-- The records of a document: the document node, then its content. -/
def documentRecords (c : Content) : List Record :=
  { key := 0, kind := .root, firstChild? := c.firstKey? 1, childCount := c.length } ::
    c.records 0 1 none

theorem length_documentRecords (c : Content) : (documentRecords c).length = c.size + 1 := by
  simp [documentRecords, Content.length_records]

theorem linked_documentRecords (c : Content) : LinkedFrom (c.size + 1) 0 (documentRecords c) := by
  refine linkedFrom_cons ?_ (c.linked_records (by omega) (by simp) (by omega))
  exact {
    key_eq := rfl
    parent_lt := by simp
    left_lt := by simp
    firstChild_gt := fun s hs => Content.firstKey?_bounds hs (by omega) (by omega)
    right_gt := by simp
    attributes_gt := by simp
    namespaces_gt := by simp }

/-- The snapshot of a document with the given content. -/
def ofContent (c : Content) : Snapshot where
  records := (documentRecords c).toArray
  nonempty := by simp [documentRecords]
  linked := by
    intro k h
    have := linked_documentRecords c k (documentRecords c).toArray[k] (by simp)
    simpa [length_documentRecords] using this

@[simp] theorem size_ofContent (c : Content) : (ofContent c).size = c.size + 1 := by
  simp [size, ofContent, length_documentRecords]

end Snapshot

end DocTree
