import DocTree.Snapshot.Layout

/-!
# Where content lies in a snapshot

Every sequence of siblings of a document has its place in the snapshot of the document, and so has
every tail of such a sequence. `Content.Places` lists them all, with the parent and the node before,
and `Content.Site` says what is stored at each place: whatever holds of a node of a snapshot is shown
by going through the five kinds of sites.

## Main definitions

- `Snapshot.Holds` — the records from a place on
- `Content.Places` — the places of the sequences of a document
- `Content.Site` — what there is at a place

## Main statements

- `Content.Places.holds` — a sequence is stored at its place
- `Content.site_of_lt` — every place of the table is a site
-/

namespace DocTree

/-- The table has the records `rs` from place `k` on. -/
def Snapshot.Holds (t : Snapshot) (k : Nat) (rs : List Record) : Prop :=
  ∀ (i : Nat) (r : Record), rs[i]? = some r → t.node (k + i) = r

namespace Snapshot.Holds

variable {t : Snapshot} {k : Nat} {r : Record} {rs ss : List Record}

theorem head (h : t.Holds k (r :: rs)) : t.node k = r :=
  h 0 r rfl

theorem tail (h : t.Holds k (r :: rs)) : t.Holds (k + 1) rs := by
  intro i s hs
  rw [Nat.add_right_comm]
  exact h (i + 1) s (by simpa using hs)

theorem left (h : t.Holds k (rs ++ ss)) : t.Holds k rs := by
  intro i s hs
  have hi : i < rs.length := (List.getElem?_eq_some_iff.1 hs).1
  exact h i s (by rwa [List.getElem?_append_left hi])

theorem right (h : t.Holds k (rs ++ ss)) {m : Nat} (hm : k + rs.length = m) : t.Holds m ss := by
  intro i s hs
  subst hm
  rw [Nat.add_assoc]
  exact h (rs.length + i) s (by rwa [List.getElem?_append_right (by omega), Nat.add_sub_cancel_left])

end Snapshot.Holds

/-- The snapshot of a document holds the records of the document. -/
theorem Snapshot.holds_ofContent (c : Content) :
    (Snapshot.ofContent c).Holds 0 (documentRecords c) := by
  intro i r hr
  simp [node, ofContent, hr]

namespace Content

/-- `doc.Places c parent k left`: the sequence `c` of the document `doc` lies below the node `parent`
from place `k` on, after the node `left`. -/
inductive Places (doc : Content) : Content → (parent k : Nat) → (left : Option Nat) → Prop where
  | document : Places doc doc 0 1 none
  | body {head body next parent k left} (h : Places doc (.element head body next) parent k left) :
      Places doc body k (k + head.size) none
  | afterElement {head body next parent k left}
      (h : Places doc (.element head body next) parent k left) :
      Places doc next parent (k + head.size + body.size) (some k)
  | afterLeaf {l next parent k left} (h : Places doc (.leaf l next) parent k left) :
      Places doc next parent (k + 1) (some k)

@[simp] theorem firstKey?_nil (k : Nat) : nil.firstKey? k = none := rfl

@[simp] theorem firstKey?_element (head : ElementHead) (body next : Content) (k : Nat) :
    (element head body next).firstKey? k = some k := rfl

@[simp] theorem firstKey?_leaf (l : Leaf) (next : Content) (k : Nat) :
    (leaf l next).firstKey? k = some k := rfl

theorem firstKey?_eq_none {c : Content} {k : Nat} (h : c.firstKey? k = none) : c = nil := by
  cases c <;> simp_all

namespace Places

variable {doc c body next : Content} {head : ElementHead} {l : Leaf} {parent k j : Nat}
  {left : Option Nat}

/-- The records of a sequence are stored at its place. -/
theorem holds (h : doc.Places c parent k left) :
    (Snapshot.ofContent doc).Holds k (c.records parent k left) := by
  induction h with
  | document => exact (Snapshot.holds_ofContent doc).tail
  | @body head body next parent k left _ ih =>
    -- The body comes after the records of the element and of what it owns.
    have hsize : head.size = 1 + head.namespaces.length + head.attributes.length := rfl
    have howned := (ih.tail.right rfl).right rfl
    rw [ElementHead.length_namespaceRecords, ElementHead.length_attributeRecords] at howned
    have hbody := howned.left
    rwa [show k + 1 + head.namespaces.length + head.attributes.length = k + head.size by omega]
      at hbody
  | @afterElement head body next parent k left _ ih =>
    have hsize : head.size = 1 + head.namespaces.length + head.attributes.length := rfl
    refine ((ih.tail.right rfl).right rfl).right ?_
    rw [ElementHead.length_namespaceRecords, ElementHead.length_attributeRecords, length_records]
    omega
  | afterLeaf _ ih => exact ih.tail

/-- A sequence lies after its parent and inside the table. -/
theorem bounds (h : doc.Places c parent k left) : parent < k ∧ k + c.size ≤ doc.size + 1 := by
  induction h with
  | document => omega
  | body _ ih =>
    simp only [size, ElementHead.size] at ih ⊢
    omega
  | afterElement _ ih =>
    simp only [size] at ih
    omega
  | afterLeaf _ ih =>
    simp only [size] at ih
    omega

theorem node_leaf (h : doc.Places (.leaf l next) parent k left) :
    (Snapshot.ofContent doc).node k =
      { key := k, kind := l.kind, name? := l.name?, value? := some l.value, parent? := some parent,
        left? := left, right? := next.firstKey? (k + 1) } :=
  h.holds.head

theorem node_element (h : doc.Places (.element head body next) parent k left) :
    (Snapshot.ofContent doc).node k =
      { key := k, kind := .element, name? := some head.name, parent? := some parent,
        firstChild? := body.firstKey? (k + head.size), left? := left,
        right? := next.firstKey? (k + head.size + body.size), childCount := body.length,
        attributes := head.attributeKeys k, namespaces := head.namespaceKeys k } :=
  h.holds.head

theorem node_declaration (h : doc.Places (.element head body next) parent k left) {i : Nat}
    {qualifier uri : String} (hi : head.namespaces[i]? = some (qualifier, uri)) :
    (Snapshot.ofContent doc).node (k + 1 + i) =
      { key := k + 1 + i, kind := .namespaceDecl, name? := some ⟨"", qualifier, uri⟩,
        value? := some uri, parent? := some k } :=
  h.holds.tail.left i _ (by simp [ElementHead.namespaceRecords, hi])

theorem node_attribute (h : doc.Places (.element head body next) parent k left) {i : Nat}
    {name : QName} {value : String} (hi : head.attributes[i]? = some (name, value)) :
    (Snapshot.ofContent doc).node (k + 1 + head.namespaces.length + i) =
      { key := k + 1 + head.namespaces.length + i, kind := .attribute, name? := some name,
        value? := some value, parent? := some k } :=
  (h.holds.tail.right (by simp)).left i _ (by simp [ElementHead.attributeRecords, hi])

end Places

theorem node_document (doc : Content) :
    (Snapshot.ofContent doc).node 0 =
      { key := 0, kind := .root, firstChild? := doc.firstKey? 1, childCount := doc.length } :=
  (Snapshot.holds_ofContent doc).head

/-- What there is at a place of the snapshot of a document. -/
inductive Site (doc : Content) : (k : Nat) → Prop where
  | document : Site doc 0
  | leaf {l next parent k left} (h : doc.Places (.leaf l next) parent k left) : Site doc k
  | element {head body next parent k left}
      (h : doc.Places (.element head body next) parent k left) : Site doc k
  | declared {head body next parent e left i qualifier uri}
      (h : doc.Places (.element head body next) parent e left)
      (hi : head.namespaces[i]? = some (qualifier, uri)) : Site doc (e + 1 + i)
  | attributed {head body next parent e left i name value}
      (h : doc.Places (.element head body next) parent e left)
      (hi : head.attributes[i]? = some (name, value)) :
      Site doc (e + 1 + head.namespaces.length + i)

/-- Every place that a sequence takes is a site. -/
theorem Places.site {doc c : Content} {parent k j : Nat} {left : Option Nat}
    (h : doc.Places c parent k left) (hk : k ≤ j) (hj : j < k + c.size) : doc.Site j := by
  induction c generalizing parent k left with
  | nil =>
    simp only [size] at hj
    omega
  | leaf l next ih =>
    simp only [size] at hj
    by_cases hjk : j = k
    · subst hjk
      exact .leaf h
    · exact ih h.afterLeaf (by omega) (by omega)
  | element head body next ihb ihn =>
    have hsize : head.size = 1 + head.namespaces.length + head.attributes.length := rfl
    simp only [size] at hj
    by_cases hbody : k + head.size ≤ j
    · by_cases hnext : k + head.size + body.size ≤ j
      · exact ihn h.afterElement hnext (by omega)
      · exact ihb h.body hbody (by omega)
    · -- The place is that of the element itself, of a declaration or of an attribute.
      by_cases hjk : j = k
      · subst hjk
        exact .element h
      by_cases hd : j < k + 1 + head.namespaces.length
      · obtain ⟨i, rfl⟩ := Nat.exists_eq_add_of_le (show k + 1 ≤ j by omega)
        have hi : i < head.namespaces.length := by omega
        exact .declared h (List.getElem?_eq_getElem hi)
      · obtain ⟨i, rfl⟩ := Nat.exists_eq_add_of_le (show k + 1 + head.namespaces.length ≤ j by omega)
        have hi : i < head.attributes.length := by omega
        exact .attributed h (List.getElem?_eq_getElem hi)

/-- Every place of the table is a site. -/
theorem site_of_lt {doc : Content} {k : Nat} (hk : k < (Snapshot.ofContent doc).size) :
    doc.Site k := by
  rw [Snapshot.size_ofContent] at hk
  cases k with
  | zero => exact .document
  | succ k => exact Places.document.site (by omega) (by omega)

end Content

end DocTree
