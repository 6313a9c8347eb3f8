import DocTree.Proofs.Layout.Places
import Mathlib.Data.List.Forall2
import Mathlib.Tactic.Common

/-!
# Snapshots as trees in document order

What every reader of a snapshot relies on: siblings are linked both ways, the first child is the one
without a left sibling, an element is followed by what it owns and then by its content, and its
subtree ends where the next node begins. `Snapshot.IsTree` says so about single records; the snapshot
of a document satisfies it, also as it looks without names.

## Main definitions

- `Snapshot.bodyStart` — the place after a node and all it owns
- `Snapshot.endOf` — the place after the subtree of a node
- `Snapshot.IsTree` — the links are those of a tree in document order

## Main statements

- `Snapshot.isTree_ofContent` — the snapshot of a document is a tree
- `Snapshot.IsTree.withoutNames` — and stays one when the names are withheld
-/

namespace DocTree

namespace Snapshot

variable (t : Snapshot)

/-- The place after the node at `k`, its declarations and its attributes. -/
def bodyStart (k : Nat) : Nat := k + 1 + (t.namespaces k).length + (t.attributes k).length

/-- The place after the last node of the subtree at `k`: its right sibling, or else the end of its
parent. -/
def endOf (k : Nat) : Nat :=
  if (t.kind k).isStructural then
    match t.right? k with
    | some s => s
    | none =>
      match _h : t.parent? k with
      | some p => endOf p
      | none => t.size
  else k + 1
termination_by k
decreasing_by exact parent?_lt _h

/-- The links of a snapshot are those of a tree in document order. -/
structure IsTree : Prop where
  kind_eq_root_iff : ∀ {k}, k < t.size → (t.kind k = .root ↔ k = 0)
  parent?_eq_none_iff : ∀ {k}, k < t.size → (t.parent? k = none ↔ k = 0)
  isParental_parent : ∀ {k p}, t.parent? k = some p → (t.kind p).isParental = true
  owner_eq_element : ∀ {k p}, t.parent? k = some p → (t.kind k).isStructural = false →
    t.kind p = .element
  right?_eq_some_iff : ∀ {j k}, t.right? j = some k ↔ t.left? k = some j
  right?_spec : ∀ {j k}, t.right? j = some k →
    t.parent? k = t.parent? j ∧ (t.kind j).isStructural = true ∧ (t.kind k).isStructural = true
  firstChild?_eq_some_iff : ∀ {p c}, t.firstChild? p = some c ↔
    t.parent? c = some p ∧ (t.kind c).isStructural = true ∧ t.left? c = none
  mem_namespaces_iff : ∀ {p k}, k ∈ t.namespaces p ↔
    t.kind k = .namespaceDecl ∧ t.parent? k = some p
  mem_attributes_iff : ∀ {p k}, k ∈ t.attributes p ↔ t.kind k = .attribute ∧ t.parent? k = some p
  namespaces_eq : ∀ p, t.namespaces p = List.range' (p + 1) (t.namespaces p).length
  attributes_eq : ∀ p, t.attributes p =
    List.range' (p + 1 + (t.namespaces p).length) (t.attributes p).length
  firstChild?_eq_bodyStart : ∀ {p c}, t.firstChild? p = some c → c = t.bodyStart p
  endOf_eq_bodyStart : ∀ {k}, k < t.size → t.firstChild? k = none → t.endOf k = t.bodyStart k

variable {t}

/-- Outside the table there is a document node without links. -/
theorem node_of_le {k : Nat} (h : t.size ≤ k) : t.node k = { key := k, kind := .root } := by
  have hk : t.records[k]? = none := by simpa using h
  simp [node, hk]

theorem lt_size_of_parent? {k p : Nat} (h : t.parent? k = some p) : k < t.size := by
  by_contra hk
  simp [parent?, node_of_le (Nat.le_of_not_lt hk)] at h

theorem lt_size_of_left? {k l : Nat} (h : t.left? k = some l) : k < t.size := by
  by_contra hk
  simp [left?, node_of_le (Nat.le_of_not_lt hk)] at h

theorem lt_size_of_right? {k s : Nat} (h : t.right? k = some s) : k < t.size := by
  have := right?_gt h
  omega

theorem lt_size_of_firstChild? {k c : Nat} (h : t.firstChild? k = some c) : k < t.size := by
  have := firstChild?_gt h
  omega

theorem endOf_of_right? {k s : Nat} (hk : (t.kind k).isStructural = true)
    (hs : t.right? k = some s) : t.endOf k = s := by
  rw [endOf, if_pos hk, hs]

theorem endOf_of_parent? {k p : Nat} (hk : (t.kind k).isStructural = true)
    (hs : t.right? k = none) (hp : t.parent? k = some p) : t.endOf k = t.endOf p := by
  rw [endOf, if_pos hk, hs]
  dsimp only
  split <;> simp_all

theorem endOf_of_parentless {k : Nat} (hk : (t.kind k).isStructural = true)
    (hs : t.right? k = none) (hp : t.parent? k = none) : t.endOf k = t.size := by
  rw [endOf, if_pos hk, hs]
  dsimp only
  split <;> simp_all

theorem endOf_of_owned {k : Nat} (hk : (t.kind k).isStructural = false) : t.endOf k = k + 1 := by
  rw [endOf, if_neg (by simp [hk])]

end Snapshot

open Snapshot

namespace Content

variable {doc c : Content} {parent k : Nat} {left : Option Nat}

namespace Places

/-- The first node of a sequence has the parent and the left sibling of the sequence. -/
theorem first (h : doc.Places c parent k left) {s : Nat} (hs : c.firstKey? k = some s) :
    s = k ∧ (ofContent doc).parent? k = some parent ∧ (ofContent doc).left? k = left ∧
      ((ofContent doc).kind k).isStructural = true := by
  cases c with
  | nil => simp at hs
  | leaf l next =>
    simp only [firstKey?_leaf, Option.some.injEq] at hs
    refine ⟨hs.symm, ?_, ?_, ?_⟩
    · simp [Snapshot.parent?, h.node_leaf]
    · simp [Snapshot.left?, h.node_leaf]
    · cases l <;> simp [Snapshot.kind, h.node_leaf, Leaf.kind, Kind.isStructural]
  | element head body next =>
    simp only [firstKey?_element, Option.some.injEq] at hs
    refine ⟨hs.symm, ?_, ?_, ?_⟩
    · simp [Snapshot.parent?, h.node_element]
    · simp [Snapshot.left?, h.node_element]
    · simp [Snapshot.kind, h.node_element, Kind.isStructural]

/-- A sequence with nothing before it begins with the first child of its parent. -/
theorem firstChild? (h : doc.Places c parent k none) :
    (ofContent doc).firstChild? parent = c.firstKey? k := by
  cases h with
  | document => simp [Snapshot.firstChild?, node_document]
  | body h => simp [Snapshot.firstChild?, h.node_element]

/-- A sequence after a node begins with the right sibling of that node. -/
theorem right? {j : Nat} (h : doc.Places c parent k (some j)) :
    (ofContent doc).right? j = c.firstKey? k := by
  cases h with
  | afterElement h => simp [Snapshot.right?, h.node_element]
  | afterLeaf h => simp [Snapshot.right?, h.node_leaf]

/-- The parent of a sequence ends with the sequence. -/
theorem endOf (h : doc.Places c parent k left) : (ofContent doc).endOf parent = k + c.size := by
  induction h with
  | document =>
    rw [endOf_of_parentless (by simp [Snapshot.kind, node_document, Kind.isStructural])
      (by simp [Snapshot.right?, node_document]) (by simp [Snapshot.parent?, node_document]),
      size_ofContent, Nat.add_comm]
  | @body head body next parent k left h ih =>
    have hk : ((ofContent doc).kind k).isStructural = true := by
      simp [Snapshot.kind, h.node_element, Kind.isStructural]
    have hs := h.afterElement.right?
    -- An element ends where its right sibling begins, and the last one with its parent.
    cases next with
    | nil =>
      have hp : (ofContent doc).parent? k = some parent := by
        simp [Snapshot.parent?, h.node_element]
      rw [endOf_of_parent? hk hs hp, ih]
      simp only [size]
      omega
    | element => exact endOf_of_right? hk hs
    | leaf => exact endOf_of_right? hk hs
  | afterElement _ ih =>
    rw [ih]
    simp only [size]
    omega
  | afterLeaf _ ih =>
    rw [ih]
    simp only [size]
    omega

/-- What a sequence lies below is the document node or an element. -/
theorem isParental_parent (h : doc.Places c parent k left) :
    ((ofContent doc).kind parent).isParental = true := by
  induction h with
  | document => simp [Snapshot.kind, node_document, Kind.isParental]
  | body h => simp [Snapshot.kind, h.node_element, Kind.isParental]
  | afterElement _ ih => exact ih
  | afterLeaf _ ih => exact ih

/-- An element lists its declarations in their order. -/
theorem forall₂_namespaces {head : ElementHead} {body next : Content}
    (h : doc.Places (.element head body next) parent k left) :
    List.Forall₂ (fun j binding => (ofContent doc).name? j = some ⟨"", binding.1, binding.2⟩)
      ((ofContent doc).namespaces k) head.namespaces := by
  rw [Snapshot.namespaces, h.node_element]
  refine List.forall₂_iff_get.2 ⟨by simp [ElementHead.namespaceKeys], ?_⟩
  intro i hi hi'
  simp [ElementHead.namespaceKeys, Snapshot.name?,
    h.node_declaration (List.getElem?_eq_getElem hi')]

/-- An element lists its attributes in their order. -/
theorem forall₂_attributes {head : ElementHead} {body next : Content}
    (h : doc.Places (.element head body next) parent k left) :
    List.Forall₂ (fun j entry => (ofContent doc).name? j = some entry.1 ∧
        (ofContent doc).value? j = some entry.2)
      ((ofContent doc).attributes k) head.attributes := by
  rw [Snapshot.attributes, h.node_element]
  refine List.forall₂_iff_get.2 ⟨by simp [ElementHead.attributeKeys], ?_⟩
  intro i hi hi'
  simp [ElementHead.attributeKeys, Snapshot.name?, Snapshot.value?,
    h.node_attribute (List.getElem?_eq_getElem hi')]

end Places

end Content

namespace Snapshot

variable {doc : Content} {j k p c : Nat}

/-- A structural node other than the document node is the first one of a sequence. -/
theorem places_of_structural (hlt : k < (ofContent doc).size) (h0 : k ≠ 0)
    (hk : ((ofContent doc).kind k).isStructural = true) :
    ∃ s parent left, doc.Places s parent k left ∧ s.firstKey? k = some k := by
  cases Content.site_of_lt hlt with
  | document => contradiction
  | leaf h => exact ⟨_, _, _, h, rfl⟩
  | element h => exact ⟨_, _, _, h, rfl⟩
  | declared h hi => simp [kind, h.node_declaration hi, Kind.isStructural] at hk
  | attributed h hi => simp [kind, h.node_attribute hi, Kind.isStructural] at hk

/-- A node that is not structural has an element as its parent and no other links. -/
theorem owned_spec (hk : ((ofContent doc).kind k).isStructural = false) :
    ∃ owner, (ofContent doc).parent? k = some owner ∧ (ofContent doc).kind owner = .element ∧
      (ofContent doc).firstChild? k = none ∧ (ofContent doc).left? k = none ∧
      (ofContent doc).right? k = none ∧ (ofContent doc).attributes k = [] ∧
      (ofContent doc).namespaces k = [] ∧ ((ofContent doc).node k).childCount = 0 := by
  have hlt : k < (ofContent doc).size := by
    by_contra hlt
    simp [kind, node_of_le (Nat.le_of_not_lt hlt), Kind.isStructural] at hk
  cases Content.site_of_lt hlt with
  | document => simp [kind, Content.node_document, Kind.isStructural] at hk
  | @leaf l _ _ _ _ h => cases l <;> simp [kind, h.node_leaf, Leaf.kind, Kind.isStructural] at hk
  | element h => simp [kind, h.node_element, Kind.isStructural] at hk
  | declared h hi =>
    simp [parent?, kind, firstChild?, left?, right?, attributes, namespaces,
      h.node_declaration hi, h.node_element]
  | attributed h hi =>
    simp [parent?, kind, firstChild?, left?, right?, attributes, namespaces,
      h.node_attribute hi, h.node_element]

/-- The right sibling of a node is the first one of the sequence after it. -/
theorem places_of_right? (hs : (ofContent doc).right? j = some k) :
    ∃ s parent, doc.Places s parent k (some j) ∧ s.firstKey? k = some k ∧
      (ofContent doc).parent? j = some parent ∧ ((ofContent doc).kind j).isStructural = true := by
  cases Content.site_of_lt (lt_size_of_right? hs) with
  | document => simp [right?, Content.node_document] at hs
  | @leaf l next parent _ left h =>
    simp only [right?, h.node_leaf] at hs
    obtain ⟨rfl, -⟩ := Content.firstKey?_eq_some hs
    have hj := h.first rfl
    exact ⟨_, _, h.afterLeaf, hs, hj.2.1, hj.2.2.2⟩
  | @element head body next parent _ left h =>
    simp only [right?, h.node_element] at hs
    obtain ⟨rfl, -⟩ := Content.firstKey?_eq_some hs
    have hj := h.first rfl
    exact ⟨_, _, h.afterElement, hs, hj.2.1, hj.2.2.2⟩
  | declared h hi => simp [right?, h.node_declaration hi] at hs
  | attributed h hi => simp [right?, h.node_attribute hi] at hs

/-- The first child of a node is the first one of a sequence with nothing before it. -/
theorem places_of_firstChild? (hc : (ofContent doc).firstChild? p = some c) :
    ∃ s, doc.Places s p c none ∧ s.firstKey? c = some c ∧ c = (ofContent doc).bodyStart p := by
  cases Content.site_of_lt (lt_size_of_firstChild? hc) with
  | document =>
    simp only [firstChild?, Content.node_document] at hc
    obtain ⟨rfl, -⟩ := Content.firstKey?_eq_some hc
    exact ⟨_, .document, hc, by simp [bodyStart, namespaces, attributes, Content.node_document]⟩
  | leaf h => simp [firstChild?, h.node_leaf] at hc
  | element h =>
    simp only [firstChild?, h.node_element] at hc
    obtain ⟨rfl, -⟩ := Content.firstKey?_eq_some hc
    refine ⟨_, h.body, hc, ?_⟩
    simp [bodyStart, namespaces, attributes, h.node_element, ElementHead.namespaceKeys,
      ElementHead.attributeKeys, ElementHead.size, Nat.add_assoc]
  | declared h hi => simp [firstChild?, h.node_declaration hi] at hc
  | attributed h hi => simp [firstChild?, h.node_attribute hi] at hc

theorem ofContent_kind_eq_root_iff (hlt : k < (ofContent doc).size) :
    (ofContent doc).kind k = .root ↔ k = 0 := by
  cases Content.site_of_lt hlt with
  | document => simp [kind, Content.node_document]
  | @leaf l _ _ _ _ h =>
    have := h.bounds.1
    cases l <;> simp [kind, h.node_leaf, Leaf.kind] <;> omega
  | element h =>
    have := h.bounds.1
    simp [kind, h.node_element]
    omega
  | declared h hi => simp [kind, h.node_declaration hi]
  | attributed h hi => simp [kind, h.node_attribute hi]

theorem ofContent_parent?_eq_none_iff (hlt : k < (ofContent doc).size) :
    (ofContent doc).parent? k = none ↔ k = 0 := by
  refine ⟨fun hp => ?_, fun h0 => by simp [h0, parent?, Content.node_document]⟩
  by_contra h0
  cases hk : ((ofContent doc).kind k).isStructural with
  | true =>
    obtain ⟨s, parent, left, h, hs⟩ := places_of_structural hlt h0 hk
    simp [(h.first hs).2.1] at hp
  | false =>
    obtain ⟨owner, ho, -⟩ := owned_spec hk
    simp [ho] at hp

/-- The declarations and attributes of a node are consecutive keys after its own. -/
theorem ofContent_owned_eq (doc : Content) (p : Nat) :
    (ofContent doc).namespaces p =
      List.range' (p + 1) ((ofContent doc).namespaces p).length ∧
    (ofContent doc).attributes p =
      List.range' (p + 1 + ((ofContent doc).namespaces p).length)
        ((ofContent doc).attributes p).length := by
  by_cases hlt : p < (ofContent doc).size
  · cases Content.site_of_lt hlt with
    | document => simp [namespaces, attributes, Content.node_document]
    | leaf h => simp [namespaces, attributes, h.node_leaf]
    | element h =>
      simp [namespaces, attributes, h.node_element, ElementHead.namespaceKeys,
        ElementHead.attributeKeys]
    | declared h hi => simp [namespaces, attributes, h.node_declaration hi]
    | attributed h hi => simp [namespaces, attributes, h.node_attribute hi]
  · simp [namespaces, attributes, node_of_le (Nat.le_of_not_lt hlt)]

/-- Only an element owns something. -/
theorem places_of_owner (hk : k ∈ (ofContent doc).namespaces p ∨ k ∈ (ofContent doc).attributes p) :
    ∃ head body next parent left, doc.Places (.element head body next) parent p left := by
  have hlt : p < (ofContent doc).size := by
    by_contra hlt
    simp [namespaces, attributes, node_of_le (Nat.le_of_not_lt hlt)] at hk
  cases Content.site_of_lt hlt with
  | document => simp [namespaces, attributes, Content.node_document] at hk
  | leaf h => simp [namespaces, attributes, h.node_leaf] at hk
  | element h => exact ⟨_, _, _, _, _, h⟩
  | declared h hi => simp [namespaces, attributes, h.node_declaration hi] at hk
  | attributed h hi => simp [namespaces, attributes, h.node_attribute hi] at hk

/-- What is owned lies between its owner, an element, and the body of that: declarations first, and
attributes after them. -/
theorem places_of_owned (hp : (ofContent doc).parent? k = some p)
    (hk : ((ofContent doc).kind k).isStructural = false) :
    ∃ head body next parent left, doc.Places (.element head body next) parent p left ∧
      (((ofContent doc).kind k = .namespaceDecl ∧
          p + 1 ≤ k ∧ k < p + 1 + head.namespaces.length) ∨
        ((ofContent doc).kind k = .attribute ∧ p + 1 + head.namespaces.length ≤ k ∧
          k < p + 1 + head.namespaces.length + head.attributes.length)) := by
  cases Content.site_of_lt (lt_size_of_parent? hp) with
  | document => simp [kind, Content.node_document, Kind.isStructural] at hk
  | @leaf l _ _ _ _ h => cases l <;> simp [kind, h.node_leaf, Leaf.kind, Kind.isStructural] at hk
  | element h => simp [kind, h.node_element, Kind.isStructural] at hk
  | declared h hi =>
    have hlen := (List.getElem?_eq_some_iff.1 hi).1
    simp only [parent?, h.node_declaration hi, Option.some.injEq] at hp
    subst hp
    exact ⟨_, _, _, _, _, h, .inl ⟨by simp [kind, h.node_declaration hi], by omega, by omega⟩⟩
  | attributed h hi =>
    have hlen := (List.getElem?_eq_some_iff.1 hi).1
    simp only [parent?, h.node_attribute hi, Option.some.injEq] at hp
    subst hp
    exact ⟨_, _, _, _, _, h, .inr ⟨by simp [kind, h.node_attribute hi], by omega, by omega⟩⟩

theorem ofContent_mem_namespaces_iff : k ∈ (ofContent doc).namespaces p ↔
    (ofContent doc).kind k = .namespaceDecl ∧ (ofContent doc).parent? k = some p := by
  constructor
  · intro hk
    obtain ⟨head, body, next, parent, left, h⟩ := places_of_owner (.inl hk)
    simp only [namespaces, h.node_element, ElementHead.namespaceKeys, List.mem_range'_1] at hk
    obtain ⟨i, rfl⟩ := Nat.exists_eq_add_of_le hk.1
    have hi : i < head.namespaces.length := by omega
    simp [kind, parent?, h.node_declaration (List.getElem?_eq_getElem hi)]
  · rintro ⟨hk, hp⟩
    obtain ⟨head, body, next, parent, left, h, hkeys⟩ :=
      places_of_owned hp (by simp [hk, Kind.isStructural])
    simp only [namespaces, h.node_element, ElementHead.namespaceKeys, List.mem_range'_1]
    rcases hkeys with ⟨-, hkeys⟩ | ⟨hkind, -⟩
    · exact hkeys
    · simp [hk] at hkind

theorem ofContent_mem_attributes_iff : k ∈ (ofContent doc).attributes p ↔
    (ofContent doc).kind k = .attribute ∧ (ofContent doc).parent? k = some p := by
  constructor
  · intro hk
    obtain ⟨head, body, next, parent, left, h⟩ := places_of_owner (.inr hk)
    simp only [attributes, h.node_element, ElementHead.attributeKeys, List.mem_range'_1] at hk
    obtain ⟨i, rfl⟩ := Nat.exists_eq_add_of_le hk.1
    have hi : i < head.attributes.length := by omega
    simp [kind, parent?, h.node_attribute (List.getElem?_eq_getElem hi)]
  · rintro ⟨hk, hp⟩
    obtain ⟨head, body, next, parent, left, h, hkeys⟩ :=
      places_of_owned hp (by simp [hk, Kind.isStructural])
    simp only [attributes, h.node_element, ElementHead.attributeKeys, List.mem_range'_1]
    rcases hkeys with ⟨hkind, -⟩ | ⟨-, hkeys⟩
    · simp [hk] at hkind
    · exact hkeys

/-- The subtree of a node without children ends with what the node owns. -/
theorem ofContent_endOf_of_childless (hlt : k < (ofContent doc).size)
    (hc : (ofContent doc).firstChild? k = none) :
    (ofContent doc).endOf k = (ofContent doc).bodyStart k := by
  cases Content.site_of_lt hlt with
  | document =>
    simp only [firstChild?, Content.node_document] at hc
    obtain rfl := Content.firstKey?_eq_none hc
    rw [Content.Places.document.endOf]
    simp [bodyStart, namespaces, attributes, Content.node_document, Content.size]
  | @leaf l next parent _ left h =>
    have hfirst := h.first rfl
    have hs := h.afterLeaf.right?
    have hb : (ofContent doc).bodyStart k = k + 1 := by
      simp [bodyStart, namespaces, attributes, h.node_leaf]
    cases hn : next.firstKey? (k + 1) with
    | none =>
      obtain rfl := Content.firstKey?_eq_none hn
      rw [endOf_of_parent? hfirst.2.2.2 (hs.trans hn) hfirst.2.1, h.endOf, hb]
      simp [Content.size]
    | some s => rw [endOf_of_right? hfirst.2.2.2 (hs.trans hn), (Content.firstKey?_eq_some hn).1, hb]
  | element h =>
    simp only [firstChild?, h.node_element] at hc
    obtain rfl := Content.firstKey?_eq_none hc
    rw [h.body.endOf]
    simp [bodyStart, namespaces, attributes, h.node_element, ElementHead.namespaceKeys,
      ElementHead.attributeKeys, ElementHead.size, Content.size, Nat.add_assoc]
  | declared h hi =>
    rw [endOf_of_owned (by simp [kind, h.node_declaration hi, Kind.isStructural])]
    simp [bodyStart, namespaces, attributes, h.node_declaration hi]
  | attributed h hi =>
    rw [endOf_of_owned (by simp [kind, h.node_attribute hi, Kind.isStructural])]
    simp [bodyStart, namespaces, attributes, h.node_attribute hi]

/-- The snapshot of a document is a tree. -/
theorem isTree_ofContent (doc : Content) : (ofContent doc).IsTree where
  kind_eq_root_iff := ofContent_kind_eq_root_iff
  parent?_eq_none_iff := ofContent_parent?_eq_none_iff
  isParental_parent := by
    intro k p hp
    have hlt := lt_size_of_parent? hp
    cases hk : ((ofContent doc).kind k).isStructural with
    | true =>
      have h0 : k ≠ 0 := by
        rintro rfl
        simp [parent?, Content.node_document] at hp
      obtain ⟨s, parent, left, h, hs⟩ := places_of_structural hlt h0 hk
      obtain rfl : parent = p := by simpa [(h.first hs).2.1] using hp
      exact h.isParental_parent
    | false =>
      obtain ⟨owner, ho, he, -⟩ := owned_spec hk
      obtain rfl : owner = p := by simpa [ho] using hp
      simp [he, Kind.isParental]
  owner_eq_element := by
    intro k p hp hk
    obtain ⟨owner, ho, he, -⟩ := owned_spec hk
    obtain rfl : owner = p := by simpa [ho] using hp
    exact he
  right?_eq_some_iff := by
    intro j k
    constructor
    · intro hs
      obtain ⟨s, parent, h, hk, -⟩ := places_of_right? hs
      exact (h.first hk).2.2.1
    · intro hl
      -- The sequence that begins with `k` knows what is to the left of it.
      have h0 : k ≠ 0 := by
        rintro rfl
        simp [left?, Content.node_document] at hl
      cases hk : ((ofContent doc).kind k).isStructural with
      | true =>
        obtain ⟨s, parent, left, h, hs⟩ := places_of_structural (lt_size_of_left? hl) h0 hk
        obtain rfl : left = some j := by rw [← hl, (h.first hs).2.2.1]
        rw [h.right?, hs]
      | false =>
        obtain ⟨owner, -, -, -, hnone, -⟩ := owned_spec hk
        simp [hnone] at hl
  right?_spec := by
    intro j k hs
    obtain ⟨s, parent, h, hk, hp, hj⟩ := places_of_right? hs
    have hfirst := h.first hk
    exact ⟨hfirst.2.1.trans hp.symm, hj, hfirst.2.2.2⟩
  firstChild?_eq_some_iff := by
    intro p c
    constructor
    · intro hc
      obtain ⟨s, h, hs, -⟩ := places_of_firstChild? hc
      have hfirst := h.first hs
      exact ⟨hfirst.2.1, hfirst.2.2.2, hfirst.2.2.1⟩
    · rintro ⟨hp, hk, hl⟩
      have h0 : c ≠ 0 := by
        rintro rfl
        simp [parent?, Content.node_document] at hp
      obtain ⟨s, parent, left, h, hs⟩ := places_of_structural (lt_size_of_parent? hp) h0 hk
      obtain ⟨-, hp', hl', -⟩ := h.first hs
      obtain rfl : parent = p := by simpa [hp'] using hp
      obtain rfl : left = none := by rw [← hl, hl']
      rw [h.firstChild?, hs]
  mem_namespaces_iff := ofContent_mem_namespaces_iff
  mem_attributes_iff := ofContent_mem_attributes_iff
  namespaces_eq p := (ofContent_owned_eq doc p).1
  attributes_eq p := (ofContent_owned_eq doc p).2
  firstChild?_eq_bodyStart := by
    intro p c hc
    obtain ⟨s, -, -, hc⟩ := places_of_firstChild? hc
    exact hc
  endOf_eq_bodyStart := ofContent_endOf_of_childless

section WithoutNames

variable (t : Snapshot)

@[simp] theorem size_withoutNames : t.withoutNames.size = t.size := by simp [withoutNames, size]

/-- A node loses its name and nothing else. -/
theorem node_withoutNames (k : Nat) : t.withoutNames.node k = { t.node k with name? := none } := by
  by_cases h : k < t.size
  · rw [t.node_eq_getElem h, node_eq_getElem _ (by simpa using h)]
    simp [withoutNames]
  · rw [node_of_le (Nat.le_of_not_lt h), node_of_le (by simpa using Nat.le_of_not_lt h)]

@[simp] theorem kind_withoutNames (k : Nat) : t.withoutNames.kind k = t.kind k := by
  simp [kind, node_withoutNames]

@[simp] theorem parent?_withoutNames (k : Nat) : t.withoutNames.parent? k = t.parent? k := by
  simp [parent?, node_withoutNames]

@[simp] theorem firstChild?_withoutNames (k : Nat) :
    t.withoutNames.firstChild? k = t.firstChild? k := by
  simp [firstChild?, node_withoutNames]

@[simp] theorem left?_withoutNames (k : Nat) : t.withoutNames.left? k = t.left? k := by
  simp [left?, node_withoutNames]

@[simp] theorem right?_withoutNames (k : Nat) : t.withoutNames.right? k = t.right? k := by
  simp [right?, node_withoutNames]

@[simp] theorem attributes_withoutNames (k : Nat) :
    t.withoutNames.attributes k = t.attributes k := by
  simp [attributes, node_withoutNames]

@[simp] theorem namespaces_withoutNames (k : Nat) :
    t.withoutNames.namespaces k = t.namespaces k := by
  simp [namespaces, node_withoutNames]

@[simp] theorem bodyStart_withoutNames (k : Nat) :
    t.withoutNames.bodyStart k = t.bodyStart k := by
  simp [bodyStart]

@[simp] theorem endOf_withoutNames (k : Nat) : t.withoutNames.endOf k = t.endOf k := by
  induction k using endOf.induct t with
  | case1 k hk s hr =>
    rw [endOf_of_right? hk hr, endOf_of_right? (by simpa using hk) (by simpa using hr)]
  | case2 k hk hr p hp ih =>
    rw [endOf_of_parent? hk hr hp,
      endOf_of_parent? (by simpa using hk) (by simpa using hr) (by simpa using hp), ih]
  | case3 k hk hr hp =>
    rw [endOf_of_parentless hk hr hp,
      endOf_of_parentless (by simpa using hk) (by simpa using hr) (by simpa using hp),
      size_withoutNames]
  | case4 k hk => rw [endOf_of_owned (by simpa using hk), endOf_of_owned (by simpa using hk)]

variable {t}

/-- A tree stays a tree when its names are withheld. -/
theorem IsTree.withoutNames (h : t.IsTree) : t.withoutNames.IsTree where
  kind_eq_root_iff := by simpa using @h.kind_eq_root_iff
  parent?_eq_none_iff := by simpa using @h.parent?_eq_none_iff
  isParental_parent := by simpa using @h.isParental_parent
  owner_eq_element := by simpa using @h.owner_eq_element
  right?_eq_some_iff := by simpa using @h.right?_eq_some_iff
  right?_spec := by simpa using @h.right?_spec
  firstChild?_eq_some_iff := by simpa using @h.firstChild?_eq_some_iff
  mem_namespaces_iff := by simpa using @h.mem_namespaces_iff
  mem_attributes_iff := by simpa using @h.mem_attributes_iff
  namespaces_eq := by simpa using h.namespaces_eq
  attributes_eq := by simpa using h.attributes_eq
  firstChild?_eq_bodyStart := by simpa using @h.firstChild?_eq_bodyStart
  endOf_eq_bodyStart := by simpa using @h.endOf_eq_bodyStart

end WithoutNames

end Snapshot

end DocTree
