import DocTree.Proofs.Layout.Subtree

/-!
# Reading content back from a snapshot

The table of a document lists the document: kinds, names and values come in the order in which the
content gives them. Following the links from the document node yields the content again, so that
nothing is lost and documents with equal snapshots are equal.

## Main definitions

- `Content.listing` — what the nodes of a sequence are, in document order
- `Snapshot.content` — the content that the links of a snapshot lead to

## Main statements

- `Snapshot.map_facts_ofContent` — the records are the listing of the document
- `Snapshot.content_ofContent` — reading back is the inverse of laying out
- `Snapshot.ofContent_lossless` — both, with subtrees as intervals of keys
-/

namespace DocTree

/-- What a node is, apart from where it is: kind, name and value. -/
abbrev NodeFacts := Kind × Option QName × Option String

/-- What a record says about its node. -/
def Record.facts (r : Record) : NodeFacts := (r.kind, r.name?, r.value?)

/-- An element, its declarations and its attributes in the order of their declaration. -/
def ElementHead.listing (h : ElementHead) : List NodeFacts :=
  (.element, some h.name, none) ::
    (h.namespaces.map (fun (qualifier, uri) =>
      (Kind.namespaceDecl, some ⟨"", qualifier, uri⟩, some uri)) ++
    h.attributes.map fun (name, value) => (Kind.attribute, some name, some value))

/-- The nodes of a sequence with everything below, in document order. -/
def Content.listing : Content → List NodeFacts
  | nil => []
  | element head body next => head.listing ++ (body.listing ++ next.listing)
  | leaf l next => (l.kind, l.name?, some l.value) :: next.listing

namespace Snapshot

variable (t : Snapshot)

/-- The head of the element at `k`. -/
def readHead (k : Nat) : ElementHead where
  name := (t.name? k).getD default
  namespaces := (t.namespaces k).map fun n =>
    (((t.name? n).map (·.localPart)).getD "", (t.value? n).getD "")
  attributes := (t.attributes k).map fun a => ((t.name? a).getD default, (t.value? a).getD "")

/-- The leaf at `k`. -/
def readLeaf (k : Nat) : Leaf :=
  let value := (t.value? k).getD ""
  match t.kind k with
  | .comment => .comment value
  | .instruction => .instruction (((t.name? k).map (·.localPart)).getD "") value
  | _ => .text value

/-- The sequence that begins with a node, along first children and right siblings. -/
def readFrom (first? : Option Nat) : Content :=
  match first? with
  | none => .nil
  | some k =>
    if t.kind k = .element then
      .element (t.readHead k) (readFrom (t.firstChild? k)) (readFrom (t.right? k))
    else .leaf (t.readLeaf k) (readFrom (t.right? k))
termination_by first?.elim 0 (t.size - · + 1)
decreasing_by
  · cases hc : t.firstChild? k with
    | none => exact Nat.succ_pos _
    | some c =>
      have := firstChild?_gt hc
      simp only [Option.elim]
      omega
  all_goals
    cases hs : t.right? k with
    | none => exact Nat.succ_pos _
    | some s =>
      have := right?_gt hs
      simp only [Option.elim]
      omega

/-- The content of the document that a snapshot lays out. -/
def content : Content := t.readFrom (t.firstChild? 0)

end Snapshot

open Snapshot

namespace ElementHead

variable (h : ElementHead) (k : Nat)

theorem map_facts_namespaceRecords : (h.namespaceRecords k).map Record.facts =
    h.namespaces.map fun (qualifier, uri) =>
      (Kind.namespaceDecl, some ⟨"", qualifier, uri⟩, some uri) := by
  refine List.ext_getElem? ?_
  intro i
  simp only [namespaceRecords, List.getElem?_map, List.getElem?_mapIdx, Option.map_map]
  rfl

theorem map_facts_attributeRecords : (h.attributeRecords k).map Record.facts =
    h.attributes.map fun (name, value) => (Kind.attribute, some name, some value) := by
  refine List.ext_getElem? ?_
  intro i
  simp only [attributeRecords, List.getElem?_map, List.getElem?_mapIdx, Option.map_map]
  rfl

end ElementHead

namespace Content

/-- The records of a sequence are its listing. -/
theorem map_facts_records (c : Content) (parent k : Nat) (left : Option Nat) :
    (c.records parent k left).map Record.facts = c.listing := by
  induction c generalizing parent k left with
  | nil => rfl
  | leaf l next ih =>
    rw [records, List.map_cons, ih]
    rfl
  | element head body next ihb ihn =>
    simp only [records, List.map_cons, List.map_append, ihb, ihn,
      ElementHead.map_facts_namespaceRecords, ElementHead.map_facts_attributeRecords, listing,
      ElementHead.listing, List.cons_append, List.append_assoc]
    rfl

namespace Places

variable {doc c body next : Content} {head : ElementHead} {parent k : Nat} {left : Option Nat}

theorem readHead_eq (h : doc.Places (.element head body next) parent k left) :
    (ofContent doc).readHead k = head := by
  have hname : (ofContent doc).name? k = some head.name := by simp [name?, h.node_element]
  have hns : ((ofContent doc).namespaces k).map (fun n =>
      ((((ofContent doc).name? n).map (·.localPart)).getD "", ((ofContent doc).value? n).getD "")) =
      head.namespaces := by
    refine List.ext_getElem ?_ fun i hi hi' => ?_
    · simp [namespaces, h.node_element, ElementHead.namespaceKeys]
    have hnode := h.node_declaration (List.getElem?_eq_getElem hi')
    simp [namespaces, h.node_element, ElementHead.namespaceKeys, name?, value?, hnode]
  have hattr : ((ofContent doc).attributes k).map (fun a =>
      (((ofContent doc).name? a).getD default, ((ofContent doc).value? a).getD "")) =
      head.attributes := by
    refine List.ext_getElem ?_ fun i hi hi' => ?_
    · simp [attributes, h.node_element, ElementHead.attributeKeys]
    have hnode := h.node_attribute (List.getElem?_eq_getElem hi')
    simp [attributes, h.node_element, ElementHead.attributeKeys, name?, value?, hnode]
  rw [readHead, hname, hns, hattr]
  rfl

theorem readLeaf_eq {l : Leaf} (h : doc.Places (.leaf l next) parent k left) :
    (ofContent doc).readLeaf k = l := by
  cases l <;>
    simp [readLeaf, kind, name?, value?, h.node_leaf, Leaf.kind, Leaf.name?, Leaf.value,
      QName.ofLocal]

/-- A sequence is read back from its place. -/
theorem readFrom_eq (h : doc.Places c parent k left) :
    (ofContent doc).readFrom (c.firstKey? k) = c := by
  induction c generalizing parent k left with
  | nil => rw [firstKey?_nil, readFrom]
  | leaf l next ih =>
    have hk : (ofContent doc).kind k ≠ .element := by
      cases l <;> simp [kind, h.node_leaf, Leaf.kind]
    rw [firstKey?_leaf, readFrom, if_neg hk, h.readLeaf_eq, h.afterLeaf.right?,
      ih h.afterLeaf]
  | element head body next ihb ihn =>
    have hk : (ofContent doc).kind k = .element := by simp [kind, h.node_element]
    rw [firstKey?_element, readFrom, if_pos hk, h.readHead_eq, h.afterElement.right?,
      ihn h.afterElement, h.body.firstChild?, ihb h.body]

end Places

end Content

namespace Snapshot

/-- The records of a snapshot are the listing of its document. -/
theorem map_facts_ofContent (c : Content) :
    (ofContent c).records.toList.map Record.facts = (.root, none, none) :: c.listing := by
  simp only [ofContent, documentRecords, List.map_cons, Content.map_facts_records]
  rfl

/-- Reading back is the inverse of laying out. -/
theorem content_ofContent (c : Content) : (ofContent c).content = c := by
  rw [content, Content.Places.document.firstChild?]
  exact Content.Places.document.readFrom_eq

/-- Laying out loses nothing: the table is the listing of the document, subtrees are intervals of
keys, and the content is read back, so that equal snapshots come from equal documents. -/
theorem ofContent_lossless (c : Content) :
    (ofContent c).records.toList.map Record.facts = (.root, none, none) :: c.listing ∧
    (∀ k < (ofContent c).size, ∃ e, k < e ∧ e ≤ (ofContent c).size ∧
      ∀ j < (ofContent c).size, (ofContent c).Contains k j ↔ k ≤ j ∧ j < e) ∧
    (ofContent c).content = c ∧
    ∀ d, ofContent d = ofContent c → d = c := by
  have h := isTree_ofContent c
  refine ⟨map_facts_ofContent c, fun k hk => ?_, content_ofContent c, fun d hd => ?_⟩
  · exact ⟨_, h.lt_endOf hk, h.endOf_le_size hk, fun j hj => h.contains_iff hj⟩
  · rw [← content_ofContent d, hd, content_ofContent]

end Snapshot

end DocTree
