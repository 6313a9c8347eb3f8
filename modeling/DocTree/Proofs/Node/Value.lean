import DocTree.Proofs.Layout.WellLinked
import DocTree.Proofs.Node.DocumentOrder
import DocTree.Proofs.Node.Missing

/-!
# The string value of a node

The text of a sequence is the text of its nodes one after the other: an element has the text of what
is inside it, a text has its characters, and comments and processing instructions have none. A cursor
that goes through the nodes below an element adds up the characters of all texts that it meets. The
subtree is an interval of keys, so that is the text of the body of the element, no more and no less.

## Main definitions

- `Content.text` — the text of a sequence
- `Content.Valued` — the string value that a document gives to a node
- `Snapshot.stringAt` — the string value that a cursor finds that is refused nothing

## Main statements

- `Content.Places.textOf_eq` — the nodes that a sequence takes have its text
- `Content.Places.partsOf_eq` — and so have its elements and texts, by their string values
- `Content.valued_iff` — the string value of a document is what a cursor finds
- `Node.stringValue_of_content` — the string value that a node tells
-/

namespace DocTree

open Snapshot

namespace Content

/-- The text of a sequence: the characters of its texts, at any depth. -/
def text : Content → String
  | nil => ""
  | element _ body next => body.text ++ next.text
  | leaf (.text value) next => value ++ next.text
  | leaf _ next => next.text

/-- The string value of the node with key `k` of the document `doc`. The document node and elements
have the text of what is below them, and every other node has what the document says: a leaf its
characters, a declaration the URI that it binds, an attribute its value. -/
inductive Valued (doc : Content) : (k : Nat) → String → Prop where
  | document : Valued doc 0 doc.text
  | element {head body next parent k left}
      (h : doc.Places (.element head body next) parent k left) : Valued doc k body.text
  | leaf {l next parent k left} (h : doc.Places (.leaf l next) parent k left) : Valued doc k l.value
  | declared {head body next parent e left i qualifier uri}
      (h : doc.Places (.element head body next) parent e left)
      (hi : head.namespaces[i]? = some (qualifier, uri)) : Valued doc (e + 1 + i) uri
  | attributed {head body next parent e left i name value}
      (h : doc.Places (.element head body next) parent e left)
      (hi : head.attributes[i]? = some (name, value)) :
      Valued doc (e + 1 + head.namespaces.length + i) value

end Content

namespace Snapshot

/-- The string value of a node that a cursor finds that is refused nothing. -/
def stringAt (t : Snapshot) (k : Nat) : String := t.valueWithin k (t.descendants k).length

/-- Whether the string value of a node is part of that of its parent. -/
def contributes (t : Snapshot) (k : Nat) : Bool := t.kind k == .element || t.kind k == .text

/-- The string values of those nodes of a list that are elements or texts, one after the other. -/
def partsOf (t : Snapshot) (ks : List Nat) : String :=
  String.join ((ks.filter t.contributes).map t.stringAt)

variable {t : Snapshot} {k : Nat} {ks js : List Nat}

theorem textOf_append (t : Snapshot) (ks js : List Nat) :
    t.textOf (ks ++ js) = t.textOf ks ++ t.textOf js := by
  rw [textOf, List.map_append, String.join_append, textOf, textOf]

theorem ne_text_of_parental (h : (t.kind k).isParental = true) : t.kind k ≠ .text := by
  intro htext
  rw [htext] at h
  cases h

theorem ne_text_of_owned (h : (t.kind k).isStructural = false) : t.kind k ≠ .text := by
  intro htext
  rw [htext] at h
  cases h

theorem ownText_of_ne_text (h : t.kind k ≠ .text) : t.ownText k = "" := if_neg h

/-- Nodes that are no texts can be left out. -/
theorem textOf_filter {selects : Nat → Bool} (h : ∀ k, selects k = false → t.kind k ≠ .text)
    (ks : List Nat) : t.textOf (ks.filter selects) = t.textOf ks := by
  induction ks with
  | nil => rfl
  | cons k ks ih =>
    rw [List.filter_cons]
    cases hk : selects k with
    | true => rw [if_pos rfl, textOf_cons, textOf_cons, ih]
    | false =>
      rw [if_neg (by decide), textOf_cons, ownText_of_ne_text (h k hk), String.empty_append, ih]

theorem textOf_eq_empty (h : ∀ k ∈ ks, t.kind k ≠ .text) : t.textOf ks = "" := by
  induction ks with
  | nil => rfl
  | cons k ks ih =>
    rw [textOf_cons, ownText_of_ne_text (h k List.mem_cons_self),
      ih fun j hj => h j (List.mem_cons_of_mem k hj), String.empty_append]

/-- The string value of the document node or of an element is the text of its whole subtree. -/
theorem stringAt_of_parental (h : t.IsTree) (hk : k < t.size)
    (hkind : (t.kind k).isParental = true) :
    t.stringAt k = t.textOf (List.range' k (t.endOf k - k)) := by
  have hend := h.lt_endOf hk
  have hcons : List.range' k (t.endOf k - k) =
      k :: List.range' (k + 1) (t.endOf k - (k + 1)) := by
    rw [← List.range'_succ]
    congr 1
    omega
  rw [stringAt, valueWithin, if_pos hkind, List.take_length, hcons, textOf_cons,
    ownText_of_ne_text (ne_text_of_parental hkind), String.empty_append, descendants, restOf,
    textOf_filter fun j hj => ne_text_of_owned hj]

theorem stringAt_of_stored (hkind : (t.kind k).isParental = false) :
    t.stringAt k = (t.value? k).getD "" := by
  rw [stringAt, valueWithin, hkind]
  rfl

theorem stringAt_of_text (hkind : t.kind k = .text) : t.stringAt k = t.ownText k := by
  rw [stringAt_of_stored (by rw [hkind]; rfl), ownText, if_pos hkind]

theorem partsOf_cons (t : Snapshot) (k : Nat) (ks : List Nat) :
    t.partsOf (k :: ks) = (if t.contributes k then t.stringAt k else "") ++ t.partsOf ks := by
  rw [partsOf, List.filter_cons]
  split
  · rw [List.map_cons, String.join_cons, partsOf]
  · rw [String.empty_append, partsOf]

end Snapshot

namespace Content

variable {doc s body next : Content} {head : ElementHead} {l : Leaf} {parent k j : Nat}
  {left : Option Nat} {v : String}

theorem text_leaf (l : Leaf) (next : Content) :
    (leaf l next).text = (if l.kind = .text then l.value else "") ++ next.text := by
  cases l with
  | text => rfl
  | comment | instruction => exact String.empty_append.symm

namespace Places

/-- An element, its declarations and its attributes have no text. -/
theorem textOf_head (h : doc.Places (.element head body next) parent k left) :
    (ofContent doc).textOf (List.range' k head.size) = "" := by
  have hstart : (ofContent doc).bodyStart k = k + head.size := by
    simp only [bodyStart, Snapshot.namespaces, Snapshot.attributes, h.node_element,
      ElementHead.namespaceKeys, ElementHead.attributeKeys, List.length_range', ElementHead.size]
    omega
  refine textOf_eq_empty fun j hj => ?_
  have hbounds := List.mem_range'_1.1 hj
  rcases Nat.eq_or_lt_of_le hbounds.1 with rfl | hkj
  · exact ne_text_of_parental h.body.isParental_parent
  · exact ne_text_of_owned ((isTree_ofContent doc).owned_of_lt_bodyStart hkj (by omega)).1

/-- The nodes that a sequence takes have its text. -/
theorem textOf_eq (h : doc.Places s parent k left) :
    (ofContent doc).textOf (List.range' k s.size) = s.text := by
  induction s generalizing parent k left with
  | nil => rfl
  | leaf l next ih =>
    have hown : (ofContent doc).ownText k = if l.kind = .text then l.value else "" := by
      simp [ownText, Snapshot.kind, Snapshot.value?, h.node_leaf]
    rw [size, Nat.add_comm, List.range'_succ, textOf_cons, hown, ih h.afterLeaf, text_leaf]
  | element head body next ihb ihn =>
    -- The keys are those of the head, of the body and of what follows, in this order.
    rw [size, ← List.range'_append_1, ← List.range'_append_1, textOf_append, textOf_append,
      h.textOf_head, String.empty_append, ihb h.body, ← Nat.add_assoc, ihn h.afterElement, text]

/-- The string value of an element is the text of its body. -/
theorem stringAt_element (h : doc.Places (.element head body next) parent k left) :
    (ofContent doc).stringAt k = body.text := by
  have hk : k < (ofContent doc).size := by
    have hbounds := h.bounds.2
    simp only [size, ElementHead.size] at hbounds
    rw [size_ofContent]
    omega
  rw [stringAt_of_parental (isTree_ofContent doc) hk h.body.isParental_parent, h.body.endOf,
    Nat.add_assoc, Nat.add_sub_cancel_left, ← List.range'_append_1, textOf_append, h.textOf_head,
    String.empty_append, h.body.textOf_eq]

theorem stringAt_leaf (h : doc.Places (.leaf l next) parent k left) :
    (ofContent doc).stringAt k = l.value := by
  have hkind : (ofContent doc).kind k = l.kind := by simp [Snapshot.kind, h.node_leaf]
  have hstored : l.kind.isParental = false := by cases l <;> rfl
  rw [stringAt_of_stored (by rw [hkind, hstored]), Snapshot.value?, h.node_leaf]
  rfl

/-- From a node on, the chain goes on with the sequence after the node. -/
theorem chain_eq (h : doc.Places s parent j (some k)) :
    (ofContent doc).chain k = k :: (s.firstKey? j).elim [] (ofContent doc).chain := by
  have hright := h.right?
  cases hfirst : s.firstKey? j with
  | none => exact chain_of_last (hright.trans hfirst)
  | some m => exact chain_of_right? (hright.trans hfirst)

/-- The elements and the texts of a sequence have its text, by their string values. -/
theorem partsOf_eq (h : doc.Places s parent k left) :
    (ofContent doc).partsOf ((s.firstKey? k).elim [] (ofContent doc).chain) = s.text := by
  induction s generalizing k left with
  | nil => rfl
  | leaf l next ih =>
    have hpart : (if (ofContent doc).contributes k then (ofContent doc).stringAt k else "") =
        if l.kind = .text then l.value else "" := by
      rw [h.stringAt_leaf, contributes, Snapshot.kind, h.node_leaf]
      cases l <;> rfl
    rw [firstKey?_leaf, Option.elim_some, h.afterLeaf.chain_eq, partsOf_cons, hpart,
      ih h.afterLeaf, text_leaf]
  | element head body next _ ih =>
    have hpart : (ofContent doc).contributes k = true := by
      rw [contributes, Snapshot.kind, h.node_element]
      rfl
    rw [firstKey?_element, Option.elim_some, h.afterElement.chain_eq, partsOf_cons, if_pos hpart,
      h.stringAt_element, ih h.afterElement, text]

end Places

theorem stringAt_document (doc : Content) : (ofContent doc).stringAt 0 = doc.text := by
  have hkind : ((ofContent doc).kind 0).isParental = true := Places.document.isParental_parent
  rw [stringAt_of_parental (isTree_ofContent doc) (ofContent doc).nonempty hkind,
    Places.document.endOf, Nat.sub_zero, Nat.add_comm, List.range'_succ, textOf_cons,
    ownText_of_ne_text (ne_text_of_parental hkind), String.empty_append, Places.document.textOf_eq]

/-- The document gives a node the string value that a cursor finds. -/
theorem Valued.eq_stringAt (h : doc.Valued k v) : v = (ofContent doc).stringAt k := by
  cases h with
  | document => exact (stringAt_document doc).symm
  | element h => exact h.stringAt_element.symm
  | leaf h => exact h.stringAt_leaf.symm
  | declared h hi =>
    have hnode := h.node_declaration hi
    rw [stringAt_of_stored (by simp [Snapshot.kind, hnode, Kind.isParental]), Snapshot.value?, hnode]
    rfl
  | attributed h hi =>
    have hnode := h.node_attribute hi
    rw [stringAt_of_stored (by simp [Snapshot.kind, hnode, Kind.isParental]), Snapshot.value?, hnode]
    rfl

/-- Every node has a string value. -/
theorem exists_valued (hk : k < (ofContent doc).size) : ∃ v, doc.Valued k v := by
  cases site_of_lt hk with
  | document => exact ⟨_, .document⟩
  | leaf h => exact ⟨_, .leaf h⟩
  | element h => exact ⟨_, .element h⟩
  | declared h hi => exact ⟨_, .declared h hi⟩
  | attributed h hi => exact ⟨_, .attributed h hi⟩

/-- The string value that the document gives to a node is what a cursor finds, and nothing else. -/
theorem valued_iff (hk : k < (ofContent doc).size) :
    doc.Valued k v ↔ v = (ofContent doc).stringAt k := by
  refine ⟨Valued.eq_stringAt, ?_⟩
  rintro rfl
  obtain ⟨v, hv⟩ := exists_valued hk
  exact hv.eq_stringAt ▸ hv

theorem forall₂_valued {ks : List Nat} (h : ∀ k ∈ ks, k < (ofContent doc).size) :
    List.Forall₂ doc.Valued ks (ks.map (ofContent doc).stringAt) :=
  List.forall₂_map_right_iff.2 (List.forall₂_same.2 fun k hk => (valued_iff (h k hk)).2 rfl)

/-- The document node and every element have a sequence below them and its text as string value. -/
theorem exists_places_of_parental (hk : k < (ofContent doc).size)
    (hkind : ((ofContent doc).kind k).isParental = true) :
    ∃ s m, doc.Places s k m none ∧ (ofContent doc).stringAt k = s.text := by
  cases site_of_lt hk with
  | document => exact ⟨_, _, .document, stringAt_document doc⟩
  | element h => exact ⟨_, _, h.body, h.stringAt_element⟩
  | @leaf l _ _ _ _ h =>
    rw [Snapshot.kind, h.node_leaf] at hkind
    cases l <;> cases hkind
  | declared h hi =>
    rw [Snapshot.kind, h.node_declaration hi] at hkind
    cases hkind
  | attributed h hi =>
    rw [Snapshot.kind, h.node_attribute hi] at hkind
    cases hkind

/-- The string value of the document node or of an element is made of those of its children. -/
theorem partsOf_childNodes (hk : k < (ofContent doc).size)
    (hkind : ((ofContent doc).kind k).isParental = true) :
    (ofContent doc).stringAt k = (ofContent doc).partsOf ((ofContent doc).childNodes k) := by
  obtain ⟨s, m, h, htext⟩ := exists_places_of_parental hk hkind
  have hchildren :
      (ofContent doc).childNodes k = (s.firstKey? m).elim [] (ofContent doc).chain := by
    rw [← (isTree_ofContent doc).childChain_eq k, childChain, h.firstChild?]
    cases s.firstKey? m <;> rfl
  rw [htext, hchildren, h.partsOf_eq]

/-- Every other node has its string value stored. -/
theorem value?_of_stored (hk : k < (ofContent doc).size)
    (hkind : ((ofContent doc).kind k).isParental = false) :
    (ofContent doc).value? k = some ((ofContent doc).stringAt k) := by
  rw [stringAt_of_stored hkind]
  cases site_of_lt hk with
  | document => cases hkind.symm.trans Places.document.isParental_parent
  | element h => cases hkind.symm.trans h.body.isParental_parent
  | leaf h => rw [Snapshot.value?, h.node_leaf]; rfl
  | declared h hi => rw [Snapshot.value?, h.node_declaration hi]; rfl
  | attributed h hi => rw [Snapshot.value?, h.node_attribute hi]; rfl

end Content

namespace Snapshot

variable {t : Snapshot} {k : Nat}

/-- The string value of the document node or of an element is made of the texts in its subtree. -/
theorem IsTree.exists_texts (h : t.IsTree) (hk : k < t.size)
    (hkind : (t.kind k).isParental = true) :
    ∃ texts : List Nat, texts.Pairwise (· < ·) ∧
      (∀ j, j ∈ texts ↔ t.kind j = .text ∧ t.Contains k j) ∧
      t.stringAt k = String.join (texts.map t.stringAt) := by
  refine ⟨(List.range' k (t.endOf k - k)).filter (t.kind · == .text),
    List.Pairwise.filter _ List.pairwise_lt_range', fun j => ?_, ?_⟩
  · have hend := h.lt_endOf hk
    rw [List.mem_filter, List.mem_range'_1, beq_iff_eq, and_comm]
    refine and_congr_right fun htext => ?_
    have hj : j < t.size := by
      by_contra hge
      have hroot : t.kind j = .root := by rw [kind, node_of_le (Nat.le_of_not_lt hge)]
      cases hroot.symm.trans htext
    rw [h.contains_iff hj]
    omega
  · -- What is left out has no text of its own, and a text has no other string value than that.
    have hown : ∀ j ∈ (List.range' k (t.endOf k - k)).filter (t.kind · == .text),
        t.stringAt j = t.ownText j := fun j hj =>
      stringAt_of_text (by simpa using (List.mem_filter.1 hj).2)
    rw [List.map_congr_left hown, stringAt_of_parental h hk hkind]
    exact (textOf_filter (fun j hj => by simpa using hj) _).symm

@[simp] theorem value?_withoutNames (t : Snapshot) (k : Nat) :
    t.withoutNames.value? k = t.value? k := by
  simp [value?, node_withoutNames]

@[simp] theorem stringAt_withoutNames (t : Snapshot) (k : Nat) :
    t.withoutNames.stringAt k = t.stringAt k := by
  have hown : t.withoutNames.ownText = t.ownText := by
    funext j
    simp [ownText]
  simp [stringAt, valueWithin, textOf, hown, descendants, restOf]

end Snapshot

@[simp] theorem Content.stringAt_seen (c : Content) (hidesNames : Bool) (k : Nat) :
    (c.seen hidesNames).stringAt k = (ofContent c).stringAt k := by
  cases hidesNames <;> simp [Content.seen]

/-- The string value of a node that a cursor at the node finds if it is refused nothing. -/
theorem Handle.ending_stringValue {σ : Type} {t : Snapshot} {k : Nat} (h : t.IsTree)
    (hk : k < t.size) {handle : Handle} (hkind : handle.kind = t.kind k) (hkey : handle.key = k) (s : σ) :
    ((handle.stringValue t k).ending s k).outcome = .ok (t.stringAt k) := by
  -- Any cursor at the node will do, with a meter that refuses nothing.
  have hrun := Reading.run_of_grantsNext (handle.stringValue t k) s (c := ⟨0, t, k, true⟩) (m := {})
    rfl (Meter.grantsNext_of_unlimited rfl _)
  have houtcome := outcome_stringValue (c := ⟨0, t, k, true⟩) (m := {}) h hk hkind hkey s rfl
    (Meter.grantsNext_of_unlimited rfl (t.descendants k).length)
    fun hless => absurd hless (Nat.lt_irrefl _)
  rwa [hrun] at houtcome

namespace Node

variable {x : Node} {r : Registry} {mount : Mount} {revision k : Nat} {c : Content}

/-- An undisturbed node tells a string value, and that is the one which the document gives to it. For
the document node and for elements it is made of the string values of all texts in the subtree, in
document order, and as well of those of the children that are elements or texts; for every other node
it is what is stored with it. -/
theorem stringValue_of_content (hx : x.At r mount revision c k) (h : x.stringValue.Undisturbed r) :
    let t := Snapshot.ofContent c
    ∃ v, x.stringValue.answer r = .ok v ∧ (∀ v', c.Valued k v' ↔ v' = v) ∧
      ((t.kind k).isParental = true →
        (∃ texts values, texts.Pairwise (· < ·) ∧
          (∀ j, j ∈ texts ↔ t.kind j = .text ∧ t.Contains k j) ∧
          List.Forall₂ c.Valued texts values ∧ v = String.join values) ∧
        ∃ parts, List.Forall₂ c.Valued
            ((t.childNodes k).filter fun j => t.kind j == .element || t.kind j == .text) parts ∧
          v = String.join parts) ∧
      ((t.kind k).isParental = false → t.value? k = some v) := by
  intro t
  have hk : k < t.size := hx.lt_size
  have htree : t.IsTree := isTree_ofContent c
  refine ⟨t.stringAt k, ?_, fun v' => Content.valued_iff hk, fun hkind => ⟨?texts, ?children⟩,
    Content.value?_of_stored hk⟩
  · rw [stringValue, hx.answer_read h, ← c.stringAt_seen (r.store mount.store).hidesNames]
    exact Handle.ending_stringValue (c.isTree_seen _) (by simpa using hx.lt_size) (hx.kind_eq _)
      hx.key_eq ()
  case texts =>
    obtain ⟨texts, hsorted, hmem, hjoin⟩ := htree.exists_texts hk hkind
    refine ⟨texts, texts.map t.stringAt, hsorted, hmem, Content.forall₂_valued ?_, hjoin⟩
    exact fun j hj => lt_size_of_contains hk ((hmem j).1 hj).2
  case children =>
    refine ⟨_, Content.forall₂_valued ?_, Content.partsOf_childNodes hk hkind⟩
    intro j hj
    exact List.mem_range.1 (List.mem_of_mem_filter (List.mem_of_mem_filter hj))

/-- A paragraph with a declaration and an attribute, with texts before, inside and after an element,
and with a comment and a processing instruction. Another text follows the paragraph. -/
def mixedContent : Content :=
  .element { name := .ofLocal "p", namespaces := [("", "urn:p")],
             attributes := [(.ofLocal "a", "1")] }
    (.leaf (.text "one ") (.element { name := .ofLocal "q" } (.leaf (.text "two ") .nil)
      (.leaf (.comment "c") (.leaf (.instruction "i" "d") (.leaf (.text "three ") .nil)))))
    (.leaf (.text "four") .nil)

/-- The paragraph has the three texts inside it for a string value, its declaration the URI. -/
theorem stringValue_of_content_mixed :
    let r : Registry :=
      { smallRegistry with stores := #[{ revisions := #[.ofContent mixedContent] }] }
    let node := fun key => (⟨(mixedContent.seen false).handle 0 key, 0⟩ : Node)
    (node 1).stringValue.answer r = .ok "one two three " ∧
      (node 2).stringValue.answer r = .ok "urn:p" := by
  intro r node
  have hat : ∀ key < 11, (node key).At r ⟨0, 0⟩ 0 mixedContent key := fun key hkey =>
    ⟨⟨smallDocument ⟨0, 0⟩, rfl, rfl, rfl⟩, rfl, ⟨false, rfl⟩, hkey⟩
  have hvalue : ∀ key < 11, ∀ v, mixedContent.Valued key v →
      (node key).stringValue.answer r = .ok v := by
    intro key hkey v hv
    obtain ⟨v', hanswer, hvalued, -⟩ :=
      stringValue_of_content (hat key hkey) (Access.undisturbed_of_single _ rfl rfl)
    rw [hanswer, (hvalued v).1 hv]
  constructor
  · exact hvalue 1 (by decide) _ (.element .document)
  · exact hvalue 2 (by decide) _
      (.declared (i := 0) .document (show _ = some ("", "urn:p") from rfl))

end Node

end DocTree
