import DocTree.Snapshot.Builder

/-!
# The table that is built is the one that is laid out

A table that is built record by record is the one whose records are written with all their links at
once. While a sequence is added, its nodes lack the links to each other, and the elements in it that are
complete lack nothing. Linking the sequence supplies what is missing, from left to right.

## Main definitions

- `Content.keys` — the places of the nodes of a sequence
- `Content.unlinked` — the records of a sequence before its nodes are linked to each other

## Main statements

- `Table.link_eq` — linking a sequence supplies the links that its records lack
- `Table.flatten_eq` — adding a sequence appends its records
- `Snapshot.records_ofContent` — the records of a document
-/

namespace DocTree

namespace Content

/-- The places of the nodes of a sequence that starts at place `k`. -/
def keys : Content → (k : Nat) → List Nat
  | nil, _ => []
  | leaf _ next, k => k :: next.keys (k + 1)
  | element head body next, k => k :: next.keys (k + head.size + body.size)

/-- The records of all that belongs to an element at place `k`. -/
def belongings (head : ElementHead) (body : Content) (k : Nat) : List Record :=
  head.namespaceRecords k ++ head.attributeRecords k ++ body.records k (k + head.size) none

/-- The records of a sequence before its nodes are linked to each other. Only the first node may be
linked, to the node `left` before it. -/
def unlinked : Content → (parent k : Nat) → (left : Option Nat) → List Record
  | nil, _, _, _ => []
  | leaf l next, parent, k, left =>
    { key := k, kind := l.kind, name? := l.name?, value? := some l.value, parent? := some parent,
      left? := left } :: next.unlinked parent (k + 1) none
  | element head body next, parent, k, left =>
    let inner := k + head.size
    let after := inner + body.size
    { key := k, kind := .element, name? := some head.name, parent? := some parent,
      firstChild? := body.firstKey? inner, left? := left, childCount := body.length,
      attributes := head.attributeKeys k, namespaces := head.namespaceKeys k } ::
      (belongings head body k ++ next.unlinked parent after none)

theorem length_belongings (head : ElementHead) (body : Content) (k : Nat) :
    (belongings head body k).length + 1 = head.size + body.size := by
  simp only [belongings, List.length_append, ElementHead.length_namespaceRecords,
    ElementHead.length_attributeRecords, length_records, ElementHead.size]
  omega

theorem records_element (head : ElementHead) (body next : Content) (parent k : Nat)
    (left : Option Nat) :
    (element head body next).records parent k left =
      { key := k, kind := .element, name? := some head.name, parent? := some parent,
        firstChild? := body.firstKey? (k + head.size), left? := left,
        right? := next.firstKey? (k + head.size + body.size), childCount := body.length,
        attributes := head.attributeKeys k, namespaces := head.namespaceKeys k } ::
        (belongings head body k ++ next.records parent (k + head.size + body.size) (some k)) := by
  simp only [records, belongings, List.append_assoc]

theorem head?_keys (c : Content) (k : Nat) : (c.keys k).head? = c.firstKey? k := by
  cases c <;> rfl

theorem length_keys (c : Content) (k : Nat) : (c.keys k).length = c.length := by
  induction c generalizing k with
  | nil => rfl
  | leaf l next ih => exact congrArg (· + 1) (ih _)
  | element head body next _ ih => exact congrArg (· + 1) (ih _)

/-- The link to the left stands in the first record of a sequence and nowhere else. -/
theorem exists_unlinked_eq {c : Content} (hc : c ≠ nil) (parent k : Nat) :
    ∃ (r : Record) (rest : List Record) (keys : List Nat),
      c.keys k = k :: keys ∧ c.firstKey? k = some k ∧ ∀ left, c.unlinked parent k left = { r with left? := left } :: rest := by
  cases c with
  | nil => exact absurd rfl hc
  | leaf l next =>
    exact ⟨{
      key := k, kind := l.kind, name? := l.name?, value? := some l.value, parent? := some parent },
      _, _, rfl, rfl, fun _ => rfl⟩
  | element head body next =>
    exact ⟨{
      key := k, kind := .element, name? := some head.name, parent? := some parent,
      firstChild? := body.firstKey? (k + head.size), childCount := body.length,
      attributes := head.attributeKeys k, namespaces := head.namespaceKeys k },
      _, _, rfl, rfl, fun _ => rfl⟩

end Content

namespace Table

variable {before after : List Record} {r : Record} {c : Content} {parent k : Nat}

/-- A change at the place after some records changes the next one. -/
theorem modify_at (f : Record → Record) (hk : before.length = k) :
    (before ++ r :: after).toArray.modify k f = (before ++ f r :: after).toArray := by
  subst hk
  rw [List.modify_toArray]
  congr 1
  induction before with
  | nil => rfl
  | cons s before ih => exact congrArg (s :: ·) ih

/-- A node is complete when it is linked to the first node of the rest of its sequence. -/
theorem linkSiblings_cons (inside : List Record) (hk : before.length + 1 + inside.length = k)
    (hr : r.right? = none) :
    linkSiblings (before.length :: c.keys k)
        (before ++ r :: (inside ++ c.unlinked parent k none)).toArray =
      linkSiblings (c.keys k) (before ++ { r with right? := c.firstKey? k } ::
        (inside ++ c.unlinked parent k (some before.length))).toArray := by
  by_cases hc : c = .nil
  · subst hc
    show _ = linkSiblings [] (before ++ { r with right? := none } :: (inside ++ [])).toArray
    rw [← hr]
    rfl
  · obtain ⟨next, rest, keys, hkeys, hfirst, hunlinked⟩ := Content.exists_unlinked_eq hc parent k
    have hlength : (before ++ { r with right? := some k } :: inside).length = k := by
      rw [List.length_append, List.length_cons]
      omega
    rw [hkeys, hfirst, hunlinked, hunlinked, linkSiblings, modify_at _ rfl, ← List.cons_append,
      ← List.append_assoc, modify_at _ hlength, List.append_assoc, List.cons_append]

/-- Linking the nodes of a sequence to each other supplies the links that their records lack. -/
theorem linkSiblings_eq (c : Content) (parent : Nat) (left : Option Nat) (hk : before.length = k) :
    linkSiblings (c.keys k) (before ++ c.unlinked parent k left).toArray =
      (before ++ c.records parent k left).toArray := by
  induction c generalizing before k left with
  | nil => rfl
  | leaf l next ih =>
    subst hk
    refine (linkSiblings_cons [] rfl rfl).trans ?_
    rw [List.nil_append, List.append_cons, ih _ (by simp), ← List.append_cons]
    rfl
  | element head body next _ ih =>
    subst hk
    have hlength := Content.length_belongings head body before.length
    refine (linkSiblings_cons _ (by omega) rfl).trans ?_
    rw [← List.cons_append, ← List.append_assoc, ih _ (by simp; omega), Content.records_element,
      List.append_assoc, List.cons_append]

/-- Linking a sequence to its parent supplies all links that are missing, in the nodes of the sequence
and in the parent. -/
theorem link_eq (c : Content) (before inside : List Record) (hparent : before.length = parent)
    (hk : parent + 1 + inside.length = k) :
    link parent (c.keys k) (before ++ r :: (inside ++ c.unlinked parent k none)).toArray =
      (before ++ { r with firstChild? := c.firstKey? k, childCount := c.length } ::
        (inside ++ c.records parent k none)).toArray := by
  rw [link, c.head?_keys, c.length_keys, modify_at _ hparent, ← List.cons_append,
    ← List.append_assoc, linkSiblings_eq c parent none (by simp; omega), List.append_assoc,
    List.cons_append]

/-- Records that belong to an element are added behind all others, and the element, which has noted some
keys, notes theirs as well. -/
theorem foldl_addOwned {α : Type} (note : Nat → Record → Record) (noted : List Nat → Record)
    (hnoted : ∀ keys key, note key (noted keys) = noted (keys ++ [key])) (make : α → Nat → Record)
    (xs : List α) (keys : List Nat) (inside : List Record) (hk : before.length = k) :
    xs.foldl (fun t x => addOwned note k (make x) t) (before ++ noted keys :: inside).toArray =
      (before ++ noted (keys ++ List.range' (k + 1 + inside.length) xs.length) ::
        (inside ++ xs.mapIdx fun i x => make x (k + 1 + inside.length + i))).toArray := by
  induction xs generalizing keys inside with
  | nil => simp
  | cons x xs ih =>
    have hkey : nextKey (before ++ noted keys :: inside).toArray = k + 1 + inside.length := by
      simp only [nextKey, List.size_toArray, List.length_append, List.length_cons]
      omega
    rw [List.foldl_cons, addOwned, hkey, modify_at _ hk, hnoted, List.push_toArray, List.append_assoc,
      List.cons_append, ih]
    simp [List.range'_succ, List.mapIdx_cons, Nat.add_comm, Nat.add_left_comm]

/-- An element is added with its declarations and its attributes behind it. -/
theorem addElement_eq (parent : Nat) (head : ElementHead) (hk : before.length = k) :
    addElement parent head before.toArray = (before ++
      { key := k, kind := .element, name? := some head.name, parent? := some parent
        attributes := head.attributeKeys k, namespaces := head.namespaceKeys k } ::
        (head.namespaceRecords k ++ head.attributeRecords k)).toArray := by
  let r : Record := { key := k, kind := .element, name? := some head.name, parent? := some parent }
  have hdeclared : head.namespaces.foldl (declare k) (before ++ [r]).toArray =
      (before ++ { r with namespaces := head.namespaceKeys k } :: head.namespaceRecords k).toArray :=
    foldl_addOwned _ (fun keys => { r with namespaces := keys }) (fun _ _ => rfl) _ head.namespaces
      [] [] hk
  have hattached := foldl_addOwned
    (fun key s => { s with attributes := s.attributes ++ [key] })
    (fun keys => { r with attributes := keys, namespaces := head.namespaceKeys k }) (fun _ _ => rfl)
    (fun pair key =>
      { key, kind := .attribute, name? := some pair.1, value? := some pair.2, parent? := some k })
    head.attributes [] (head.namespaceRecords k) hk
  rw [ElementHead.length_namespaceRecords] at hattached
  have hkey : nextKey before.toArray = k := hk
  rw [addElement, hkey, List.push_toArray, hdeclared]
  exact hattached

/-- A sequence is added behind all other records. It lacks the links between its own nodes only. -/
theorem flatten_eq (c : Content) (parent : Nat) (hk : before.length = k) :
    flatten parent c before.toArray = ((before ++ c.unlinked parent k none).toArray, c.keys k) := by
  have hkey : nextKey before.toArray = k := hk
  induction c generalizing before parent k with
  | nil => simp [flatten, Content.unlinked, Content.keys]
  | leaf l next ih =>
    let node : Record :=
      { key := k, kind := l.kind, name? := l.name?, value? := some l.value, parent? := some parent }
    have hlength : (before ++ [node]).length = k + 1 := by rw [← hk, List.length_append]; rfl
    have hnext := ih parent hlength hlength
    rw [← List.append_cons] at hnext
    rw [flatten, hkey, List.push_toArray, hnext]
    rfl
  | element head body next ihb ihn =>
    let node : Record :=
      { key := k, kind := .element, name? := some head.name, parent? := some parent
        attributes := head.attributeKeys k, namespaces := head.namespaceKeys k }
    let owned := head.namespaceRecords k ++ head.attributeRecords k
    have howned : k + 1 + owned.length = k + head.size := by
      simp only [owned, List.length_append, ElementHead.length_namespaceRecords,
        ElementHead.length_attributeRecords, ElementHead.size]
      omega
    have hadded : addElement parent head before.toArray = (before ++ node :: owned).toArray :=
      addElement_eq parent head hk
    -- The content of the element is added behind the element, and then linked.
    have hinner : (before ++ node :: owned).length = k + head.size := by
      rw [List.length_append, List.length_cons]
      omega
    have hbody := ihb k hinner hinner
    rw [List.append_assoc, List.cons_append] at hbody
    let complete : Record :=
      { node with firstChild? := body.firstKey? (k + head.size), childCount := body.length }
    have hlinked : link k (body.keys (k + head.size))
        (before ++ node :: (owned ++ body.unlinked k (k + head.size) none)).toArray =
        (before ++ complete :: Content.belongings head body k).toArray :=
      link_eq body before owned hk howned
    -- What comes after it is added behind all that.
    have hlength := Content.length_belongings head body k
    have hafter : (before ++ complete :: Content.belongings head body k).length =
        k + head.size + body.size := by
      rw [List.length_append, List.length_cons]
      omega
    have hnext := ihn parent hafter hafter
    rw [List.append_assoc, List.cons_append] at hnext
    rw [flatten, hkey, hadded, hbody]
    dsimp only
    rw [hlinked, hnext]
    rfl

/-- The table that is built for a document. -/
theorem build_eq (c : Content) : build c = (Snapshot.documentRecords c).toArray := by
  let root : Record := { key := 0, kind := .root }
  have hflatten : flatten 0 c #[root] = (([root] ++ c.unlinked 0 1 none).toArray, c.keys 1) :=
    flatten_eq c 0 rfl
  rw [build, hflatten]
  exact link_eq c [] [] rfl rfl

end Table

/-- The records of a document are those of the table that is built for it record by record. -/
theorem Snapshot.records_ofContent (c : Content) : (ofContent c).records = Table.build c :=
  (Table.build_eq c).symm

end DocTree
