import DocTree.Proofs.Registry.Undisturbed

/-!
# Attributes by name

Where nothing is refused, an attribute is looked for in the list of its element, and the first one with
the name counts. After each attribute the cursor returns to the element, so that it is there when the
search ends. What an element says in the document, it says in the same order.

## Main definitions

- `Snapshot.attributeNamed` — the value of an attribute, without a cursor

## Main statements

- `Snapshot.yields_findAttribute` — a cursor finds the same
- `Content.Places.attributeNamed` — and so does a look into the document
- `Node.At.answer_attributeValue` — what a node answers
-/

namespace DocTree

open Reading

variable {t : Snapshot} {σ : Type} {s : σ} {k owner : Nat} {uri localPart : String}

namespace Snapshot

/-- Whether the node at `k` has a name with a given URI and local part. -/
def isNamed (t : Snapshot) (uri localPart : String) (k : Nat) : Bool :=
  (t.name? k).any (·.isNamed uri localPart)

/-- The value of the first attribute of the node at `k` with a given name. -/
def attributeNamed (t : Snapshot) (uri localPart : String) (k : Nat) : Option String :=
  ((t.attributes k).find? (t.isNamed uri localPart)).map fun a => (t.value? a).getD ""

/-- Only elements have attributes. -/
theorem IsTree.attributeNamed_of_not_element (h : t.IsTree) (hk : t.kind k ≠ .element) :
    t.attributeNamed uri localPart k = none := by
  rw [attributeNamed, h.attributes_of_not_element hk]
  rfl

/-- The search finds the first one of what is left of the list, and is back at the owner then. -/
theorem yields_searchAttribute (t : Snapshot) (s : σ) (owner : Nat) {left index : Nat}
    (hleft : index + left = (t.attributes owner).length) :
    (t.searchAttribute uri localPart owner left index owner).Yields s owner
      ((((t.attributes owner).drop index).find? (t.isNamed uri localPart)).map
        fun a => (t.value? a).getD "", owner) s owner := by
  induction left generalizing index with
  | zero =>
    have hend : (t.attributes owner).length ≤ index := by omega
    rw [List.drop_eq_nil_of_le hend]
    exact .done _ s owner
  | succ left ih =>
    have hindex : index < (t.attributes owner).length := by omega
    let a := (t.attributes owner)[index]
    have ha : (t.attributes owner)[index]? = some a := List.getElem?_eq_getElem hindex
    rw [searchAttribute, ha, List.drop_eq_getElem_cons hindex]
    refine (Yields.ask (some a) s owner).bind ?_
    refine (Yields.ask (some owner) s a).bind ?_
    cases hnamed : t.isNamed uri localPart a with
    | true =>
      have hany : (t.name? a).any (·.isNamed uri localPart) = true := hnamed
      rw [List.find?_cons_of_pos hnamed]
      simp only [Option.isSome_some, if_true, hany]
      exact .done _ s owner
    | false =>
      have hany : (t.name? a).any (·.isNamed uri localPart) = false := hnamed
      rw [List.find?_cons_of_neg (by simp [a, hnamed])]
      simp only [Option.isSome_some, if_true, hany]
      exact ih (by omega)

theorem yields_findAttribute (t : Snapshot) (uri localPart : String) (s : σ) (k : Nat) :
    (t.findAttribute uri localPart k).Yields s k (t.attributeNamed uri localPart k, k) s k :=
  t.yields_searchAttribute s k (Nat.zero_add _)

end Snapshot

/-- The first entry of a list with a given name is at the first place with that name. -/
theorem find?_of_forall₂ {keys : List Nat} {entries : List (QName × String)}
    (h : List.Forall₂ (fun j entry => t.name? j = some entry.1 ∧ t.value? j = some entry.2) keys
      entries) :
    (keys.find? (t.isNamed uri localPart)).map (fun a => (t.value? a).getD "") =
      (entries.find? (·.1.isNamed uri localPart)).map (·.2) := by
  induction h with
  | nil => rfl
  | @cons j entry keys entries hentry _ ih =>
    obtain ⟨hname, hvalue⟩ := hentry
    have hnamed : t.isNamed uri localPart j = entry.1.isNamed uri localPart := by
      simp [Snapshot.isNamed, hname]
    rw [List.find?_cons, List.find?_cons, hnamed]
    cases entry.1.isNamed uri localPart with
    | true => simp [hvalue]
    | false => exact ih

/-- The first attribute with a name is the first one that the document gives the element. -/
theorem Content.Places.attributeNamed {doc body next : Content} {head : ElementHead} {parent : Nat}
    {left : Option Nat} (h : doc.Places (.element head body next) parent k left)
    (uri localPart : String) :
    (Snapshot.ofContent doc).attributeNamed uri localPart k =
      (head.attributes.find? (·.1.isNamed uri localPart)).map (·.2) :=
  find?_of_forall₂ h.forall₂_attributes

namespace Node

variable {x : Node} {r : Registry} {mount : Mount} {revision : Nat} {c : Content}

/-- An undisturbed node tells the value of its attribute, if it is an element. -/
theorem At.answer_attributeValue (hx : x.At r mount revision c k) (uri localPart : String)
    (h : (x.attributeValue uri localPart).Undisturbed r) :
    (x.attributeValue uri localPart).answer r =
      .ok ((c.seen (r.store mount.store).hidesNames).attributeNamed uri localPart k) := by
  by_cases hkind : x.handle.kind = .element
  · rw [attributeValue, if_pos hkind] at h ⊢
    rw [hx.answer_read h]
    have hyields := ((c.seen (r.store mount.store).hidesNames).yields_findAttribute uri localPart ()
      k).bind (f := fun found => pure found.1) (.done _ () k)
    obtain ⟨n, hending⟩ := hyields
    rw [hending]
  · rw [attributeValue, if_neg hkind]
    rw [hx.kind_eq (r.store mount.store).hidesNames] at hkind
    rw [(c.isTree_seen _).attributeNamed_of_not_element hkind]
    rfl

end Node

end DocTree
