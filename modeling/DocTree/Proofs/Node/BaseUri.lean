import DocTree.Proofs.Node.Attribute
import DocTree.Proofs.Node.Identity

/-!
# Base URIs

The base URI of a node is the value of the nearest `xml:base`, on the node itself or on an element
above it. Only if there is none it depends on what has happened: it is then the one that was given to
the document last, or that the document was opened with. Nothing else that happens to a world changes
a document that stays open.

## Main definitions

- `World.Event.amend` — what an event makes of a document
- `World.Event.baseFor?` — the base URI that an event gives to a document

## Main statements

- `Snapshot.IsTree.yields_baseAt` — a cursor finds the nearest value
- `World.document?_run` — a document after all that has happened
- `Node.baseUri_after` — the base URI of a node, at any time
-/

namespace DocTree

open Reading

variable {t : Snapshot} {σ : Type} {k : Nat}

namespace Snapshot

/-- The value of `xml:base` on the node at `k`. -/
def ownBase (t : Snapshot) : Nat → Option String := t.attributeNamed xmlNamespace "base"

theorem length_ancestors_le (t : Snapshot) (k : Nat) : (t.ancestors k).length ≤ k := by
  induction k using ancestors.induct t with
  | case1 k p hp ih =>
    have hpk := parent?_lt hp
    rw [ancestors_of_parent? hp, List.length_cons]
    omega
  | case2 k hp =>
    rw [ancestors_of_parentless hp]
    exact Nat.zero_le k

/-- What is done with the value at one level. Nodes that are no elements have none. -/
theorem IsTree.yields_level (h : t.IsTree) {f : Option String × Nat → Reading σ (Option String)}
    {s : σ} {base : Option String} {top : Nat} (hnext : (f (t.ownBase k, k)).Yields s k base s top) :
    (if t.kind k = .element then t.findAttribute xmlNamespace "base" k >>= f
      else pure (none, k) >>= f).Yields s k base s top := by
  split
  · exact (t.yields_findAttribute xmlNamespace "base" s k).bind hnext
  · rename_i hkind
    rw [ownBase, h.attributeNamed_of_not_element hkind] at hnext
    exact hnext

/-- Going up level by level the cursor finds the nearest value. -/
theorem IsTree.yields_nearestBase (h : t.IsTree) (s : σ) {levels : Nat}
    (hlevels : (t.ancestors k).length < levels) :
    ∃ top, (t.nearestBase levels k).Yields s k ((k :: t.ancestors k).findSome? t.ownBase) s top := by
  induction levels generalizing k with
  | zero => exact absurd hlevels (Nat.not_lt_zero _)
  | succ levels ih =>
    rw [nearestBase, List.findSome?_cons]
    cases hown : t.ownBase k with
    | some value =>
      refine ⟨k, h.yields_level ?_⟩
      simp only [hown]
      exact .done (some value) s k
    | none =>
      cases hp : t.parent? k with
      | some p =>
        rw [ancestors_of_parent? hp, List.length_cons] at hlevels
        obtain ⟨top, hrest⟩ := ih (k := p) (by omega)
        rw [ancestors_of_parent? hp]
        refine ⟨top, h.yields_level ?_⟩
        simp only [hown, hp]
        exact (Yields.step (some p) s k).bind hrest
      | none =>
        rw [ancestors_of_parentless hp]
        refine ⟨k, h.yields_level ?_⟩
        simp only [hown, hp]
        exact .done none s k

/-- There are levels enough to come to the document node. -/
theorem IsTree.yields_baseAt (h : t.IsTree) (hk : k < t.size) (s : σ) :
    ∃ top, (t.baseAt k).Yields s k ((k :: t.ancestors k).findSome? t.ownBase) s top := by
  have hlength := t.length_ancestors_le k
  exact h.yields_nearestBase s (by omega)

end Snapshot

namespace World

variable {w : World} {id : Nat} {d d' : Document}

/-- What an event makes of the document with a number. -/
def Event.amend (id : Nat) (d? : Option Document) : Event → Option Document
  | .setBaseUri other uri =>
    if id = other then d?.map fun d => { d with baseUri? := some uri } else d?
  | .releaseDocument other => if id = other then none else d?
  | _ => d?

/-- The base URI that an event gives to the document with a number. -/
def Event.baseFor? (id : Nat) : Event → Option String
  | .setBaseUri other uri => if id = other then some uri else none
  | _ => none

/-- A document that stays open only has its base URI changed. -/
theorem Event.eq_of_amend {event : Event} (h : event.amend id (some d) = some d') :
    d' = { d with baseUri? := (event.baseFor? id).or d.baseUri? } := by
  cases event with
  | setBaseUri other uri =>
    simp only [amend, baseFor?] at h ⊢
    split at h
    · cases h
      simp [*]
    · cases h
      simp [*]
  | releaseDocument other =>
    simp only [amend] at h
    split at h
    · cases h
    · cases h
      rfl
  | _ =>
    cases h
    rfl

/-- One event changes the document with a number, open or released, as it says. -/
theorem document?_step (hid : id < w.registry.documents.size) (event : Event) :
    (w.step event).registry.document? id = event.amend id (w.registry.document? id) ∧
      id < (w.step event).registry.documents.size := by
  cases event with
  | addStore s => exact ⟨rfl, hid⟩
  | clone i =>
    cases hm : w.mounts[i]? <;> simp only [step, hm] <;> exact ⟨rfl, hid⟩
  | addPool => exact ⟨rfl, hid⟩
  | openDocument i revision pool config =>
    cases hm : w.mounts[i]? <;> simp only [step, hm]
    · exact ⟨rfl, hid⟩
    · exact (Registry.opens_openDocument _ revision pool config).document? hid
  | openLatest i pool config =>
    cases hm : w.mounts[i]? <;> simp only [step, hm]
    · exact ⟨rfl, hid⟩
    · exact (Registry.opens_openLatest _ pool config).document? hid
  | setBaseUri other uri =>
    refine ⟨Registry.document?_modifyDocument .., ?_⟩
    exact Nat.lt_of_lt_of_eq hid Array.size_modify.symm
  | releaseDocument other =>
    refine ⟨Registry.document?_releaseDocument .., ?_⟩
    exact Nat.lt_of_lt_of_eq hid Array.size_setIfInBounds.symm
  | onStore store work => exact ⟨rfl, hid⟩
  | onPool pool work => exact ⟨rfl, hid⟩

/-- A document that has been released does not come back. -/
theorem document?_run_of_none (hid : id < w.registry.documents.size)
    (hd : w.registry.document? id = none) (events : List Event) :
    (w.run events).registry.document? id = none := by
  induction events generalizing w with
  | nil => exact hd
  | cons event events ih =>
    obtain ⟨hstep, hid'⟩ := document?_step hid event
    refine ih hid' ?_
    rw [hstep, hd]
    cases event <;> simp [Event.amend]

theorem lt_size_of_document? {r : Registry} (hd : r.document? id = some d) :
    id < r.documents.size := by
  by_contra hid
  have hnone : r.documents[id]? = none := by simpa using hid
  simp [Registry.document?, hnone] at hd

/-- After all that has happened, a document that is still open is as it was, but with the base URI that
was given to it last. -/
theorem document?_run (hd : w.registry.document? id = some d) (events : List Event)
    (hd' : (w.run events).registry.document? id = some d') :
    d' = { d with baseUri? := (events.reverse.findSome? (·.baseFor? id)).or d.baseUri? } := by
  induction events generalizing w d with
  | nil => exact Option.some.inj (hd'.symm.trans hd)
  | cons event events ih =>
    obtain ⟨hstep, hid⟩ := document?_step (lt_size_of_document? hd) event
    rw [hd] at hstep
    cases hamend : event.amend id (some d) with
    | none =>
      cases (document?_run_of_none hid (hstep.trans hamend) events).symm.trans hd'
    | some d₁ =>
      rw [ih (hstep.trans hamend) hd', Event.eq_of_amend hamend]
      simp [List.findSome?_append, Option.or_assoc]

end World

namespace Node

open Snapshot

variable {x : Node} {r : Registry} {mount : Mount} {revision : Nat} {c : Content} {d : Document}

theorem run_baseUri (hd : r.document? x.document = some d) :
    x.baseUri.run r = (((x.read Snapshot.baseAt).run r).1.map (·.or d.baseUri?),
      ((x.read Snapshot.baseAt).run r).2) := by
  rw [baseUri, Access.run_bind_of_ok (run_getDocument hd), run_read hd]
  rcases hread : (d.read x.handle.key Snapshot.baseAt).run r with ⟨e | found, r'⟩
  · exact Access.run_bind_of_error hread
  · rw [Access.run_bind_of_ok hread]
    cases found <;> rfl

/-- An undisturbed node tells the nearest value, or the base URI of its document. -/
theorem At.answer_baseUri (hx : x.At r mount revision c k) (hd : r.document? x.document = some d)
    (h : x.baseUri.Undisturbed r) :
    x.baseUri.answer r = .ok (((k :: (Snapshot.ofContent c).ancestors k).findSome?
      (c.seen (r.store mount.store).hidesNames).ownBase).or d.baseUri?) := by
  have hread : (x.read Snapshot.baseAt).Undisturbed r := by
    intro id
    have hid := h id
    rwa [run_baseUri hd] at hid
  have hanswer := hx.answer_read hread
  obtain ⟨top, n, hending⟩ := (c.isTree_seen (r.store mount.store).hidesNames).yields_baseAt
    (by simpa using hx.lt_size) ()
  rw [hending, c.ancestors_seen] at hanswer
  rw [Access.answer] at hanswer
  rw [Access.answer, run_baseUri hd, hanswer]
  rfl

/-- Whatever has happened to a document that is open, the base URI of a node is the value of the first
attribute `xml:base` of the nearest element that has one, from the node itself upward; and if there is
none, what was given to the document last, or else what it had before. -/
theorem baseUri_after (w : World) (events : List World.Event)
    (hd : w.registry.document? x.document = some d)
    (hx : x.At (w.run events).registry mount revision c k)
    (h : x.baseUri.Undisturbed (w.run events).registry) :
    let r := (w.run events).registry
    ∃ (base : Nat → Option String) (current : Option String),
      x.baseUri.answer r =
        .ok (((k :: (Snapshot.ofContent c).ancestors k).findSome? base).or current) ∧
      (∀ (y : Node) (j : Nat), y.At r mount revision c j →
        (y.attributeValue xmlNamespace "base").Undisturbed r →
        (y.attributeValue xmlNamespace "base").answer r = .ok (base j)) ∧
      (∀ j, (Snapshot.ofContent c).kind j ≠ .element → base j = none) ∧
      ((r.store mount.store).hidesNames = false → ∀ head body next parent left j,
        c.Places (.element head body next) parent j left →
          base j = (head.attributes.find? (·.1.isNamed xmlNamespace "base")).map (·.2)) ∧
      x.systemId.answer r = .ok current ∧
      current = (events.reverse.findSome? (·.baseFor? x.document)).or d.baseUri? := by
  intro r
  obtain ⟨d', hd', -⟩ := hx.document
  refine ⟨(c.seen (r.store mount.store).hidesNames).ownBase, d'.baseUri?,
    hx.answer_baseUri hd' h, ?values, ?others, ?content, ?current, ?last⟩
  case values =>
    intro y j hy hread
    exact hy.answer_attributeValue xmlNamespace "base" hread
  case others =>
    intro j hkind
    rw [← c.kind_seen (r.store mount.store).hidesNames] at hkind
    exact (c.isTree_seen _).attributeNamed_of_not_element hkind
  case content =>
    intro hnames head body next parent left j hplaces
    rw [hnames]
    exact hplaces.attributeNamed xmlNamespace "base"
  case current =>
    exact congrArg Prod.fst (Access.run_bind_of_ok (f := fun d => pure d.baseUri?)
      (run_getDocument hd'))
  case last => rw [World.document?_run hd events hd']

/-- An element with two attributes `xml:base`, the first one empty, and an element with a text and an
attribute in it. -/
def basedContent : Content :=
  .element
    { name := .ofLocal "a", attributes := [(.xml "base", ""), (.xml "base", "http://example.org/")] }
    (.element { name := .ofLocal "b", attributes := [(.ofLocal "base", "u")] }
      (.leaf (.text "t") .nil) .nil) .nil

/-- Two base URIs have been given to the document. The text inside has the empty one of the outer
element, and the document node, with nothing around it, the last one of the document. -/
theorem baseUri_after_twice :
    let w : World :=
      { registry := { smallRegistry with stores := #[{ revisions := #[.ofContent basedContent] }] } }
    let r := (w.run [.setBaseUri 0 "first", .addPool, .setBaseUri 0 "second"]).registry
    let node := fun key => (⟨(basedContent.seen false).handle 0 key, 0⟩ : Node)
    (node 6).baseUri.answer r = .ok (some "") ∧ (node 0).baseUri.answer r = .ok (some "second") := by
  intro w r node
  have hat : ∀ key < 7, (node key).At r ⟨0, 0⟩ 0 basedContent key := fun key hkey =>
    ⟨⟨_, rfl, rfl, rfl⟩, rfl, ⟨false, rfl⟩, hkey⟩
  have hup : (Snapshot.ofContent basedContent).ancestors 6 = [4, 1, 0] := by
    rw [ancestors_of_parent? rfl, ancestors_of_parent? rfl, ancestors_of_parent? rfl,
      ancestors_of_parentless rfl]
    rfl
  constructor
  · obtain ⟨base, current, hanswer, -, hothers, hbase, -, -⟩ := baseUri_after w _
      (d := smallDocument ⟨0, 0⟩) rfl (hat 6 (by decide)) (Access.undisturbed_of_single _ rfl rfl)
    have hinner : base 4 = none := hbase rfl _ _ _ _ _ 4 (.body .document)
    have houter : base 1 = some "" := hbase rfl _ _ _ _ _ 1 .document
    rw [hanswer, hup]
    simp only [List.findSome?_cons, hothers 6 (by decide), hinner, houter]
    rfl
  · obtain ⟨base, current, hanswer, -, hothers, -, -, hcurrent⟩ := baseUri_after w _
      (d := smallDocument ⟨0, 0⟩) rfl (hat 0 (by decide)) (Access.undisturbed_of_single _ rfl rfl)
    rw [hanswer, hcurrent, ancestors_of_parentless rfl]
    simp only [List.findSome?_cons, hothers 0 (by decide)]
    rfl

end Node

end DocTree
