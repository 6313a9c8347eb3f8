import DocTree.Proofs.Axis.Fingerprint
import DocTree.Proofs.Axis.Links
import DocTree.Proofs.Axis.Nodes
import DocTree.Proofs.Node.Attribute
import DocTree.Proofs.Node.Value

/-!
# Attributes by name and along their axis

An element can be asked for the value of an attribute, or for its attributes one by one with a test for
the name. Both look through the same list and take the first attribute that fits, so that they come to
the same value, also if the list has several attributes of one name. By fingerprint it is the same: the
pool that finds the name of a code finds the code of that name.

## Main definitions

- `Node.valueOfFirst?` — the string value of the first of some nodes

## Main statements

- `Node.At.onAxis_attribute` — the attributes with a name along their axis
- `Node.attributeValue_of_axis` — the value of an attribute is that of the first node on the axis
-/

namespace DocTree

open Snapshot

namespace Snapshot

variable {t : Snapshot} {k a : Nat}

/-- A test for the name of an attribute looks at what the search for the attribute looks at. -/
theorem IsTree.accepts_name (h : t.IsTree) (ha : a ∈ t.attributes k) (revision : Nat)
    (uri localPart : String) (pool : NamePool) :
    (NodeTest.name .attribute uri localPart).accepts pool (t.handle revision a) =
      t.isNamed uri localPart a := by
  have hkind : t.kind a = .attribute := (h.mem_attributes_iff.1 ha).1
  show ((t.kind a == .attribute) &&
    (t.handle revision a).expandedName? == some (uri, localPart)) = _
  have hname : (t.handle revision a).expandedName? =
      (t.name? a).map fun n => (n.uri, n.localPart) := by
    simp [handle, Handle.make, Handle.expandedName?, hkind, Kind.isNamed]
  rw [hname, hkind, isNamed]
  cases t.name? a with
  | none => rfl
  | some n => rfl

/-- The first attribute with a name has the value that the search finds. -/
theorem IsTree.attributeNamed_eq_head? (h : t.IsTree) (uri localPart : String) (k : Nat) :
    t.attributeNamed uri localPart k =
      ((t.attributes k).filter (t.isNamed uri localPart)).head?.map t.stringAt := by
  rw [attributeNamed, List.head?_filter]
  cases hfind : (t.attributes k).find? (t.isNamed uri localPart) with
  | none => rfl
  | some a =>
    have hkind : t.kind a = .attribute :=
      (h.mem_attributes_iff.1 (List.mem_of_find?_eq_some hfind)).1
    have hstored : (t.kind a).isParental = false := by rw [hkind]; rfl
    rw [Option.map_some, Option.map_some, stringAt_of_stored hstored]

end Snapshot

/-- A name that the pool finds for a code has that code. -/
theorem NamePool.fingerprint?_of_expandedName? {p : NamePool} {code : Int} {name : QName}
    (h : p.expandedName? code = some name) :
    ∃ f, p.fingerprint? name.uri name.localPart = some f ∧ (f : Int) = code := by
  have hname : name = ⟨"", name.localPart, name.uri⟩ := by
    unfold expandedName? at h
    split at h
    · obtain ⟨_, -, rfl⟩ := Option.map_eq_some_iff.1 h
      rfl
    · cases h
  rw [hname] at h
  exact Option.map_eq_some_iff.1 ((p.map_fingerprint?_eq_some_iff _ _ code).2 h)

namespace Node

variable {x : Node} {r : Registry} {mount : Mount} {revision k : Nat} {c : Content} {d : Document}
  {uri localPart : String}

/-- The string value of the first of some nodes, if there is one. -/
def valueOfFirst? : List Node → Access (Option String)
  | [] => return none
  | y :: _ => return some (← y.stringValue)

/-- Without a budget, a node tells the string value of its place. -/
theorem At.answer_stringValue_of_free (h : x.At r mount revision c k)
    (hfree : (r.store mount.store).meter.budget? = none) :
    x.stringValue.answer r = .ok ((c.seen (r.store mount.store).hidesNames).stringAt k) := by
  rw [stringValue, h.answer_read (h.undisturbed_read hfree _)]
  exact Handle.ending_stringValue (c.isTree_seen _) (by simpa using h.lt_size) (h.kind_eq _)
    h.key_eq ()

/-- The first of some places has the first string value. -/
theorem At.answer_valueOfFirst? (h : x.At r mount revision c k)
    (hfree : (r.store mount.store).meter.budget? = none) {ks : List Nat}
    (hks : ∀ j ∈ ks, j < (Snapshot.ofContent c).size) :
    (valueOfFirst? (ks.map
        (c.nodeAt (r.store mount.store).hidesNames revision x.document))).answer r =
      .ok (ks.head?.map (c.seen (r.store mount.store).hidesNames).stringAt) := by
  cases ks with
  | nil => rfl
  | cons j ks =>
    have hfirst := (h.nodeAt (r.store mount.store).hidesNames
      (hks j List.mem_cons_self)).answer_stringValue_of_free hfree
    exact congrArg Prod.fst (Access.run_bind_of_ok (Access.run_of_answer hfirst))

/-- Where nothing is refused, the attributes along their axis are those of the list that the test
accepts. -/
theorem At.onAxis_attribute (h : x.At r mount revision c k)
    (hd : r.document? x.document = some d)
    (hfree : (r.store mount.store).meter.budget? = none) {test : NodeTest}
    {selects : Nat → Bool}
    (htest : ∀ a ∈ (Snapshot.ofContent c).attributes k, test.accepts (r.pool d.pool)
      ((c.seen (r.store mount.store).hidesNames).handle revision a) = selects a) :
    x.OnAxis .attribute test r ((((Snapshot.ofContent c).attributes k).filter selects).map
      (c.nodeAt (r.store mount.store).hidesNames revision x.document)) := by
  have hsize : k < (c.seen (r.store mount.store).hidesNames).size := by simpa using h.lt_size
  have hroute := Axis.route_owner hsize
  rw [c.attributes_seen] at hroute
  have hopening : Axis.opening .attribute ((Snapshot.ofContent c).kind k) ≠ .originOnly := by
    cases (Snapshot.ofContent c).kind k <;> decide
  rw [← List.filter_congr htest]
  exact h.onAxis hd hfree hopening hroute test

/-- The attributes with a name along their axis, and the value that the first of them has. -/
theorem At.first_named (h : x.At r mount revision c k)
    (hd : r.document? x.document = some d)
    (hfree : (r.store mount.store).meter.budget? = none) {test : NodeTest}
    (htest : ∀ y, test.accepts (r.pool d.pool) y =
      (NodeTest.name .attribute uri localPart).accepts (r.pool d.pool) y) :
    ∃ ys v, x.OnAxis .attribute test r ys ∧ (x.attributeValue uri localPart).answer r = .ok v ∧
      (valueOfFirst? ys).answer r = .ok v ∧ (v = none ↔ ys = []) ∧
      (x.handle.kind ≠ .element → ys = []) := by
  have htree := c.isTree_seen (r.store mount.store).hidesNames
  have hundisturbed : (x.attributeValue uri localPart).Undisturbed r := by
    unfold attributeValue
    split
    · exact h.undisturbed_read hfree _
    · intro id
      show (r.store id).meter.GrantsNext ((r.store id).meter.used - (r.store id).meter.used)
      rw [Nat.sub_self]
      exact Meter.grantsNext_zero _
  have hanswer := h.answer_attributeValue uri localPart hundisturbed
  rw [htree.attributeNamed_eq_head?, c.attributes_seen] at hanswer
  have hnodes := h.onAxis_attribute hd hfree fun a ha => (htest _).trans
    (htree.accepts_name (by rwa [c.attributes_seen]) revision uri localPart (r.pool d.pool))
  have hlt : ∀ j ∈ ((Snapshot.ofContent c).attributes k).filter
      ((c.seen (r.store mount.store).hidesNames).isNamed uri localPart),
      j < (Snapshot.ofContent c).size := fun j hj =>
    (((Snapshot.ofContent c).node_linked k).attributes_gt j (List.mem_of_mem_filter hj)).2
  have hvalue := h.answer_valueOfFirst? hfree hlt
  refine ⟨_, _, hnodes, hanswer, hvalue, ?_, fun hkind => ?_⟩
  · rw [Option.map_eq_none_iff, List.head?_eq_none_iff, List.map_eq_nil_iff]
  · rw [h.kind_eq false, c.kind_seen] at hkind
    rw [(isTree_ofContent c).attributes_of_not_element hkind]
    rfl

/-- An attribute that is asked for by a code is asked for by the name that the pool of the document
knows. -/
theorem answer_attributeByFingerprint (hd : r.document? x.document = some d) (code : Int) :
    (x.attributeByFingerprint code).answer r =
      match (r.pool d.pool).expandedName? code with
      | some name => (x.attributeValue name.uri name.localPart).answer r
      | none => .ok none := by
  have hget : ExceptT.run (get : Access Registry) r = (.ok r, r) := rfl
  rw [attributeByFingerprint, Access.answer, Access.run_bind_of_ok (run_getDocument hd),
    Access.run_bind_of_ok hget]
  cases (r.pool d.pool).expandedName? code <;> rfl

/-- Where nothing is refused, an attribute that is asked for by name has the string value of the first
node on the attribute axis that a test for the name accepts, and there is none where no node is
accepted, as with every node that is no element. By a code it is the same with the test for the
fingerprint, and where the pool of the document gives that code to no name, nothing is there. -/
theorem attributeValue_of_axis (hx : x.At r mount revision c k)
    (hd : r.document? x.document = some d)
    (hfree : (r.store mount.store).meter.budget? = none) :
    (∀ uri localPart, ∃ ys v,
      x.OnAxis .attribute (.name .attribute uri localPart) r ys ∧
      (x.attributeValue uri localPart).answer r = .ok v ∧ (valueOfFirst? ys).answer r = .ok v ∧
      (v = none ↔ ys = []) ∧ (x.handle.kind ≠ .element → ys = [])) ∧
    ∀ code : Int, ∃ ys v,
      x.OnAxis .attribute (.fingerprint .attribute code) r ys ∧
      (x.attributeByFingerprint code).answer r = .ok v ∧ (valueOfFirst? ys).answer r = .ok v ∧
      (v = none ↔ ys = []) ∧ (x.handle.kind ≠ .element → ys = []) ∧
      ((∀ uri localPart (f : Nat), (r.pool d.pool).fingerprint? uri localPart = some f →
        (f : Int) ≠ code) → ys = []) := by
  refine ⟨fun uri localPart => hx.first_named hd hfree fun _ => rfl, fun code => ?_⟩
  cases hname : (r.pool d.pool).expandedName? code with
  | some name =>
    obtain ⟨f, hf, rfl⟩ := NamePool.fingerprint?_of_expandedName? hname
    obtain ⟨ys, v, hnodes, hanswer, hvalue, hempty, hkind⟩ := hx.first_named hd hfree
      (NodeTest.accepts_fingerprint .attribute hf)
    refine ⟨ys, v, hnodes, ?_, hvalue, hempty, hkind, fun hcode => absurd rfl (hcode _ _ f hf)⟩
    rw [answer_attributeByFingerprint hd, hname]
    exact hanswer
  | none =>
    have hcode : ∀ uri localPart (f : Nat),
        (r.pool d.pool).fingerprint? uri localPart = some f → (f : Int) ≠ code := by
      rintro uri localPart f hf rfl
      have hmap := congrArg (Option.map Int.ofNat) hf
      have hfound := ((r.pool d.pool).map_fingerprint?_eq_some_iff uri localPart f).1 hmap
      cases hfound.symm.trans hname
    have hrejects : ∀ a ∈ (Snapshot.ofContent c).attributes k,
        (NodeTest.fingerprint .attribute code).accepts (r.pool d.pool)
          ((c.seen (r.store mount.store).hidesNames).handle revision a) = false := fun _ _ =>
      NodeTest.accepts_fingerprint_of_unknown .attribute hcode _
    have hnodes := hx.onAxis_attribute hd hfree hrejects
    rw [List.filter_false] at hnodes
    refine ⟨[], none, hnodes, ?_, rfl, ⟨fun _ => rfl, fun _ => rfl⟩, fun _ => rfl, fun _ => rfl⟩
    rw [answer_attributeByFingerprint hd, hname]

/-- An element with three attributes of the same local part, of which the first one has a namespace and
the second one is empty. -/
def repeatedContent : Content :=
  .element
    { name := .ofLocal "e"
      attributes := [(⟨"p", "a", "urn:p"⟩, "1"), (.ofLocal "a", ""), (.ofLocal "a", "2")] } .nil .nil

/-- A pool that knows one name. -/
def repeatedPool : NamePool := (NamePool.empty.internName "" "a").2

/-- That name has the code 0, and there are no other codes. -/
theorem expandedName?_repeatedPool (i : Nat) :
    repeatedPool.expandedName? i = (#[("", "a")][i]?).map fun (uri, localPart) =>
      (⟨"", localPart, uri⟩ : QName) := by
  have hintern : Interner.empty.intern NamePool.fingerprintLimit ("", "a") =
      (some 0, Interner.empty.add ("", "a") (Interner.find?_empty _)) :=
    Interner.intern_of_room _ (by decide)
  show (NamePool.mk (Interner.empty.intern NamePool.fingerprintLimit ("", "a")).2 _ _).expandedName? i
    = _
  rw [hintern]
  rfl

/-- Without a namespace the second attribute counts, by its name and by the code 0 that the pool has
for it. The pool has no code 1. -/
theorem attributeValue_of_axis_repeated :
    let r : Registry :=
      { smallRegistry with
        stores := #[{ revisions := #[.ofContent repeatedContent] }]
        pools := #[repeatedPool] }
    let x : Node := repeatedContent.nodeAt false 0 0 1
    (∃ ys, x.OnAxis .attribute (.name .attribute "" "a") r ys ∧
      (x.attributeValue "" "a").answer r = .ok (some "") ∧
      (valueOfFirst? ys).answer r = .ok (some "")) ∧
    (∃ ys, x.OnAxis .attribute (.fingerprint .attribute 0) r ys ∧
      (x.attributeByFingerprint 0).answer r = .ok (some "") ∧
      (valueOfFirst? ys).answer r = .ok (some "")) ∧
    x.OnAxis .attribute (.fingerprint .attribute 1) r [] := by
  intro r x
  have hx : x.At r ⟨0, 0⟩ 0 repeatedContent 1 :=
    ⟨⟨smallDocument ⟨0, 0⟩, rfl, rfl, rfl⟩, rfl, ⟨false, rfl⟩, by decide⟩
  obtain ⟨hname, hcode⟩ := attributeValue_of_axis hx (d := smallDocument ⟨0, 0⟩) rfl rfl
  have hvalue : (x.attributeValue "" "a").answer r = .ok (some "") := by rfl
  have hzero : (r.pool (smallDocument ⟨0, 0⟩).pool).expandedName? 0 = some (.ofLocal "a") :=
    expandedName?_repeatedPool 0
  have hone : (r.pool (smallDocument ⟨0, 0⟩).pool).expandedName? 1 = none :=
    expandedName?_repeatedPool 1
  have hvalue' : (x.attributeByFingerprint 0).answer r = .ok (some "") := by
    rw [answer_attributeByFingerprint (d := smallDocument ⟨0, 0⟩) rfl, hzero]
    exact hvalue
  obtain ⟨ys, v, hnodes, hanswer, hfirst, -⟩ := hname "" "a"
  obtain ⟨ys', v', hnodes', hanswer', hfirst', -⟩ := hcode 0
  obtain ⟨zs, -, hnone, -, -, -, -, hunknown⟩ := hcode 1
  obtain rfl := Except.ok.inj (hanswer.symm.trans hvalue)
  obtain rfl := Except.ok.inj (hanswer'.symm.trans hvalue')
  have hzs : zs = [] := hunknown fun uri localPart f hf hcode => by
    have hfound := (repeatedPool.map_fingerprint?_eq_some_iff uri localPart 1).1
      ((congrArg (Option.map Int.ofNat) hf).trans (congrArg some hcode))
    cases hfound.symm.trans hone
  exact ⟨⟨ys, hnodes, hanswer, hfirst⟩, ⟨ys', hnodes', hanswer', hfirst'⟩, hzs ▸ hnone⟩

end Node

end DocTree
