import DocTree.Proofs.Axis.Links
import DocTree.Proofs.Axis.Nodes
import DocTree.Proofs.Node.Declarations
import DocTree.Proofs.Node.Identity
import DocTree.Proofs.Node.Trail

/-!
# Relatives and axes

A node can be asked for its parent, its first child and the siblings next to it, and for its position.
It decides by its kind what can be there, and then follows a link once. An axis along the same kind of
link comes to the same node first. The position is counted, or searched for among what the owner owns.
It is the number of the node on the axis along which the parent or the owner delivers it.

## Main definitions

- `Axis.StartsAlong` — a walk along an axis follows a link first
- `Snapshot.level` — the nodes among which a node has its position
- `Node.IsNth` — a node has one position in a list, and no other
- `Node.Lists` — the nodes that stand for the declarations of an element

## Main statements

- `Axis.StartsAlong.head?_eq` — the first node on the route is at the end of a link
- `Snapshot.IsTree.getElem?_level` — the position of a node is where its level has it
- `Node.relatives_of_axes` — relatives and positions are those along the axes
-/

namespace DocTree

open Reading Snapshot

variable {t : Snapshot} {k p : Nat}

/-- The axis is never the origin alone, and whatever the origin is, a walk along it follows a link
first. -/
structure Axis.StartsAlong (axis : Axis) (link : Snapshot → Nat → Option Nat) : Prop where
  opening_ne : ∀ kind, axis.opening kind ≠ .originOnly
  yields : ∀ t origin here, ∃ w, ((axis.walk origin).advance t here).Yields (axis.walk origin) here
    (link t here).isSome w ((link t here).getD here)

namespace Axis

theorem startsAlong_parent : parent.StartsAlong parent? where
  opening_ne kind := by cases kind <;> decide
  yields t _ here := ⟨_, (OneStepWalk.yields_toParent {} t here).mapNotes Walk.parent⟩

theorem startsAlong_child : child.StartsAlong firstChild? where
  opening_ne _ := nofun
  yields t _ here := ⟨_, (ChildWalk.yields_advance {} t here).mapNotes Walk.children⟩

theorem startsAlong_followingSibling : followingSibling.StartsAlong right? where
  opening_ne kind := by cases kind <;> decide
  yields t _ here := ⟨_, (Side.yields_advance .right t here).mapNotes Walk.siblings⟩

theorem startsAlong_precedingSibling : precedingSibling.StartsAlong left? where
  opening_ne kind := by cases kind <;> decide
  yields t _ here := ⟨_, (Side.yields_advance .left t here).mapNotes Walk.siblings⟩

/-- The first node on the route is at the end of the link, and there is none where there is no link. -/
theorem StartsAlong.head?_eq {axis : Axis} {link : Snapshot → Nat → Option Nat}
    (h : axis.StartsAlong link) {origin : Handle} {ks : List Nat}
    (hroute : Route t (axis.walk origin) k ks) : ks.head? = link t k := by
  obtain ⟨w, hyields⟩ := h.yields t origin k
  cases hroute with
  | stop hover =>
    obtain ⟨hnone, -, -⟩ := hyields.unique hover
    rw [Option.isSome_eq_false_iff, Option.isNone_iff_eq_none] at hnone
    rw [hnone]
    rfl
  | visit hvisit rest =>
    obtain ⟨hsome, -, hend⟩ := hyields.unique hvisit
    obtain ⟨j, hj⟩ := Option.isSome_iff_exists.1 hsome
    rw [hj] at hend ⊢
    exact congrArg some hend.symm

end Axis

namespace Snapshot

/-- The nodes among which a node below `p` has its position: the declarations or the attributes of `p`,
or its children. -/
def level (t : Snapshot) (p k : Nat) : List Nat :=
  match t.kind k with
  | .namespaceDecl => t.namespaces p
  | .attribute => t.attributes p
  | _ => t.childChain p

theorem level_of_structural (hs : (t.kind k).isStructural = true) : t.level p k = t.childChain p := by
  unfold level
  split
  · next hkind => rw [hkind] at hs; cases hs
  · next hkind => rw [hkind] at hs; cases hs
  · rfl

namespace IsTree

/-- Only the document node and elements have children. -/
theorem firstChild?_of_not_parental (h : t.IsTree) (hk : ¬(t.kind k).isParental = true) :
    t.firstChild? k = none := by
  rw [Option.eq_none_iff_forall_ne_some]
  intro j hj
  exact hk (h.isParental_parent (h.firstChild?_eq_some_iff.1 hj).1)

/-- When as many children are dropped as there are to the left of a child, those from that on remain. -/
theorem drop_leftCount (h : t.IsTree) (hs : (t.kind k).isStructural = true)
    (hp : t.parent? k = some p) : (t.childChain p).drop (t.leftCount k) = t.chain k := by
  -- The induction goes to the left, where the count ends at the first child.
  induction k using Nat.strongRecOn with
  | ind k ih =>
    cases hl : t.left? k with
    | none =>
      have hfirst : t.firstChild? p = some k := h.firstChild?_eq_some_iff.2 ⟨hp, hs, hl⟩
      rw [leftCount_of_first hl, List.drop_zero, childChain, hfirst]
    | some l =>
      have hright := h.right?_eq_some_iff.2 hl
      obtain ⟨hparent, hls, -⟩ := h.right?_spec hright
      have hbefore := ih l (left?_lt hl) hls (hparent.symm.trans hp)
      rw [leftCount_of_left? hl, ← List.tail_drop, hbefore, chain_of_right? hright, List.tail_cons]

/-- The position of a node is where its level has it. -/
theorem getElem?_level (h : t.IsTree) (hp : t.parent? k = some p) :
    (t.level p k)[(t.rung p k).2]? = some k := by
  cases hkind : t.kind k with
  | namespaceDecl =>
    simp only [level, rung, hkind]
    exact List.getElem?_idxOf (h.mem_namespaces_iff.2 ⟨hkind, hp⟩)
  | «attribute» =>
    simp only [level, rung, hkind]
    exact List.getElem?_idxOf (h.mem_attributes_iff.2 ⟨hkind, hp⟩)
  | _ =>
    simp only [level, rung, hkind]
    rw [← List.head?_drop, h.drop_leftCount (by rw [hkind]; rfl) hp, chain]
    rfl

/-- On a level every node is listed once. -/
theorem nodup_level (h : t.IsTree) (p k : Nat) : (t.level p k).Nodup := by
  unfold level
  split
  · exact h.nodup_owned false p
  · exact h.nodup_owned true p
  · rw [h.childChain_eq]
    exact List.nodup_range.filter _

end IsTree

end Snapshot

/-- Undisturbed, the position of the node at the cursor is found. -/
theorem Handle.yields_position {σ : Type} {handle : Handle} (h : t.IsTree)
    (hkind : handle.kind = t.kind k) (hp : t.parent? k = some p) (s : σ) :
    ∃ place, (handle.position t k).Yields s k (t.rung p k).2 s place := by
  unfold position isStructural
  rw [hkind]
  cases hs : (t.kind k).isStructural with
  | true =>
    obtain ⟨first, -, hcount⟩ := h.yields_countLeft s k 0
    rw [Nat.zero_add] at hcount
    have hposition : (t.rung p k).2 = t.leftCount k := by
      obtain ⟨hmem, -⟩ | ⟨hmem, -⟩ | ⟨-, hrung⟩ := h.rung_cases hp
      · rw [(h.mem_namespaces_iff.1 hmem).1] at hs
        cases hs
      · rw [(h.mem_attributes_iff.1 hmem).1] at hs
        cases hs
      · rw [hrung]
    rw [hposition]
    exact ⟨first, hcount.bind (.done _ s first)⟩
  | false => exact ⟨p, (h.yields_ownedPosition s hp hs).bind (.done _ s p)⟩

namespace Node

variable {x : Node} {r : Registry} {mount : Mount} {revision i : Nat} {c : Content}

/-- A list has the node, or one that is the same, at one position and at no other. -/
def IsNth (x : Node) (r : Registry) (i : Nat) (ys : List Node) : Prop :=
  ∀ j, (∃ y, ys[j]? = some y ∧ y.isSame x r = true) ↔ j = i

/-- The nodes of a list stand for what the element `y` declares, one by one and in the order of its
declarations. -/
def Lists (y : Node) (r : Registry) (mount : Mount) (revision : Nat) (c : Content)
    (ys : List Node) : Prop :=
  ∃ (head : ElementHead) (body next : Content) (parent p : Nat) (left : Option Nat),
    c.Places (.element head body next) parent p left ∧ y.At r mount revision c p ∧
    List.Forall₂ (fun z j => z.At r mount revision c j) ys ((Snapshot.ofContent c).namespaces p) ∧
    List.Forall₂ (Snapshot.ofContent c).Declares ((Snapshot.ofContent c).namespaces p)
      head.namespaces

/-- Where nothing is refused, a link is followed to the node at its end. -/
theorem At.answer_follow (h : x.At r mount revision c k)
    (hfree : (r.store mount.store).meter.budget? = none)
    (hclose : (r.store mount.store).closeFails = false) (link : Snapshot → Nat → Option Nat) :
    (x.follow link).answer r =
      .ok ((link (c.seen (r.store mount.store).hidesNames) k).map
        (c.nodeAt (r.store mount.store).hidesNames revision x.document)) := by
  obtain ⟨d, hd, rfl, rfl⟩ := h.document
  have hfound := d.answer_consult (Store.view?_of_committed h.committed)
    (by simpa using h.lt_size) (by simp [hclose])
    (d.undisturbed_consult hfree k
      (fun t here => do
        if ← .step (link t here) then return (link t here).map (t.handle d.revision)
        else return none)
      Option.isSome)
  rw [follow, Access.answer, Access.run_bind_of_ok (run_getDocument hd), h.key_eq,
    Access.run_bind_pure, Access.run_of_answer hfound]
  cases link (c.seen (r.store d.mount.store).hidesNames) k <;> rfl

/-- Where nothing is refused and every node is accepted, the nodes on an axis are those on the route. -/
theorem At.onAxis_any (h : x.At r mount revision c k)
    (hfree : (r.store mount.store).meter.budget? = none) {axis : Axis} {ks : List Nat}
    (hopening : ∀ kind, axis.opening kind ≠ .originOnly)
    (hroute : Route (c.seen (r.store mount.store).hidesNames)
      (axis.walk ((c.seen (r.store mount.store).hidesNames).handle revision k)) k ks) :
    x.OnAxis axis .any r
      (ks.map (c.nodeAt (r.store mount.store).hidesNames revision x.document)) := by
  obtain ⟨d, hd, -⟩ := h.document
  have hnodes := h.onAxis hd hfree (hopening _) hroute .any
  change x.OnAxis axis .any r ((ks.filter fun _ => true).map _) at hnodes
  rwa [List.filter_true] at hnodes

/-- Where nothing is refused, the first node on an axis that starts along a link is at the end of it. -/
theorem At.exists_onAxis (h : x.At r mount revision c k)
    (hfree : (r.store mount.store).meter.budget? = none) {axis : Axis}
    {link : Snapshot → Nat → Option Nat} (hlink : axis.StartsAlong link) :
    ∃ ys, x.OnAxis axis .any r ys ∧
      ys.head? = (link (c.seen (r.store mount.store).hidesNames) k).map
        (c.nodeAt (r.store mount.store).hidesNames revision x.document) := by
  obtain ⟨ks, hroute, -⟩ := axis.exists_route (c.isTree_seen (r.store mount.store).hidesNames)
    (by simpa using h.lt_size) revision
  refine ⟨_, h.onAxis_any hfree hlink.opening_ne hroute, ?_⟩
  rw [List.head?_map, hlink.head?_eq hroute]

/-- A node that has no siblings by its kind is the document node or is owned. -/
theorem At.kind_of_siblingless (h : x.At r mount revision c k) (hx : ¬x.hasSiblings = true)
    (hidesNames : Bool) : (c.seen hidesNames).kind k = .root ∨
      ((c.seen hidesNames).kind k).isStructural = false := by
  rw [← h.kind_eq hidesNames]
  revert hx
  unfold hasSiblings Handle.isStructural
  cases x.handle.kind <;> decide

/-- Where nothing is refused, each relative is the node at the end of its link, also where the kind of
the node already says that there is none. -/
theorem At.answer_relatives (h : x.At r mount revision c k)
    (hfree : (r.store mount.store).meter.budget? = none)
    (hclose : (r.store mount.store).closeFails = false) :
    let toNode := c.nodeAt (r.store mount.store).hidesNames revision x.document
    let t := c.seen (r.store mount.store).hidesNames
    x.parent.answer r = .ok ((t.parent? k).map toNode) ∧
      x.firstChild.answer r = .ok ((t.firstChild? k).map toNode) ∧
      x.nextSibling.answer r = .ok ((t.right? k).map toNode) ∧
      x.previousSibling.answer r = .ok ((t.left? k).map toNode) := by
  intro toNode t
  have htree : t.IsTree := c.isTree_seen _
  have hk : k < t.size := by simpa [t] using h.lt_size
  have hfollow : ∀ link, (x.follow link).answer r = .ok ((link t k).map toNode) :=
    h.answer_follow hfree hclose
  -- A kind for which nothing is looked up has no such link.
  have hnone : ∀ {link : Option Nat}, link = none →
      (pure none : Access (Option Node)).answer r = .ok (link.map toNode) := by
    rintro _ rfl
    rfl
  refine ⟨?parent, ?child, ?next, ?previous⟩
  case parent =>
    unfold parent
    split
    · next hroot =>
      rw [h.kind_eq (r.store mount.store).hidesNames] at hroot
      exact hnone ((htree.parent?_eq_none_iff hk).2 ((htree.kind_eq_root_iff hk).1 hroot))
    · exact hfollow parent?
  case child =>
    unfold firstChild
    split
    · exact hfollow firstChild?
    · next hkind =>
      rw [h.kind_eq (r.store mount.store).hidesNames] at hkind
      exact hnone (htree.firstChild?_of_not_parental hkind)
  case next =>
    unfold nextSibling
    split
    · exact hfollow right?
    · next hsiblings => exact hnone (htree.sibling?_eq_none hk (h.kind_of_siblingless hsiblings _)).2
  case previous =>
    unfold previousSibling
    split
    · exact hfollow left?
    · next hsiblings => exact hnone (htree.sibling?_eq_none hk (h.kind_of_siblingless hsiblings _)).1

theorem At.answer_hasChildren (h : x.At r mount revision c k)
    (hfree : (r.store mount.store).meter.budget? = none) :
    x.hasChildren.answer r =
      .ok ((c.seen (r.store mount.store).hidesNames).firstChild? k).isSome := by
  unfold hasChildren
  split
  · exact h.answer_read (h.undisturbed_read hfree _)
  · next hkind =>
    rw [h.kind_eq (r.store mount.store).hidesNames] at hkind
    rw [(c.isTree_seen _).firstChild?_of_not_parental hkind]
    rfl

/-- Where nothing is refused, a node below `p` tells its position there. -/
theorem At.answer_siblingPosition (h : x.At r mount revision c k)
    (hfree : (r.store mount.store).meter.budget? = none)
    (hp : (c.seen (r.store mount.store).hidesNames).parent? k = some p) :
    x.siblingPosition.answer r =
      .ok ((c.seen (r.store mount.store).hidesNames).rung p k).2 := by
  have htree := c.isTree_seen (r.store mount.store).hidesNames
  obtain ⟨place, n, hending⟩ := Handle.yields_position htree (h.kind_eq _) hp ()
  unfold siblingPosition
  split
  · next hroot =>
    rw [h.kind_eq (r.store mount.store).hidesNames,
      htree.kind_eq_root_iff (lt_size_of_parent? hp)] at hroot
    cases hp.symm.trans ((htree.parent?_eq_none_iff (lt_size_of_parent? hp)).2 hroot)
  · rw [h.answer_read (h.undisturbed_read hfree _), hending]

/-- Among the nodes at places of a list, the node at the `i`-th one is found there and nowhere else. -/
theorem At.isNth_map (h : x.At r mount revision c k) (hidesNames : Bool) {ks : List Nat}
    (hnodup : ks.Nodup) (hi : ks[i]? = some k) :
    x.IsNth r i (ks.map (c.nodeAt hidesNames revision x.document)) := by
  have hsame : ∀ j, (c.nodeAt hidesNames revision x.document j).isSame x r = true ↔ j = k := by
    intro j
    rw [isSame_iff_keys, h.key_eq, h.revision_eq]
    show (j : Int) = k ∧ revision = revision ∧ (x.document = x.document ∨ _) ↔ j = k
    simp
  intro n
  simp only [List.getElem?_map, Option.map_eq_some_iff]
  constructor
  · rintro ⟨_, ⟨j, hj, rfl⟩, hjx⟩
    obtain rfl := (hsame j).1 hjx
    have hn : n < ks.length := (List.getElem?_eq_some_iff.1 hj).1
    exact (List.getElem?_inj hn hnodup).1 (hj.trans hi.symm)
  · rintro rfl
    exact ⟨_, ⟨k, hi, rfl⟩, (hsame k).2 rfl⟩

/-- What an element lists as its declarations are nodes of the same document. -/
theorem At.lists (h : x.At r mount revision c k) (hidesNames : Bool) {j : Nat}
    (hj : j ∈ (Snapshot.ofContent c).namespaces k) :
    x.Lists r mount revision c (((Snapshot.ofContent c).namespaces k).map
      (c.nodeAt hidesNames revision x.document)) := by
  obtain ⟨head, body, next, parent, left, hplaces⟩ := places_of_owner (.inl hj)
  refine ⟨head, body, next, parent, k, left, hplaces, h, ?_, hplaces.forall₂_namespaces⟩
  rw [List.forall₂_map_left_iff, List.forall₂_same]
  intro i hi
  exact h.nodeAt hidesNames
    (lt_size_of_parent? ((isTree_ofContent c).mem_namespaces_iff.1 hi).2)

/-- Where nothing is refused, the level of a node is what its parent has on the child axis, or what its
owner has on the attribute axis or declares. -/
theorem At.level_of_parent (h : x.At r mount revision c k)
    (hfree : (r.store mount.store).meter.budget? = none)
    (hp : (c.seen (r.store mount.store).hidesNames).parent? k = some p) {y : Node}
    (hy : y.At r mount revision c p) :
    ∃ ys, ys = ((c.seen (r.store mount.store).hidesNames).level p k).map
        (c.nodeAt (r.store mount.store).hidesNames revision y.document) ∧
      (x.handle.isStructural = true → y.OnAxis .child .any r ys) ∧
      (x.handle.kind = .attribute → y.OnAxis .attribute .any r ys) ∧
      (x.handle.kind = .namespaceDecl → y.Lists r mount revision c ys) := by
  refine ⟨_, rfl, ?_⟩
  rw [Handle.isStructural, h.kind_eq (r.store mount.store).hidesNames]
  refine ⟨fun hs => ?_, fun hattribute => ?_, fun hdeclaration => ?_⟩
  · rw [level_of_structural hs]
    exact hy.onAxis_any hfree Axis.startsAlong_child.opening_ne (Axis.route_children _ p)
  · have hsize : p < (c.seen (r.store mount.store).hidesNames).size := by simpa using hy.lt_size
    rw [level, hattribute]
    refine hy.onAxis_any hfree (fun kind => ?_) (Axis.route_owner hsize)
    cases kind <;> decide
  · rw [level, hdeclaration]
    have hmem := (c.isTree_seen (r.store mount.store).hidesNames).mem_namespaces_iff.2
      ⟨hdeclaration, hp⟩
    rw [c.namespaces_seen] at hmem ⊢
    exact hy.lists (r.store mount.store).hidesNames hmem

/-- Where nothing is refused, the parent, the first child and the siblings next to a node are the first
nodes on the axes that lead there, and there is none where the axis is empty. A node has children if
its child axis is not empty. Every node but the document node has a parent or an owner, and its position
is the only one that it has on a list: if it is structural, on the child axis of the parent, and
otherwise on the attribute axis of the owner or among the declarations of that. -/
theorem relatives_of_axes (hx : x.At r mount revision c k)
    (hfree : (r.store mount.store).meter.budget? = none)
    (hclose : (r.store mount.store).closeFails = false) :
    (∃ ys, x.OnAxis .parent .any r ys ∧ x.parent.answer r = .ok ys.head?) ∧
    (∃ ys, x.OnAxis .child .any r ys ∧ x.firstChild.answer r = .ok ys.head? ∧
      x.hasChildren.answer r = .ok (!ys.isEmpty)) ∧
    (∃ ys, x.OnAxis .followingSibling .any r ys ∧ x.nextSibling.answer r = .ok ys.head?) ∧
    (∃ ys, x.OnAxis .precedingSibling .any r ys ∧ x.previousSibling.answer r = .ok ys.head?) ∧
    (x.handle.kind ≠ .root → ∃ y ys i, x.parent.answer r = .ok (some y) ∧
      x.siblingPosition.answer r = .ok i ∧ x.IsNth r i ys ∧
      (x.handle.isStructural = true → y.OnAxis .child .any r ys) ∧
      (x.handle.kind = .attribute → y.OnAxis .attribute .any r ys) ∧
      (x.handle.kind = .namespaceDecl → y.Lists r mount revision c ys)) := by
  obtain ⟨hparent, hchild, hnext, hprevious⟩ := hx.answer_relatives hfree hclose
  have htree := c.isTree_seen (r.store mount.store).hidesNames
  have hsize : k < (c.seen (r.store mount.store).hidesNames).size := by simpa using hx.lt_size
  refine ⟨?parent, ?child, ?next, ?previous, fun hroot => ?position⟩
  case parent =>
    obtain ⟨ys, hnodes, hfirst⟩ := hx.exists_onAxis hfree Axis.startsAlong_parent
    exact ⟨ys, hnodes, by rw [hparent, hfirst]⟩
  case child =>
    obtain ⟨ys, hnodes, hfirst⟩ := hx.exists_onAxis hfree Axis.startsAlong_child
    refine ⟨ys, hnodes, by rw [hchild, hfirst], ?_⟩
    have hempty : (!ys.isEmpty) = ys.head?.isSome := by cases ys <;> rfl
    rw [hx.answer_hasChildren hfree, hempty, hfirst, Option.isSome_map]
  case next =>
    obtain ⟨ys, hnodes, hfirst⟩ := hx.exists_onAxis hfree Axis.startsAlong_followingSibling
    exact ⟨ys, hnodes, by rw [hnext, hfirst]⟩
  case previous =>
    obtain ⟨ys, hnodes, hfirst⟩ := hx.exists_onAxis hfree Axis.startsAlong_precedingSibling
    exact ⟨ys, hnodes, by rw [hprevious, hfirst]⟩
  case position =>
    rw [hx.kind_eq (r.store mount.store).hidesNames, Ne, htree.kind_eq_root_iff hsize] at hroot
    obtain ⟨p, hp⟩ := htree.exists_parent hsize hroot
    have hy := hx.nodeAt (r.store mount.store).hidesNames
      (Nat.lt_trans (parent?_lt hp) hx.lt_size)
    obtain ⟨ys, hys, hlevel⟩ := hx.level_of_parent hfree hp hy
    refine ⟨_, ys, _, by rw [hparent, hp]; rfl, hx.answer_siblingPosition hfree hp, ?_, hlevel⟩
    rw [hys]
    exact hx.isNth_map _ (htree.nodup_level p k) (htree.getElem?_level hp)

/-- An element with two declarations, two attributes and three children, of which the one in the middle
is an element with a text. -/
def relatedContent : Content :=
  .element
    { name := .ofLocal "e", namespaces := [("p", "urn:p"), ("q", "urn:q")],
      attributes := [(.ofLocal "a", "1"), (.ofLocal "b", "2")] }
    (.leaf (.text "s") (.element { name := .ofLocal "f" } (.leaf (.text "t") .nil)
      (.leaf (.comment "c") .nil))) .nil

/-- The element in the middle comes second on the child axis, the second attribute on the attribute
axis, and the second declaration in the list of declarations. -/
theorem relatives_of_axes_middle :
    let r : Registry :=
      { smallRegistry with stores := #[{ revisions := #[.ofContent relatedContent] }] }
    let node : Nat → Node := relatedContent.nodeAt false 0 0
    (∃ ys, (node 7).OnAxis .parent .any r ys ∧ ys.head? = some (node 1)) ∧
    (∃ ys, (node 7).OnAxis .child .any r ys ∧ ys.head? = some (node 8)) ∧
    (∃ ys, (node 7).OnAxis .followingSibling .any r ys ∧ ys.head? = some (node 9)) ∧
    (∃ ys, (node 7).OnAxis .precedingSibling .any r ys ∧ ys.head? = some (node 6)) ∧
    (∃ ys, (node 1).OnAxis .child .any r ys ∧ (node 7).IsNth r 1 ys) ∧
    (∃ ys, (node 1).OnAxis .attribute .any r ys ∧ (node 5).IsNth r 1 ys) ∧
    ∃ ys, (node 1).Lists r ⟨0, 0⟩ 0 relatedContent ys ∧ (node 3).IsNth r 1 ys := by
  intro r node
  have hat : ∀ key < 10, (node key).At r ⟨0, 0⟩ 0 relatedContent key := fun key hkey =>
    ⟨⟨smallDocument ⟨0, 0⟩, rfl, rfl, rfl⟩, rfl, ⟨false, rfl⟩, hkey⟩
  -- What is below the outer element and second on its level is second in one of three lists.
  have hsecond : ∀ key < 10, (node key).handle.kind ≠ .root →
      (Snapshot.ofContent relatedContent).parent? key = some 1 →
      ((Snapshot.ofContent relatedContent).rung 1 key).2 = 1 →
      (node key).parent.answer r = .ok (some (node 1)) → ∃ ys, (node key).IsNth r 1 ys ∧
        ((node key).handle.isStructural = true → (node 1).OnAxis .child .any r ys) ∧
        ((node key).handle.kind = .attribute → (node 1).OnAxis .attribute .any r ys) ∧
        ((node key).handle.kind = .namespaceDecl →
          (node 1).Lists r ⟨0, 0⟩ 0 relatedContent ys) := by
    intro key hkey hroot hp hrung hparent
    have hone := (hat key hkey).answer_siblingPosition rfl hp
    obtain ⟨-, -, -, -, hlevel⟩ := relatives_of_axes (hat key hkey) rfl rfl
    obtain ⟨y, ys, i, hy, hi, hnth, hlists⟩ := hlevel hroot
    rw [hparent, Except.ok.injEq, Option.some.injEq] at hy
    rw [hone, Except.ok.injEq] at hi
    rw [← hy] at hlists
    rw [← hi] at hnth
    exact ⟨ys, hrung ▸ hnth, hlists⟩
  have hcount : (Snapshot.ofContent relatedContent).leftCount 7 = 1 := by
    rw [leftCount_of_left? (l := 6) rfl, leftCount_of_first rfl]
  obtain ⟨⟨up, hup, hparent⟩, ⟨down, hdown, hfirst, -⟩, ⟨after, hafter, hnext⟩,
    ⟨before, hbefore, hprevious⟩, -⟩ := relatives_of_axes (hat 7 (by decide)) rfl rfl
  obtain ⟨children, hchild, hchildren, -⟩ := hsecond 7 (by decide) nofun rfl hcount rfl
  obtain ⟨attributes, hattribute, -, hattributes, -⟩ := hsecond 5 (by decide) nofun rfl rfl rfl
  obtain ⟨declared, hdeclaration, -, -, hdeclared⟩ := hsecond 3 (by decide) nofun rfl rfl rfl
  refine ⟨⟨up, hup, ?_⟩, ⟨down, hdown, ?_⟩, ⟨after, hafter, ?_⟩, ⟨before, hbefore, ?_⟩,
    ⟨children, hchildren rfl, hchild⟩, ⟨attributes, hattributes rfl, hattribute⟩,
    ⟨declared, hdeclared rfl, hdeclaration⟩⟩
  · exact Except.ok.inj (hparent.symm.trans rfl)
  · exact Except.ok.inj (hfirst.symm.trans rfl)
  · exact Except.ok.inj (hnext.symm.trans rfl)
  · exact Except.ok.inj (hprevious.symm.trans rfl)

end Node

end DocTree
