import DocTree.Proofs.Walk.Route

/-!
# The order in which walks visit nodes

Every walk goes through its axis in one direction. Along links, through a subtree and through what
follows, each visit goes forward in the table; up, to the left and through what precedes, each goes
back. Attributes are visited in the order in which their element lists them, which is that of the
table. Declarations of namespaces are visited element by element, from the nearest to the farthest,
which goes back in the table, but those of one element in the order of the table. So the visits along
every axis but that one are ordered by place.

## Main definitions

- `Snapshot.DeclaredNearer` — the order of the declarations in scope
- `Walk.Orders` — the order in which a walk visits nodes
- `Walk.Ahead` — the nodes that a walk may still visit

## Main statements

- `Walk.Within.proceeds` — what a visit leaves ahead comes after it
- `Route.pairwise` — the places of a route are in order
-/

namespace DocTree

open Reading Snapshot

variable {t : Snapshot} {here left k : Nat} {w : Walk} {ks : List Nat}

/-- The declaration at `j` comes before the one at `k`: it is an earlier one of the same element, or
its element lies below that of the other one, and so do both in the table. -/
def Snapshot.DeclaredNearer (t : Snapshot) (j k : Nat) : Prop :=
  ∃ e f, t.parent? j = some e ∧ t.parent? k = some f ∧
    ((e = f ∧ j < k) ∨ (e ≠ f ∧ t.Contains f e ∧ k < j))

namespace Snapshot.IsTree

variable {p i j : Nat}

/-- The declarations of an element are stored in the order in which they are listed. -/
theorem eq_of_namespaces_getElem? (h : t.IsTree) (hj : (t.namespaces p)[i]? = some j) :
    j = p + 1 + i := by
  have hi := (List.getElem?_eq_some_iff.1 hj).1
  rw [h.namespaces_eq p, List.getElem?_range' hi] at hj
  simpa using hj.symm

/-- So are its attributes. -/
theorem eq_of_attributes_getElem? (h : t.IsTree) (hj : (t.attributes p)[i]? = some j) :
    j = p + 1 + (t.namespaces p).length + i := by
  have hi := (List.getElem?_eq_some_iff.1 hj).1
  rw [h.attributes_eq p, List.getElem?_range' hi] at hj
  simpa using hj.symm

/-- What an element above declares is stored before an element. -/
theorem lt_of_namespace_above (h : t.IsTree) {e f : Nat} (he : t.kind e = .element) (hne : f ≠ e)
    (hc : t.Contains f e) (hj : j ∈ t.namespaces f) : j < e := by
  obtain ⟨hkind, hp⟩ := h.mem_namespaces_iff.1 hj
  have hjf := h.lt_bodyStart_of_owned hp (by simp [hkind, Kind.isStructural])
  have hfe := (h.bounds_of_contains hc).1
  by_contra hle
  have howned := (h.owned_of_lt_bodyStart (p := f) (k := e) (by omega) (by omega)).1
  simp [he, Kind.isStructural] at howned

end Snapshot.IsTree

namespace NamespaceWalk

/-- The declarations that the walk has before it: from where it is in the list of its element, and
those of the elements above. -/
def Ahead (w : NamespaceWalk) (t : Snapshot) (j : Nat) : Prop :=
  ∃ e : Nat, w.element? = some (e : Int) ∧
    ((∃ i, w.index ≤ i ∧ (t.namespaces e)[i]? = some j) ∨
      ∃ f, f ≠ e ∧ t.Contains f e ∧ j ∈ t.namespaces f)

/-- Undisturbed, the walk comes to a declaration that was ahead, and what is ahead then was so before
and comes after it, or it is over. -/
def Proceeds (r : Reading NamespaceWalk Bool) (s : NamespaceWalk) (t : Snapshot) (here : Nat)
    (w : NamespaceWalk) : Prop :=
  ∃ moved w' m, r.Yields s here moved w' m ∧
    (moved = true → w.Ahead t m ∧ ∀ j, w'.Ahead t j → t.DeclaredNearer m j ∧ w.Ahead t j)

theorem Proceeds.mono {r : Reading NamespaceWalk Bool} {s w w' : NamespaceWalk}
    (h : Proceeds r s t here w) (hle : ∀ j, w.Ahead t j → w'.Ahead t j) :
    Proceeds r s t here w' := by
  obtain ⟨moved, w₁, m, hyields, hmoved⟩ := h
  refine ⟨moved, w₁, m, hyields, fun hm => ?_⟩
  obtain ⟨hahead, hnext⟩ := hmoved hm
  exact ⟨hle m hahead, fun j hj => ⟨(hnext j hj).1, hle j (hnext j hj).2⟩⟩

/-- The rest of the list is ahead if all of it is. -/
theorem ahead_of_succ {e index : Nat} {seen seen' : List String} {j : Nat}
    (hj : Ahead ⟨some e, index + 1, seen'⟩ t j) : Ahead ⟨some e, index, seen⟩ t j := by
  obtain ⟨e', he', hlist | habove⟩ := hj
  · obtain ⟨i, hi, hj⟩ := hlist
    exact ⟨e', he', .inl ⟨i, Nat.le_of_succ_le hi, hj⟩⟩
  · exact ⟨e', he', .inr habove⟩

/-- What is ahead at the parent is ahead below it. -/
theorem ahead_of_parent? {e p index : Nat} {seen seen' : List String} {j : Nat}
    (h : t.IsTree) (hp : t.parent? e = some p) (hj : Ahead ⟨some p, 0, seen'⟩ t j) :
    Ahead ⟨some e, index, seen⟩ t j := by
  have hpe := parent?_lt hp
  obtain ⟨p', hp', hlist | ⟨f, hne, hc, hj⟩⟩ := hj
  · obtain rfl : p = p' := Int.ofNat_inj.1 (Option.some.inj hp')
    obtain ⟨i, -, hj⟩ := hlist
    exact ⟨e, rfl, .inr ⟨p, by omega, .single hp, List.mem_of_getElem? hj⟩⟩
  · obtain rfl : p = p' := Int.ofNat_inj.1 (Option.some.inj hp')
    have hfp := (h.bounds_of_contains hc).1
    exact ⟨e, rfl, .inr ⟨f, by omega, hc.tail hp, hj⟩⟩

/-- What is ahead of the next declaration comes after the one that is visited. -/
theorem declaredNearer_of_ahead (h : t.IsTree) {e index d : Nat} {seen : List String} {j : Nat}
    (hkind : t.kind e = .element) (hd : (t.namespaces e)[index]? = some d)
    (hj : Ahead ⟨some e, index + 1, seen⟩ t j) : t.DeclaredNearer d j := by
  have hdp := (h.mem_namespaces_iff.1 (List.mem_of_getElem? hd)).2
  have hdk := h.eq_of_namespaces_getElem? hd
  obtain ⟨e', he', ⟨i, hi, hj⟩ | ⟨f, hne, hc, hj⟩⟩ := hj
  · obtain rfl : e = e' := Int.ofNat_inj.1 (Option.some.inj he')
    have hjk := h.eq_of_namespaces_getElem? hj
    simp only at hi
    exact ⟨e, e, hdp, (h.mem_namespaces_iff.1 (List.mem_of_getElem? hj)).2, .inl ⟨rfl, by omega⟩⟩
  · obtain rfl : e = e' := Int.ofNat_inj.1 (Option.some.inj he')
    have hje := h.lt_of_namespace_above hkind hne hc hj
    exact ⟨e, f, hdp, (h.mem_namespaces_iff.1 hj).2, .inr ⟨hne.symm, hc, by omega⟩⟩

/-- The walk visits one declaration of its element after the other and goes on to the parent. -/
theorem proceeds_scan (h : t.IsTree) (seen : List String) (s : NamespaceWalk) {e : Nat}
    (index : Nat) : Proceeds (scan t e index seen) s t e ⟨some e, index, seen⟩ := by
  induction e, index, seen using scan.induct t generalizing s with
  | case1 e index seen hkind =>
    exact ⟨false, _, e, yields_scan_of_not_element hkind index seen s, by simp⟩
  | case2 e index seen hkind ihNext ihParent =>
    replace hkind := not_not.1 hkind
    cases hd : (t.namespaces e)[index]? with
    | some d =>
      rcases hjudge : judge (t.name? d) seen with ⟨_ | _, seen'⟩
      · obtain ⟨moved, w', m, hyields, hmoved⟩ :=
          (ihNext d hd seen' ⟨some e, index + 1, seen'⟩).mono fun j => ahead_of_succ
        exact ⟨moved, w', m, yields_scan_of_passed hkind hd hjudge hyields, hmoved⟩
      · refine ⟨true, _, d, yields_scan_of_counts hkind hd hjudge s, fun _ => ⟨?_, ?_⟩⟩
        · exact ⟨e, rfl, .inl ⟨index, Nat.le_refl index, hd⟩⟩
        · intro j hj
          exact ⟨declaredNearer_of_ahead h hkind hd hj, ahead_of_succ hj⟩
    | none =>
      cases hp : t.parent? e with
      | some p =>
        obtain ⟨moved, w', m, hyields, hmoved⟩ :=
          (ihParent p hp ⟨some p, 0, seen⟩).mono fun j => ahead_of_parent? h hp
        exact ⟨moved, w', m, yields_scan_of_parent hkind hd hp hyields, hmoved⟩
      | none => exact ⟨false, _, e, yields_scan_of_parentless hkind hd hp s, by simp⟩

theorem OnCourse.proceeds_advance (h : t.IsTree) {w : NamespaceWalk} (hw : w.OnCourse t)
    (here : Nat) : Proceeds (w.advance t here) w t here w := by
  cases hkey : w.element? with
  | none => exact ⟨false, _, here, yields_advance_of_over hkey here, by simp⟩
  | some key =>
    obtain ⟨e, rfl, he⟩ := hw key hkey
    have hscan := proceeds_scan h w.seen w (e := e) w.index
    rw [← hkey] at hscan
    obtain ⟨moved, w', m, hyields, hmoved⟩ := hscan
    exact ⟨moved, w', m, yields_advance_of_scan hkey he here hyields, hmoved⟩

end NamespaceWalk

namespace Walk

/-- The order in which a walk visits nodes. -/
def Orders (t : Snapshot) : Walk → Nat → Nat → Prop
  | ancestors _ | siblings .left | preceding _ => (· > ·)
  | namespaces _ => t.DeclaredNearer
  | _ => (· < ·)

/-- The nodes that a walk at `here` may still visit. -/
def Ahead (t : Snapshot) (here : Nat) : Walk → Nat → Prop
  | self w | parent w => fun _ => w.done = false
  | ancestors w => fun j => j < here + w.selfDue.toNat
  | children _ | siblings .right | following _ => fun j => here < j
  | descendants w => fun j => here < j + w.selfDue.toNat
  | siblings .left | preceding _ => fun j => j < here
  | attributes w => fun j => ∃ i, w.index ≤ i ∧ (t.attributes w.owner.toNat)[i]? = some j
  | namespaces w => w.Ahead t

/-- Undisturbed, the walk comes to a node that is ahead, and what is ahead then was so before and
comes after it, or it is over. -/
def Proceeds (w : Walk) (t : Snapshot) (here : Nat) : Prop :=
  ∃ moved w' m, (w.advance t here).Yields w here moved w' m ∧
    (moved = true → w'.Orders t = w.Orders t ∧ w.Ahead t here m ∧
      ∀ j, w'.Ahead t m j → w.Orders t m j ∧ w.Ahead t here j)

/-- A walk that is over proceeds. -/
theorem proceeds_of_over {w' : Walk} {m : Nat} (h : (w.advance t here).Yields w here false w' m) :
    w.Proceeds t here :=
  ⟨false, w', m, h, by simp⟩

/-- A walk that follows a link proceeds if the end of the link is ahead. -/
theorem proceeds_of_link {w' : Walk} {link : Option Nat}
    (h : (w.advance t here).Yields w here link.isSome w' (link.getD here))
    (hlink : ∀ m ∈ link, w'.Orders t = w.Orders t ∧ w.Ahead t here m ∧
      ∀ j, w'.Ahead t m j → w.Orders t m j ∧ w.Ahead t here j) : w.Proceeds t here := by
  refine ⟨_, _, _, h, fun hmoved => ?_⟩
  obtain ⟨m, rfl⟩ := Option.isSome_iff_exists.1 hmoved
  exact hlink m rfl

theorem proceeds_ancestors (w : AncestorWalk) : (ancestors w).Proceeds t here := by
  refine ⟨_, _, _, (w.yields_advance t here).mapNotes ancestors, fun hmoved => ⟨rfl, ?_⟩⟩
  cases hdue : w.selfDue with
  | true =>
    simp only [Ahead, Orders, hdue, if_true, Bool.toNat_true, Bool.toNat_false]
    exact ⟨by omega, fun j hj => ⟨by omega, by omega⟩⟩
  | false =>
    simp only [hdue, Bool.false_or] at hmoved
    obtain ⟨p, hp⟩ := Option.isSome_iff_exists.1 hmoved
    have hpk := parent?_lt hp
    simp only [Ahead, Orders, hdue, hp, Bool.false_eq_true, if_false, Option.getD_some,
      Bool.toNat_false]
    exact ⟨by omega, fun j hj => ⟨by omega, by omega⟩⟩

theorem proceeds_children (w : ChildWalk) : (children w).Proceeds t here := by
  refine proceeds_of_link ((w.yields_advance t here).mapNotes children) fun m hm => ⟨rfl, ?_⟩
  have hgt : here < m := (ChildWalk.target_gt hm).1
  exact ⟨hgt, fun j hj => ⟨hj, Nat.lt_trans hgt hj⟩⟩

theorem proceeds_descendants (h : t.IsTree) {w : DescendantWalk}
    (hw : (descendants w).Within t here left) : (descendants w).Proceeds t here := by
  cases hdone : w.done with
  | true => exact proceeds_of_over ((DescendantWalk.yields_over hdone).mapNotes descendants)
  | false =>
    obtain ⟨⟨origin, hcourse⟩, -⟩ := hw hdone
    cases hdue : w.selfDue with
    | true =>
      refine ⟨true, _, here, (DescendantWalk.yields_self hdone hdue).mapNotes descendants,
        fun _ => ⟨rfl, ?_⟩⟩
      simp only [Ahead, Orders, hdue, Bool.toNat_true, Bool.toNat_false]
      exact ⟨by omega, fun j hj => ⟨by omega, by omega⟩⟩
    | false =>
      by_cases hlt : t.bodyStart here < t.endOf origin
      · have hgt := bodyStart_gt t here
        refine ⟨true, _, _, (hcourse.yields_next h hdone hdue hlt).mapNotes descendants,
          fun _ => ⟨rfl, ?_⟩⟩
        simp only [Ahead, Orders, hdue, Bool.toNat_false]
        exact ⟨by omega, fun j hj => ⟨by omega, by omega⟩⟩
      · exact proceeds_of_over ((hcourse.yields_end h hdone hdue hlt).mapNotes descendants)

theorem proceeds_siblings (side : Side) : (siblings side).Proceeds t here := by
  refine proceeds_of_link ((side.yields_advance t here).mapNotes siblings) fun m hm => ⟨rfl, ?_⟩
  cases side with
  | left =>
    have hlt : m < here := left?_lt hm
    exact ⟨hlt, fun j hj => ⟨hj, Nat.lt_trans hj hlt⟩⟩
  | right =>
    have hgt : here < m := (right?_gt hm).1
    exact ⟨hgt, fun j hj => ⟨hj, Nat.lt_trans hgt hj⟩⟩

theorem proceeds_attributes (h : t.IsTree) {w : AttributeWalk}
    (hw : (attributes w).Within t here left) : (attributes w).Proceeds t here := by
  obtain ⟨origin, howner, hsize, -⟩ := hw
  refine ⟨_, _, _, (AttributeWalk.yields_advance howner hsize here).mapNotes attributes,
    fun hmoved => ⟨rfl, ?_⟩⟩
  obtain ⟨a, ha⟩ := Option.isSome_iff_exists.1 hmoved
  have horigin : w.owner.toNat = origin := by omega
  simp only [Ahead, Orders, horigin, ha, Option.getD_some, Option.isSome_some, Bool.toNat_true]
  refine ⟨⟨w.index, Nat.le_refl _, ha⟩, ?_⟩
  rintro j ⟨i, hi, hj⟩
  have haj := h.eq_of_attributes_getElem? ha
  have hjj := h.eq_of_attributes_getElem? hj
  exact ⟨by omega, i, by omega, hj⟩

theorem proceeds_following (h : t.IsTree) {w : FollowingWalk}
    (hw : (following w).Within t here left) : (following w).Proceeds t here := by
  cases hdone : w.done with
  | true => exact proceeds_of_over ((FollowingWalk.yields_over hdone).mapNotes following)
  | false =>
    obtain ⟨hcourse, -⟩ := hw hdone
    have hgt := hcourse.lt_target h
    refine ⟨_, _, _, (hcourse.yields_next h hdone).mapNotes following, fun hmoved => ⟨rfl, ?_⟩⟩
    have hlt : w.target t here < t.size := lt_size_of_find?_isSome hmoved
    simp only [Ahead, Orders, find?_natCast hlt, Option.getD_some]
    exact ⟨hgt, fun j hj => ⟨hj, Nat.lt_trans hgt hj⟩⟩

theorem proceeds_preceding (h : t.IsTree) {w : PrecedingWalk}
    (hw : (preceding w).Within t here left) : (preceding w).Proceeds t here := by
  cases hdone : w.done with
  | true => exact proceeds_of_over ((PrecedingWalk.yields_over hdone).mapNotes preceding)
  | false =>
    obtain ⟨hcourse, -⟩ := hw hdone
    obtain ⟨moved, w', m, hyields, hmoved⟩ := hcourse.visits_advance h hdone
    refine ⟨moved, _, m, hyields.mapNotes preceding, fun hm => ⟨rfl, ?_⟩⟩
    have hlt := (hmoved hm).1
    exact ⟨hlt, fun j hj => ⟨hj, Nat.lt_trans hj hlt⟩⟩

/-- Every walk that is on course proceeds. -/
theorem Within.proceeds (h : t.IsTree) (hw : w.Within t here left) :
    w.Proceeds t here := by
  cases w with
  | self w =>
    refine ⟨_, _, _, (w.yields_stay here).mapNotes self, fun hmoved => ⟨rfl, ?_, ?_⟩⟩
    · simpa [Ahead] using hmoved
    · simp [Ahead]
  | parent w =>
    refine ⟨_, _, _, (w.yields_toParent t here).mapNotes parent, fun hmoved => ⟨rfl, ?_, ?_⟩⟩
    · simpa [Ahead] using (Bool.and_eq_true_iff.1 hmoved).1
    · simp [Ahead]
  | ancestors w => exact proceeds_ancestors w
  | children w => exact proceeds_children w
  | descendants w => exact proceeds_descendants h hw
  | siblings side => exact proceeds_siblings side
  | attributes w => exact proceeds_attributes h hw
  | namespaces w =>
    obtain ⟨hcourse, -⟩ := hw
    obtain ⟨moved, w', m, hyields, hmoved⟩ := hcourse.proceeds_advance h here
    exact ⟨moved, _, m, hyields.mapNotes namespaces, fun hm => ⟨rfl, hmoved hm⟩⟩
  | following w => exact proceeds_following h hw
  | preceding w => exact proceeds_preceding h hw

end Walk

/-- The places of the route of a walk on course are in the order of the walk, and were ahead. -/
theorem Route.pairwise (h : t.IsTree) (hroute : Route t w here ks) (hk : here < t.size)
    (hw : w.Within t here left) :
    ks.Pairwise (w.Orders t) ∧ ∀ j ∈ ks, w.Ahead t here j := by
  induction hroute generalizing left with
  | stop _ => exact ⟨.nil, List.forall_mem_nil _⟩
  | @visit w w' here k ks hyields rest ih =>
    obtain ⟨moved, w₁, m, hyields', hmoved⟩ := hw.proceeds h
    obtain ⟨rfl, rfl, rfl⟩ := hyields'.unique hyields
    obtain ⟨horders, hahead, hnext⟩ := hmoved rfl
    obtain ⟨hm, left', hw'⟩ := hw.next h hk hyields
    obtain ⟨hpairwise, hrest⟩ := ih hm hw'
    rw [horders] at hpairwise
    exact ⟨.cons (fun j hj => (hnext j (hrest j hj)).1) hpairwise,
      List.forall_mem_cons.2 ⟨hahead, fun j hj => (hnext j (hrest j hj)).2⟩⟩

end DocTree
