import DocTree.Axis.Iterator
import DocTree.Proofs.Walk.Backward
import DocTree.Proofs.Walk.Forward
import DocTree.Proofs.Walk.Links
import DocTree.Proofs.Walk.Owned

/-!
# Routes

The route of a walk is what it visits, undisturbed, until it says for the first time that it is over.
From every node that there is, and along every axis, a walk has a route, and that is no longer than
the table: on every axis a visit moves the cursor on in one direction, or moves the walk on in what
is owned.

## Main definitions

- `Route` — the places that a walk visits
- `Walk.Within` — the walk is on course, with so many visits left at most

## Main statements

- `Axis.exists_route` — a walk has a route of bounded length
- `Axis.route_of_nothing`, `Axis.route_of_originOnly`, `Axis.route_of_childless` — what the kind of
  the origin says about the route
-/

namespace DocTree

open Reading Snapshot

variable {t : Snapshot} {here left k : Nat} {w : Walk}

/-- Undisturbed, the walk that is at `here` visits the places of a list and is over then. -/
inductive Route (t : Snapshot) : Walk → (here : Nat) → List Nat → Prop where
  | stop {w w' : Walk} {here top : Nat} (h : (w.advance t here).Yields w here false w' top) :
      Route t w here []
  | visit {w w' : Walk} {here k : Nat} {ks : List Nat}
      (h : (w.advance t here).Yields w here true w' k) (rest : Route t w' k ks) :
      Route t w here (k :: ks)

namespace Walk

/-- The walk is on course at `here`, and no more than `left` visits are left. -/
def Within (t : Snapshot) (here left : Nat) : Walk → Prop
  | self w | parent w => w.done = false → 0 < left
  | ancestors w => here + w.selfDue.toNat ≤ left
  | children _ => t.size ≤ here + 1 + left
  | siblings .right => t.size ≤ here + 1 + left
  | siblings .left => here ≤ left
  | descendants w => w.done = false →
      (∃ origin, w.OnCourse t origin here) ∧ t.size + w.selfDue.toNat ≤ here + 1 + left
  | attributes w => ∃ origin : Nat, w.owner = origin ∧ origin < t.size ∧
      (t.attributes origin).length ≤ w.index + left
  | namespaces w => w.OnCourse t ∧ w.rank t ≤ left
  | following w => w.done = false → w.OnCourse t here ∧ t.size ≤ here + 1 + left
  | preceding w => w.done = false → w.OnCourse t here ∧ here ≤ left

/-- Undisturbed, the walk comes to a node with fewer than `left` visits left then, or it is over. -/
def Advances (w : Walk) (t : Snapshot) (here left : Nat) : Prop :=
  ∃ moved w' m, (w.advance t here).Yields w here moved w' m ∧
    (moved = true → m < t.size ∧ ∃ left' < left, w'.Within t m left')

/-- A walk that is over advances. -/
theorem advances_of_over {w' : Walk} {m : Nat} (h : (w.advance t here).Yields w here false w' m) :
    w.Advances t here left :=
  ⟨false, w', m, h, by simp⟩

/-- A walk that follows a link advances if the end of the link is nearer to the end of the walk. -/
theorem advances_of_link {w' : Walk} {link : Option Nat}
    (h : (w.advance t here).Yields w here link.isSome w' (link.getD here))
    (hlink : ∀ m ∈ link, m < t.size ∧ ∃ left' < left, w'.Within t m left') :
    w.Advances t here left := by
  refine ⟨_, _, _, h, ?_⟩
  intro hmoved
  obtain ⟨m, rfl⟩ := Option.isSome_iff_exists.1 hmoved
  exact hlink m rfl

theorem advances_parent (hk : here < t.size) {w : OneStepWalk}
    (hw : (parent w).Within t here left) : (parent w).Advances t here left := by
  refine ⟨_, _, _, (w.yields_toParent t here).mapNotes parent, ?_⟩
  intro hmoved
  obtain ⟨hdone, hlink⟩ := Bool.and_eq_true_iff.1 hmoved
  obtain ⟨p, hp⟩ := Option.isSome_iff_exists.1 hlink
  have hpk := parent?_lt hp
  have hnot : w.done = false := by simpa using hdone
  simp only [hnot, hp, Bool.false_eq_true, if_false, Option.getD_some]
  exact ⟨by omega, 0, hw hnot, fun hnot => by simp at hnot⟩

theorem advances_ancestors (hk : here < t.size) {w : AncestorWalk}
    (hw : (ancestors w).Within t here left) : (ancestors w).Advances t here left := by
  refine ⟨_, _, _, (w.yields_advance t here).mapNotes ancestors, ?_⟩
  intro hmoved
  cases hdue : w.selfDue with
  | true =>
    -- The origin is visited first, and the cursor stays there.
    simp only [Within, hdue, Bool.toNat_true] at hw
    exact ⟨hk, here, hw, Nat.le_refl here⟩
  | false =>
    simp only [hdue, Bool.false_or] at hmoved
    obtain ⟨p, hp⟩ := Option.isSome_iff_exists.1 hmoved
    have hpk := parent?_lt hp
    simp only [Within, hdue, Bool.toNat_false] at hw
    simp only [hp, Bool.false_eq_true, if_false, Option.getD_some]
    exact ⟨by omega, p, by omega, Nat.le_refl p⟩

theorem advances_children {w : ChildWalk} (hw : (children w).Within t here left) :
    (children w).Advances t here left := by
  refine advances_of_link ((w.yields_advance t here).mapNotes children) ?_
  intro m hm
  have hgt := ChildWalk.target_gt hm
  simp only [Within] at hw ⊢
  exact ⟨hgt.2, t.size - (m + 1), by omega, by omega⟩

theorem advances_descendants (h : t.IsTree) (hk : here < t.size) {w : DescendantWalk}
    (hw : (descendants w).Within t here left) : (descendants w).Advances t here left := by
  cases hdone : w.done with
  | true => exact advances_of_over ((DescendantWalk.yields_over hdone).mapNotes descendants)
  | false =>
    obtain ⟨⟨origin, hcourse⟩, hleft⟩ := hw hdone
    cases hdue : w.selfDue with
    | true =>
      rw [hdue, Bool.toNat_true] at hleft
      have hcourse' : DescendantWalk.OnCourse { w with selfDue := false } t origin here :=
        { hcourse with }
      exact ⟨true, _, here, (DescendantWalk.yields_self hdone hdue).mapNotes descendants,
        fun _ => ⟨hk, left - 1, by omega, fun _ => ⟨⟨origin, hcourse'⟩, by simp; omega⟩⟩⟩
    | false =>
      rw [hdue, Bool.toNat_false] at hleft
      by_cases hlt : t.bodyStart here < t.endOf origin
      · have hcourse' := hcourse.next h hlt
        have hgt := bodyStart_gt t here
        have hsize := hcourse'.lt_size
        exact ⟨true, _, _, (hcourse.yields_next h hdone hdue hlt).mapNotes descendants,
          fun _ => ⟨hsize, t.size - (t.bodyStart here + 1), by omega,
            fun _ => ⟨⟨origin, hcourse'⟩, by simp [hdue]; omega⟩⟩⟩
      · exact advances_of_over ((hcourse.yields_end h hdone hdue hlt).mapNotes descendants)

theorem advances_siblings (hk : here < t.size) {side : Side}
    (hw : (siblings side).Within t here left) : (siblings side).Advances t here left := by
  refine advances_of_link ((side.yields_advance t here).mapNotes siblings) ?_
  intro m hm
  cases side with
  | left =>
    have hlt := left?_lt hm
    simp only [Within] at hw ⊢
    exact ⟨by omega, m, by omega, Nat.le_refl m⟩
  | right =>
    have hgt := right?_gt hm
    simp only [Within] at hw ⊢
    exact ⟨hgt.2, t.size - (m + 1), by omega, by omega⟩

theorem advances_attributes {w : AttributeWalk} (hw : (attributes w).Within t here left) :
    (attributes w).Advances t here left := by
  obtain ⟨origin, howner, hsize, hleft⟩ := hw
  refine ⟨_, _, _, (AttributeWalk.yields_advance howner hsize here).mapNotes attributes,
    fun hmoved => ?_⟩
  obtain ⟨a, ha⟩ := Option.isSome_iff_exists.1 hmoved
  have hindex := (List.getElem?_eq_some_iff.1 ha).1
  simp only [ha, Option.getD_some, Option.isSome_some, Bool.toNat_true]
  exact ⟨lt_size_of_attribute ha, left - 1, by omega, origin, howner, hsize, by dsimp only; omega⟩

theorem advances_following (h : t.IsTree) {w : FollowingWalk}
    (hw : (following w).Within t here left) : (following w).Advances t here left := by
  cases hdone : w.done with
  | true => exact advances_of_over ((FollowingWalk.yields_over hdone).mapNotes following)
  | false =>
    obtain ⟨hcourse, hleft⟩ := hw hdone
    have hgt := hcourse.lt_target h
    refine ⟨_, _, _, (hcourse.yields_next h hdone).mapNotes following, ?_⟩
    intro hmoved
    have hlt : w.target t here < t.size := lt_size_of_find?_isSome hmoved
    simp only [find?_natCast hlt, Option.getD_some]
    exact ⟨hlt, t.size - (w.target t here + 1), by omega,
      fun _ => ⟨hcourse.next h hlt _, by omega⟩⟩

theorem advances_preceding (h : t.IsTree) {w : PrecedingWalk}
    (hw : (preceding w).Within t here left) : (preceding w).Advances t here left := by
  cases hdone : w.done with
  | true => exact advances_of_over ((PrecedingWalk.yields_over hdone).mapNotes preceding)
  | false =>
    obtain ⟨hcourse, hleft⟩ := hw hdone
    obtain ⟨moved, w', m, hyields, hmoved⟩ := hcourse.visits_advance h hdone
    refine ⟨moved, _, m, hyields.mapNotes preceding, ?_⟩
    intro hm
    obtain ⟨hlt, hcourse', -, hdone'⟩ := hmoved hm
    exact ⟨hcourse'.lt_size, m, by omega, fun _ => ⟨hcourse', Nat.le_refl m⟩⟩

/-- Every walk that is on course advances. -/
theorem Within.advances (h : t.IsTree) (hk : here < t.size) (hw : w.Within t here left) :
    w.Advances t here left := by
  cases w with
  | self w =>
    refine ⟨_, _, _, (w.yields_stay here).mapNotes self, fun hmoved => ⟨hk, 0, hw ?_, fun hnot => ?_⟩⟩
    · simpa using hmoved
    · simp at hnot
  | parent w => exact advances_parent hk hw
  | ancestors w => exact advances_ancestors hk hw
  | children w => exact advances_children hw
  | descendants w => exact advances_descendants h hk hw
  | siblings side => exact advances_siblings hk hw
  | attributes w => exact advances_attributes hw
  | namespaces w =>
    obtain ⟨hcourse, hrank⟩ := hw
    obtain ⟨moved, w', m, hyields, hmoved⟩ := hcourse.visits_advance h here
    refine ⟨moved, _, m, hyields.mapNotes namespaces, ?_⟩
    intro hm
    obtain ⟨hlt, hcourse', hless⟩ := hmoved hm
    exact ⟨hlt, w'.rank t, by omega, hcourse', Nat.le_refl _⟩
  | following w => exact advances_following h hw
  | preceding w => exact advances_preceding h hw

/-- A walk on course stays there. -/
theorem Within.next (h : t.IsTree) (hk : here < t.size) (hw : w.Within t here left) {w' : Walk}
    {m : Nat} (hyields : (w.advance t here).Yields w here true w' m) :
    m < t.size ∧ ∃ left', w'.Within t m left' := by
  obtain ⟨moved, w₁, m₁, hyields', hmoved⟩ := hw.advances h hk
  obtain ⟨rfl, rfl, rfl⟩ := hyields'.unique hyields
  obtain ⟨hm, left', -, hw'⟩ := hmoved rfl
  exact ⟨hm, left', hw'⟩

/-- A walk on course has a route, which is no longer than what is left. -/
theorem Within.exists_route (h : t.IsTree) (hk : here < t.size) (hw : w.Within t here left) :
    ∃ ks, Route t w here ks ∧ ks.length ≤ left ∧ ∀ k ∈ ks, k < t.size := by
  induction left using Nat.strongRecOn generalizing w here with
  | ind left ih =>
    obtain ⟨moved, w', m, hyields, hmoved⟩ := hw.advances h hk
    cases moved with
    | false => exact ⟨[], .stop hyields, Nat.zero_le left, List.forall_mem_nil _⟩
    | true =>
      obtain ⟨hm, left', hless, hw'⟩ := hmoved rfl
      obtain ⟨ks, hroute, hlength, hks⟩ := ih left' hless hm hw'
      refine ⟨m :: ks, .visit hyields hroute, by simp only [List.length_cons]; omega, ?_⟩
      simpa [hm] using hks

end Walk

namespace Axis

variable {axis : Axis}

/-- A walk is on course at its origin. -/
theorem within_walk (h : t.IsTree) (hk : k < t.size) (axis : Axis) (revision : Nat) :
    (axis.walk (t.handle revision k)).Within t k t.size := by
  have hbody := h.bodyStart_le_endOf hk
  have hend := h.endOf_le_size hk
  unfold bodyStart at hbody
  cases axis with
  | self => exact fun _ => by omega
  | parent => exact fun _ => by omega
  | ancestor => simp only [walk, Walk.Within, Bool.toNat_false]; omega
  | ancestorOrSelf => simp only [walk, Walk.Within, Bool.toNat_true]; omega
  | child => simp only [walk, Walk.Within]; omega
  | descendant =>
    exact fun _ => ⟨⟨k, DescendantWalk.onCourse_origin hk false⟩,
      by simp only [Bool.toNat_false]; omega⟩
  | descendantOrSelf =>
    exact fun _ => ⟨⟨k, DescendantWalk.onCourse_origin hk true⟩,
      by simp only [Bool.toNat_true]; omega⟩
  | followingSibling => simp only [walk, Walk.Within]; omega
  | precedingSibling => simp only [walk, Walk.Within]; omega
  | «attribute» => exact ⟨k, rfl, hk, by simp only; omega⟩
  | namespaceDecl =>
    refine ⟨fun key hkey => ⟨k, ?_, hk⟩, ?_⟩
    · simpa [Snapshot.handle, Handle.make] using hkey.symm
    · simp only [NamespaceWalk.rank, Snapshot.handle, Handle.make, Int.toNat_natCast]
      omega
  | following => exact fun _ => ⟨FollowingWalk.onCourse_origin hk, by omega⟩
  | preceding => exact fun _ => ⟨PrecedingWalk.onCourse_origin hk false, by omega⟩
  | precedingOrAncestor => exact fun _ => ⟨PrecedingWalk.onCourse_origin hk true, by omega⟩

/-- From every node and along every axis a walk has a route, which is no longer than the table. -/
theorem exists_route (h : t.IsTree) (hk : k < t.size) (axis : Axis) (revision : Nat) :
    ∃ ks, Route t (axis.walk (t.handle revision k)) k ks ∧ ks.length ≤ t.size ∧
      ∀ j ∈ ks, j < t.size :=
  (axis.within_walk h hk revision).exists_route h hk

theorem opening_nothing {kind : Kind} (hopening : axis.opening kind = .nothing) :
    ((axis = .parent ∨ axis = .ancestor) ∧ kind = .root) ∨
      ((axis = .attribute ∨ axis = .namespaceDecl) ∧ kind ≠ .element) ∨
      ((axis = .followingSibling ∨ axis = .precedingSibling) ∧
        (kind = .root ∨ kind.isStructural = false)) := by
  revert hopening
  cases axis <;> cases kind <;> decide

theorem opening_originOnly {kind : Kind} (hopening : axis.opening kind = .originOnly) :
    axis = .self ∨ (axis = .ancestorOrSelf ∧ kind = .root) := by
  revert hopening
  cases axis <;> cases kind <;> decide

theorem opening_walkIfParent {kind : Kind} (hopening : axis.opening kind = .walkIfParent) :
    axis = .child ∨ axis = .descendant := by
  revert hopening
  cases axis <;> cases kind <;> decide

/-- Where nothing is expected from the kind of the origin, the walk is over at once. -/
theorem route_of_nothing (h : t.IsTree) (hk : k < t.size) {revision : Nat}
    (hopening : axis.opening (t.kind k) = .nothing) :
    Route t (axis.walk (t.handle revision k)) k [] := by
  rcases opening_nothing hopening with ⟨haxis, hkind⟩ | ⟨haxis, hkind⟩ | ⟨haxis, hkind⟩
  · have hp := (h.parent?_eq_none_iff hk).2 ((h.kind_eq_root_iff hk).1 hkind)
    rcases haxis with rfl | rfl
    · have hyields := (OneStepWalk.yields_toParent {} t k).mapNotes Walk.parent
      rw [hp] at hyields
      exact .stop hyields
    · have hyields := (AncestorWalk.yields_advance { selfDue := false } t k).mapNotes Walk.ancestors
      rw [hp] at hyields
      exact .stop hyields
  · rcases haxis with rfl | rfl
    · have hyields := (AttributeWalk.yields_advance (w := { owner := k }) rfl hk k).mapNotes
        Walk.attributes
      rw [h.attributes_of_not_element hkind] at hyields
      exact .stop hyields
    · obtain ⟨w', hyields⟩ := NamespaceWalk.yields_of_not_element hkind
      exact .stop (hyields.mapNotes Walk.namespaces)
  · obtain ⟨hleft, hright⟩ := h.sibling?_eq_none hk hkind
    rcases haxis with rfl | rfl
    · have hyields := (Side.yields_advance .right t k).mapNotes Walk.siblings
      rw [Side.target, hright] at hyields
      exact .stop hyields
    · have hyields := (Side.yields_advance .left t k).mapNotes Walk.siblings
      rw [Side.target, hleft] at hyields
      exact .stop hyields

/-- Where only the origin is expected from its kind, the walk visits that. -/
theorem route_of_originOnly (h : t.IsTree) (hk : k < t.size) {revision : Nat}
    (hopening : axis.opening (t.kind k) = .originOnly) :
    Route t (axis.walk (t.handle revision k)) k [k] := by
  rcases opening_originOnly hopening with rfl | ⟨rfl, hkind⟩
  · exact .visit ((OneStepWalk.yields_stay {} k).mapNotes Walk.self)
      (.stop ((OneStepWalk.yields_stay ⟨true⟩ k).mapNotes Walk.self))
  · have hp := (h.parent?_eq_none_iff hk).2 ((h.kind_eq_root_iff hk).1 hkind)
    have hyields := (AncestorWalk.yields_advance { selfDue := false } t k).mapNotes Walk.ancestors
    rw [hp] at hyields
    exact .visit ((AncestorWalk.yields_advance { selfDue := true } t k).mapNotes Walk.ancestors)
      (.stop hyields)

/-- Where children are expected and the origin has none, the walk is over at once. -/
theorem route_of_childless (h : t.IsTree) (hk : k < t.size) {revision : Nat}
    (hopening : axis.opening (t.kind k) = .walkIfParent) (hc : t.firstChild? k = none) :
    Route t (axis.walk (t.handle revision k)) k [] := by
  rcases opening_walkIfParent hopening with rfl | rfl
  · have hyields := (ChildWalk.yields_advance {} t k).mapNotes Walk.children
    rw [ChildWalk.target, if_neg (by decide), hc] at hyields
    exact .stop hyields
  · have hend : ¬t.bodyStart k < t.endOf k := by
      rw [h.endOf_eq_bodyStart hk hc]
      exact Nat.lt_irrefl _
    exact .stop (((DescendantWalk.onCourse_origin hk false).yields_end h rfl rfl hend).mapNotes
      Walk.descendants)

end Axis

end DocTree
