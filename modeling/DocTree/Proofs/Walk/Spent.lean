import DocTree.Proofs.Axis.Dispatch
import DocTree.Proofs.Walk.Order

/-!
# Walks that are advanced after their end

A walk that is over says so, and a caller may advance it all the same. Most walks note that they are
over; those that do not have come to a place from where they cannot go on. The one exception is a walk
over children: it notes that it has gone down before it looks for a child, and if there is none, it
takes the siblings of its origin for the rest of the children.

## Main definitions

- `Walk.Answers` — what a walk says when it is advanced again and again
- `Walk.Spent` — the walk will say that it is over for ever
- `Walk.Strays` — the walk is over, but not spent then

## Main statements

- `Walk.Spent.answers` — a spent walk is over for ever
- `Walk.Within.spent` — a walk that is over is spent, unless it strays
- `Route.answers` — what a walk says along its route and after that
-/

namespace DocTree

open Reading Snapshot

variable {t : Snapshot} {here left k : Nat} {w : Walk} {ks : List Nat}

namespace Walk

/-- Undisturbed, the walk at `here` is advanced as often as the list has entries: each time it comes to
a node, or says that it is over. -/
inductive Answers (t : Snapshot) : Walk → (here : Nat) → List (Option Nat) → Prop where
  | nil {w : Walk} {here : Nat} : Answers t w here []
  | cons {w w' : Walk} {here m : Nat} {moved : Bool} {answers : List (Option Nat)}
      (h : (w.advance t here).Yields w here moved w' m) (rest : Answers t w' m answers) :
      Answers t w here ((if moved then some m else none) :: answers)

/-- What a walk says is determined. -/
theorem Answers.unique {answers answers' : List (Option Nat)} (h : w.Answers t here answers)
    (h' : w.Answers t here answers') (hlength : answers.length = answers'.length) :
    answers = answers' := by
  induction h generalizing answers' with
  | nil => exact (List.length_eq_zero_iff.1 hlength.symm).symm
  | cons h rest ih =>
    cases h' with
    | nil => cases hlength
    | cons h' rest' =>
      obtain ⟨rfl, rfl, rfl⟩ := h.unique h'
      rw [ih rest' (Nat.succ.inj hlength)]

/-- What a walk says at first does not depend on what it is asked later. -/
theorem Answers.take {answers : List (Option Nat)} (h : w.Answers t here answers) (n : Nat) :
    w.Answers t here (answers.take n) := by
  induction h generalizing n with
  | nil => rw [List.take_nil]; exact .nil
  | cons h rest ih =>
    cases n with
    | zero => exact .nil
    | succ n => exact .cons h (ih n)

/-- The walk will not find another node: it has noted so, or there is nothing where it would go. -/
def Spent (t : Snapshot) (here : Nat) : Walk → Prop
  | self w | parent w => w.done = true
  | ancestors w => w.selfDue = false ∧ t.parent? here = none
  | children w => w.entered = true ∧ t.right? here = none
  | siblings side => side.target t here = none
  | attributes w => ∃ origin : Nat, w.owner = origin ∧ origin < t.size ∧
      (t.attributes origin)[w.index]? = none
  | namespaces w => w.element? = none
  | descendants w => w.done = true
  | following w => w.done = true
  | preceding w => w.done = true

/-- A walk that has not gone down yet, from a node without children and with a sibling to its
right. -/
def Strays (t : Snapshot) (here : Nat) : Walk → Prop
  | children w => w.entered = false ∧ t.firstChild? here = none ∧ (t.right? here).isSome
  | _ => False

/-- A spent walk says that it is over and stays spent. -/
theorem Spent.advance (h : w.Spent t here) :
    ∃ w' m, (w.advance t here).Yields w here false w' m ∧ w'.Spent t m := by
  cases w with
  | self w =>
    have hyields := (w.yields_stay here).mapNotes Walk.self
    rw [show w.done = true from h] at hyields
    exact ⟨_, _, hyields, rfl⟩
  | parent w =>
    have hyields := (w.yields_toParent t here).mapNotes Walk.parent
    rw [show w.done = true from h] at hyields
    exact ⟨_, _, hyields, rfl⟩
  | ancestors w =>
    obtain ⟨hdue, hp⟩ := h
    have hyields := (w.yields_advance t here).mapNotes Walk.ancestors
    rw [hdue, hp] at hyields
    exact ⟨_, _, hyields, rfl, hp⟩
  | children w =>
    obtain ⟨hentered, hr⟩ := h
    have hyields := (w.yields_advance t here).mapNotes Walk.children
    rw [ChildWalk.target, if_pos hentered, hr] at hyields
    exact ⟨_, _, hyields, rfl, hr⟩
  | siblings side =>
    have htarget : side.target t here = none := h
    have hyields := (side.yields_advance t here).mapNotes Walk.siblings
    rw [htarget] at hyields
    exact ⟨_, _, hyields, htarget⟩
  | attributes w =>
    obtain ⟨origin, howner, hsize, hnone⟩ := h
    have hyields := (AttributeWalk.yields_advance howner hsize here).mapNotes Walk.attributes
    rw [hnone] at hyields
    exact ⟨_, _, hyields, origin, howner, hsize, hnone⟩
  | namespaces w =>
    exact ⟨_, _, (NamespaceWalk.yields_advance_of_over h here).mapNotes Walk.namespaces, rfl⟩
  | descendants w => exact ⟨_, _, (DescendantWalk.yields_over h).mapNotes Walk.descendants, h⟩
  | following w => exact ⟨_, _, (FollowingWalk.yields_over h).mapNotes Walk.following, h⟩
  | preceding w => exact ⟨_, _, (PrecedingWalk.yields_over h).mapNotes Walk.preceding, h⟩

/-- A spent walk is over for ever. -/
theorem Spent.answers (h : w.Spent t here) (times : Nat) :
    w.Answers t here (List.replicate times none) := by
  induction times generalizing w here with
  | zero => exact .nil
  | succ times ih =>
    obtain ⟨w', m, hyields, hspent⟩ := h.advance
    exact .cons hyields (ih hspent)

end Walk

/-- A walk over namespaces that ends on its way has noted that. -/
theorem NamespaceWalk.ends_scan (t : Snapshot) (seen : List String) (s : NamespaceWalk) {e : Nat}
    (index : Nat) : ∃ moved w' m, (scan t e index seen).Yields s e moved w' m ∧
      (moved = false → w'.element? = none) := by
  induction e, index, seen using scan.induct t generalizing s with
  | case1 e index seen hkind =>
    exact ⟨false, _, e, yields_scan_of_not_element hkind index seen s, fun _ => rfl⟩
  | case2 e index seen hkind ihNext ihParent =>
    replace hkind := not_not.1 hkind
    cases hd : (t.namespaces e)[index]? with
    | some d =>
      rcases hjudge : judge (t.name? d) seen with ⟨_ | _, seen'⟩
      · obtain ⟨moved, w', m, hyields, hover⟩ := ihNext d hd seen' ⟨some e, index + 1, seen'⟩
        exact ⟨moved, w', m, yields_scan_of_passed hkind hd hjudge hyields, hover⟩
      · exact ⟨true, _, d, yields_scan_of_counts hkind hd hjudge s, by simp⟩
    | none =>
      cases hp : t.parent? e with
      | some p =>
        obtain ⟨moved, w', m, hyields, hover⟩ := ihParent p hp ⟨some p, 0, seen⟩
        exact ⟨moved, w', m, yields_scan_of_parent hkind hd hp hyields, hover⟩
      | none => exact ⟨false, _, e, yields_scan_of_parentless hkind hd hp s, fun _ => rfl⟩

theorem NamespaceWalk.OnCourse.ends_advance {w : NamespaceWalk} (hw : w.OnCourse t) (here : Nat) :
    ∃ moved w' m, (w.advance t here).Yields w here moved w' m ∧
      (moved = false → w'.element? = none) := by
  cases hkey : w.element? with
  | none => exact ⟨false, _, here, yields_advance_of_over hkey here, fun _ => rfl⟩
  | some key =>
    obtain ⟨e, rfl, he⟩ := hw key hkey
    obtain ⟨moved, w', m, hyields, hover⟩ := ends_scan t w.seen w (e := e) w.index
    exact ⟨moved, w', m, yields_advance_of_scan hkey he here hyields, hover⟩

namespace Walk

/-- Undisturbed, the walk is spent when it is over. -/
def Ends (w : Walk) (t : Snapshot) (here : Nat) : Prop :=
  ∃ moved w' m, (w.advance t here).Yields w here moved w' m ∧ (moved = false → w'.Spent t m)

/-- A walk that follows a link has to be spent only where there is no link. -/
theorem ends_of_link {w' : Walk} {link : Option Nat}
    (h : (w.advance t here).Yields w here link.isSome w' (link.getD here))
    (hspent : link = none → w'.Spent t here) : w.Ends t here := by
  refine ⟨_, _, _, h, ?_⟩
  intro hover
  have hnone : link = none := by simpa using hover
  rw [hnone]
  exact hspent hnone

theorem ends_ancestors (w : AncestorWalk) : (ancestors w).Ends t here := by
  refine ⟨_, _, _, (w.yields_advance t here).mapNotes ancestors, ?_⟩
  intro hover
  obtain ⟨hdue, hp⟩ := Bool.or_eq_false_iff.1 hover
  have hnone : t.parent? here = none := by simpa using hp
  rw [hdue, hnone]
  exact ⟨rfl, hnone⟩

theorem ends_children {w : ChildWalk} (hnot : ¬(children w).Strays t here) :
    (children w).Ends t here := by
  refine ends_of_link ((w.yields_advance t here).mapNotes children) ?_
  intro hnone
  refine ⟨rfl, ?_⟩
  unfold ChildWalk.target at hnone
  split at hnone
  · exact hnone
  · -- There was no child, and no sibling is left that could be taken for one.
    rename_i hentered
    by_contra hr
    exact hnot ⟨by simpa using hentered, hnone, Option.isSome_iff_ne_none.2 hr⟩

theorem ends_descendants (h : t.IsTree) {w : DescendantWalk}
    (hw : (descendants w).Within t here left) : (descendants w).Ends t here := by
  cases hdone : w.done with
  | true =>
    exact ⟨false, _, _, (DescendantWalk.yields_over hdone).mapNotes descendants, fun _ => hdone⟩
  | false =>
    obtain ⟨⟨origin, hcourse⟩, -⟩ := hw hdone
    cases hdue : w.selfDue with
    | true =>
      exact ⟨true, _, _, (DescendantWalk.yields_self hdone hdue).mapNotes descendants, by simp⟩
    | false =>
      by_cases hlt : t.bodyStart here < t.endOf origin
      · exact ⟨true, _, _, (hcourse.yields_next h hdone hdue hlt).mapNotes descendants, by simp⟩
      · exact ⟨false, _, _, (hcourse.yields_end h hdone hdue hlt).mapNotes descendants,
          fun _ => rfl⟩

theorem ends_attributes {w : AttributeWalk} (hw : (attributes w).Within t here left) :
    (attributes w).Ends t here := by
  obtain ⟨origin, howner, hsize, -⟩ := hw
  refine ⟨_, _, _, (AttributeWalk.yields_advance howner hsize here).mapNotes attributes, ?_⟩
  intro hover
  have hnone : (t.attributes origin)[w.index]? = none := by simpa using hover
  rw [hnone]
  exact ⟨origin, howner, hsize, hnone⟩

theorem ends_following (h : t.IsTree) {w : FollowingWalk}
    (hw : (following w).Within t here left) : (following w).Ends t here := by
  cases hdone : w.done with
  | true =>
    exact ⟨false, _, _, (FollowingWalk.yields_over hdone).mapNotes following, fun _ => hdone⟩
  | false =>
    obtain ⟨hcourse, -⟩ := hw hdone
    refine ⟨_, _, _, (hcourse.yields_next h hdone).mapNotes following, ?_⟩
    intro hover
    exact congrArg (!·) hover

theorem ends_preceding (h : t.IsTree) {w : PrecedingWalk}
    (hw : (preceding w).Within t here left) : (preceding w).Ends t here := by
  cases hdone : w.done with
  | true =>
    exact ⟨false, _, _, (PrecedingWalk.yields_over hdone).mapNotes preceding, fun _ => hdone⟩
  | false =>
    obtain ⟨hcourse, -⟩ := hw hdone
    obtain ⟨noted, found, -, -, hyields⟩ := hcourse.yields_advance h hdone
    refine ⟨_, _, _, hyields.mapNotes preceding, ?_⟩
    intro hover
    exact congrArg (!·) hover

/-- Every walk that is on course and does not stray is spent when it is over. -/
theorem Within.ends (h : t.IsTree) (hw : w.Within t here left) (hnot : ¬w.Strays t here) :
    w.Ends t here := by
  cases w with
  | self w => exact ⟨_, _, _, (w.yields_stay here).mapNotes self, fun _ => rfl⟩
  | parent w => exact ⟨_, _, _, (w.yields_toParent t here).mapNotes parent, fun _ => rfl⟩
  | ancestors w => exact ends_ancestors w
  | children w => exact ends_children hnot
  | descendants w => exact ends_descendants h hw
  | siblings side =>
    exact ends_of_link ((side.yields_advance t here).mapNotes siblings) fun hnone => hnone
  | attributes w => exact ends_attributes hw
  | namespaces w =>
    obtain ⟨moved, w', m, hyields, hover⟩ := hw.1.ends_advance here
    exact ⟨moved, _, m, hyields.mapNotes namespaces, hover⟩
  | following w => exact ends_following h hw
  | preceding w => exact ends_preceding h hw

/-- When a walk that does not stray says that it is over, it is spent. -/
theorem Within.spent (h : t.IsTree) (hw : w.Within t here left) (hnot : ¬w.Strays t here) {w' : Walk}
    {m : Nat} (hyields : (w.advance t here).Yields w here false w' m) : w'.Spent t m := by
  obtain ⟨moved, w₁, m₁, hyields', hover⟩ := hw.ends h hnot
  obtain ⟨rfl, rfl, rfl⟩ := hyields'.unique hyields
  exact hover rfl

/-- Once a walk has been advanced it does not stray any more. -/
theorem not_strays_of_yields {moved : Bool} {w' : Walk} {m : Nat}
    (hyields : (w.advance t here).Yields w here moved w' m) : ¬w'.Strays t m := by
  rintro hstrays
  cases w' with
  | children w' =>
    cases w with
    | children w =>
      obtain ⟨-, hw', -⟩ := hyields.unique ((w.yields_advance t here).mapNotes children)
      cases hw'
      exact absurd hstrays.1 (by simp)
    | _ =>
      -- A walk of another kind has notes of its own kind.
      obtain ⟨s', hs', -⟩ := Yields.of_mapNotes hyields
      cases hs'
  | _ => exact hstrays

end Walk

/-- A walk that does not stray at first visits its route and is over for ever after that. -/
theorem Route.answers (h : t.IsTree) (hroute : Route t w here ks) (hk : here < t.size)
    (hw : w.Within t here left) (hnot : ¬w.Strays t here) (times : Nat) :
    w.Answers t here (ks.map some ++ List.replicate times none) := by
  induction hroute generalizing left times with
  | stop hstop =>
    cases times with
    | zero => exact .nil
    | succ times => exact .cons hstop ((hw.spent h hnot hstop).answers times)
  | visit hvisit rest ih =>
    obtain ⟨hm, left', hw'⟩ := hw.next h hk hvisit
    exact .cons hvisit (ih hm hw' (Walk.not_strays_of_yields hvisit) times)

end DocTree
