import DocTree.Proofs.Layout.Subtree
import DocTree.Proofs.Reading.Granted
import DocTree.Walk.Owned

/-!
# Walks over attributes and namespaces, undisturbed

A walk over attributes goes through the list of its owner. A walk over namespaces goes through the
declarations of an element and of its ancestors; whether it visits them or not, it goes on in the
list, or from an element to one that is stored before it, with all that it declares.

## Main definitions

- `NamespaceWalk.rank` — a bound for what is left of a walk over namespaces

## Main statements

- `AttributeWalk.yields_advance` — the next attribute
- `NamespaceWalk.yields_scan_of_counts`, `NamespaceWalk.yields_scan_of_passed`,
  `NamespaceWalk.yields_scan_of_parent` — what a walk over namespaces does with a declaration, and
  after the last one
- `NamespaceWalk.OnCourse.visits_advance` — every visit leaves less
-/

namespace DocTree

open Reading Snapshot

variable {t : Snapshot} {σ : Type} {here origin k p : Nat}

theorem Snapshot.lt_size_of_attribute {i : Nat} (h : (t.attributes p)[i]? = some k) : k < t.size :=
  ((t.node_linked p).attributes_gt k (List.mem_of_getElem? h)).2

theorem Snapshot.lt_size_of_namespace {i : Nat} (h : (t.namespaces p)[i]? = some k) : k < t.size :=
  ((t.node_linked p).namespaces_gt k (List.mem_of_getElem? h)).2

/-- The next attribute of the owner, wherever the cursor is; after the last one the cursor is on the
owner. -/
theorem AttributeWalk.yields_advance {w : AttributeWalk} (howner : w.owner = origin)
    (hk : origin < t.size) (here : Nat) :
    (w.advance t here).Yields w here ((t.attributes origin)[w.index]?).isSome
      { w with index := w.index + ((t.attributes origin)[w.index]?).isSome.toNat }
      (((t.attributes origin)[w.index]?).getD origin) := by
  have hattribute : ∀ here, (do
      if ← .ask (t.attributes origin)[w.index]? then
        .keep { w with index := w.index + 1 }
        pure true
      else pure false : Reading AttributeWalk Bool).Yields w here
        ((t.attributes origin)[w.index]?).isSome
        { w with index := w.index + ((t.attributes origin)[w.index]?).isSome.toNat }
        (((t.attributes origin)[w.index]?).getD here) := by
    intro here
    refine (Yields.ask _ w here).bind ?_
    cases (t.attributes origin)[w.index]? with
    | some k => exact (Yields.keep _ _ _).bind (.done true _ _)
    | none => exact .done false w here
  rw [advance]
  by_cases hhome : here = origin
  · subst hhome
    simpa [howner] using hattribute here
  · have hne : ¬(here : Int) = w.owner := by omega
    have hfind : t.find? w.owner = some origin := by rw [howner, find?_natCast hk]
    have hnat : w.owner.toNat = origin := by omega
    simp only [hne, if_false, hfind, hnat]
    exact (Yields.ask (some origin) w here).bind (hattribute origin)

namespace NamespaceWalk

section Scan

variable {e index d : Nat} {seen seen' : List String} {s w' : NamespaceWalk} {moved : Bool} {m : Nat}

theorem yields_finish (w s : NamespaceWalk) (here : Nat) :
    w.finish.Yields s here false { w with element? := none } here :=
  (Yields.keep s _ here).bind (.done false _ here)

/-- A place where no element is has no declarations, and the walk is over there. -/
theorem yields_scan_of_not_element (hkind : t.kind e ≠ .element) (index : Nat) (seen : List String)
    (s : NamespaceWalk) : (scan t e index seen).Yields s e false ⟨none, index, seen⟩ e := by
  rw [scan, if_pos hkind]
  exact yields_finish _ s e

/-- A declaration that counts is visited. -/
theorem yields_scan_of_counts (hkind : t.kind e = .element)
    (hd : (t.namespaces e)[index]? = some d) (hjudge : judge (t.name? d) seen = (true, seen'))
    (s : NamespaceWalk) : (scan t e index seen).Yields s e true ⟨some e, index + 1, seen'⟩ d := by
  rw [scan, if_neg (not_not.2 hkind)]
  refine (Yields.ask _ s e).bind ?_
  split
  · rename_i d' harrived hd'
    obtain rfl : d = d' := Option.some.inj (hd.symm.trans hd')
    rw [hjudge, hd, Option.getD_some]
    exact (Yields.keep _ _ _).bind (.done true _ d)
  · rename_i hnone
    exact (hnone _ (by simp [hd]) hd).elim

/-- From a declaration that does not count the walk goes on in the list. -/
theorem yields_scan_of_passed (hkind : t.kind e = .element)
    (hd : (t.namespaces e)[index]? = some d) (hjudge : judge (t.name? d) seen = (false, seen'))
    (h : (scan t e (index + 1) seen').Yields ⟨some e, index + 1, seen'⟩ e moved w' m) :
    (scan t e index seen).Yields s e moved w' m := by
  rw [scan, if_neg (not_not.2 hkind)]
  refine (Yields.ask _ s e).bind ?_
  split
  · rename_i d' harrived hd'
    obtain rfl : d = d' := Option.some.inj (hd.symm.trans hd')
    rw [hjudge]
    refine (Yields.keep _ _ _).bind ?_
    exact (Yields.ask (some e) _ _).bind h
  · rename_i hnone
    exact (hnone _ (by simp [hd]) hd).elim

/-- After the last declaration the walk goes on with those of the parent. -/
theorem yields_scan_of_parent (hkind : t.kind e = .element) (hd : (t.namespaces e)[index]? = none)
    (hp : t.parent? e = some p) (h : (scan t p 0 seen).Yields ⟨some p, 0, seen⟩ p moved w' m) :
    (scan t e index seen).Yields s e moved w' m := by
  rw [scan, if_neg (not_not.2 hkind)]
  refine (Yields.ask _ s e).bind ?_
  split
  · rename_i d' harrived hd'
    cases hd.symm.trans hd'
  · split
    · rename_i p' hp'
      obtain rfl : p = p' := Option.some.inj (hp.symm.trans hp')
      refine (Yields.keep _ _ _).bind ?_
      exact (Yields.ask (some p) _ _).bind h
    · rename_i hnone
      cases hp.symm.trans hnone

/-- After the last declaration of an element without a parent the walk is over. -/
theorem yields_scan_of_parentless (hkind : t.kind e = .element)
    (hd : (t.namespaces e)[index]? = none) (hp : t.parent? e = none) (s : NamespaceWalk) :
    (scan t e index seen).Yields s e false ⟨none, 0, seen⟩ e := by
  rw [scan, if_neg (not_not.2 hkind)]
  refine (Yields.ask _ s e).bind ?_
  split
  · rename_i d' harrived hd'
    cases hd.symm.trans hd'
  · split
    · rename_i p' hp'
      cases hp.symm.trans hp'
    · rw [hd]
      exact yields_finish _ s e

/-- Wherever the cursor is, the walk goes on from where it is in the list of its element. -/
theorem yields_advance_of_scan {w : NamespaceWalk} (hkey : w.element? = some (e : Int))
    (he : e < t.size) (here : Nat) (h : (scan t e w.index w.seen).Yields w e moved w' m) :
    (w.advance t here).Yields w here moved w' m := by
  unfold advance
  simp only [hkey]
  by_cases hhere : (here : Int) = e
  · obtain rfl : here = e := Int.ofNat_inj.1 hhere
    rw [if_pos rfl]
    exact h
  · rw [if_neg hhere, find?_natCast he]
    exact (Yields.ask (some e) w here).bind h

/-- A walk that is over stays so. -/
theorem yields_advance_of_over {w : NamespaceWalk} (hkey : w.element? = none) (here : Nat) :
    (w.advance t here).Yields w here false { w with element? := none } here := by
  unfold advance
  simp only [hkey]
  exact yields_finish w w here

end Scan

/-- No fewer than the declarations that are left to be looked at. -/
def rank (w : NamespaceWalk) (t : Snapshot) : Nat :=
  match w.element? with
  | some e => e.toNat + ((t.namespaces e.toNat).length - w.index)
  | none => 0

/-- The walk is at an element that there is, or over. -/
def OnCourse (w : NamespaceWalk) (t : Snapshot) : Prop :=
  ∀ key ∈ w.element?, ∃ e : Nat, key = e ∧ e < t.size

/-- Undisturbed, the walk comes to a node, stays on course and has less left than `bound`, or it is
over. -/
def Visits (r : Reading NamespaceWalk Bool) (s : NamespaceWalk) (t : Snapshot)
    (here bound : Nat) : Prop :=
  ∃ moved w' m, r.Yields s here moved w' m ∧
    (moved = true → m < t.size ∧ w'.OnCourse t ∧ w'.rank t < bound)

theorem Visits.mono {r : Reading NamespaceWalk Bool} {s : NamespaceWalk} {bound bound' : Nat}
    (h : Visits r s t here bound) (hle : bound ≤ bound') : Visits r s t here bound' := by
  obtain ⟨moved, w', m, hyields, hmoved⟩ := h
  refine ⟨moved, w', m, hyields, ?_⟩
  intro hm
  obtain ⟨hlt, hcourse, hrank⟩ := hmoved hm
  exact ⟨hlt, hcourse, by omega⟩

/-- From any of the declarations of an element on, the walk comes to one that counts or to the end:
it goes on in the list, and then to the parent, which is stored with its declarations before the
element. -/
theorem visits_scan (h : t.IsTree) (seen : List String) (s : NamespaceWalk) {e index n : Nat}
    (he : e < t.size) (hn : e + ((t.namespaces e).length - index) = n) :
    Visits (scan t e index seen) s t e n := by
  induction e, index, seen using scan.induct t generalizing s n with
  | case1 e index seen hkind =>
    exact ⟨false, _, e, yields_scan_of_not_element hkind index seen s, by simp⟩
  | case2 e index seen hkind ihNext ihParent =>
    replace hkind := not_not.1 hkind
    cases hd : (t.namespaces e)[index]? with
    | some d =>
      have hindex := (List.getElem?_eq_some_iff.1 hd).1
      have hless : e + ((t.namespaces e).length - (index + 1)) < n := by omega
      rcases hjudge : judge (t.name? d) seen with ⟨_ | _, seen'⟩
      · obtain ⟨moved, w', m, hyields, hmoved⟩ :=
          (ihNext d hd seen' ⟨some e, index + 1, seen'⟩ he rfl).mono (Nat.le_of_lt hless)
        exact ⟨moved, w', m, yields_scan_of_passed hkind hd hjudge hyields, hmoved⟩
      · -- The declaration is visited, and the walk is left at the next one.
        refine ⟨true, _, d, yields_scan_of_counts hkind hd hjudge s,
          fun _ => ⟨lt_size_of_namespace hd, ?_, ?_⟩⟩
        · rintro key hkey
          obtain rfl : (e : Int) = key := by simpa using hkey
          exact ⟨e, rfl, he⟩
        · simpa [rank] using hless
    | none =>
      cases hp : t.parent? e with
      | some p =>
        have hpk := parent?_lt hp
        have hbody := h.bodyStart_le_of_child hp (by simp [hkind, Kind.isStructural])
        -- The parent and all its declarations are stored before the element.
        have hless : p + ((t.namespaces p).length - 0) < n := by
          unfold bodyStart at hbody
          omega
        obtain ⟨moved, w', m, hyields, hmoved⟩ :=
          (ihParent p hp ⟨some p, 0, seen⟩ (by omega) rfl).mono (Nat.le_of_lt hless)
        exact ⟨moved, w', m, yields_scan_of_parent hkind hd hp hyields, hmoved⟩
      | none => exact ⟨false, _, e, yields_scan_of_parentless hkind hd hp s, by simp⟩

/-- Every visit leaves less to be looked at. -/
theorem OnCourse.visits_advance (h : t.IsTree) {w : NamespaceWalk} (hw : w.OnCourse t)
    (here : Nat) : Visits (w.advance t here) w t here (w.rank t) := by
  cases hkey : w.element? with
  | none => exact ⟨false, _, here, yields_advance_of_over hkey here, by simp⟩
  | some key =>
    obtain ⟨e, rfl, he⟩ := hw key hkey
    have hrank : e + ((t.namespaces e).length - w.index) = w.rank t := by simp [rank, hkey]
    obtain ⟨moved, w', m, hyields, hmoved⟩ := visits_scan h w.seen w he hrank
    exact ⟨moved, w', m, yields_advance_of_scan hkey he here hyields, hmoved⟩

/-- From an origin that is no element the walk is over at once. -/
theorem yields_of_not_element (hkind : t.kind here ≠ .element) :
    ∃ w', (advance t here { element? := some (here : Int) }).Yields
      { element? := some (here : Int) } here false w' here := by
  refine ⟨{ element? := none }, ?_⟩
  simp only [advance, if_true]
  exact yields_scan_of_not_element hkind 0 [] _

end NamespaceWalk

end DocTree
