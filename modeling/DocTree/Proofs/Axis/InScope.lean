import DocTree.Proofs.Axis.Extent

/-!
# The declarations in scope

In scope at an element are its declarations, those of its parent and so on up to the topmost element,
but for each prefix only the first one that comes in this order, and of these only those that bind a
URI. The walk over namespaces looks at one declaration after the other and remembers the prefixes that
it has met; what is in scope among the declarations ahead of it, and has a prefix that it has not met,
is what it will still visit. So a declaration that hides others has to be remembered whether or not it
is visited itself.

## Main definitions

- `Snapshot.declarations`, `Snapshot.inScope` — the declarations from an element upward, and those of
  them that are in scope
- `NamespaceWalk.Owes` — what a walk over namespaces will still visit

## Main statements

- `Snapshot.filter_unmet_visible_cons` — what one declaration adds to those that will be visited
- `NamespaceWalk.goesOn_scan` — the next visit from any declaration on
- `Axis.visits_inScope` — the walk visits exactly the declarations in scope
-/

namespace DocTree

open Reading Snapshot

section EraseDups

variable {α : Type} {r : α → α → Bool} {p : α → Bool}

/-- If a class is sorted out anyway, nothing changes if it is left out before. -/
theorem filter_filter_class (h : ∀ a b, r b a = true → p b = p a) {a : α} (ha : p a = false)
    (as : List α) : (as.filter fun b => decide (r b a = false)).filter p = as.filter p := by
  rw [List.filter_filter]
  refine List.filter_congr fun b _ => ?_
  cases hr : r b a with
  | true => rw [h a b hr, ha]; rfl
  | false => simp

/-- What depends only on the class of an element may be sorted out before or after all but the first
element of each class are erased. -/
theorem filter_eraseDupsBy (h : ∀ a b, r b a = true → p b = p a) (as : List α) :
    (as.eraseDupsBy r).filter p = (as.filter p).eraseDupsBy r := by
  induction hlen : as.length using Nat.strongRecOn generalizing as with
  | ind n ih =>
    cases as with
    | nil => rfl
    | cons a as =>
      have hless : (as.filter fun b => decide (r b a = false)).length < n := by
        rw [← hlen, List.length_cons]
        exact Nat.lt_succ_of_le (List.length_filter_le _ _)
      rw [List.eraseDupsBy_cons, List.filter_cons, List.filter_cons, ih _ hless _ rfl]
      cases ha : p a with
      | true => simp [List.eraseDupsBy_cons, List.filter_filter, Bool.and_comm]
      | false => simp only [Bool.false_eq_true, if_false, filter_filter_class h ha]

end EraseDups

namespace Snapshot

/-- The prefix that a declaration binds. -/
def boundQualifier? (t : Snapshot) (d : Nat) : Option String := (t.name? d).map (·.localPart)

/-- The declaration does not bind its prefix to no URI. -/
def bindsUri (t : Snapshot) (d : Nat) : Bool := (t.name? d).any fun name => !name.uri.isEmpty

/-- The declarations of an element, then those of its parent and so on up to the topmost element, for
each in the order in which they were made. -/
def declarations (t : Snapshot) (e : Nat) : List Nat :=
  if t.kind e = .element then
    t.namespaces e ++
      match _h : t.parent? e with
      | some p => declarations t p
      | none => []
  else []
termination_by e
decreasing_by exact parent?_lt _h

/-- The declarations of a list that count: for every prefix the first one only, and that only if it
binds a URI. -/
def visible (t : Snapshot) (ds : List Nat) : List Nat :=
  (ds.eraseDupsBy fun i j => t.boundQualifier? i == t.boundQualifier? j).filter t.bindsUri

/-- The declarations in scope at an element. -/
def inScope (t : Snapshot) (e : Nat) : List Nat := t.visible (t.declarations e)

/-- The declaration has a prefix that is not among those that have been met. -/
def unmet (t : Snapshot) (seen : List String) (d : Nat) : Bool :=
  (t.boundQualifier? d).all fun q => decide (q ∉ seen)

variable {t : Snapshot} {e p d : Nat} {ds : List Nat} {seen : List String}

theorem declarations_of_not_element (h : t.kind e ≠ .element) : t.declarations e = [] := by
  rw [declarations, if_neg h]

/-- Of the declarations from an element upward, the first ones are its own. -/
theorem drop_declarations (h : t.kind e = .element) {i : Nat} (hd : (t.namespaces e)[i]? = some d) :
    (t.declarations e).drop i = d :: (t.declarations e).drop (i + 1) := by
  have hi := (List.getElem?_eq_some_iff.1 hd).1
  rw [declarations, if_pos h, List.drop_append_of_le_length (Nat.le_of_lt hi),
    List.drop_append_of_le_length hi, ← List.cons_append]
  congr 1
  rw [List.drop_eq_getElem_cons hi, ← (List.getElem?_eq_some_iff.1 hd).2]

theorem declarations_of_parent (h : t.kind e = .element) (hp : t.parent? e = some p) :
    t.declarations e = t.namespaces e ++ t.declarations p := by
  rw [declarations, if_pos h]
  split
  · next hp' => rw [Option.some.inj (hp'.symm.trans hp)]
  · next hp' => cases hp'.symm.trans hp

theorem declarations_of_parentless (h : t.kind e = .element) (hp : t.parent? e = none) :
    t.declarations e = t.namespaces e := by
  rw [declarations, if_pos h]
  split
  · next hp' => cases hp'.symm.trans hp
  · exact List.append_nil _

/-- What counts after the first declaration of a list is what has another prefix. -/
theorem visible_cons (t : Snapshot) (d : Nat) (ds : List Nat) :
    t.visible (d :: ds) = (if t.bindsUri d then [d] else []) ++
      (t.visible ds).filter fun b => decide (t.boundQualifier? b ≠ t.boundQualifier? d) := by
  have hsame : ∀ a b, (t.boundQualifier? b == t.boundQualifier? a) = true →
      decide (t.boundQualifier? b ≠ t.boundQualifier? d) =
        decide (t.boundQualifier? a ≠ t.boundQualifier? d) := by
    intro a b hab
    rw [eq_of_beq hab]
  have hother : (fun b => decide ((t.boundQualifier? b == t.boundQualifier? d) = false)) =
      fun b => decide (t.boundQualifier? b ≠ t.boundQualifier? d) := by
    funext b
    simp
  rw [visible, List.eraseDupsBy_cons, List.filter_cons, hother, ← filter_eraseDupsBy hsame, visible,
    List.filter_filter, List.filter_filter]
  simp only [Bool.and_comm]
  split <;> rfl

/-- What counts has a prefix. -/
theorem exists_boundQualifier (h : d ∈ t.visible ds) : ∃ q, t.boundQualifier? d = some q := by
  have hbinds := (List.mem_filter.1 h).2
  cases hname : t.name? d with
  | none => simp [bindsUri, hname] at hbinds
  | some name => exact ⟨name.localPart, by rw [boundQualifier?, hname, Option.map_some]⟩

/-- Of what counts, the same is kept by two tests that agree on what has a prefix. -/
theorem filter_visible_congr {f g : Nat → Bool}
    (h : ∀ b q, t.boundQualifier? b = some q → f b = g b) :
    (t.visible ds).filter f = (t.visible ds).filter g := by
  refine List.filter_congr fun b hb => ?_
  obtain ⟨q, hq⟩ := exists_boundQualifier hb
  exact h b q hq

theorem unmet_eq {q : String} (h : t.boundQualifier? d = some q) (seen : List String) :
    t.unmet seen d = decide (q ∉ seen) := by
  rw [unmet, h, Option.all_some]

/-- A declaration after those that have been looked at: whether it is visited, and what is to be
visited after it, is what the walk judges. -/
theorem filter_unmet_visible_cons (t : Snapshot) (d : Nat) (ds : List Nat) (seen : List String) :
    (t.visible (d :: ds)).filter (t.unmet seen) =
      (if (NamespaceWalk.judge (t.name? d) seen).1 then [d] else []) ++
        (t.visible ds).filter (t.unmet (NamespaceWalk.judge (t.name? d) seen).2) := by
  rw [visible_cons, List.filter_append, List.filter_filter]
  cases hname : t.name? d with
  | none =>
    have hd : t.boundQualifier? d = none := by rw [boundQualifier?, hname, Option.map_none]
    have hbinds : t.bindsUri d = false := by rw [bindsUri, hname, Option.any_none]
    rw [hbinds, hd]
    refine congrArg ([] ++ ·) (filter_visible_congr fun b q hq => ?_)
    simp [hq, NamespaceWalk.judge]
  | some name =>
    have hd : t.boundQualifier? d = some name.localPart := by
      rw [boundQualifier?, hname, Option.map_some]
    have hbinds : t.bindsUri d = !name.uri.isEmpty := by rw [bindsUri, hname, Option.any_some]
    by_cases hmet : name.localPart ∈ seen
    · -- The prefix has been met, and it does not matter what else has it.
      have hjudge : NamespaceWalk.judge (some name) seen = (false, seen) := if_pos hmet
      have hnone : (if t.bindsUri d then [d] else []).filter (t.unmet seen) = [] := by
        split <;> simp [unmet_eq hd, hmet]
      rw [hnone, hjudge, hd]
      refine congrArg ([] ++ ·) (filter_visible_congr fun b q hq => ?_)
      rw [unmet_eq hq, hq]
      by_cases hq' : q = name.localPart
      · simp [hq', hmet]
      · simp [hq']
    · -- From here on the prefix has been met, whether or not the declaration is visited.
      have hjudge : NamespaceWalk.judge (some name) seen =
          (!name.uri.isEmpty, name.localPart :: seen) := if_neg hmet
      have hkept : (if t.bindsUri d then [d] else []).filter (t.unmet seen) =
          if t.bindsUri d then [d] else [] := by
        split <;> simp [unmet_eq hd, hmet]
      rw [hkept, hjudge, hd, hbinds]
      refine congrArg (_ ++ ·) (filter_visible_congr fun b q hq => ?_)
      rw [unmet_eq hq, unmet_eq hq, hq]
      by_cases hq' : q = name.localPart
      · simp [hq']
      · simp [hq']

end Snapshot

namespace NamespaceWalk

variable {t : Snapshot} {w : NamespaceWalk} {ks : List Nat}

/-- The walk will still visit these: it is at an element, has looked at so many of its declarations,
and has met the prefixes of all that it has looked at. -/
def Owes (w : NamespaceWalk) (t : Snapshot) (ks : List Nat) : Prop :=
  ∃ e : Nat, w.element? = some (e : Int) ∧ e < t.size ∧ w.index ≤ (t.namespaces e).length ∧
    ks = (t.visible ((t.declarations e).drop w.index)).filter (t.unmet w.seen)

/-- Undisturbed, the walk comes to the first one of these and will visit the others then, or it is
over. -/
def GoesOn (r : Reading NamespaceWalk Bool) (s : NamespaceWalk) (t : Snapshot) (here : Nat) :
    List Nat → Prop
  | [] => ∃ w' top, r.Yields s here false w' top
  | k :: ks => ∃ w', r.Yields s here true w' k ∧ w'.Owes t ks

/-- A reading that yields all that another one yields goes on to the same. -/
theorem GoesOn.imp {r r' : Reading NamespaceWalk Bool} {s s' : NamespaceWalk} {here here' : Nat}
    (h : GoesOn r s t here ks)
    (hr : ∀ {moved w' m}, r.Yields s here moved w' m → r'.Yields s' here' moved w' m) :
    GoesOn r' s' t here' ks := by
  cases ks with
  | nil =>
    obtain ⟨w', top, hyields⟩ := h
    exact ⟨w', top, hr hyields⟩
  | cons d ks =>
    obtain ⟨w', hyields, howes⟩ := h
    exact ⟨w', hr hyields, howes⟩

/-- From any of the declarations of an element on, the walk goes on to what is in scope among these
and those above, except what has been hidden before. -/
theorem goesOn_scan (t : Snapshot) (seen : List String) (s : NamespaceWalk) {e index : Nat}
    (he : e < t.size) (hindex : index ≤ (t.namespaces e).length) :
    GoesOn (scan t e index seen) s t e
      ((t.visible ((t.declarations e).drop index)).filter (t.unmet seen)) := by
  induction e, index, seen using scan.induct t generalizing s with
  | case1 e index seen hkind =>
    rw [declarations_of_not_element hkind, List.drop_nil]
    exact ⟨_, e, yields_scan_of_not_element hkind index seen s⟩
  | case2 e index seen hkind ihNext ihParent =>
    replace hkind := not_not.1 hkind
    cases hd : (t.namespaces e)[index]? with
    | some d =>
      have hlt := (List.getElem?_eq_some_iff.1 hd).1
      rw [drop_declarations hkind hd, filter_unmet_visible_cons]
      rcases hjudge : judge (t.name? d) seen with ⟨_ | _, seen'⟩
      · exact (ihNext d hd seen' _ he hlt).imp (yields_scan_of_passed hkind hd hjudge)
      · -- The declaration is visited, and the walk is left at the next one.
        exact ⟨_, yields_scan_of_counts hkind hd hjudge s, e, rfl, he, hlt, rfl⟩
    | none =>
      have hlength := List.getElem?_eq_none_iff.1 hd
      obtain rfl : index = (t.namespaces e).length := Nat.le_antisymm hindex hlength
      cases hp : t.parent? e with
      | some p =>
        have hpe := parent?_lt hp
        rw [declarations_of_parent hkind hp, List.drop_left]
        exact (ihParent p hp _ (by omega) (Nat.zero_le _)).imp (yields_scan_of_parent hkind hd hp)
      | none =>
        rw [declarations_of_parentless hkind hp, List.drop_length]
        exact ⟨_, e, yields_scan_of_parentless hkind hd hp s⟩

/-- Wherever the cursor is, the next visit is one that the walk owes. -/
theorem Owes.goesOn_advance (h : w.Owes t ks) (here : Nat) :
    GoesOn (w.advance t here) w t here ks := by
  obtain ⟨e, hkey, he, hindex, rfl⟩ := h
  exact (goesOn_scan t w.seen w he hindex).imp (yields_advance_of_scan hkey he here)

/-- The route of the walk is what it owes. -/
theorem Owes.route (h : w.Owes t ks) (here : Nat) : Route t (.namespaces w) here ks := by
  induction ks generalizing w here with
  | nil =>
    obtain ⟨w', top, hyields⟩ := h.goesOn_advance here
    exact .stop (hyields.mapNotes Walk.namespaces)
  | cons k ks ih =>
    obtain ⟨w', hyields, howes⟩ := h.goesOn_advance here
    exact .visit (hyields.mapNotes Walk.namespaces) (ih howes k)

/-- At the origin the walk owes all that is in scope there. -/
theorem owes_origin {k : Nat} (hk : k < t.size) :
    Owes { element? := some (k : Int) } t (t.inScope k) := by
  refine ⟨k, rfl, hk, Nat.zero_le _, ?_⟩
  rw [List.drop_zero, inScope]
  exact (List.filter_eq_self.2 fun d _ => by simp [unmet]).symm

end NamespaceWalk

namespace Axis

/-- From an element, the walk over namespaces visits exactly the declarations in scope there, in their
order; from any other node, in every store, it visits nothing. -/
theorem visits_inScope (c : Content) (revision k : Nat) (hk : k < (Snapshot.ofContent c).size) :
    ((Snapshot.ofContent c).kind k = .element →
      Axis.namespaceDecl.Visits c false revision k ((Snapshot.ofContent c).inScope k)) ∧
    ((Snapshot.ofContent c).kind k ≠ .element →
      ∀ hidesNames, Axis.namespaceDecl.Visits c hidesNames revision k []) := by
  constructor
  · intro _
    exact visits_of_route hk ((NamespaceWalk.owes_origin hk).route k)
  · intro hkind hidesNames
    have hsize : k < (c.seen hidesNames).size := by simpa using hk
    refine visits_of_route hsize (route_of_nothing (c.isTree_seen hidesNames) hsize ?_)
    rw [c.kind_seen]
    exact if_neg hkind

/-- Three elements, each inside the one before. The outer one binds the prefixes p, q and r; the middle
one binds p twice again, and q to no URI. -/
def redeclaring : Content :=
  let outer := [("p", "urn:outer"), ("q", "urn:q"), ("r", "urn:r")]
  let middle := [("p", "urn:inner"), ("p", "urn:again"), ("q", "")]
  .element { name := .ofLocal "a", namespaces := outer }
    (.element { name := .ofLocal "b", namespaces := middle }
      (.element { name := .ofLocal "c" } .nil .nil) .nil) .nil

/-- At the innermost element, with the key 9, the first declaration of p in the middle and the one of r
outside are in scope; at the document node nothing is. -/
theorem visits_inScope_innermost :
    ∃ cursor s₁ s₂ cursor' s₁' s₂',
      Store.openAt 0 9 { revisions := #[.ofContent redeclaring] } = (.ok cursor, s₁) ∧
      (Axis.namespaceDecl.walk ((redeclaring.seen false).handle 0 9)).Drains cursor s₁
        ([6, 4].map ((redeclaring.seen false).handle 0)) s₂ ∧
      Store.openAt 0 0 { revisions := #[.ofContent redeclaring] } = (.ok cursor', s₁') ∧
      (Axis.namespaceDecl.walk ((redeclaring.seen false).handle 0 0)).Drains cursor' s₁' [] s₂' := by
  have hinner := (visits_inScope redeclaring 0 9 (by decide)).1 (by decide)
  have houter := (visits_inScope redeclaring 0 0 (by decide)).2 (by decide) false
  have hscope : (Snapshot.ofContent redeclaring).inScope 9 = [6, 4] := by decide +kernel
  rw [hscope] at hinner
  obtain ⟨cursor, s₁, s₂, hopen, hdrains⟩ :=
    hinner.exists_drains (s := { revisions := #[.ofContent redeclaring] }) rfl rfl rfl
  obtain ⟨cursor', s₁', s₂', hopen', hdrains'⟩ :=
    houter.exists_drains (s := { revisions := #[.ofContent redeclaring] }) rfl rfl rfl
  exact ⟨cursor, s₁, s₂, cursor', s₁', s₂', hopen, hdrains, hopen', hdrains'⟩

end Axis

end DocTree
