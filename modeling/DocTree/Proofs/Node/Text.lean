import DocTree.Node.Text
import DocTree.Proofs.Reading.Refused
import DocTree.Proofs.Walk.Forward

/-!
# The text of a node

To gather the text of a document or an element, a cursor goes to every node below it, with one move
for each. If the moves are refused from some point on, that is taken for the end, and what comes out is
the text of the nodes that the cursor has reached.

## Main definitions

- `Snapshot.descendants` — the nodes below a node, in document order
- `Snapshot.textOf` — the text of a list of nodes
- `Snapshot.valueWithin` — the string value as far as so many moves go

## Main statements

- `Handle.outcome_stringValue` — the string value that a cursor finds
-/

namespace DocTree

open Reading Snapshot

variable {σ : Type} {t : Snapshot} {origin here k n visits : Nat}

namespace Snapshot

/-- The nodes after `here` in the subtree of `origin` that are neither attributes nor declarations, in
document order. -/
def restOf (t : Snapshot) (origin here : Nat) : List Nat :=
  (List.range' (here + 1) (t.endOf origin - (here + 1))).filter fun k => (t.kind k).isStructural

/-- The nodes below a node that are neither attributes nor declarations, in document order. -/
def descendants (t : Snapshot) (k : Nat) : List Nat := t.restOf k k

/-- What a node itself adds to the text of the nodes above it. -/
def ownText (t : Snapshot) (k : Nat) : String :=
  if t.kind k = .text then (t.value? k).getD "" else ""

/-- The text of some nodes. -/
def textOf (t : Snapshot) (ks : List Nat) : String := String.join (ks.map t.ownText)

/-- The string value of a node as far as a cursor gets with `n` moves. -/
def valueWithin (t : Snapshot) (k n : Nat) : String :=
  if (t.kind k).isParental then t.textOf ((t.descendants k).take n) else (t.value? k).getD ""

theorem textOf_cons (t : Snapshot) (k : Nat) (ks : List Nat) :
    t.textOf (k :: ks) = t.ownText k ++ t.textOf ks := by
  rw [textOf, List.map_cons, String.join_cons, textOf]

/-- More moves than there are descendants make no difference. -/
theorem valueWithin_of_le (h : (t.descendants k).length ≤ n) :
    t.valueWithin k n = t.valueWithin k (t.descendants k).length := by
  rw [valueWithin, valueWithin, List.take_of_length_le h, List.take_length]

/-- A value that is stored with the node takes no moves. -/
theorem valueWithin_of_stored (h : (t.kind k).isParental = false) (n m : Nat) :
    t.valueWithin k n = t.valueWithin k m := by
  rw [valueWithin, valueWithin, h]
  rfl

theorem length_restOf_le (t : Snapshot) (origin here : Nat) :
    (t.restOf origin here).length ≤ t.endOf origin := by
  have hle := List.length_filter_le (fun k => (t.kind k).isStructural)
    (List.range' (here + 1) (t.endOf origin - (here + 1)))
  rw [List.length_range'] at hle
  exact Nat.le_trans hle (Nat.sub_le _ _)

/-- Between a node and the next structural one there is only what it owns. -/
theorem IsTree.filter_owned (h : t.IsTree) (hk : here + 1 + n ≤ t.bodyStart here) :
    (List.range' (here + 1) n).filter (fun k => (t.kind k).isStructural) = [] := by
  rw [List.filter_eq_nil_iff]
  intro j hj
  have hbounds := List.mem_range'_1.1 hj
  rw [(h.owned_of_lt_bodyStart (p := here) (k := j) (by omega) (by omega)).1]
  decide

end Snapshot

namespace DescendantWalk

variable {w : DescendantWalk}

/-- The rest of the subtree begins with the next structural node. -/
theorem OnCourse.restOf_of_lt (h : t.IsTree) (hw : w.OnCourse t origin here)
    (hlt : t.bodyStart here < t.endOf origin) :
    t.restOf origin here = t.bodyStart here :: t.restOf origin (t.bodyStart here) := by
  have hgt := bodyStart_gt t here
  have hstructural := (hw.next h hlt).structural (by
    have := (h.bounds_of_contains hw.contains).1
    omega)
  obtain ⟨n, hn⟩ : ∃ n, t.bodyStart here = here + 1 + n := Nat.exists_eq_add_of_le hgt
  obtain ⟨m, hm⟩ : ∃ m, t.endOf origin = t.bodyStart here + 1 + m := Nat.exists_eq_add_of_le hlt
  have hrange : List.range' (here + 1) (t.endOf origin - (here + 1)) =
      List.range' (here + 1) n ++ t.bodyStart here :: List.range' (t.bodyStart here + 1) m := by
    rw [← List.range'_succ, hn, List.range'_append_1]
    congr 1
    omega
  have hrest : t.endOf origin - (t.bodyStart here + 1) = m := by omega
  rw [restOf, hrange, List.filter_append, h.filter_owned (Nat.le_of_eq hn.symm), List.nil_append,
    List.filter_cons, hstructural, if_pos rfl, restOf, hrest]

theorem restOf_of_not_lt (h : t.IsTree) (hge : ¬t.bodyStart here < t.endOf origin) :
    t.restOf origin here = [] := by
  have hgt := bodyStart_gt t here
  exact h.filter_owned (by omega)

/-- A visit asks for the next structural node, as long as that is inside the subtree. -/
theorem OnCourse.gatherText_of_lt (h : t.IsTree) (hw : w.OnCourse t origin here)
    (hdone : w.done = false) (hdue : w.selfDue = false)
    (hlt : t.bodyStart here < t.endOf origin) (visits : Nat) (text : String) :
    (gatherText t (visits + 1) w here text : Reading σ String) =
      .move (some (t.bodyStart here)) fun moved =>
        if moved then
          gatherText t visits
            { w with pending := t.passed origin (t.bodyStart here), done := false }
            (t.bodyStart here) (text ++ t.ownText (t.bodyStart here))
        else .done text := by
  have hfind : t.find? (t.bodyStart here) = some (t.bodyStart here) :=
    find?_natCast (hw.next h hlt).lt_size
  rw [gatherText]
  simp only [advance, hdone, hdue, hw.plan_eq h, if_pos hlt, Bool.false_eq_true, if_false, hfind,
    ask, keep, note_bind, move_bind, done_bind, pure_def, observe]
  congr 1
  funext moved
  cases moved with
  | false => rfl
  | true =>
    simp only [Bool.not_true, Bool.false_eq_true, if_false, if_true, Option.getD_some, ownText]
    split
    · rfl
    · rw [String.append_empty]

/-- After the last descendant nothing is asked for. -/
theorem OnCourse.gatherText_of_not_lt (h : t.IsTree) (hw : w.OnCourse t origin here)
    (hdone : w.done = false) (hdue : w.selfDue = false)
    (hge : ¬t.bodyStart here < t.endOf origin) (visits : Nat) (text : String) :
    (gatherText t (visits + 1) w here text : Reading σ String) = .done text := by
  rw [gatherText]
  simp only [advance, hdone, hdue, hw.plan_eq h, if_neg hge, Bool.false_eq_true, if_false, keep,
    note_bind, done_bind, pure_def, observe]
  rfl

/-- With `n` moves a cursor gathers the text of the next `n` nodes of the subtree. The induction is on
the visits that are left. -/
theorem OnCourse.outcome_gatherText (h : t.IsTree) (hw : w.OnCourse t origin here)
    (hdone : w.done = false) (hdue : w.selfDue = false)
    (hvisits : (t.restOf origin here).length ≤ visits) {c : Cursor} {m : Meter} (s : σ)
    (hopen : c.isOpen = true) (hgrants : m.GrantsNext n)
    (hrefuses : n < (t.restOf origin here).length → (m.after n).RefusesNext 1) (text : String) :
    ((gatherText t visits w here text).run s c m).outcome =
      .ok (text ++ t.textOf ((t.restOf origin here).take n)) := by
  induction visits generalizing w here text c m n with
  | zero =>
    rw [List.eq_nil_of_length_eq_zero (Nat.le_zero.1 hvisits), List.take_nil]
    exact congrArg Except.ok String.append_empty.symm
  | succ visits ih =>
    by_cases hlt : t.bodyStart here < t.endOf origin
    · have hrest := hw.restOf_of_lt h hlt
      rw [hrest, List.length_cons] at hvisits hrefuses
      rw [hw.gatherText_of_lt h hdone hdue hlt, hrest]
      cases n with
      | zero =>
        -- The move is refused, and the text is what it has been.
        have hspend : m.spend = (.ok false, m.after 1) :=
          (hrefuses (Nat.succ_pos _)).spend Nat.one_pos
        have hrequest : c.request (some (t.bodyStart here)) m = (.ok none, m.after 1) := by
          simp only [Cursor.request, hspend]
        simp only [run, hrequest]
        exact congrArg Except.ok String.append_empty.symm
      | succ n =>
        rw [Nat.add_comm, Meter.grantsNext_add] at hgrants
        rw [run_move _ s hopen hgrants.1, List.take_succ_cons, textOf_cons, ← String.append_assoc]
        refine ih (c := { c with place := t.bodyStart here }) (hw.next h hlt) rfl hdue
          (Nat.le_of_succ_le_succ hvisits) hopen hgrants.2 ?_ _
        intro hless
        have hnext := hrefuses (Nat.succ_lt_succ hless)
        rwa [Meter.after_after, Nat.add_comm]
    · rw [hw.gatherText_of_not_lt h hdone hdue hlt, restOf_of_not_lt h hlt, List.take_nil]
      exact congrArg Except.ok String.append_empty.symm

end DescendantWalk

/-- The string value of a node that a cursor at the node finds with `n` moves. -/
theorem Handle.outcome_stringValue (h : t.IsTree) (hk : k < t.size) {handle : Handle}
    (hkind : handle.kind = t.kind k) (hkey : handle.key = k) {c : Cursor} {m : Meter} (s : σ)
    (hopen : c.isOpen = true) (hgrants : m.GrantsNext n)
    (hrefuses : n < (t.descendants k).length → (m.after n).RefusesNext 1) :
    ((handle.stringValue t k).run s c m).outcome = .ok (t.valueWithin k n) := by
  rw [Handle.stringValue, valueWithin, hkind, hkey]
  split
  · have hvisits := Nat.le_trans (t.length_restOf_le k k) (h.endOf_le_size hk)
    rw [(DescendantWalk.onCourse_origin hk false).outcome_gatherText h rfl rfl hvisits s hopen
      hgrants hrefuses, String.empty_append]
    rfl
  · rfl

end DocTree
