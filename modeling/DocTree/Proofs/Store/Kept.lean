import DocTree.Proofs.Reading.Moves
import DocTree.Proofs.Store.Granted

/-!
# What a store keeps

A store that refuses nothing has exactly the revisions that were committed to it, in this order.
Lending, moving and closing cursors does not change that, and what is committed later leaves what was
there before as it is. A cursor therefore stays on the records of the revision that it was lent for.

## Main definitions

- `Cursor.Reads` — a cursor is on a node of its revision
- `Store.Keeps` — a store has what was committed

## Main statements

- `Cursor.Moves.reads` — a move does not take a cursor out of its revision
- `Store.Keeps.commit`, `Store.Keeps.openCursor`, `Store.Keeps.perform`, `Store.Keeps.close` — the
  operations of a store
-/

namespace DocTree

open Snapshot

/-- The cursor is on a node of the revision that it was lent for, as that was committed. -/
def Cursor.Reads (c : Cursor) (contents : List Content) : Prop :=
  ∃ content, contents[c.revision]? = some content ∧ c.snapshot = .ofContent content ∧
    c.place < c.snapshot.size

namespace Cursor

variable {c c' : Cursor} {contents : List Content}

/-- What is committed later does not matter to a cursor. -/
theorem Reads.append (h : c.Reads contents) (later : List Content) :
    c.Reads (contents ++ later) := by
  obtain ⟨content, hcontent, hsnapshot, hplace⟩ := h
  refine ⟨content, ?_, hsnapshot, hplace⟩
  rw [List.getElem?_append_left (List.getElem?_eq_some_iff.1 hcontent).1, hcontent]

/-- The facts that a cursor tells are those of a record that was committed, with its own key. -/
theorem Reads.record_eq {content : Content} (h : c.Reads contents)
    (hcontent : contents[c.revision]? = some content) :
    c.snapshot = .ofContent content ∧ c.place < c.snapshot.size ∧
      (documentRecords content)[c.place]? = some c.record ∧ c.record.key = c.place := by
  obtain ⟨content', hcontent', hsnapshot, hplace⟩ := h
  obtain rfl := Option.some.inj (hcontent'.symm.trans hcontent)
  refine ⟨hsnapshot, hplace, ?_, (c.snapshot.node_linked c.place).key_eq⟩
  have hrecord := c.snapshot.node_eq_getElem hplace
  rw [record, hrecord, ← Array.getElem?_eq_getElem hplace, hsnapshot, ofContent,
    List.getElem?_toArray]

/-- A move goes to a node that there is. -/
theorem Moves.reads {m : Move} {outcome : Except AccessError Bool}
    (hmoves : c.Moves (m.target c.snapshot c.place) outcome c') (h : c.Reads contents) :
    c'.Reads contents := by
  cases hmoves with
  | @arrives k htarget hopen =>
    obtain ⟨content, hcontent, hsnapshot, -⟩ := h
    obtain ⟨key, -, hkey⟩ := Option.bind_eq_some_iff.1 htarget
    exact ⟨content, hcontent, hsnapshot, (find?_lt hkey).1⟩
  | stays => exact h
  | fails => exact h

end Cursor

namespace Store

/-- The store has just the revisions that were committed, and refuses and hides nothing. -/
structure Keeps (s : Store) (contents : List Content) : Prop where
  revisions : s.revisions = (contents.map Snapshot.ofContent).toArray
  unlimited : s.meter.budget? = none
  tellsNames : s.hidesNames = false

variable {s s' : Store} {contents : List Content}

theorem Keeps.snapshot?_eq (h : s.Keeps contents) (revision : Nat) :
    s.snapshot? revision = contents[revision]?.map Snapshot.ofContent := by
  simp [snapshot?, h.revisions]

theorem Keeps.view?_eq (h : s.Keeps contents) (revision : Nat) :
    s.view? revision = contents[revision]?.map Snapshot.ofContent := by
  rw [view?, h.snapshot?_eq, h.tellsNames]
  exact Option.map_id'

theorem Keeps.grantsNext (h : s.Keeps contents) (n : Nat) : s.meter.GrantsNext n :=
  Meter.grantsNext_of_unlimited h.unlimited n

/-- Only the revisions matter, and what the meter grants. -/
theorem Keeps.congr (h : s.Keeps contents) (hrevisions : s'.revisions = s.revisions)
    (hmeter : s'.meter.budget? = s.meter.budget?) (hnames : s'.hidesNames = s.hidesNames) :
    s'.Keeps contents where
  revisions := hrevisions.trans h.revisions
  unlimited := hmeter.trans h.unlimited
  tellsNames := hnames.trans h.tellsNames

theorem Keeps.commit (h : s.Keeps contents) (c : Content) :
    (commit c s).1 = contents.length ∧ (Store.commit c s).2.Keeps (contents ++ [c]) := by
  refine ⟨?_, ?_, h.unlimited, h.tellsNames⟩
  · change s.revisions.size = _
    simp [h.revisions]
  · change s.revisions.push _ = _
    simp [h.revisions]

theorem Keeps.openCursor (h : s.Keeps contents) (revision : Nat) :
    (Store.openCursor revision s).2.Keeps contents ∧
      (∀ c, (Store.openCursor revision s).1 = .ok c →
        c.revision = revision ∧ c.isOpen = true ∧ c.Reads contents) := by
  have hspend := (h.grantsNext 1).spend Nat.one_pos
  rw [openCursor_apply, hspend]
  dsimp only
  rw [h.view?_eq]
  cases hcontent : contents[revision]? with
  | none => exact ⟨h.congr rfl rfl rfl, by simp⟩
  | some content =>
    refine ⟨h.congr rfl rfl rfl, ?_⟩
    rintro c ⟨⟩
    exact ⟨rfl, rfl, content, hcontent, rfl, (ofContent content).nonempty⟩

theorem Keeps.perform {σ α : Type} (h : s.Keeps contents) (c : Cursor) (r : Reading σ α)
    (init : σ) : (Store.perform c r init s).2.Keeps contents := by
  obtain ⟨n, hn⟩ := metered_perform c r init s
  exact h.congr rfl (by rw [hn]; rfl) rfl

theorem Keeps.close (h : s.Keeps contents) (c : Cursor) :
    (Store.close c s).2.Keeps contents := by
  rw [close_apply]
  split
  · exact h.congr rfl rfl rfl
  · exact h

/-- A cursor that has been closed is closed, whatever is reported. -/
theorem close_snd (c : Cursor) (s : Store) :
    (Store.close c s).1.2 = { c with isOpen := false } := by
  rw [close_apply]
  cases hopen : c.isOpen with
  | true => rfl
  | false =>
    show c = { c with isOpen := false }
    rw [← hopen]

end Store

end DocTree
