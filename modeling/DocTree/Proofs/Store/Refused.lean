import DocTree.Proofs.Reading.Refused
import DocTree.Proofs.Store.Budget

/-!
# Store operations when nodes are missing

A store that says of every node that it is missing still lends cursors, but they stay on the document
node, so that no cursor can be opened elsewhere. With a cursor that was opened before, the outcome of a
reading is that of its run, whatever is refused on the way.

## Main statements

- `Meter.runsOut_refill` — a budget that has just been set runs out
- `Store.openAt_of_refused`, `Store.consult_of_refused` — the node of the cursor is missing
- `Store.outcome_consult` — a reading with a cursor that could be opened
-/

namespace DocTree

open Reading

variable {t : Snapshot} {k : Nat}

namespace Meter

variable {m : Meter} {b : Int64}

/-- The operations of a budget that has just been set are granted, and none beyond it as long as the
subtraction is that of integers. -/
theorem runsOut_refill (m : Meter) (hb : 0 ≤ b) (hfault : m.fault = .missing) (hk : k ≤ 2 ^ 63) :
    (m.refill b).RunsOut b.toInt.toNat k := by
  have hzero : 0 ≤ b.toInt := by simpa using Int64.le_iff_toInt_le.1 hb
  have hafter : ∀ i, (m.refill b).after i = ({ m with used := 0 + i }).limit b := fun _ => rfl
  refine ⟨?_, hfault, ?_⟩
  · intro i hi
    rw [hafter, grants_limit_iff hb (by dsimp only; omega)]
    dsimp only
    omega
  · intro i hi
    rw [after_after, hafter, ← Bool.not_eq_true, grants_limit_iff hb (by dsimp only; omega)]
    dsimp only
    omega

end Meter

namespace Store

variable {σ α : Type} {s : Store} {revision : Nat} {key : Int} {init : σ}
  {reading : Snapshot → Nat → Reading σ α} {reports : α → Bool}

/-- A cursor is lent even if nodes are missing. -/
theorem openCursor_of_missing (hv : s.view? revision = some t) (hfault : s.meter.fault = .missing) :
    openCursor revision s = (.ok { revision, snapshot := t },
      { s with meter := s.meter.after 1, openCursors := s.openCursors + 1 }) := by
  have hspend : s.meter.spend = (.ok s.meter.grants, s.meter.after 1) := by
    cases hgrants : s.meter.grants <;> simp [Meter.spend, hgrants, hfault, Meter.after]
  simp [openCursor_apply, hspend, hv]

/-- Where the node of the cursor seems to be missing, none is opened. -/
theorem openAt_of_refused (hv : s.view? revision = some t)
    (hm : (s.meter.after 1).RefusesNext 1) (key : Int) :
    (openAt revision key s).1 = .error (.noSuchNode key) := by
  have hask := run_of_refusesNext (.ask (t.find? key)) () { revision, snapshot := t } hm
  simp only [openAt, Bind.bind, StateT.bind, openCursor_of_missing hv hm.1]
  simp only [perform_apply]
  rw [hask]
  rfl

theorem consult_of_refused (hv : s.view? revision = some t)
    (hm : (s.meter.after 1).RefusesNext 1) :
    (consult revision key init reading reports s).1 = (.error (.noSuchNode key), init) := by
  have hopen := openAt_of_refused hv hm key
  rw [consult_eq]
  show (readAndClose init reading reports (openAt revision key s).1 (openAt revision key s).2).1 = _
  rw [hopen]
  rfl

theorem outcome_giveBack (run : Reading.Run σ α) (s : Store) :
    (giveBack (fun _ => false) run s).1.1 = run.outcome := by
  rcases hclose : close run.cursor s with ⟨⟨closed, c⟩, s'⟩
  simp only [giveBack, Bind.bind, StateT.bind, hclose]
  rcases run.outcome with e | a <;> rcases closed with e' | _ <;> rfl

/-- The outcome of a reading with a cursor that could be opened, if it does not matter whether the
cursor can be closed well. -/
theorem outcome_consult (hv : s.view? revision = some t) (hk : k < t.size)
    (hm : s.meter.GrantsNext 2) :
    (consult revision k init reading (fun _ => false) s).1.1 =
      ((reading t k).run init { revision, snapshot := t, place := k } (s.meter.after 2)).outcome := by
  rw [consult_eq]
  simp only [Bind.bind, StateT.bind, openAt_of_grantsNext hv hk hm]
  exact outcome_giveBack _ _

end Store

end DocTree
