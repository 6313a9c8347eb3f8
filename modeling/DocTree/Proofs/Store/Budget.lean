import DocTree.Proofs.Store.Conserved
import Mathlib.Algebra.Group.Int.Defs
import Mathlib.Algebra.Group.Nat.Defs

/-!
# Work under a budget

The same work can be done without a budget and under one. As long as the work without a budget asks
for no more operations than the budget has, there is no difference. As soon as it asks for more, the
work under the budget breaks off: the operation is refused with an error, and nothing is tried again.

## Main definitions

- `Meter.limit`, `Store.limit` — a budget in place of none
- `Store.unlimited` — the store before any operation, without a budget
- `Store.BreaksOff` — work that goes on as without a budget, or breaks off

## Main statements

- `Meter.grants_limit_iff` — which operations a budget grants
- `Store.BreaksOff.bind` — pieces of work one after the other
- `Store.breaksOff_openAt`, `Store.breaksOff_consult` — work with one cursor
-/

namespace DocTree

variable {b : Int64}

namespace Meter

variable {m : Meter}

/-- The meter with a budget; what has been used so far counts. -/
def limit (b : Int64) (m : Meter) : Meter := { m with budget? := some b }

@[simp] theorem used_limit (b : Int64) (m : Meter) : (m.limit b).used = m.used := rfl

@[simp] theorem fault_limit (b : Int64) (m : Meter) : (m.limit b).fault = m.fault := rfl

/-- What is left of a budget is the difference as a word. -/
theorem grants_iff_left (hb : m.budget? = some b) :
    m.grants = true ↔ 0 < (b.toInt - m.used).bmod (2 ^ 64) := by
  have hsize : Int64.size = 2 ^ 64 := rfl
  rw [grants, hb]
  show decide (0 < b - Int64.ofNat m.used) = true ↔ _
  rw [decide_eq_true_iff, Int64.lt_iff_toInt_lt, Int64.toInt_sub, Int64.toInt_ofNat', hsize,
    Int.sub_bmod_bmod, Int64.toInt_zero]

/-- A budget that has not been overdrawn by 64-bit words grants just the operations that it has. -/
theorem grants_limit_iff (hb : 0 ≤ b) (hused : (m.used : Int) < b.toInt + 2 ^ 63) :
    (m.limit b).grants = true ↔ (m.used : Int) < b.toInt := by
  have hzero : 0 ≤ b.toInt := by simpa using Int64.le_iff_toInt_le.1 hb
  have hlt : b.toInt < 2 ^ 63 := b.toInt_lt
  -- The difference is a word again, so that the subtraction is that of integers.
  have hleft : (b.toInt - m.used).bmod (2 ^ 64) = b.toInt - m.used :=
    Int.bmod_eq_of_le (by omega) (by omega)
  have hgrants : (m.limit b).grants = true ↔ 0 < (b.toInt - m.used).bmod (2 ^ 64) :=
    grants_iff_left rfl
  rw [hgrants, hleft]
  omega

theorem spend_limit_of_lt (hb : 0 ≤ b) (hused : (m.used : Int) < b.toInt) :
    (m.limit b).spend = (.ok true, (m.after 1).limit b) := by
  have hgrants : (m.limit b).grants = true := (grants_limit_iff hb (by omega)).2 hused
  rw [spend, hgrants]
  rfl

/-- The first operation beyond the budget fails. -/
theorem spend_limit_of_eq (hb : 0 ≤ b) (hfault : m.fault = .backend)
    (hused : (m.used : Int) = b.toInt) :
    (m.limit b).spend = (.error exhausted, (m.after 1).limit b) := by
  have hrefused : ¬(m.limit b).grants = true :=
    fun hgrants => absurd ((grants_limit_iff hb (by omega)).1 hgrants) (by omega)
  have hanswer : (m.limit b).spend.1 = .error exhausted := by
    simp only [spend, if_neg hrefused, fault_limit, hfault]
  exact Prod.ext hanswer rfl

end Meter

/-- A request without a budget is not refused. -/
theorem Cursor.request_limit (c : Cursor) (target : Option Nat) {m : Meter} (hb : 0 ≤ b)
    (hfree : m.budget? = none) (hused : (m.used : Int) < b.toInt) :
    c.request target (m.limit b) = ((c.request target m).1, (m.after 1).limit b) := by
  have hspend : m.spend = (.ok true, m.after 1) :=
    (Meter.grantsNext_of_unlimited hfree 1).spend Nat.one_pos
  unfold request
  rw [Meter.spend_limit_of_lt hb hused, hspend]
  dsimp only
  split <;> rfl

/-- A reading goes on as without a budget, or it fails. -/
theorem Reading.run_limit {σ α : Type} (r : Reading σ α) (s : σ) (c : Cursor) {m : Meter}
    (hb : 0 ≤ b) (hfree : m.budget? = none) (hfault : m.fault = .backend)
    (hused : (m.used : Int) ≤ b.toInt) :
    (((r.run s c m).meter.used : Int) ≤ b.toInt →
      r.run s c (m.limit b) = { r.run s c m with meter := (r.run s c m).meter.limit b }) ∧
    (b.toInt < (r.run s c m).meter.used →
      (r.run s c (m.limit b)).outcome = .error (.storage Meter.exhausted)) := by
  induction r generalizing s c m with
  | done a => exact ⟨fun _ => rfl, fun hmore => absurd hused (by simpa [run] using hmore)⟩
  | fail e => exact ⟨fun _ => rfl, fun hmore => absurd hused (by simpa [run] using hmore)⟩
  | note s' rest ih => exact ih s' c hfree hfault hused
  | move target next ih =>
    obtain ⟨n, hn⟩ : ∃ n, ((move target next).run s c m).meter = m.after (1 + n) :=
      exists_meter_run_move s c m fun moved => exists_meter_run (next moved) s
    have hpaid : (c.request target m).2 = m.after 1 := c.meter_request target m
    rcases Int.lt_or_eq_of_le hused with hlt | heq
    · -- The move is granted under the budget, too.
      have hrequest := c.request_limit target hb hfree hlt
      have hrest := fun moved c' =>
        ih moved s c' (m := m.after 1) hfree hfault (by simp; omega)
      rcases hreq : c.request target m with ⟨_ | _ | c', m'⟩ <;> rw [hreq] at hpaid hrequest <;>
        obtain rfl := hpaid <;> simp only [run, hreq, hrequest]
      · refine ⟨fun _ => trivial, fun hmore => absurd hlt ?_⟩
        rw [Meter.used_after] at hmore
        omega
      · exact hrest false c
      · exact hrest true c'
    · have hspend := Meter.spend_limit_of_eq hb hfault heq
      have hrequest : c.request target (m.limit b) = (.error Meter.exhausted, (m.after 1).limit b) := by
        simp only [Cursor.request, hspend]
      constructor
      · intro hle
        rw [hn, Meter.used_after] at hle
        omega
      · intro _
        simp only [run, hrequest]

namespace Store

variable {σ α β : Type} {s : Store}

/-- The store with a budget; what has been used so far counts. -/
def limit (b : Int64) (s : Store) : Store := { s with meter := s.meter.limit b }

/-- The store with nothing refused, before any operation. -/
def unlimited (s : Store) : Store :=
  { s with meter := { s.meter with budget? := none, used := 0 } }

/-- Nothing is refused now, and a budget that is set is one beyond which operations fail. -/
structure Unlimited (s : Store) : Prop where
  budget?_eq : s.meter.budget? = none
  fault_eq : s.meter.fault = .backend

/-- No more has been used than a budget allows. -/
def Within (b : Int64) (s : Store) : Prop := (s.meter.used : Int) ≤ b.toInt

theorem not_within_iff : ¬s.Within b ↔ b.toInt < s.meter.used := Int.not_le

/-- The work does the same under the budget as without one if it does not ask for more. Otherwise its
result under the budget is one of those that count as failed. -/
structure BreaksOff (b : Int64) (work : StateM Store α) (failed : α → Prop) : Prop where
  metered : Metered work
  within : ∀ s : Store, s.Unlimited → s.Within b → (work s).2.Within b →
    work (s.limit b) = ((work s).1, (work s).2.limit b)
  beyond : ∀ s : Store, s.Unlimited → s.Within b → ¬(work s).2.Within b →
    failed (work (s.limit b)).1

theorem Unlimited.of_after {s' : Store} {n : Nat} (hs : s.Unlimited)
    (h : s'.meter = s.meter.after n) : s'.Unlimited :=
  ⟨by rw [h]; exact hs.budget?_eq, by rw [h]; exact hs.fault_eq⟩

theorem Metered.unlimited {work : StateM Store α} (h : Metered work) (hs : s.Unlimited) :
    (work s).2.Unlimited := by
  obtain ⟨n, hn⟩ := h s
  exact hs.of_after hn

/-- What has been used is not given back. -/
theorem Metered.used_le {work : StateM Store α} (h : Metered work) (s : Store) :
    s.meter.used ≤ (work s).2.meter.used := by
  obtain ⟨n, hn⟩ := h s
  rw [hn, Meter.used_after]
  exact Nat.le_add_right _ _

theorem Within.of_le {s' : Store} (h : s'.Within b) (hle : s.meter.used ≤ s'.meter.used) :
    s.Within b := by
  unfold Within at h ⊢
  omega

/-- Work that is not metered is not affected by a budget. -/
theorem breaksOff_of_free {work : StateM Store α} {failed : α → Prop}
    (h : ∀ s meter, work { s with meter } = ((work s).1, { (work s).2 with meter })) :
    BreaksOff b work failed where
  metered s := ⟨0, congrArg (·.2.meter) (h s s.meter)⟩
  within s _ _ _ := by
    have hmeter : (work s).2.meter = s.meter := congrArg (·.2.meter) (h s s.meter)
    rw [limit, limit, hmeter]
    exact h s _
  beyond s _ hs hmore := by
    have hmeter : (work s).2.meter = s.meter := congrArg (·.2.meter) (h s s.meter)
    rw [Within, hmeter] at hmore
    exact absurd hs hmore

theorem breaksOff_pure (a : α) (failed : α → Prop) :
    BreaksOff b (pure a : StateM Store α) failed :=
  breaksOff_of_free fun _ _ => rfl

/-- Where the first piece of work breaks off, the second one must count as failed, whatever it does
then. -/
theorem BreaksOff.bind {work : StateM Store α} {next : α → StateM Store β} {failed₁ : α → Prop}
    {failed₂ : β → Prop} (h : BreaksOff b work failed₁)
    (hnext : ∀ a, BreaksOff b (next a) failed₂)
    (hfailed : ∀ a, failed₁ a → Ensures (next a) failed₂) :
    BreaksOff b (work >>= next) failed₂ where
  metered := h.metered.bind fun a => (hnext a).metered
  within s hfree hs hmore := by
    have hboth : (next (work s).1 (work s).2).2.Within b := hmore
    have hfirst : (work s).2.Within b :=
      hboth.of_le ((hnext (work s).1).metered.used_le (work s).2)
    show next (work (s.limit b)).1 (work (s.limit b)).2 = _
    rw [h.within s hfree hs hfirst]
    exact (hnext (work s).1).within _ (h.metered.unlimited hfree) hfirst hboth
  beyond s hfree hs hmore := by
    show failed₂ (next (work (s.limit b)).1 (work (s.limit b)).2).1
    by_cases hfirst : (work s).2.Within b
    · rw [h.within s hfree hs hfirst]
      exact (hnext (work s).1).beyond _ (h.metered.unlimited hfree) hfirst hmore
    · exact hfailed _ (h.beyond s hfree hs hfirst) _

/-- The errors of work that breaks off. -/
def Exhausted {γ : Type} : Except AccessError γ → Prop := (· = .error (.storage Meter.exhausted))

theorem breaksOff_openCursor (hb : 0 ≤ b) (revision : Nat) :
    BreaksOff b (openCursor revision) (· = .error Meter.exhausted) where
  metered := metered_openCursor revision
  within s hfree hs hmore := by
    have hlt : (s.meter.used : Int) < b.toInt := by
      rw [Within, meter_openCursor, Meter.used_after] at hmore
      omega
    have hspend : s.meter.spend = (.ok true, s.meter.after 1) :=
      (Meter.grantsNext_of_unlimited hfree.budget?_eq 1).spend Nat.one_pos
    have hlimit := Meter.spend_limit_of_lt (m := s.meter) hb hlt
    simp only [openCursor_apply, limit, hspend,
      hlimit]
    have hview : ∀ m, ({ s with meter := m } : Store).view? revision = s.view? revision := fun _ => rfl
    simp only [hview]
    cases s.view? revision <;> rfl
  beyond s hfree hs hmore := by
    have heq : (s.meter.used : Int) = b.toInt := by
      rw [not_within_iff, meter_openCursor, Meter.used_after] at hmore
      unfold Within at hs
      omega
    have hlimit := Meter.spend_limit_of_eq (m := s.meter) hb hfree.fault_eq heq
    simp only [openCursor_apply, limit, hlimit]

/-- A reading with a cursor, and work that does not look at the meter in its result. -/
theorem breaksOff_perform_bind (hb : 0 ≤ b) (c : Cursor) (r : Reading σ α) (init : σ)
    {next : Reading.Run σ α → StateM Store β} {failed : β → Prop}
    (hmeter : ∀ run meter, next { run with meter } = next run)
    (hnext : ∀ run, BreaksOff b (next run) failed)
    (hfailed : ∀ run, Exhausted run.outcome → Ensures (next run) failed) :
    BreaksOff b (perform c r init >>= next) failed where
  metered := (metered_perform c r init).bind fun run => (hnext run).metered
  within s hfree hs hmore := by
    have hboth : (next (perform c r init s).1 (perform c r init s).2).2.Within b := hmore
    have hfirst : (perform c r init s).2.Within b := hboth.of_le ((hnext _).metered.used_le _)
    have hrun := (r.run_limit init c hb hfree.budget?_eq hfree.fault_eq hs).1 hfirst
    show next (r.run init c (s.meter.limit b))
      { s with meter := (r.run init c (s.meter.limit b)).meter } = _
    rw [hrun, hmeter]
    exact (hnext _).within _ ((metered_perform c r init).unlimited hfree) hfirst hboth
  beyond s hfree hs hmore := by
    show failed (next (r.run init c (s.meter.limit b))
      { s with meter := (r.run init c (s.meter.limit b)).meter }).1
    by_cases hfirst : (perform c r init s).2.Within b
    · have hrun := (r.run_limit init c hb hfree.budget?_eq hfree.fault_eq hs).1 hfirst
      rw [hrun, hmeter]
      exact (hnext _).beyond _ ((metered_perform c r init).unlimited hfree) hfirst hmore
    · refine hfailed _ ?_ _
      exact (r.run_limit init c hb hfree.budget?_eq hfree.fault_eq hs).2 (not_within_iff.1 hfirst)

theorem breaksOff_close (c : Cursor) (failed : Except StoreError Unit × Cursor → Prop) :
    BreaksOff b (close c) failed := by
  refine breaksOff_of_free ?_
  intro s meter
  simp only [close_apply]
  split <;> rfl

theorem breaksOff_release (c : Cursor) (failed : Unit → Prop) : BreaksOff b (release c) failed :=
  (breaksOff_close c fun _ => False).bind (fun _ => breaksOff_pure _ _) fun _ h => h.elim

theorem breaksOff_openAt (hb : 0 ≤ b) (revision : Nat) (key : Int) :
    BreaksOff b (openAt revision key) Exhausted := by
  rw [openAt_eq]
  refine (breaksOff_openCursor hb revision).bind ?_ ?_
  · intro lent
    cases lent with
    | error e => exact breaksOff_pure _ _
    | ok c =>
      refine breaksOff_perform_bind hb c _ () (fun _ _ => rfl) ?_ ?_
      · intro run
        unfold settle
        rcases run.outcome with e | _ | _
        · exact (breaksOff_release _ fun _ => False).bind (fun _ => breaksOff_pure _ _)
            fun _ h => h.elim
        · exact (breaksOff_release _ fun _ => False).bind (fun _ => breaksOff_pure _ _)
            fun _ h => h.elim
        · exact breaksOff_pure _ _
      · intro run hfailed
        have houtcome : run.outcome = .error (.storage Meter.exhausted) := hfailed
        unfold settle
        rw [houtcome]
        exact (ensures_true _).bind fun _ _ => ensures_pure rfl
  · rintro _ rfl
    exact ensures_pure rfl

/-- A reading with a cursor of its own. Closing the cursor does not hide that the storage failed. -/
theorem breaksOff_consult (hb : 0 ≤ b) (revision : Nat) (key : Int) (init : σ)
    (reading : Snapshot → Nat → Reading σ α) (reports : α → Bool) :
    BreaksOff b (consult revision key init reading reports) fun answer => Exhausted answer.1 := by
  unfold consult
  refine (breaksOff_openAt hb revision key).bind ?_ ?_
  · intro opened
    cases opened with
    | error e => exact breaksOff_pure _ _
    | ok c =>
      refine breaksOff_perform_bind hb c _ init (fun _ _ => rfl) ?_ ?_
      · intro run
        refine (breaksOff_close run.cursor fun _ => False).bind ?_ fun _ h => h.elim
        rintro ⟨_ | _, _⟩ <;> rcases run.outcome with _ | _ <;> exact breaksOff_pure _ _
      · intro run hfailed
        have houtcome : run.outcome = .error (.storage Meter.exhausted) := hfailed
        refine (ensures_true _).bind ?_
        rintro ⟨closed, _⟩ -
        rw [houtcome]
        cases closed with
        | error e => exact ensures_pure rfl
        | ok _ => exact ensures_pure rfl
  · rintro _ rfl
    exact ensures_pure rfl

end Store

end DocTree
