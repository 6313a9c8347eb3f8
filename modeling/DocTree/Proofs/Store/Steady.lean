import DocTree.Proofs.Store.Conserved

/-!
# What iterators see of a store

Revisions are only ever added to a store, and what its cursors see of a revision stays the same. The
answers of an iterator that is refused nothing depend on less than that: its cursor carries the
snapshot that it reads. So it does not matter to an iterator what has become of the store since it
was dispatched, nor to one that is dispatched anew.

## Main definitions

- `Store.Later`, `Store.Advances` — later states of a store, and work that leads to one
- `Store.Steady` — work whose answer is the same in every store that refuses it nothing

## Main statements

- `AxisIterator.steady_next` — the next node does not depend on the store
- `Dispatcher.dispatch_later` — dispatching again gives the same iterator
-/

namespace DocTree

variable {σ α β : Type}

namespace Store

variable {s s' s'' : Store} {t : Snapshot} {revision : Nat}

/-- A later state of a store: cursors see the same of the revisions that there were. -/
def Later (s s' : Store) : Prop :=
  ∀ revision t, s.view? revision = some t → s'.view? revision = some t

theorem Later.refl (s : Store) : s.Later s := fun _ _ h => h

theorem Later.trans (h : s.Later s') (h' : s'.Later s'') : s.Later s'' :=
  fun revision t ht => h' revision t (h revision t ht)

/-- Cursors and meters do not matter. -/
theorem later_of_eq (hrevisions : s'.revisions = s.revisions)
    (hnames : s'.hidesNames = s.hidesNames) : s.Later s' := by
  intro revision t h
  rwa [view?, snapshot?, hrevisions, hnames]

/-- Work that leads to a later state of the store. -/
def Advances (work : StateM Store α) : Prop := ∀ s : Store, s.Later (work s).2

theorem advances_pure (a : α) : Advances (pure a : StateM Store α) := fun s => .refl s

theorem Advances.bind {work : StateM Store α} {next : α → StateM Store β} (h : Advances work)
    (hnext : ∀ a, Advances (next a)) : Advances (work >>= next) :=
  fun s => (h s).trans (hnext (work s).1 (work s).2)

theorem advances_commit (c : Content) : Advances (commit c) := by
  intro s revision t h
  change ((s.revisions.push (.ofContent c))[revision]?).map _ = some t
  obtain ⟨t', ht', rfl⟩ := Option.map_eq_some_iff.1 h
  rw [Array.getElem?_push, if_neg (Nat.ne_of_lt (Array.getElem?_eq_some_iff.1 ht').1)]
  exact congrArg _ ht'

theorem advances_openCursor (revision : Nat) : Advances (openCursor revision) := by
  intro s
  simp only [openCursor_apply]
  rcases s.meter.spend with ⟨_ | _, m⟩
  · exact later_of_eq rfl rfl
  · dsimp only
    split
    · exact later_of_eq rfl rfl
    · exact later_of_eq rfl rfl

theorem advances_perform (c : Cursor) (r : Reading σ α) (init : σ) :
    Advances (perform c r init) :=
  fun _ => later_of_eq rfl rfl

theorem advances_close (c : Cursor) : Advances (close c) := by
  intro s
  simp only [close_apply]
  split
  · exact later_of_eq rfl rfl
  · exact .refl s

theorem advances_release (c : Cursor) : Advances (release c) :=
  (advances_close c).bind fun _ => advances_pure ()

theorem advances_openAt (revision : Nat) (key : Int) : Advances (openAt revision key) := by
  refine (advances_openCursor revision).bind fun lent => ?_
  cases lent with
  | error e => exact advances_pure _
  | ok c =>
    refine (advances_perform c _ ()).bind fun run => ?_
    rcases run.outcome with e | _ | _
    · exact (advances_release _).bind fun _ => advances_pure _
    · exact (advances_release _).bind fun _ => advances_pure _
    · exact advances_pure _

theorem advances_consult (revision : Nat) (key : Int) (init : σ)
    (reading : Snapshot → Nat → Reading σ α) (reports : α → Bool) :
    Advances (consult revision key init reading reports) := by
  refine (advances_openAt revision key).bind fun opened => ?_
  cases opened with
  | error e => exact advances_pure _
  | ok c =>
    refine (advances_perform c _ init).bind fun run => (advances_close _).bind fun closed => ?_
    rcases closed with ⟨_ | _, _⟩ <;> rcases run.outcome with _ | _ <;> exact advances_pure _

/-- Work whose answer is the same in every store that refuses it nothing. -/
structure Steady (work : StateM Store α) : Prop where
  metered : Metered work
  answer_eq : ∀ ⦃s s' : Store⦄, s.Undisturbed work → s'.Undisturbed work → (work s).1 = (work s').1

theorem steady_pure (a : α) : Steady (pure a : StateM Store α) :=
  ⟨metered_pure a, fun _ _ _ _ => rfl⟩

theorem steady_release (c : Cursor) : Steady (release c) := ⟨metered_release c, fun _ _ _ _ => rfl⟩

theorem Steady.bind {work : StateM Store α} {next : α → StateM Store β} (h : Steady work)
    (hnext : ∀ a, Steady (next a)) : Steady (work >>= next) where
  metered := h.metered.bind fun a => (hnext a).metered
  answer_eq s s' hs hs' := by
    obtain ⟨hwork, hrest⟩ := hs.of_bind h.metered fun a => (hnext a).metered
    obtain ⟨hwork', hrest'⟩ := hs'.of_bind h.metered fun a => (hnext a).metered
    change (next (work s).1 (work s).2).1 = (next (work s').1 (work s').2).1
    rw [h.answer_eq hwork hwork'] at hrest ⊢
    exact (hnext _).answer_eq hrest hrest'

/-- What follows a reading must not look at the meter. -/
theorem steady_perform_bind (c : Cursor) (r : Reading σ α) (init : σ)
    {next : Reading.Run σ α → StateM Store β} (hfree : ∀ run m, next { run with meter := m } = next run)
    (hnext : ∀ run, Steady (next run)) : Steady (perform c r init >>= next) where
  metered := (metered_perform c r init).bind fun run => (hnext run).metered
  answer_eq s s' hs hs' := by
    obtain ⟨hwork, hrest⟩ := hs.of_bind (metered_perform c r init) fun run => (hnext run).metered
    obtain ⟨hwork', hrest'⟩ := hs'.of_bind (metered_perform c r init) fun run => (hnext run).metered
    have hrun : next (perform c r init s').1 = next (perform c r init s).1 := by
      change next (r.run init c s'.meter) = next (r.run init c s.meter)
      rw [r.run_of_granted init c hwork hwork']
      exact hfree _ _
    change (next (perform c r init s).1 (perform c r init s).2).1
      = (next (perform c r init s').1 (perform c r init s').2).1
    rw [hrun] at hrest' ⊢
    exact (hnext _).answer_eq hrest hrest'

theorem steady_arrive (key : Int) (lent : Except StoreError Cursor) : Steady (arrive key lent) := by
  cases lent with
  | error e => exact steady_pure _
  | ok c =>
    refine steady_perform_bind c _ () (fun _ _ => rfl) fun run => ?_
    unfold settle
    rcases run.outcome with e | _ | _
    · exact (steady_release _).bind fun _ => steady_pure _
    · exact (steady_release _).bind fun _ => steady_pure _
    · exact steady_pure _

/-- A cursor on a node does not depend on more of the store than the revision. -/
theorem openAt_of_view? (hv : s.view? revision = some t) (hv' : s'.view? revision = some t)
    {key : Int} (hs : s.Undisturbed (openAt revision key)) (hs' : s'.Undisturbed (openAt revision key)) :
    (openAt revision key s).1 = (openAt revision key s').1 := by
  rw [openAt_eq] at hs hs' ⊢
  obtain ⟨hlend, harrive⟩ := hs.of_bind (metered_openCursor revision) (metered_arrive key)
  obtain ⟨hlend', harrive'⟩ := hs'.of_bind (metered_openCursor revision) (metered_arrive key)
  change (arrive key (openCursor revision s).1 (openCursor revision s).2).1
    = (arrive key (openCursor revision s').1 (openCursor revision s').2).1
  have hlent := openCursor_of_grantsNext hv (grantsNext_of_undisturbed_openCursor hlend)
  have hlent' := openCursor_of_grantsNext hv' (grantsNext_of_undisturbed_openCursor hlend')
  rw [hlent] at harrive ⊢
  rw [hlent'] at harrive' ⊢
  exact (steady_arrive key _).answer_eq harrive harrive'

/-- Cursors are lent on revisions only. -/
theorem exists_view?_of_openAt {key : Int} {c : Cursor} (h : (openAt revision key s).1 = .ok c) :
    ∃ t, s.view? revision = some t := by
  cases hv : s.view? revision with
  | some t => exact ⟨t, rfl⟩
  | none =>
    have hlent : ∃ e, (openCursor revision s).1 = .error e := by
      simp only [openCursor_apply, hv]
      rcases s.meter.spend with ⟨e | _, m⟩
      · exact ⟨e, rfl⟩
      · exact ⟨_, rfl⟩
    obtain ⟨e, he⟩ := hlent
    rw [openAt_eq] at h
    change (arrive key (openCursor revision s).1 (openCursor revision s).2).1 = _ at h
    rw [he] at h
    cases h

/-- What a cursor was opened for comes out the same later. -/
theorem openAt_bind_later {next : Except AccessError Cursor → StateM Store (Except AccessError β)}
    {key : Int} {b : β} (herror : ∀ e, next (.error e) = pure (.error e))
    (hnext : ∀ opened, Steady (next opened)) (h : ((openAt revision key >>= next) s).1 = .ok b)
    (hs : s.Undisturbed (openAt revision key >>= next)) (hlater : s.Later s')
    (hs' : s'.Undisturbed (openAt revision key >>= next)) :
    ((openAt revision key >>= next) s').1 = .ok b := by
  obtain ⟨hopen, hrest⟩ := hs.of_bind (metered_openAt _ _) fun opened => (hnext opened).metered
  obtain ⟨hopen', hrest'⟩ := hs'.of_bind (metered_openAt _ _) fun opened => (hnext opened).metered
  change (next (openAt revision key s).1 (openAt revision key s).2).1 = .ok b at h
  change (next (openAt revision key s').1 (openAt revision key s').2).1 = .ok b
  rcases hopened : (openAt revision key s).1 with e | c
  · rw [hopened, herror] at h
    cases h
  · obtain ⟨t, ht⟩ := exists_view?_of_openAt hopened
    rw [← openAt_of_view? ht (hlater _ t ht) hopen hopen'] at hrest' ⊢
    rw [← h]
    exact (hnext _).answer_eq hrest' hrest

end Store

open Store

namespace AxisIterator

theorem advances_next (it : AxisIterator) (pool : NamePool) : Advances (it.next pool) := by
  unfold next
  rcases it.progress with _ | _ | ⟨walk, c⟩
  · exact advances_pure _
  · exact advances_pure _
  · refine (advances_perform c _ ()).bind fun run => ?_
    rcases run.outcome with e | _ | walk'
    · exact (advances_release _).bind fun _ => advances_pure _
    · exact (advances_release _).bind fun _ => advances_pure _
    · exact advances_pure _

theorem advances_abandon (it : AxisIterator) : Advances it.abandon := by
  unfold abandon
  rcases it.progress with _ | _ | ⟨walk, c⟩
  · exact advances_pure _
  · exact advances_pure _
  · exact advances_release c

/-- The answers of an iterator that is refused nothing do not depend on the store. -/
theorem steady_next (it : AxisIterator) (pool : NamePool) : Steady (it.next pool) := by
  unfold next
  rcases it.progress with _ | _ | ⟨walk, c⟩
  · exact steady_pure _
  · exact steady_pure _
  · refine steady_perform_bind c _ () (fun _ _ => rfl) fun run => ?_
    rcases run.outcome with e | _ | walk'
    · exact (steady_release _).bind fun _ => steady_pure _
    · exact (steady_release _).bind fun _ => steady_pure _
    · exact steady_pure _

/-- A pool matters only for what the test accepts. -/
theorem next_congr {it : AxisIterator} {p p' : NamePool}
    (h : ∀ x, it.test.accepts p' x = it.test.accepts p x) : it.next p' = it.next p := by
  have haccepts : it.test.accepts p' = it.test.accepts p := funext h
  unfold next
  simp only [haccepts]

/-- All that changes is how far the iterator is. -/
theorem ensures_next_eq (it : AxisIterator) (pool : NamePool) :
    Ensures (it.next pool) fun answer => answer.2 = { it with progress := answer.2.progress } := by
  unfold next
  rcases it.progress with _ | _ | ⟨walk, c⟩
  · exact ensures_pure rfl
  · exact ensures_pure rfl
  · refine (ensures_true _).bind fun run _ => ?_
    rcases run.outcome with e | _ | walk'
    · exact (ensures_true _).bind fun _ _ => ensures_pure rfl
    · exact (ensures_true _).bind fun _ _ => ensures_pure rfl
    · exact ensures_pure rfl

end AxisIterator

namespace Dispatcher

variable {d : Dispatcher} {origin : Handle} {axis : Axis} {test : NodeTest} {s s' : Store}

theorem advances_dispatch (d : Dispatcher) (origin : Handle) (axis : Axis) (test : NodeTest) :
    Advances (d.dispatch origin axis test) := by
  unfold dispatch
  dsimp only
  split
  · exact advances_pure _
  · exact advances_pure _
  · refine (advances_openAt _ _).bind fun opened => ?_
    cases opened with
    | error e => exact advances_pure _
    | ok c => exact advances_pure _
  · refine (advances_openAt _ _).bind fun opened => ?_
    cases opened with
    | error e => exact advances_pure _
    | ok c =>
      by_cases hparent : (c.snapshot.firstChild? c.place).isSome
      · simp only [hparent, if_true]
        exact advances_pure _
      · simp only [hparent]
        exact (advances_release c).bind fun _ => advances_pure _

/-- What is dispatched is an iteration over what was asked for. -/
theorem ensures_dispatch_eq (d : Dispatcher) (origin : Handle) (axis : Axis) (test : NodeTest) :
    Ensures (d.dispatch origin axis test)
      (ifOk fun it => it = ⟨d, origin, axis, test, it.progress⟩) := by
  refine (d.ensures_dispatch_cases origin axis test).ifOk_mono ?_
  rintro it (rfl | ⟨-, rfl⟩ | ⟨c, -, rfl⟩)
  · rfl
  · rfl
  · rfl

/-- Of the origin an iteration needs the key and the kind to begin, and of the test nothing. -/
theorem dispatch_congr {origin' : Handle} (d : Dispatcher) (test test' : NodeTest)
    (hkey : origin'.key = origin.key) (hkind : origin'.kind = origin.kind) (s : Store) :
    d.dispatch origin' axis test' s =
      ((d.dispatch origin axis test s).1.map fun it => ⟨d, origin', axis, test', it.progress⟩,
        (d.dispatch origin axis test s).2) := by
  have hwalk : axis.walk origin' = axis.walk origin := by
    unfold Axis.walk Handle.isStructural
    rw [hkey, hkind]
  unfold dispatch
  rw [hkey, hkind, hwalk]
  cases axis.opening origin.kind with
  | nothing => rfl
  | originOnly => rfl
  | walk =>
    simp only [bind, StateT.bind]
    rcases Store.openAt d.revision origin.key s with ⟨_ | c, s'⟩
    · rfl
    · rfl
  | walkIfParent =>
    simp only [bind, StateT.bind]
    rcases Store.openAt d.revision origin.key s with ⟨_ | c, s'⟩
    · rfl
    · by_cases hparent : (c.snapshot.firstChild? c.place).isSome
      · simp only [hparent, if_true]
        rfl
      · simp only [hparent]
        rfl

/-- In a later state of a store, dispatching gives the iterator that it gave before, if nothing is
refused. -/
theorem dispatch_later {it : AxisIterator} (h : (d.dispatch origin axis test s).1 = .ok it)
    (hs : s.Undisturbed (d.dispatch origin axis test)) (hlater : s.Later s')
    (hs' : s'.Undisturbed (d.dispatch origin axis test)) :
    (d.dispatch origin axis test s').1 = .ok it := by
  unfold dispatch at h hs hs' ⊢
  cases hopening : axis.opening origin.kind with
  | nothing =>
    rw [hopening] at h
    exact h
  | originOnly =>
    rw [hopening] at h
    exact h
  | walk =>
    rw [hopening] at h hs hs'
    refine openAt_bind_later (fun _ => rfl) (fun opened => ?_) h hs hlater hs'
    cases opened with
    | error e => exact steady_pure _
    | ok c => exact steady_pure _
  | walkIfParent =>
    rw [hopening] at h hs hs'
    refine openAt_bind_later (fun _ => rfl) (fun opened => ?_) h hs hlater hs'
    cases opened with
    | error e => exact steady_pure _
    | ok c =>
      by_cases hparent : (c.snapshot.firstChild? c.place).isSome
      · simp only [hparent, if_true]
        exact steady_pure _
      · simp only [hparent]
        exact (steady_release c).bind fun _ => steady_pure _

end Dispatcher

end DocTree
