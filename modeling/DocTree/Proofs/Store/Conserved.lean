import DocTree.Axis.Iterator
import DocTree.Proofs.Store.Granted

/-!
# Cursors are conserved

A store counts the cursors that it has lent. Work on a store is followed by counting how many of them
are in hand: so many when it begins, so many in what it returns. If the work conserves cursors, the
count of the store differs by just that, whatever the storage refuses on the way. In particular it
gives back no cursor that is not in hand, so that the count is never short of them.

## Main definitions

- `Cursor.held`, `AxisIterator.held` — how many cursors are in hand with something
- `Store.Conserves` — work that keeps account of the cursors in hand
- `Ensures` — what is true of all that work can return

## Main statements

- `Store.conserves_openAt`, `Store.conserves_close`, `Store.conserves_consult` — work with one cursor
- `Dispatcher.ensures_dispatch_cases` — what can be dispatched
- `Dispatcher.conserves_dispatch`, `AxisIterator.conserves_next` — iterating an axis
-/

namespace DocTree

/-- One as long as the cursor is open. -/
def Cursor.held (c : Cursor) : Nat := c.isOpen.toNat

/-- One as long as the iterator walks with an open cursor. -/
def AxisIterator.held (it : AxisIterator) : Nat :=
  match it.progress with
  | .walking _ c => c.held
  | .exhausted | .pending => 0

/-- What is in hand with a result; nothing with an error. -/
def inHand {ε α : Type} (held : α → Nat) : Except ε α → Nat
  | .ok a => held a
  | .error _ => 0

namespace Store

variable {σ α β : Type} {before : Nat}

/-- The work begins with `before` cursors in hand and leaves so many as `after` counts in its result.
The count of the store goes along with that. -/
def Conserves (before : Nat) (work : StateM Store α) (after : α → Nat) : Prop :=
  ∀ s : Store, before ≤ s.openCursors →
    (work s).2.openCursors + before = s.openCursors + after (work s).1

theorem conserves_pure {a : α} {after : α → Nat} (h : after a = before) :
    Conserves before (pure a : StateM Store α) after := by
  subst h
  exact fun _ _ => rfl

theorem Conserves.bind {work : StateM Store α} {next : α → StateM Store β} {between : α → Nat}
    {after : β → Nat} (h : Conserves before work between)
    (hnext : ∀ a, Conserves (between a) (next a) after) : Conserves before (work >>= next) after := by
  intro s hs
  have hwork := h s hs
  have hrest := hnext (work s).1 (work s).2 (by omega)
  show (next (work s).1 (work s).2).2.openCursors + before =
    s.openCursors + after (next (work s).1 (work s).2).1
  omega

theorem conserves_openCursor (revision : Nat) :
    Conserves 0 (openCursor revision) (inHand Cursor.held) := by
  intro s _
  simp only [openCursor_apply]
  rcases s.meter.spend with ⟨_ | _, meter⟩
  · rfl
  · dsimp only
    split <;> rfl

/-- Neither a move nor a refusal of one closes a cursor. -/
theorem isOpen_request (c : Cursor) (target : Option Nat) (m : Meter) :
    ∀ c' ∈ (c.request target m).1.toOption.join, c'.isOpen = c.isOpen := by
  unfold Cursor.request
  rcases m.spend with ⟨_ | _ | _, m'⟩
  · simp [Except.toOption]
  · simp [Except.toOption]
  · dsimp only
    split
    · cases target <;> simp [Except.toOption]
    · simp [Except.toOption]

theorem isOpen_run (r : Reading σ α) (init : σ) (c : Cursor) (m : Meter) :
    (r.run init c m).cursor.isOpen = c.isOpen := by
  induction r generalizing init c m with
  | done a => rfl
  | fail e => rfl
  | note s rest ih => exact ih s c m
  | move target next ih =>
    have hrequest := isOpen_request c target m
    rcases hreq : c.request target m with ⟨_ | _ | c', m'⟩ <;> simp only [Reading.run, hreq]
    · exact ih false init c m'
    · rw [ih true init c' m']
      exact hrequest c' (by simp [hreq, Except.toOption])

theorem conserves_perform (c : Cursor) (r : Reading σ α) (init : σ) :
    Conserves c.held (perform c r init) fun run => run.cursor.held := by
  intro s _
  show s.openCursors + c.held = s.openCursors + (r.run init c s.meter).cursor.held
  rw [Cursor.held, Cursor.held, isOpen_run]

/-- A cursor that was closed is not closed again; the store does not change. -/
theorem close_of_closed {c : Cursor} {s : Store} (hclosed : c.isOpen = false) :
    close c s = ((.error .cursorClosed, c), s) := by
  simp [close_apply, hclosed]

/-- Closing takes a cursor out of hand, if it was not closed already. -/
theorem conserves_close (c : Cursor) : Conserves c.held (close c) fun _ => 0 := by
  intro s hs
  cases hopen : c.isOpen with
  | true =>
    rw [close_of_open hopen]
    rw [Cursor.held, hopen] at hs ⊢
    exact Nat.sub_add_cancel hs
  | false =>
    rw [close_of_closed hopen, Cursor.held, hopen]
    rfl

theorem conserves_release (c : Cursor) : Conserves c.held (release c) fun _ => 0 :=
  (conserves_close c).bind fun _ => conserves_pure rfl

/-- A cursor that could not be brought to its node is not left open. -/
theorem conserves_openAt (revision : Nat) (key : Int) :
    Conserves 0 (openAt revision key) (inHand Cursor.held) := by
  rw [openAt_eq]
  refine (conserves_openCursor revision).bind ?_
  intro lent
  cases lent with
  | error e => exact conserves_pure rfl
  | ok c =>
    refine (conserves_perform c _ ()).bind ?_
    intro run
    unfold settle
    rcases run.outcome with e | _ | _
    · exact (conserves_release _).bind fun _ => conserves_pure rfl
    · exact (conserves_release _).bind fun _ => conserves_pure rfl
    · exact conserves_pure rfl

/-- However a reading with a cursor of its own ends, nothing is left in hand. -/
theorem conserves_consult (revision : Nat) (key : Int) (init : σ)
    (reading : Snapshot → Nat → Reading σ α) (reports : α → Bool) :
    Conserves 0 (consult revision key init reading reports) fun _ => 0 := by
  rw [consult_eq]
  refine (conserves_openAt revision key).bind ?_
  intro opened
  cases opened with
  | error e => exact conserves_pure rfl
  | ok c =>
    refine (conserves_perform c _ init).bind ?_
    intro run
    refine (conserves_close run.cursor).bind ?_
    intro closed
    rcases closed with ⟨_ | _, _⟩ <;> rcases run.outcome with _ | _ <;>
      exact conserves_pure rfl

end Store

/-- What the work returns has a property, whatever the state. -/
def Ensures {τ α : Type} (work : StateM τ α) (P : α → Prop) : Prop := ∀ s, P (work s).1

section Ensures

variable {τ α β : Type}

theorem ensures_pure {a : α} {P : α → Prop} (h : P a) : Ensures (pure a : StateM τ α) P := fun _ => h

theorem Ensures.bind {work : StateM τ α} {next : α → StateM τ β} {Q : α → Prop} {P : β → Prop}
    (h : Ensures work Q) (hnext : ∀ a, Q a → Ensures (next a) P) : Ensures (work >>= next) P :=
  fun s => hnext _ (h s) _

theorem ensures_true (work : StateM τ α) : Ensures work fun _ => True := fun _ => trivial

end Ensures

/-- A result has a property, and an error may be any. -/
def ifOk {ε α : Type} (P : α → Prop) : Except ε α → Prop
  | .ok a => P a
  | .error _ => True

theorem Ensures.ifOk_mono {τ ε α : Type} {work : StateM τ (Except ε α)} {P Q : α → Prop}
    (h : Ensures work (ifOk P)) (hPQ : ∀ a, P a → Q a) : Ensures work (ifOk Q) := by
  intro s
  have hs := h s
  cases hrun : (work s).1 with
  | error e => trivial
  | ok a =>
    rw [hrun] at hs
    exact hPQ a hs

namespace Store

theorem ensures_openCursor (revision : Nat) :
    Ensures (openCursor revision) (ifOk fun c => c.isOpen = true) := by
  intro s
  simp only [openCursor_apply]
  rcases s.meter.spend with ⟨_ | _, meter⟩
  · trivial
  · dsimp only
    split
    · trivial
    · rfl

/-- The cursor that is lent on a node is open. -/
theorem ensures_openAt (revision : Nat) (key : Int) :
    Ensures (openAt revision key) (ifOk fun c => c.isOpen = true) := by
  rw [openAt_eq]
  refine (ensures_openCursor revision).bind ?_
  intro lent hlent
  cases lent with
  | error e => exact ensures_pure trivial
  | ok c =>
    have hrun : Ensures (perform c (.ask (c.snapshot.find? key)) ()) fun run =>
        run.cursor.isOpen = true := fun s => (isOpen_run _ () c s.meter).trans hlent
    refine hrun.bind ?_
    intro run hopen
    unfold settle
    rcases run.outcome with e | _ | _
    · exact (ensures_true _).bind fun _ _ => ensures_pure trivial
    · exact (ensures_true _).bind fun _ _ => ensures_pure trivial
    · exact ensures_pure hopen

end Store

/-- Whether the iterator is still walking. -/
def AxisIterator.isWalking (it : AxisIterator) : Bool :=
  match it.progress with
  | .walking _ _ => true
  | .exhausted | .pending => false

/-- The cursor of an iterator is open as long as it walks. -/
def AxisIterator.Sound (it : AxisIterator) : Prop := it.held = it.isWalking.toNat

namespace Dispatcher

/-- An iterator is in hand with a cursor if it walks; a childless origin leaves none. -/
theorem conserves_dispatch (d : Dispatcher) (origin : Handle) (axis : Axis) (test : NodeTest) :
    Store.Conserves 0 (d.dispatch origin axis test) (inHand AxisIterator.held) := by
  unfold dispatch
  dsimp only
  split
  · exact Store.conserves_pure rfl
  · exact Store.conserves_pure rfl
  · refine (Store.conserves_openAt _ _).bind ?_
    intro opened
    cases opened with
    | error e => exact Store.conserves_pure rfl
    | ok c => exact Store.conserves_pure rfl
  · refine (Store.conserves_openAt _ _).bind ?_
    intro opened
    cases opened with
    | error e => exact Store.conserves_pure rfl
    | ok c =>
      by_cases hparent : (c.snapshot.firstChild? c.place).isSome
      · simp only [hparent, if_true]
        exact Store.conserves_pure rfl
      · simp only [hparent]
        exact (Store.conserves_release c).bind fun _ => Store.conserves_pure rfl

/-- What is dispatched is an iteration over what was asked for. It is over, or it has only its origin to
look at, or it walks with an open cursor. -/
theorem ensures_dispatch_cases (d : Dispatcher) (origin : Handle) (axis : Axis) (test : NodeTest) :
    Ensures (d.dispatch origin axis test) (ifOk fun it =>
      it = ⟨d, origin, axis, test, .exhausted⟩ ∨
      (axis.opening origin.kind = .originOnly ∧ it = ⟨d, origin, axis, test, .pending⟩) ∨
      ∃ c, c.isOpen = true ∧ it = ⟨d, origin, axis, test, .walking (axis.walk origin) c⟩) := by
  unfold dispatch
  dsimp only
  split
  · exact ensures_pure (.inl rfl)
  · next hopening => exact ensures_pure (.inr (.inl ⟨hopening, rfl⟩))
  · refine (Store.ensures_openAt _ _).bind ?_
    intro opened hopened
    cases opened with
    | error e => exact ensures_pure trivial
    | ok c => exact ensures_pure (.inr (.inr ⟨c, hopened, rfl⟩))
  · refine (Store.ensures_openAt _ _).bind ?_
    intro opened hopened
    cases opened with
    | error e => exact ensures_pure trivial
    | ok c =>
      by_cases hparent : (c.snapshot.firstChild? c.place).isSome
      · simp only [hparent, if_true]
        exact ensures_pure (.inr (.inr ⟨c, hopened, rfl⟩))
      · simp only [hparent]
        exact (ensures_true _).bind fun _ _ => ensures_pure (.inl rfl)

/-- What is dispatched belongs to the dispatcher, and walks with an open cursor if it walks. -/
theorem ensures_dispatch (d : Dispatcher) (origin : Handle) (axis : Axis) (test : NodeTest) :
    Ensures (d.dispatch origin axis test)
      (ifOk fun it => it.dispatcher = d ∧ it.Sound) := by
  refine (d.ensures_dispatch_cases origin axis test).ifOk_mono ?_
  rintro it (rfl | ⟨-, rfl⟩ | ⟨c, hopen, rfl⟩)
  · exact ⟨rfl, rfl⟩
  · exact ⟨rfl, rfl⟩
  · refine ⟨rfl, ?_⟩
    simp only [AxisIterator.Sound, AxisIterator.held, AxisIterator.isWalking, Cursor.held, hopen]

end Dispatcher

namespace AxisIterator

/-- An iterator that ends or fails gives its cursor back. -/
theorem conserves_next (it : AxisIterator) (pool : NamePool) :
    Store.Conserves it.held (it.next pool) fun answer => answer.2.held := by
  unfold next
  rcases hprogress : it.progress with _ | _ | ⟨walk, c⟩
  · exact Store.conserves_pure rfl
  · refine Store.conserves_pure ?_
    simp only [held, hprogress]
  · have hheld : it.held = c.held := by simp only [held, hprogress]
    rw [hheld]
    refine (Store.conserves_perform c _ ()).bind ?_
    intro run
    rcases run.outcome with e | _ | walk'
    · exact (Store.conserves_release _).bind fun _ => Store.conserves_pure rfl
    · exact (Store.conserves_release _).bind fun _ => Store.conserves_pure rfl
    · exact Store.conserves_pure rfl

/-- Whether an answer is the last one: there is no further node, or an error. -/
def isLast {α : Type} : Option (Except AccessError α) → Bool
  | some (.ok _) => false
  | some (.error _) | none => true

/-- An iterator stays with its dispatcher and keeps its cursor open while it walks; after its last
answer it is exhausted. -/
theorem ensures_next (it : AxisIterator) (pool : NamePool) :
    Ensures (it.next pool) fun answer => answer.2.dispatcher = it.dispatcher ∧
      (it.Sound → answer.2.Sound) ∧ (isLast answer.1 = true → answer.2.progress = .exhausted) := by
  unfold next
  rcases hprogress : it.progress with _ | _ | ⟨walk, c⟩
  · exact ensures_pure ⟨rfl, id, fun _ => hprogress⟩
  · exact ensures_pure ⟨rfl, fun _ => rfl, fun _ => rfl⟩
  · have hrun : Ensures (Store.perform c (walk.seek c.snapshot
        (fun k => it.test.accepts pool (c.snapshot.handle c.revision k)) (c.snapshot.size + 1)
        c.place) ()) fun run => run.cursor.isOpen = c.isOpen :=
      fun s => Store.isOpen_run _ () c s.meter
    refine hrun.bind ?_
    intro run hopen
    rcases run.outcome with e | _ | walk'
    · exact (ensures_true _).bind fun _ _ =>
        ensures_pure ⟨rfl, fun _ => rfl, fun _ => rfl⟩
    · exact (ensures_true _).bind fun _ _ =>
        ensures_pure ⟨rfl, fun _ => rfl, fun _ => rfl⟩
    · refine ensures_pure ⟨rfl, ?_, fun hlast => nomatch hlast⟩
      intro hsound
      simp only [Sound, held, isWalking, hprogress, Cursor.held] at hsound ⊢
      rw [hopen, hsound]

theorem conserves_abandon (it : AxisIterator) : Store.Conserves it.held it.abandon fun _ => 0 := by
  unfold abandon held
  rcases it.progress with _ | _ | ⟨walk, c⟩
  · exact Store.conserves_pure rfl
  · exact Store.conserves_pure rfl
  · exact Store.conserves_release c

end AxisIterator

end DocTree
