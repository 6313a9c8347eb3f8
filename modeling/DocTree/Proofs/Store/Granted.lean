import DocTree.Proofs.Layout.Subtree
import DocTree.Proofs.Reading.Granted
import DocTree.Store

/-!
# Store operations that are not refused

Whatever a store is asked to do, its meter only counts on. An operation is undisturbed if none of
the requests that it makes on the way is refused; then a cursor can be opened at every node that
there is, and a reading with a cursor of its own ends as `Reading.ending` says, with the cursor given
back.

## Main definitions

- `Content.seen` — a committed document as the cursors of a store see it
- `Store.Metered` — the work only counts the meter on
- `Store.Undisturbed` — no operation of the work is refused

## Main statements

- `Store.openAt_of_grantsNext`, `Store.consult_of_grantsNext` — the operations when they are granted
- `Store.grantsNext_of_undisturbed_consult` — what an undisturbed reading was granted
-/

namespace DocTree

/-- A document as cursors see it that may not tell names. -/
def Content.seen (c : Content) (hidesNames : Bool) : Snapshot :=
  if hidesNames then (Snapshot.ofContent c).withoutNames else .ofContent c

theorem Content.isTree_seen (c : Content) (hidesNames : Bool) : (c.seen hidesNames).IsTree := by
  cases hidesNames with
  | false => exact Snapshot.isTree_ofContent c
  | true => exact (Snapshot.isTree_ofContent c).withoutNames

@[simp] theorem Content.kind_seen (c : Content) (hidesNames : Bool) (k : Nat) :
    (c.seen hidesNames).kind k = (Snapshot.ofContent c).kind k := by
  cases hidesNames <;> simp [Content.seen]

@[simp] theorem Content.parent?_seen (c : Content) (hidesNames : Bool) (k : Nat) :
    (c.seen hidesNames).parent? k = (Snapshot.ofContent c).parent? k := by
  cases hidesNames <;> simp [Content.seen]

@[simp] theorem Content.firstChild?_seen (c : Content) (hidesNames : Bool) (k : Nat) :
    (c.seen hidesNames).firstChild? k = (Snapshot.ofContent c).firstChild? k := by
  cases hidesNames <;> simp [Content.seen]

@[simp] theorem Content.right?_seen (c : Content) (hidesNames : Bool) (k : Nat) :
    (c.seen hidesNames).right? k = (Snapshot.ofContent c).right? k := by
  cases hidesNames <;> simp [Content.seen]

@[simp] theorem Content.attributes_seen (c : Content) (hidesNames : Bool) (k : Nat) :
    (c.seen hidesNames).attributes k = (Snapshot.ofContent c).attributes k := by
  cases hidesNames <;> simp [Content.seen]

@[simp] theorem Content.namespaces_seen (c : Content) (hidesNames : Bool) (k : Nat) :
    (c.seen hidesNames).namespaces k = (Snapshot.ofContent c).namespaces k := by
  cases hidesNames <;> simp [Content.seen]

@[simp] theorem Content.ancestors_seen (c : Content) (hidesNames : Bool) (k : Nat) :
    (c.seen hidesNames).ancestors k = (Snapshot.ofContent c).ancestors k := by
  cases hidesNames <;> simp [Content.seen]

namespace Store

variable {σ α β : Type} {s : Store} {t : Snapshot} {revision k : Nat}

theorem view?_of_committed {c : Content} (h : s.snapshot? revision = some (.ofContent c)) :
    s.view? revision = some (c.seen s.hidesNames) := by
  simp [view?, h, Content.seen]

theorem openCursor_apply (revision : Nat) (s : Store) :
    openCursor revision s =
      match s.meter.spend with
      | (.error e, meter) => (.error e, { s with meter })
      | (.ok _, meter) =>
        match s.view? revision with
        | none => (.error (.unknownRevision revision), { s with meter })
        | some snapshot =>
          (.ok { revision, snapshot }, { s with meter, openCursors := s.openCursors + 1 }) :=
  rfl

theorem close_apply (c : Cursor) (s : Store) :
    close c s =
      if c.isOpen then
        ((if s.closeFails then .error closeFailure else .ok (), { c with isOpen := false }),
          { s with openCursors := s.openCursors - 1 })
      else ((.error .cursorClosed, c), s) :=
  rfl

theorem perform_apply (c : Cursor) (r : Reading σ α) (init : σ) (s : Store) :
    perform c r init s =
      (r.run init c s.meter, { s with meter := (r.run init c s.meter).meter }) :=
  rfl

/-- Work on a store that leaves the meter as it is, but for the count of operations. -/
def Metered (work : StateM Store α) : Prop :=
  ∀ s, ∃ n, (work s).2.meter = s.meter.after n

theorem metered_pure (a : α) : Metered (pure a : StateM Store α) := fun _ => ⟨0, rfl⟩

theorem Metered.bind {work : StateM Store α} {next : α → StateM Store β} (h : Metered work)
    (hnext : ∀ a, Metered (next a)) : Metered (work >>= next) := by
  intro s
  obtain ⟨n, hn⟩ := h s
  obtain ⟨m, hm⟩ := hnext (work s).1 (work s).2
  refine ⟨n + m, ?_⟩
  rw [← Meter.after_after, ← hn, ← hm]
  rfl

theorem meter_openCursor (s : Store) (revision : Nat) :
    (openCursor revision s).2.meter = s.meter.after 1 := by
  rw [← s.meter.spend_snd]
  simp only [openCursor_apply]
  rcases s.meter.spend with ⟨_ | _, m⟩
  · rfl
  · dsimp only
    split <;> rfl

theorem metered_openCursor (revision : Nat) : Metered (openCursor revision) :=
  fun s => ⟨1, s.meter_openCursor revision⟩

theorem metered_perform (c : Cursor) (r : Reading σ α) (init : σ) : Metered (perform c r init) :=
  fun s => r.exists_meter_run init c s.meter

theorem metered_close (c : Cursor) : Metered (close c) := by
  refine fun s => ⟨0, ?_⟩
  simp only [close_apply]
  split <;> rfl

theorem metered_release (c : Cursor) : Metered (release c) :=
  (metered_close c).bind fun _ => metered_pure ()

/-- The end of `openAt`: a cursor that did not arrive is given back. -/
def settle (key : Int) (run : Reading.Run Unit Bool) :
    StateM Store (Except AccessError Cursor) := do
  match run.outcome with
  | .ok true => return .ok run.cursor
  | .ok false =>
    release run.cursor
    return .error (.noSuchNode key)
  | .error e =>
    release run.cursor
    return .error e

/-- The part of `openAt` after the cursor has been lent. -/
def arrive (key : Int) : Except StoreError Cursor → StateM Store (Except AccessError Cursor)
  | .error e => return .error (.storage e)
  | .ok c => perform c (.ask (c.snapshot.find? key)) () >>= settle key

theorem openAt_eq (revision : Nat) (key : Int) :
    openAt revision key = openCursor revision >>= arrive key := rfl

theorem metered_settle (key : Int) (run : Reading.Run Unit Bool) : Metered (settle key run) := by
  unfold settle
  rcases run.outcome with e | _ | _
  · exact (metered_release _).bind fun _ => metered_pure _
  · exact (metered_release _).bind fun _ => metered_pure _
  · exact metered_pure _

theorem metered_arrive (key : Int) (lent : Except StoreError Cursor) : Metered (arrive key lent) := by
  cases lent with
  | error e => exact metered_pure _
  | ok c => exact (metered_perform c _ ()).bind (metered_settle key)

theorem metered_openAt (revision : Nat) (key : Int) : Metered (openAt revision key) :=
  (metered_openCursor revision).bind (metered_arrive key)

/-- The end of `consult`: the cursor is given back. -/
def giveBack (reports : α → Bool) (run : Reading.Run σ α) :
    StateM Store (Except AccessError α × σ) := do
  let (closed, _) ← close run.cursor
  match run.outcome, closed with
  | .ok a, .error e => return (if reports a then .error (.storage e) else .ok a, run.state)
  | outcome, _ => return (outcome, run.state)

/-- The part of `consult` after the cursor has been opened. -/
def readAndClose (init : σ) (reading : Snapshot → Nat → Reading σ α) (reports : α → Bool) :
    Except AccessError Cursor → StateM Store (Except AccessError α × σ)
  | .error e => return (.error e, init)
  | .ok c => perform c (reading c.snapshot c.place) init >>= giveBack reports

theorem consult_eq (revision : Nat) (key : Int) (init : σ)
    (reading : Snapshot → Nat → Reading σ α) (reports : α → Bool) :
    consult revision key init reading reports =
      openAt revision key >>= readAndClose init reading reports := rfl

theorem metered_giveBack (reports : α → Bool) (run : Reading.Run σ α) :
    Metered (giveBack reports run) := by
  refine (metered_close _).bind ?_
  intro closed
  rcases closed with ⟨_ | _, _⟩ <;> rcases run.outcome with _ | _ <;> exact metered_pure _

theorem metered_readAndClose (init : σ) (reading : Snapshot → Nat → Reading σ α)
    (reports : α → Bool) (opened : Except AccessError Cursor) :
    Metered (readAndClose init reading reports opened) := by
  cases opened with
  | error e => exact metered_pure _
  | ok c => exact (metered_perform c _ init).bind (metered_giveBack reports)

/-- No operation that the work asks for is refused. -/
def Undisturbed (s : Store) (work : StateM Store α) : Prop :=
  s.meter.GrantsNext ((work s).2.meter.used - s.meter.used)

/-- The parts of undisturbed work are undisturbed. -/
theorem Undisturbed.of_bind {work : StateM Store α} {next : α → StateM Store β}
    (h : s.Undisturbed (work >>= next)) (hwork : Metered work) (hnext : ∀ a, Metered (next a)) :
    s.Undisturbed work ∧ (work s).2.Undisturbed (next (work s).1) := by
  obtain ⟨n, hn⟩ := hwork s
  obtain ⟨m, hm⟩ := hnext (work s).1 (work s).2
  have hboth : ((work >>= next) s).2.meter = (s.meter.after n).after m := by
    rw [← hn, ← hm]
    rfl
  unfold Undisturbed at h ⊢
  rw [hboth, Meter.after_after, Meter.used_after, Nat.add_sub_cancel_left,
    Meter.grantsNext_add] at h
  rw [hm, Meter.used_after, Nat.add_sub_cancel_left, hn, Meter.used_after,
    Nat.add_sub_cancel_left]
  exact h

theorem openCursor_of_grantsNext (hv : s.view? revision = some t) (hm : s.meter.GrantsNext 1) :
    openCursor revision s = (.ok { revision, snapshot := t },
      { s with meter := s.meter.after 1, openCursors := s.openCursors + 1 }) := by
  have hspend := hm.spend Nat.one_pos
  simp [openCursor_apply, hspend, hv]

/-- A cursor is opened at every node that there is. -/
theorem openAt_of_grantsNext (hv : s.view? revision = some t) (hk : k < t.size)
    (hm : s.meter.GrantsNext 2) :
    openAt revision k s = (.ok { revision, snapshot := t, place := k },
      { s with meter := s.meter.after 2, openCursors := s.openCursors + 1 }) := by
  have hopen := openCursor_of_grantsNext hv (hm.mono (by omega))
  have hmove : (s.meter.after 1).GrantsNext 1 := (Meter.grantsNext_add (n := 1) (k := 1)).1 hm |>.2
  simp only [openAt, bind, StateT.bind, hopen, Snapshot.find?_natCast hk]
  simp only [perform_apply, Reading.ask]
  rw [Reading.run_move _ _ rfl hmove]
  rfl

/-- An undisturbed run of a reading was granted all that it asks for. -/
theorem grantsNext_of_undisturbed_perform {c : Cursor} {r : Reading σ α} {init : σ}
    (hopen : c.isOpen = true) (h : s.Undisturbed (perform c r init)) :
    s.meter.GrantsNext (r.ending init c.place).cost :=
  r.grantsNext_cost_of_run init hopen h

theorem grantsNext_of_undisturbed_openCursor (h : s.Undisturbed (openCursor revision)) :
    s.meter.GrantsNext 1 := by
  rwa [Undisturbed, meter_openCursor, Meter.used_after, Nat.add_sub_cancel_left] at h

/-- To open a cursor at a node takes two operations. -/
theorem grantsNext_of_undisturbed_openAt (hv : s.view? revision = some t)
    (h : s.Undisturbed (openAt revision k)) : s.meter.GrantsNext 2 := by
  rw [openAt_eq] at h
  obtain ⟨hlend, harrive⟩ := h.of_bind (metered_openCursor revision) (metered_arrive k)
  have hone := grantsNext_of_undisturbed_openCursor hlend
  -- Only since the first operation is granted, a second one is asked for.
  rw [openCursor_of_grantsNext hv hone] at harrive
  obtain ⟨hmove, -⟩ := harrive.of_bind (metered_perform _ _ _) (metered_settle k)
  exact (Meter.grantsNext_add (n := 1)).2
    ⟨hone, grantsNext_of_undisturbed_perform rfl hmove⟩

theorem perform_of_grantsNext (r : Reading σ α) (init : σ) {c : Cursor} (hopen : c.isOpen = true)
    (hm : s.meter.GrantsNext (r.ending init c.place).cost) :
    perform c r init s =
      (⟨(r.ending init c.place).outcome, (r.ending init c.place).state,
          { c with place := (r.ending init c.place).place },
          s.meter.after (r.ending init c.place).cost⟩,
        { s with meter := s.meter.after (r.ending init c.place).cost }) := by
  simp only [perform_apply]
  rw [Reading.run_of_grantsNext r init hopen hm]

theorem perform_of_run {r : Reading σ α} {init : σ} {c : Cursor} {run : Reading.Run σ α}
    (h : r.run init c s.meter = run) :
    perform c r init s = (run, { s with meter := run.meter }) := by
  rw [perform_apply, h]

/-- A reading that yields something does so with a cursor of the store. -/
theorem perform_of_yields {r : Reading σ α} {init state : σ} {a : α} {c : Cursor} {place : Nat}
    (h : r.Yields init c.place a state place) (hopen : c.isOpen = true)
    (hm : s.meter.GrantsNext (r.cost init c.place)) :
    perform c r init s =
      (⟨.ok a, state, { c with place }, s.meter.after (r.cost init c.place)⟩,
        { s with meter := s.meter.after (r.cost init c.place) }) := by
  simp only [perform_apply]
  rw [h.run hopen hm]

theorem close_of_open {c : Cursor} (hopen : c.isOpen = true) :
    close c s = ((if s.closeFails then .error closeFailure else .ok (), { c with isOpen := false }),
      { s with openCursors := s.openCursors - 1 }) := by
  simp [close_apply, hopen]

theorem release_of_open {c : Cursor} (hopen : c.isOpen = true) :
    release c s = ((), { s with openCursors := s.openCursors - 1 }) := by
  simp only [release, bind, StateT.bind, close_of_open hopen]
  rfl

section Consult

variable {init : σ} {reading : Snapshot → Nat → Reading σ α} {reports : α → Bool}

/-- A reading with a cursor of its own ends as it does when nothing is refused. An error on closing
the cursor counts for those results only for which it is reported. -/
theorem consult_of_grantsNext (hv : s.view? revision = some t) (hk : k < t.size)
    (hclose : s.closeFails = true → ∀ a, reports a = false)
    (hm : s.meter.GrantsNext (2 + ((reading t k).ending init k).cost)) :
    consult revision k init reading reports s =
      ((((reading t k).ending init k).outcome, ((reading t k).ending init k).state),
        { s with meter := s.meter.after (2 + ((reading t k).ending init k).cost) }) := by
  rw [Meter.grantsNext_add] at hm
  have hopen := openAt_of_grantsNext hv hk hm.1
  simp only [consult, bind, StateT.bind, hopen]
  rw [perform_of_grantsNext (reading t k) init (c := { revision, snapshot := t, place := k }) rfl hm.2]
  dsimp only
  rw [close_of_open rfl, Meter.after_after]
  rcases ((reading t k).ending init k).outcome with e | a
  · rfl
  · cases hfails : s.closeFails with
    | false => rfl
    | true =>
      -- The error on closing is there, but it is not reported.
      simp only [if_true, hclose hfails a]
      rfl

/-- An undisturbed reading at a node was granted all that it asks for, and the opening of its
cursor. -/
theorem grantsNext_of_undisturbed_consult (hv : s.view? revision = some t) (hk : k < t.size)
    (h : s.Undisturbed (consult revision k init reading reports)) :
    s.meter.GrantsNext (2 + ((reading t k).ending init k).cost) := by
  rw [consult_eq] at h
  obtain ⟨hopen, hrest⟩ := h.of_bind (metered_openAt _ _) (metered_readAndClose _ _ _)
  have htwo := grantsNext_of_undisturbed_openAt hv hopen
  rw [openAt_of_grantsNext hv hk htwo] at hrest
  obtain ⟨hread, -⟩ := hrest.of_bind (metered_perform _ _ _) (metered_giveBack reports)
  exact Meter.grantsNext_add.2 ⟨htwo, grantsNext_of_undisturbed_perform rfl hread⟩

end Consult

end Store

end DocTree
