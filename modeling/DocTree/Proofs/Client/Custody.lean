import DocTree.Proofs.Client.Basic
import Mathlib.Data.List.Perm.Basic

/-!
# Custody of cursors

Whatever a client does in whatever order, and whatever the storage refuses on the way: at every point
a store has lent one cursor for each cursor by hand that was begun and not closed, one for each scope,
and one for each iterator that still walks. So what is given back was lent, and it is not given back
twice.

## Main definitions

- `Holding.isLentBy` — whether a store has lent a cursor for what is in hand
- `Client.Accounted` — the cursors that a store has lent are those in hand

## Main statements

- `Client.Accounted.perform` — one action keeps the account
- `Client.run_custody` — the account over whole runs, and what follows from it
-/

namespace DocTree

variable {id : Nat}

namespace AxisIterator

/-- Whether the iterator still walks in a store. -/
def walksIn (id : Nat) (it : AxisIterator) : Bool := it.dispatcher.store == id && it.isWalking

variable {it : AxisIterator}

/-- The cursor of a sound iterator counts for the store of its dispatcher as long as it walks. -/
theorem Sound.held_eq (h : it.Sound) :
    (if it.dispatcher.store = id then it.held else 0) = (it.walksIn id).toNat := by
  have hheld : it.held = it.isWalking.toNat := h
  by_cases hstore : it.dispatcher.store = id
  · simp [walksIn, hstore, hheld]
  · have hother : (it.dispatcher.store == id) = false := by simpa using hstore
    simp [walksIn, hstore, hother]

theorem conserves_nextKey (h : it.Sound) :
    Registry.Conserves id (it.walksIn id).toNat it.nextKey
      fun answer => (answer.2.walksIn id).toNat := by
  refine Registry.conserves_get.bind ?_
  intro r
  have hnext := Registry.conserves_onStore id
    (it.conserves_next (r.pool it.dispatcher.pool)) it.dispatcher.store
  rw [h.held_eq] at hnext
  refine hnext.congr (Registry.ensures_onStore ?_ _)
  intro s
  obtain ⟨hdispatcher, hsound, -⟩ := it.ensures_next (r.pool it.dispatcher.pool) s
  rw [← (hsound h).held_eq, hdispatcher]

theorem ensures_nextKey (h : it.Sound) :
    Ensures it.nextKey fun answer =>
      answer.2.Sound ∧ (isLast answer.1 = true → answer.2.progress = .exhausted) := by
  refine (ensures_true _).bind ?_
  intro r _
  refine Registry.ensures_onStore ?_ _
  intro s
  obtain ⟨-, hsound, hlast⟩ := it.ensures_next (r.pool it.dispatcher.pool) s
  exact ⟨hsound h, hlast⟩

theorem conserves_drop (h : it.Sound) :
    Registry.Conserves id (it.walksIn id).toNat (Registry.onStore it.dispatcher.store it.abandon)
      fun _ => 0 := by
  have habandon := Registry.conserves_onStore id it.conserves_abandon it.dispatcher.store
  rw [h.held_eq] at habandon
  simpa using habandon

end AxisIterator

namespace NodeAxis

variable {a : NodeAxis}

/-- The next node is that of the next handle. -/
theorem next_eq (a : NodeAxis) :
    a.next = a.handles.nextKey >>= fun answer =>
      return (answer.1.map (·.map fun h => ⟨h, a.document⟩), { a with handles := answer.2 }) :=
  rfl

theorem isLast_map {α β : Type} (f : α → β) (answer : Option (Except AccessError α)) :
    AxisIterator.isLast (answer.map (·.map f)) = AxisIterator.isLast answer := by
  rcases answer with _ | _ | _ <;> rfl

theorem conserves_next (h : a.handles.Sound) :
    Registry.Conserves id (a.handles.walksIn id).toNat a.next
      fun answer => (answer.2.handles.walksIn id).toNat := by
  rw [next_eq]
  exact (AxisIterator.conserves_nextKey h).bind fun _ => Registry.conserves_pure rfl

theorem ensures_next (h : a.handles.Sound) :
    Ensures a.next fun answer => answer.2.handles.Sound ∧
      (AxisIterator.isLast answer.1 = true → answer.2.handles.progress = .exhausted) := by
  rw [next_eq]
  refine (AxisIterator.ensures_nextKey h).bind ?_
  rintro ⟨answer, it⟩ ⟨hsound, hlast⟩
  exact ensures_pure ⟨hsound, fun hmap => hlast (by rwa [isLast_map] at hmap)⟩

end NodeAxis

namespace LenientAxis

/-- Whether the axis still walks in a store. -/
def walksIn (id : Nat) (a : LenientAxis) : Bool := a.nodes?.any (·.handles.walksIn id)

/-- The iterator behind the axis is sound, if there still is one. -/
def Sound (a : LenientAxis) : Prop := ∀ nodes ∈ a.nodes?, nodes.handles.Sound

variable {a : LenientAxis}

theorem conserves_next (h : a.Sound) :
    Registry.Conserves id (a.walksIn id).toNat a.next fun answer => (answer.2.walksIn id).toNat := by
  unfold next
  rcases hnodes : a.nodes? with _ | nodes
  · refine Registry.conserves_pure ?_
    simp [walksIn, hnodes]
  · have hwalks : a.walksIn id = nodes.handles.walksIn id := by simp [walksIn, hnodes]
    rw [hwalks]
    have hsound : nodes.handles.Sound := h nodes (by simp [hnodes])
    refine (NodeAxis.conserves_next hsound).bind_of_ensures (NodeAxis.ensures_next hsound) ?_
    rintro ⟨_ | _ | _, nodes'⟩ ⟨hsound', hlast⟩
    · exact (AxisIterator.conserves_drop hsound').bind fun _ => Registry.conserves_pure rfl
    · exact (AxisIterator.conserves_drop hsound').bind fun _ => Registry.conserves_pure rfl
    · exact Registry.conserves_pure rfl

theorem ensures_next (h : a.Sound) : Ensures a.next fun answer => answer.2.Sound := by
  unfold next
  rcases hnodes : a.nodes? with _ | nodes
  · exact ensures_pure h
  · refine (NodeAxis.ensures_next (h nodes (by simp [hnodes]))).bind ?_
    rintro ⟨_ | _ | _, nodes'⟩ ⟨hsound', -⟩
    · exact (ensures_true _).bind fun _ _ => ensures_pure (by simp [Sound])
    · exact (ensures_true _).bind fun _ _ => ensures_pure (by simp [Sound])
    · exact ensures_pure (by simpa [Sound] using hsound')

theorem conserves_abandon (h : a.Sound) :
    Registry.Conserves id (a.walksIn id).toNat a.abandon fun _ => 0 := by
  unfold abandon
  rcases hnodes : a.nodes? with _ | nodes
  · refine Registry.conserves_pure ?_
    simp [walksIn, hnodes]
  · have hwalks : a.walksIn id = nodes.handles.walksIn id := by simp [walksIn, hnodes]
    rw [hwalks]
    exact AxisIterator.conserves_drop (h nodes (by simp [hnodes]))

end LenientAxis

namespace Holding

/-- Whether the store `id` has lent a cursor for it. -/
def isLentBy (id : Nat) : Holding → Bool
  | cursor store _ | scope store _ => store == id
  | closed .. => false
  | handles it => it.walksIn id
  | nodes axis => axis.handles.walksIn id
  | lenient axis => axis.walksIn id

/-- Cursors are open until they are closed, and those of iterators as long as these walk. -/
def Intact : Holding → Prop
  | cursor _ c | scope _ c => c.isOpen = true
  | closed _ c => c.isOpen = false
  | handles it => it.Sound
  | nodes axis => axis.handles.Sound
  | lenient axis => axis.Sound

/-- An open cursor counts for the store that lent it. -/
theorem held_eq_of_open {c : Cursor} (hopen : c.isOpen = true) (store : Nat) :
    (if store = id then c.held else 0) = (store == id).toNat := by
  by_cases hstore : store = id
  · simp [hstore, Cursor.held, hopen]
  · have hother : (store == id) = false := by simpa using hstore
    simp [hstore, hother]

theorem held_eq_of_closed {c : Cursor} (hclosed : c.isOpen = false) (store : Nat) :
    (if store = id then c.held else 0) = 0 := by
  simp [Cursor.held, hclosed]

section Steer

variable {σ α : Type} {store n : Nat} {c : Cursor} (r : Reading σ α) (init : σ)

theorem ensures_steer : Ensures (steer store c r init) fun c' => c'.isOpen = c.isOpen := by
  have hrun : Ensures (Registry.onStore store (Store.perform c r init)) fun run =>
      run.cursor.isOpen = c.isOpen :=
    Registry.ensures_onStore (fun s => Store.isOpen_run r init c s.meter) store
  exact hrun.bind fun _ hopen => ensures_pure hopen

/-- Steering keeps what is in hand, also with a cursor that is closed already. -/
theorem conserves_steer (hheld : (if store = id then c.held else 0) = n) :
    Registry.Conserves id n (steer store c r init) fun _ => n := by
  subst hheld
  have hsteer : Registry.Conserves id (if store = id then c.held else 0) (steer store c r init)
      fun c' => if store = id then c'.held else 0 :=
    (Registry.conserves_onStore id (Store.conserves_perform c r init) store).bind fun _ =>
      Registry.conserves_pure rfl
  refine hsteer.congr ?_
  intro s
  have hopen : (steer store c r init s).1.isOpen = c.isOpen := ensures_steer r init s
  simp only [Cursor.held, hopen]

/-- After it has been given back, a cursor is not in hand, whether it was open or not. -/
theorem conserves_close (hheld : (if store = id then c.held else 0) = n) :
    Registry.Conserves id n (Registry.onStore store (Store.close c)) fun _ => 0 := by
  subst hheld
  have hclose := Registry.conserves_onStore id (Store.conserves_close c) store
  simpa using hclose

theorem conserves_release (hheld : (if store = id then c.held else 0) = n) :
    Registry.Conserves id n (Registry.onStore store (Store.release c)) fun _ => 0 := by
  subst hheld
  have hrelease := Registry.conserves_onStore id (Store.conserves_release c) store
  simpa using hrelease

theorem ensures_close : Ensures (Registry.onStore store (Store.close c)) fun closed =>
    closed.2.isOpen = false := by
  refine Registry.ensures_onStore ?_ store
  intro s
  cases hopen : c.isOpen with
  | true => rw [Store.close_of_open hopen]
  | false =>
    rw [Store.close_of_closed hopen]
    exact hopen

end Steer

/-- How many cursors of the store `id` are left in hand after a use. -/
def left (id : Nat) (kept : Option Holding) : Nat := (kept.any (isLentBy id)).toNat

/-- Every use of something keeps account of its cursor. -/
theorem conserves_use (id : Nat) {h : Holding} (hintact : h.Intact) (u : Use) :
    Registry.Conserves id (h.isLentBy id).toNat (h.use u) (left id) := by
  unfold use
  split
  -- Moves keep what is in hand.
  · exact (conserves_steer _ _ (held_eq_of_open hintact _)).bind fun _ =>
      Registry.conserves_pure rfl
  · exact (conserves_steer _ _ (held_eq_of_closed hintact _)).bind fun _ =>
      Registry.conserves_pure rfl
  · exact (conserves_steer _ _ (held_eq_of_open hintact _)).bind fun _ =>
      Registry.conserves_pure rfl
  · exact (conserves_steer _ _ (held_eq_of_open hintact _)).bind fun _ =>
      Registry.conserves_pure rfl
  -- Whatever is closed or dropped is not in hand any more.
  · exact (conserves_close (held_eq_of_open hintact _)).bind fun _ => Registry.conserves_pure rfl
  · exact (conserves_close (held_eq_of_closed hintact _)).bind fun _ => Registry.conserves_pure rfl
  · exact (conserves_close (held_eq_of_open hintact _)).bind fun _ => Registry.conserves_pure rfl
  · exact (conserves_close (held_eq_of_open hintact _)).bind fun _ => Registry.conserves_pure rfl
  · exact (conserves_release (held_eq_of_open hintact _)).bind fun _ => Registry.conserves_pure rfl
  · exact (AxisIterator.conserves_drop hintact).bind fun _ => Registry.conserves_pure rfl
  · exact (AxisIterator.conserves_drop hintact).bind fun _ => Registry.conserves_pure rfl
  · exact (LenientAxis.conserves_abandon hintact).bind fun _ => Registry.conserves_pure rfl
  -- Iterators account for themselves.
  · exact (AxisIterator.conserves_nextKey hintact).bind fun _ => Registry.conserves_pure rfl
  · exact (NodeAxis.conserves_next hintact).bind fun _ => Registry.conserves_pure rfl
  · exact (LenientAxis.conserves_next hintact).bind fun _ => Registry.conserves_pure rfl
  · exact Registry.conserves_pure rfl

/-- What is left after a use is intact. -/
theorem ensures_use {h : Holding} (hintact : h.Intact) (u : Use) :
    Ensures (h.use u) fun kept => ∀ h' ∈ kept, h'.Intact := by
  have hkept : ∀ {h' : Holding}, h'.Intact → ∀ h'' ∈ some h', h''.Intact := by
    intro h' hintact' h'' hmem
    rwa [← Option.mem_some_iff.1 hmem]
  unfold use
  split
  · exact (ensures_steer _ _).bind fun c hopen => ensures_pure (hkept (hopen.trans hintact))
  · exact (ensures_steer _ _).bind fun c hopen => ensures_pure (hkept (hopen.trans hintact))
  · exact (ensures_steer _ _).bind fun c hopen => ensures_pure (hkept (hopen.trans hintact))
  · exact (ensures_steer _ _).bind fun c hopen => ensures_pure (hkept (hopen.trans hintact))
  · exact ensures_close.bind fun c hclosed => ensures_pure (hkept hclosed)
  · exact ensures_close.bind fun c hclosed => ensures_pure (hkept hclosed)
  · exact (ensures_true _).bind fun _ _ => ensures_pure (by simp)
  · exact (ensures_true _).bind fun _ _ => ensures_pure (by simp)
  · exact (ensures_true _).bind fun _ _ => ensures_pure (by simp)
  · exact (ensures_true _).bind fun _ _ => ensures_pure (by simp)
  · exact (ensures_true _).bind fun _ _ => ensures_pure (by simp)
  · exact (ensures_true _).bind fun _ _ => ensures_pure (by simp)
  · exact (AxisIterator.ensures_nextKey hintact).bind fun _ hnext => ensures_pure (hkept hnext.1)
  · exact (NodeAxis.ensures_next hintact).bind fun _ hnext => ensures_pure (hkept hnext.1)
  · exact (LenientAxis.ensures_next hintact).bind fun _ hnext => ensures_pure (hkept hnext)
  · exact ensures_pure (hkept hintact)

end Holding

namespace Access

variable {α β : Type} {count : Nat → α → Nat} {P : α → Prop}

/-- The operation fails, or it gets something in hand for which so many cursors are lent as `count`
says of each store. -/
def Obtains (count : Nat → α → Nat) (P : α → Prop) (a : Access α) : Prop :=
  Ensures a.run (ifOk P) ∧ ∀ id, Registry.Conserves id 0 a.run (inHand (count id))

/-- What has been got may be put into another form. -/
theorem Obtains.map {a : Access α} {f : α → β} {count' : Nat → β → Nat} {Q : β → Prop}
    (h : a.Obtains count P) (hf : ∀ x, P x → Q (f x) ∧ ∀ id, count' id (f x) = count id x) :
    (a >>= fun x => pure (f x)).Obtains count' Q := by
  refine ⟨?_, ?_⟩
  · rw [ExceptT.run_bind]
    refine h.1.bind ?_
    intro outcome houtcome
    cases outcome with
    | error e => exact ensures_pure trivial
    | ok x => exact ensures_pure (hf x houtcome).1
  · intro id
    rw [ExceptT.run_bind]
    refine (h.2 id).bind_of_ensures h.1 ?_
    intro outcome houtcome
    cases outcome with
    | error e => exact Registry.conserves_pure rfl
    | ok x => exact Registry.conserves_pure ((hf x houtcome).2 id)

theorem Balanced.bind_obtains {a : Access β} {f : β → Access α} (h : a.Balanced)
    (hf : ∀ x, (f x).Obtains count P) : (a >>= f).Obtains count P := by
  refine ⟨?_, fun id => h.bind_conserves fun x => (hf x).2 id⟩
  rw [ExceptT.run_bind]
  refine (ensures_true _).bind ?_
  intro outcome _
  cases outcome with
  | error e => exact ensures_pure trivial
  | ok x => exact (hf x).1

theorem Obtains.orAbsent {work : Access α} (h : work.Obtains count P) {absent : α}
    (habsent : P absent ∧ ∀ id, count id absent = 0) :
    (Access.orAbsent absent work).Obtains count P := by
  refine ⟨?_, fun id => conserves_orAbsent (h.2 id) (habsent.2 id)⟩
  simp only [Access.orAbsent, tryCatch, tryCatchThe, MonadExceptOf.tryCatch, ExceptT.tryCatch,
    ExceptT.run_mk]
  refine h.1.bind ?_
  intro outcome houtcome
  cases outcome with
  | ok x => exact ensures_pure houtcome
  | error e =>
    dsimp only
    split
    · exact ensures_pure habsent.1
    · exact ensures_pure trivial

end Access

/-- A sound iterator, with a cursor if it walks. -/
abbrev Access.ObtainsIterator : Access AxisIterator → Prop :=
  Access.Obtains (fun id it => (it.walksIn id).toNat) AxisIterator.Sound

/-- Something intact, with a cursor if one is lent for it. -/
abbrev Access.ObtainsHolding : Access Holding → Prop :=
  Access.Obtains (fun id h => (h.isLentBy id).toNat) Holding.Intact

theorem Dispatcher.obtains_dispatch (d : Dispatcher) (origin : Handle) (axis : Axis)
    (test : NodeTest) : (Registry.access d.store (d.dispatch origin axis test)).ObtainsIterator := by
  have hdispatch : Ensures (Registry.onStore d.store (d.dispatch origin axis test))
      (ifOk fun it => it.dispatcher = d ∧ it.Sound) :=
    Registry.ensures_onStore (d.ensures_dispatch origin axis test) d.store
  refine ⟨?_, ?_⟩
  · intro r
    show ifOk _ (Registry.onStore d.store (d.dispatch origin axis test) r).1
    have hr := hdispatch r
    cases hanswer : (Registry.onStore d.store (d.dispatch origin axis test) r).1 with
    | error e => trivial
    | ok it =>
      rw [hanswer] at hr
      exact hr.2
  · intro id
    have hconserves := Registry.conserves_onStore id
      (d.conserves_dispatch origin axis test) d.store
    rw [ite_self] at hconserves
    refine hconserves.congr ?_
    intro r
    have hr := hdispatch r
    cases hanswer : (Registry.onStore d.store (d.dispatch origin axis test) r).1 with
    | error e => exact ite_self 0
    | ok it =>
      rw [hanswer] at hr
      obtain ⟨hd, hsound⟩ := hr
      subst hd
      exact hsound.held_eq

theorem Node.obtains_iterate (n : Node) (axis : Axis) (test : NodeTest) :
    (n.iterate axis test).ObtainsIterator :=
  (Access.compositional_balanced.getDocument n).bind_obtains fun d =>
    d.dispatcher.obtains_dispatch n.handle axis test

theorem Node.obtains_iterateLenient (n : Node) (code : Nat) (test : NodeTest) :
    (n.iterateLenient code test).Obtains (fun id axis => (axis.walksIn id).toNat)
      LenientAxis.Sound := by
  refine Access.Obtains.orAbsent ?_ ⟨by simp [LenientAxis.Sound], fun id => rfl⟩
  have hcode : (monadLift (Axis.ofCode code) : Access Axis).Balanced := by
    cases Axis.ofCode code with
    | error e => exact Access.compositional_balanced.throw e
    | ok axis => exact Access.compositional_balanced.pure axis
  refine hcode.bind_obtains ?_
  intro axis
  refine (n.obtains_iterate axis test).map ?_
  intro it hsound
  exact ⟨by simpa [LenientAxis.Sound] using hsound, fun id => rfl⟩

theorem NodeAxis.obtains_again (a : NodeAxis) :
    a.again.Obtains (fun id axis => (axis.handles.walksIn id).toNat) fun axis =>
      axis.handles.Sound :=
  (a.handles.dispatcher.obtains_dispatch a.handles.origin a.handles.axis a.handles.test).map
    fun _ hsound => ⟨hsound, fun _ => rfl⟩

/-- An open cursor that a store lends. -/
theorem Registry.obtains_cursor (store : Nat) {work : StateM Store (Except AccessError Cursor)}
    (hconserves : Store.Conserves 0 work (inHand Cursor.held))
    (hensures : Ensures work (ifOk fun c => c.isOpen = true)) :
    (access store work).Obtains (fun id _ => (store == id).toNat) fun c => c.isOpen = true := by
  have hwork : Ensures (onStore store work) (ifOk fun c => c.isOpen = true) :=
    ensures_onStore hensures store
  refine ⟨hwork, ?_⟩
  intro id
  have honStore := conserves_onStore id hconserves store
  rw [ite_self] at honStore
  refine honStore.congr ?_
  intro r
  have hr := hwork r
  cases hanswer : (onStore store work r).1 with
  | error e => exact ite_self 0
  | ok c =>
    rw [hanswer] at hr
    exact Holding.held_eq_of_open hr store

/-- What is acquired is intact, and a failure leaves no cursor behind. -/
theorem Acquisition.obtains_perform (a : Acquisition) : a.perform.ObtainsHolding := by
  cases a with
  | openCursor store revision =>
    have hinHand : ∀ lent : Except StoreError Cursor,
        inHand Cursor.held (lent.mapError AccessError.storage) = inHand Cursor.held lent := by
      intro lent
      cases lent <;> rfl
    refine (Registry.obtains_cursor store ?_ ?_).map fun c hopen => ⟨hopen, fun id => rfl⟩
    · exact (Store.conserves_openCursor revision).bind fun lent => Store.conserves_pure (hinHand lent)
    · refine (Store.ensures_openCursor revision).bind ?_
      intro lent hlent
      cases lent with
      | error e => exact ensures_pure trivial
      | ok c => exact ensures_pure hlent
  | openScope store revision key =>
    exact (Registry.obtains_cursor store (Store.conserves_openAt revision key)
      (Store.ensures_openAt revision key)).map fun c hopen => ⟨hopen, fun id => rfl⟩
  | dispatch d origin axis test =>
    exact (d.obtains_dispatch origin axis test).map fun it hsound => ⟨hsound, fun id => rfl⟩
  | again it =>
    exact (it.dispatcher.obtains_dispatch it.origin it.axis it.test).map
      fun it hsound => ⟨hsound, fun id => rfl⟩
  | iterate n axis test =>
    exact (n.obtains_iterate axis test).map fun it hsound => ⟨hsound, fun id => rfl⟩
  | nodesAgain axis => exact axis.obtains_again.map fun axis hsound => ⟨hsound, fun id => rfl⟩
  | iterateLenient n code test =>
    exact (n.obtains_iterateLenient code test).map fun axis hsound => ⟨hsound, fun id => rfl⟩

namespace Client

/-- What the client has in hand is intact, and each of the first `n` stores has lent as many cursors
as are in hand. -/
structure Accounted (n : Nat) (client : Client) : Prop where
  intact : ∀ h ∈ client.holdings, h.Intact
  lt_size : ∀ id < n, id < client.registry.stores.size
  openCursors_eq : ∀ id < n,
    (client.registry.store id).openCursors = client.holdings.countP (Holding.isLentBy id)

variable {client : Client} {n : Nat}

theorem countP_cons_eq (h : Holding) (hs : List Holding) :
    (h :: hs).countP (Holding.isLentBy id) =
      hs.countP (Holding.isLentBy id) + (h.isLentBy id).toNat := by
  rw [List.countP_cons]
  cases h.isLentBy id <;> rfl

theorem countP_toList (kept : Option Holding) :
    kept.toList.countP (Holding.isLentBy id) = Holding.left id kept := by
  cases kept with
  | none => rfl
  | some h => rw [Option.toList_some, countP_cons_eq, Holding.left, List.countP_nil, Nat.zero_add,
      Option.any_some]

/-- Work that leaves nothing in hand does not disturb the account. -/
theorem Accounted.of_balanced {α : Type} {work : StateM Registry α} (h : client.Accounted n)
    (hwork : ∀ id, Registry.Conserves id 0 work fun _ => 0) :
    Accounted n { client with registry := (work client.registry).2 } := by
  refine ⟨h.intact, ?_, ?_⟩
  · intro id hid
    exact (hwork id client.registry (h.lt_size id hid) (Nat.zero_le _)).1
  · intro id hid
    exact (hwork id client.registry (h.lt_size id hid) (Nat.zero_le _)).2.trans
      (h.openCursors_eq id hid)

theorem Accounted.acquire (h : client.Accounted n) (a : Acquisition) :
    (client.perform (.acquire a)).Accounted n := by
  obtain ⟨hensures, hconserves⟩ := a.obtains_perform
  have hintact := hensures client.registry
  have hcount := fun id hid => hconserves id client.registry (h.lt_size id hid) (Nat.zero_le _)
  rcases hrun : a.perform.run client.registry with ⟨_ | got, registry⟩ <;>
    rw [hrun] at hintact hcount <;> simp only [perform, hrun]
  · exact ⟨h.intact, fun id hid => (hcount id hid).1,
      fun id hid => (hcount id hid).2.trans (h.openCursors_eq id hid)⟩
  · refine ⟨?_, fun id hid => (hcount id hid).1, ?_⟩
    · intro h' hmem
      rcases List.mem_cons.1 hmem with rfl | hmem
      · exact hintact
      · exact h.intact h' hmem
    · intro id hid
      rw [countP_cons_eq, ← h.openCursors_eq id hid]
      exact (hcount id hid).2

/-- What is used is set apart from the rest, which stays as it is. -/
theorem Accounted.use (h : client.Accounted n) (i : Nat) (u : Use) :
    (client.perform (.use i u)).Accounted n := by
  cases hi : client.holdings[i]? with
  | none => simpa only [perform, hi] using h
  | some used =>
    obtain ⟨hlt, hused⟩ := List.getElem?_eq_some_iff.1 hi
    have hperm : (used :: client.holdings.eraseIdx i).Perm client.holdings := by
      rw [← hused]
      exact List.getElem_cons_eraseIdx_perm hlt
    have hintact : used.Intact := h.intact used (hperm.subset List.mem_cons_self)
    have htotal : ∀ id < n, (client.registry.store id).openCursors =
        (client.holdings.eraseIdx i).countP (Holding.isLentBy id) + (used.isLentBy id).toNat := by
      intro id hid
      rw [h.openCursors_eq id hid, ← hperm.countP_eq, countP_cons_eq]
    have hkept := Holding.ensures_use hintact u client.registry
    have hcount := fun id hid => Holding.conserves_use id hintact u client.registry
      (h.lt_size id hid) (by rw [htotal id hid]; exact Nat.le_add_left _ _)
    rcases huse : used.use u client.registry with ⟨kept, registry⟩
    rw [huse] at hkept hcount
    simp only [perform, hi, huse]
    refine ⟨?_, fun id hid => (hcount id hid).1, ?_⟩
    · intro h' hmem
      rcases List.mem_append.1 hmem with hmem | hmem
      · exact hkept h' (Option.mem_toList.1 hmem)
      · exact h.intact h' (List.mem_of_mem_eraseIdx hmem)
    · intro id hid
      have htotal' := htotal id hid
      have hcount' := (hcount id hid).2
      rw [List.countP_append, countP_toList]
      dsimp only at hcount' ⊢
      omega

/-- One action keeps the account. -/
theorem Accounted.perform (h : client.Accounted n) (a : Action) :
    (client.perform a).Accounted n := by
  cases a with
  | acquire a => exact h.acquire a
  | use i u => exact h.use i u
  | operate o => exact h.of_balanced o.balanced_perform
  | commit store c =>
    exact h.of_balanced fun _ =>
      Registry.conserves_onStore_of_balanced (fun _ _ => rfl) store
  | refill store budget =>
    exact h.of_balanced fun _ =>
      Registry.conserves_onStore_of_balanced (fun _ _ => rfl) store

/-- A whole run keeps the account. -/
theorem Accounted.run (h : client.Accounted n) (actions : List Action) :
    (client.run actions).Accounted n := by
  induction actions generalizing client with
  | nil => exact h
  | cons a actions ih => exact ih (h.perform a)

/-- Whatever a client does, starting with empty hands: at every point each store has lent one cursor
for each cursor by hand that was begun and not closed, one for each scope, and one for each iterator
that still walks; so it has lent a cursor whenever one is given back. A cursor that was closed reports
that when it is closed again, and the store does not change. An iterator has no cursor any more after
its last answer. An operation on a document or a node leaves every count as it was, however it ends,
and so does a failure to get something in hand. -/
theorem run_custody (r : Registry) (hr : ∀ id, (r.store id).openCursors = 0)
    (actions : List Action) :
    (∀ id < r.stores.size,
      ((run { registry := r } actions).registry.store id).openCursors =
        (run { registry := r } actions).holdings.countP (Holding.isLentBy id)) ∧
    (∀ h ∈ (run { registry := r } actions).holdings, ∀ id < r.stores.size,
      h.isLentBy id = true →
        0 < ((run { registry := r } actions).registry.store id).openCursors) ∧
    (∀ store c, Holding.closed store c ∈ (run { registry := r } actions).holdings →
      ∀ s, Store.close c s = ((.error .cursorClosed, c), s)) ∧
    (∀ (it : AxisIterator) (pool : NamePool) (s : Store),
      AxisIterator.isLast (it.next pool s).1.1 = true → (it.next pool s).1.2.progress = .exhausted) ∧
    (∀ (o : Operation) (r' : Registry), ∀ id < r'.stores.size,
      ((o.perform.run r').2.store id).openCursors = (r'.store id).openCursors) ∧
    (∀ (a : Acquisition) (r' : Registry) (e : AccessError), (a.perform.run r').1 = .error e →
      ∀ id < r'.stores.size,
        ((a.perform.run r').2.store id).openCursors = (r'.store id).openCursors) := by
  have hstart : Accounted r.stores.size { registry := r } :=
    ⟨List.forall_mem_nil _, fun _ hid => hid, fun id _ => hr id⟩
  have haccount := hstart.run actions
  refine ⟨haccount.openCursors_eq, ?held, ?closed, ?last, ?operation, ?failure⟩
  case held =>
    intro h hmem id hid hlent
    rw [haccount.openCursors_eq id hid, List.countP_pos_iff]
    exact ⟨h, hmem, hlent⟩
  case closed =>
    intro store c hmem s
    exact Store.close_of_closed (haccount.intact _ hmem)
  case last => exact fun it pool s hlast => (it.ensures_next pool s).2.2 hlast
  case operation =>
    intro o r' id hid
    exact (o.balanced_perform id r' hid (Nat.zero_le _)).2
  case failure =>
    intro a r' e herror id hid
    have hcount := (a.obtains_perform.2 id r' hid (Nat.zero_le _)).2
    rw [herror] at hcount
    exact hcount

/-- A store with one revision that grants seven operations and lets nodes be missing then. -/
def leanStore : Store where
  revisions := #[.ofContent (.element { name := .ofLocal "e" } .nil .nil)]
  meter := { budget? := some 7, fault := .missing }

/-- A cursor that is closed twice, a scope, and an iterator that is left while it walks. -/
def mixedActions : List Action :=
  [.acquire (.openCursor 0 0), .use 0 .close, .use 0 .close, .acquire (.openScope 0 0 1),
    .acquire (.dispatch ⟨0, 0, 0⟩ ⟨1, 0, .element, none⟩ .ancestor .any), .use 0 .next,
    .operate (.openLatest ⟨0, 0⟩ 0 {})]

/-- Two cursors are lent then, for the scope and for the iterator; the one that was closed twice was
given back once. -/
theorem run_custody_mixed :
    (∀ id, (({ stores := #[leanStore] } : Registry).store id).openCursors = 0) ∧
      ((run { registry := { stores := #[leanStore] } } mixedActions).registry.store 0).openCursors =
        2 := by
  have hidle : ∀ id, (({ stores := #[leanStore] } : Registry).store id).openCursors = 0 := by
    intro id
    cases id <;> rfl
  refine ⟨hidle, ?_⟩
  rw [(run_custody { stores := #[leanStore] } hidle mixedActions).1 0 (by decide)]
  rfl

end Client

end DocTree
