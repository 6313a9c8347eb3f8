import DocTree.Proofs.Registry.Undisturbed
import DocTree.Proofs.Stream.Relay
import DocTree.Session.Axes

/-!
# Relays whose two parties move in any order

The worker of a relay and its reader run beside each other. An exchange is a relay together with the
answers that the reader has got so far; a schedule says who makes the next step. A step of the
worker may find no room in the queue, and an attempt of the reader may find nothing there yet: then
nothing happens.

A source may fail in the midst of its items, and its items depend on the state that it shares with
others. A relay cuts them off after the first error. What the reader has got, what is in the queue
and what the worker will still put there are at all times these items, one after the other. No step
adds to them or takes from them, so that the reader gets them in turn under every schedule. It sees
the end only when all of them have gone through its hands, and from then on it sees nothing else.

## Main definitions

- `upToError`, `itemAt` — what a source brings before it ends or fails
- `Exchange`, `Exchange.run` — a relay and its reader under a schedule
- `Exchange.Follows` — a reader that gets certain items in turn

## Main statements

- `Exchange.follows_run` — what an exchange has come to under any schedule
- `Exchange.answers_after_two_steps` — a reader that waits is answered
- `ConcurrentAxis.delivers_in_turn` — concurrent axes over lists and over the axes of nodes
-/

namespace DocTree

variable {σ S : Type}

/-- The items among some answers up to the first answer that there is no more, or up to and with the
first error. -/
def upToError : List (Option Item) → List Item
  | some (.ok key) :: answers => .ok key :: upToError answers
  | some (.error e) :: _ => [.error e]
  | none :: _ => []
  | [] => []

/-- The item at a position of what a source brings before it ends or fails. -/
def itemAt (pull : S → StateM σ (Option Item × S)) (source : S) (st : σ) (i : Nat) : Option Item :=
  (upToError (pulls pull (i + 1) source st).1)[i]?

section Pulls

variable {pull : S → StateM σ (Option Item × S)}

theorem length_pulls (times : Nat) (source : S) (st : σ) :
    (pulls pull times source st).1.length = times := by
  induction times generalizing source st with
  | zero => rfl
  | succ times ih => rw [pulls_succ rfl, List.length_cons, ih]

/-- To find the item at a position, it does not matter how often the source is pulled, if it is
often enough. -/
theorem getElem?_upToError_pulls (i more : Nat) (source : S) (st : σ) :
    (upToError (pulls pull (i + 1 + more) source st).1)[i]? = itemAt pull source st i := by
  unfold itemAt
  induction i generalizing source st with
  | zero =>
    rcases hpull : pull source st with ⟨⟨answer, source'⟩, st'⟩
    rw [Nat.zero_add, Nat.add_comm 1 more, pulls_succ hpull, ← Nat.zero_add 1, pulls_succ hpull]
    rcases answer with _ | _ | _ <;> rfl
  | succ i ih =>
    rcases hpull : pull source st with ⟨⟨answer, source'⟩, st'⟩
    rw [show i + 1 + 1 + more = i + 1 + more + 1 by omega, pulls_succ hpull, pulls_succ hpull]
    rcases answer with _ | _ | key
    · rfl
    · rfl
    · exact ih source' st'

/-- A list brings its items up to the first error. -/
theorem itemAt_listed (items : Stream .listed) (r : Registry) (i : Nat) :
    itemAt (Stream.next .listed) items r i = (upToError (List.map some items))[i]? := by
  unfold itemAt
  induction i generalizing items with
  | zero => rcases items with _ | ⟨_ | _, _⟩ <;> rfl
  | succ i ih =>
    have hpull : Stream.next .listed items r
        = ((List.head? (α := Item) items, List.tail (α := Item) items), r) := rfl
    rw [pulls_succ hpull]
    rcases items with _ | ⟨_ | key, items⟩
    · rfl
    · rfl
    · exact ih items

end Pulls

/-- What a worker will still put into the queue if its source is pulled so many times. -/
def Worker.owes (pull : S → StateM σ (Option Item × S)) (times : Nat) (st : σ) :
    Worker S → List Item
  | .ready source => upToError (pulls pull times source st).1
  | .offering item source => upToError (some item :: (pulls pull times source st).1)
  | .leaving _ => []
  | .finished => []

namespace Relay

variable (pull : S → StateM σ (Option Item × S)) (release : S → StateM σ Unit) {r r' : Relay S}
  {item : Item}

/-- What a relay will still deliver if the source is pulled so many times. -/
def owes (times : Nat) (st : σ) (r : Relay S) : List Item :=
  r.queue ++ r.worker.owes pull times st

theorem owes_afterSending (item : Item) (source : S) (times : Nat) (st : σ) :
    item :: (afterSending item source).owes pull times st
      = (Worker.offering item source).owes pull times st := by
  cases item <;> rfl

/-- A step of the worker pulls the source once or not at all, and nothing is lost by it. -/
theorem owes_work (h : r.attached = true) (st : σ) :
    ∃ pulled, ∀ times, (r.work pull release st).1.owes pull times (r.work pull release st).2
      = r.owes pull (pulled + times) st := by
  obtain ⟨worker, capacity, queue, attached⟩ := r
  obtain rfl : attached = true := h
  cases worker with
  | ready source =>
    rcases hpull : pull source st with ⟨⟨_ | item, source'⟩, st'⟩
    · rw [work_of_none release hpull]
      refine ⟨1, fun times => ?_⟩
      rw [Nat.add_comm, owes, owes, Worker.owes, Worker.owes, pulls_succ hpull, upToError]
    · rw [work_of_item release hpull]
      refine ⟨1, fun times => ?_⟩
      rw [Nat.add_comm, owes, owes, Worker.owes, Worker.owes, pulls_succ hpull]
  | offering item source =>
    refine ⟨0, fun times => ?_⟩
    by_cases hroom : queue.length < capacity
    · rw [work_of_room release hroom, Nat.zero_add, owes, owes, List.append_assoc,
        ← owes_afterSending pull item]
      rfl
    · rw [work_of_full release hroom, Nat.zero_add]
  | leaving source => exact ⟨0, fun times => rfl⟩
  | finished => exact ⟨0, fun times => by rw [Nat.zero_add]; rfl⟩

/-- A step of the worker keeps to the room in the queue. -/
theorem room_work (h : r.attached = true) (hroom : r.queue.length ≤ r.capacity) (st : σ) :
    (r.work pull release st).1.queue.length ≤ r.capacity := by
  obtain ⟨worker, capacity, queue, attached⟩ := r
  obtain rfl : attached = true := h
  cases worker with
  | ready source =>
    rcases hpull : pull source st with ⟨⟨_ | item, source'⟩, st'⟩
    · rw [work_of_none release hpull]
      exact hroom
    · rw [work_of_item release hpull]
      exact hroom
  | offering item source =>
    by_cases hfree : queue.length < capacity
    · rw [work_of_room release hfree, List.length_append]
      exact hfree
    · rw [work_of_full release hfree]
      exact hroom
  | leaving source => exact hroom
  | finished => exact hroom

/-- What the reader gets is the first item that the relay owed. -/
theorem owes_of_item (h : r.receive = (.item item, r')) :
    r.attached = true ∧ r'.attached = true ∧ r'.capacity = r.capacity ∧
      r'.queue.length ≤ r.queue.length ∧
      ∀ times (st : σ), r.owes pull times st = item :: r'.owes pull times st := by
  obtain ⟨worker, capacity, queue, attached⟩ := r
  cases attached with
  | false => cases h
  | true =>
    cases queue with
    | cons first queue =>
      cases h
      exact ⟨rfl, rfl, rfl, Nat.le_succ _, fun _ _ => rfl⟩
    | nil =>
      cases worker with
      | offering first source =>
        by_cases hnone : capacity = 0
        · obtain ⟨rfl, rfl⟩ : first = item ∧ _ = r' := by simpa [receive, hnone] using h
          exact ⟨rfl, rfl, hnone.symm, Nat.le_refl _,
            fun times st => (owes_afterSending pull first source times st).symm⟩
        · simp [receive, hnone] at h
      | ready source => cases h
      | leaving source => cases h
      | finished => cases h

/-- The reader sees the end when it has gone before, or when the worker has finished and the queue
is empty. -/
theorem finished_of_ended (h : r.receive = (.ended, r')) :
    (r.attached = false ∧ r' = r) ∨
      (r.worker = .finished ∧ r.queue = [] ∧ r' = { r with attached := false }) := by
  obtain ⟨worker, capacity, queue, attached⟩ := r
  cases attached with
  | false =>
    cases h
    exact .inl ⟨rfl, rfl⟩
  | true =>
    cases queue with
    | cons first queue => cases h
    | nil =>
      cases worker with
      | finished =>
        cases h
        exact .inr ⟨rfl, rfl, rfl⟩
      | offering first source => by_cases hnone : capacity = 0 <;> simp [receive, hnone] at h
      | ready source => cases h
      | leaving source => cases h

end Relay

/-- Who makes a step. -/
inductive Party where
  | worker
  | reader
deriving DecidableEq, Repr

/-- A relay, and what its reader has been answered so far: an item, or that there is no more. -/
structure Exchange (S : Type) where
  relay : Relay S
  answers : List (Option Item)

namespace Exchange

/-- A relay that has not been read yet. -/
def start (source : S) (capacity : Nat) : Exchange S := ⟨.start source capacity, []⟩

/-- The items that the reader has got. -/
def received (x : Exchange S) : List Item := x.answers.filterMap id

theorem received_item (x : Exchange S) (relay : Relay S) (item : Item) :
    received ⟨relay, x.answers ++ [some item]⟩ = x.received ++ [item] := by
  simp [received]

theorem received_end (x : Exchange S) (relay : Relay S) :
    received ⟨relay, x.answers ++ [none]⟩ = x.received := by
  simp [received]

/-- A step of the worker, or an attempt of the reader. -/
def step (pull : S → StateM σ (Option Item × S)) (release : S → StateM σ Unit) (party : Party)
    (x : Exchange S) : StateM σ (Exchange S) :=
  match party with
  | .worker => return { x with relay := ← x.relay.work pull release }
  | .reader =>
    match x.relay.receive with
    | (.item item, relay) => return ⟨relay, x.answers ++ [some item]⟩
    | (.ended, relay) => return ⟨relay, x.answers ++ [none]⟩
    | (.waiting, _) => return x

/-- The steps of a schedule. -/
def run (pull : S → StateM σ (Option Item × S)) (release : S → StateM σ Unit) :
    List Party → Exchange S → StateM σ (Exchange S)
  | [], x => return x
  | party :: schedule, x => do run pull release schedule (← x.step pull release party)

/-- The reader gets certain items in turn: it has been answered with the first of them, and where
there is no more, with that; those that wait in the queue are the next ones. -/
structure Follows (x : Exchange S) (items : Nat → Option Item) (capacity : Nat) : Prop where
  answered : x.answers = (List.range x.answers.length).map items
  queued : ∀ i < (x.received ++ x.relay.queue).length,
    (x.received ++ x.relay.queue)[i]? = items i
  room : x.relay.queue.length ≤ capacity

variable {pull : S → StateM σ (Option Item × S)} (release : S → StateM σ Unit)
  {source : S} {capacity : Nat} {st₀ st : σ} {x : Exchange S}

/-- An exchange in which nothing has been lost since it began with a source in a state `st₀`. -/
structure Intact (pull : S → StateM σ (Option Item × S)) (source : S) (capacity : Nat) (st₀ : σ)
    (x : Exchange S) (st : σ) : Prop where
  /-- The source has been pulled so many times, and nothing of it is missing. -/
  whole : ∃ pulled, ∀ times,
    x.received ++ x.relay.owes pull times st = upToError (pulls pull (pulled + times) source st₀).1
  /-- The reader is told of the end after all items, and then has gone. -/
  answered : ∃ ends, x.answers = x.received.map some ++ List.replicate ends none ∧
    (x.relay.attached = true → ends = 0)
  gone : x.relay.attached = false → x.relay.worker = .finished ∧ x.relay.queue = []
  capacity_eq : x.relay.capacity = capacity
  room : x.relay.queue.length ≤ capacity

theorem intact_start (pull : S → StateM σ (Option Item × S)) (source : S) (capacity : Nat)
    (st : σ) : (start source capacity).Intact pull source capacity st st where
  whole := ⟨0, fun times => by rw [Nat.zero_add]; rfl⟩
  answered := ⟨0, rfl, fun _ => rfl⟩
  gone := nofun
  capacity_eq := rfl
  room := Nat.zero_le _

theorem Intact.work (h : x.Intact pull source capacity st₀ st) :
    Intact pull source capacity st₀ { x with relay := (x.relay.work pull release st).1 }
      (x.relay.work pull release st).2 := by
  cases hattached : x.relay.attached with
  | false =>
    -- The worker has finished before the reader could see the end.
    have hidle : x.relay.work pull release st = (x.relay, st) := by
      unfold Relay.work
      rw [(h.gone hattached).1]
      rfl
    rw [hidle]
    exact h
  | true =>
    obtain ⟨pulled, hwhole⟩ := h.whole
    obtain ⟨more, howes⟩ := Relay.owes_work pull release hattached st
    obtain ⟨hattached', hcapacity⟩ := x.relay.attached_work release pull st
    have hroom := Relay.room_work pull release hattached (h.capacity_eq ▸ h.room) st
    obtain ⟨ends, hanswers, hends⟩ := h.answered
    refine ⟨⟨pulled + more, fun times => ?_⟩, ⟨ends, hanswers, fun _ => hends hattached⟩,
      fun hfalse => ?_, hcapacity.trans h.capacity_eq, h.capacity_eq ▸ hroom⟩
    · rw [howes, Nat.add_assoc]
      exact hwhole (more + times)
    · exact absurd (hattached.symm.trans (hattached'.symm.trans hfalse)) nofun

theorem Intact.item (h : x.Intact pull source capacity st₀ st) {item : Item} {relay : Relay S}
    (hrec : x.relay.receive = (.item item, relay)) :
    Intact pull source capacity st₀ ⟨relay, x.answers ++ [some item]⟩ st := by
  obtain ⟨pulled, hwhole⟩ := h.whole
  obtain ⟨ends, hanswers, hends⟩ := h.answered
  obtain ⟨hattached, hattached', hcapacity, hlength, howes⟩ := Relay.owes_of_item pull hrec
  obtain rfl := hends hattached
  refine ⟨⟨pulled, fun times => ?_⟩, ⟨0, ?_, fun _ => rfl⟩, fun hfalse => ?_,
    hcapacity.trans h.capacity_eq, Nat.le_trans hlength h.room⟩
  · rw [received_item, List.append_assoc, List.singleton_append, ← howes]
    exact hwhole times
  · rw [received_item, List.map_append, hanswers]
    simp
  · exact absurd (hattached'.symm.trans hfalse) nofun

theorem Intact.ended (h : x.Intact pull source capacity st₀ st) {relay : Relay S}
    (hrec : x.relay.receive = (.ended, relay)) :
    Intact pull source capacity st₀ ⟨relay, x.answers ++ [none]⟩ st := by
  obtain ⟨pulled, hwhole⟩ := h.whole
  obtain ⟨ends, hanswers, -⟩ := h.answered
  have hanswers' : x.answers ++ [none]
      = (received ⟨relay, x.answers ++ [none]⟩).map some ++ List.replicate (ends + 1) none := by
    rw [received_end, List.replicate_succ', ← List.append_assoc, ← hanswers]
  have hwhole' : ∀ times, received ⟨relay, x.answers ++ [none]⟩ ++ x.relay.owes pull times st
      = upToError (pulls pull (pulled + times) source st₀).1 := fun times => by
    rw [received_end]
    exact hwhole times
  rcases Relay.finished_of_ended hrec with ⟨hgone, rfl⟩ | ⟨hworker, hqueue, rfl⟩
  · refine ⟨⟨pulled, hwhole'⟩, ⟨ends + 1, hanswers', fun htrue => ?_⟩, h.gone, h.capacity_eq, h.room⟩
    exact absurd (hgone.symm.trans htrue) nofun
  · exact ⟨⟨pulled, hwhole'⟩, ⟨ends + 1, hanswers', nofun⟩, fun _ => ⟨hworker, hqueue⟩,
      h.capacity_eq, h.room⟩

/-- No step adds an item or loses one. -/
theorem Intact.step (h : x.Intact pull source capacity st₀ st) (party : Party) :
    (x.step pull release party st).1.Intact pull source capacity st₀
      (x.step pull release party st).2 := by
  cases party with
  | worker => exact h.work release
  | reader =>
    unfold Exchange.step
    rcases hrec : x.relay.receive with ⟨item | _ | _, relay⟩
    · exact h.item hrec
    · exact h.ended hrec
    · exact h

theorem Intact.run (h : x.Intact pull source capacity st₀ st) (schedule : List Party) :
    (x.run pull release schedule st).1.Intact pull source capacity st₀
      (x.run pull release schedule st).2 := by
  induction schedule generalizing x st with
  | nil => exact h
  | cons party schedule ih => exact ih (h.step release party)

theorem getElem?_answers {α : Type} (items : List α) {ends i : Nat} (h : i < items.length + ends) :
    (items.map some ++ List.replicate ends none)[i]? = some items[i]? := by
  by_cases hi : i < items.length
  · rw [List.getElem?_append_left (by simpa using hi), List.getElem?_map,
      List.getElem?_eq_getElem hi, Option.map_some]
  · rw [List.getElem?_append_right (by simpa using hi), List.length_map,
      List.getElem?_replicate_of_lt (by omega), List.getElem?_eq_none (by omega)]

/-- An exchange in which nothing has been lost follows its source. -/
theorem Intact.follows (h : x.Intact pull source capacity st₀ st) :
    x.Follows (itemAt pull source st₀) capacity := by
  obtain ⟨pulled, hwhole⟩ := h.whole
  obtain ⟨ends, hanswers, hends⟩ := h.answered
  have hitems : ∀ i, itemAt pull source st₀ i
      = (x.received ++ x.relay.owes pull (i + 1) st)[i]? := fun i => by
    rw [hwhole, Nat.add_comm pulled]
    exact (getElem?_upToError_pulls i pulled source st₀).symm
  have hlength : x.answers.length = x.received.length + ends := by
    simpa using congrArg List.length hanswers
  -- An item that has been asked for was received, or the reader has seen the end and none is owed.
  have hreceived : ∀ i < x.answers.length, itemAt pull source st₀ i = x.received[i]? := by
    intro i hi
    rw [hitems]
    cases hattached : x.relay.attached with
    | true =>
      have := hends hattached
      exact List.getElem?_append_left (by omega)
    | false =>
      rw [Relay.owes, (h.gone hattached).1, (h.gone hattached).2]
      exact congrArg (·[i]?) (List.append_nil x.received)
  refine ⟨List.ext_getElem? fun i => ?_, fun i hi => ?_, h.room⟩
  · by_cases hi : i < x.answers.length
    · rw [List.getElem?_map, List.getElem?_range hi, Option.map_some, hreceived i hi, hanswers]
      exact getElem?_answers x.received (hlength ▸ hi)
    · simp [hi]
  · rw [hitems, Relay.owes, ← List.append_assoc, List.getElem?_append_left hi]

section Schedules

variable (pull)

/-- Under every schedule, what the reader has got and what is in the queue are the items of the
source up to its first error, in turn, and the reader sees the end after them only, and for ever. -/
theorem follows_run (schedule : List Party) (source : S) (capacity : Nat) (st : σ) :
    ((start source capacity).run pull release schedule st).1.Follows (itemAt pull source st)
      capacity :=
  ((intact_start pull source capacity st).run release schedule).follows

theorem run_append (first second : List Party) (x : Exchange S) :
    x.run pull release (first ++ second) = x.run pull release first >>= run pull release second := by
  induction first generalizing x with
  | nil => rfl
  | cons party first ih =>
    simp only [List.cons_append, run]
    rw [bind_assoc]
    exact congrArg _ (funext ih)

/-- An attempt of the reader is answered if the worker is not behind, or the reader has gone. -/
theorem length_answers_reader (h : x.relay.attached = true → x.relay.lag = 0) (st : σ) :
    (x.step pull release .reader st).1.answers.length = x.answers.length + 1 := by
  unfold step
  rcases hrec : x.relay.receive with ⟨item | _ | _, relay⟩
  · exact List.length_append
  · exact List.length_append
  · obtain ⟨hattached, hlag, -⟩ := Relay.lag_pos_of_waiting hrec
    have := h hattached
    omega

/-- Whatever has happened, an attempt of the reader is answered after two steps of the worker. -/
theorem answers_after_two_steps (schedule : List Party) :
    (x.run pull release (schedule ++ [.worker, .worker, .reader]) st).1.answers.length
      = (x.run pull release schedule st).1.answers.length + 1 := by
  rw [run_append]
  generalize hx : x.run pull release schedule st = now
  obtain ⟨x₀, st₀⟩ := now
  let r₁ := x₀.relay.work pull release st₀
  let r₂ := r₁.1.work pull release r₁.2
  have hlag : r₂.1.attached = true → r₂.1.lag = 0 := by
    intro hattached
    have hattached₁ := (r₁.1.attached_work release pull r₁.2).1.symm.trans hattached
    have hattached₀ := (x₀.relay.attached_work release pull st₀).1.symm.trans hattached₁
    have h₀ : x₀.relay.lag ≤ 2 := x₀.relay.lag_le_two
    have h₁ : r₁.1.lag ≤ x₀.relay.lag - 1 := Relay.lag_work release pull hattached₀ st₀
    have h₂ : r₂.1.lag ≤ r₁.1.lag - 1 := Relay.lag_work release pull hattached₁ r₁.2
    omega
  have hreader := length_answers_reader pull release (x := ⟨r₂.1, x₀.answers⟩) hlag r₂.2
  have hrun : (x.run pull release schedule >>= run pull release [.worker, .worker, .reader]) st
      = (step pull release .reader ⟨r₂.1, x₀.answers⟩) r₂.2 := by
    simp only [bind, StateT.bind, hx]
    rfl
  rw [hrun, hreader]

theorem run_reader_of_item {item : Item} {relay : Relay S}
    (h : x.relay.receive = (.item item, relay)) (st : σ) :
    x.run pull release [.reader] st = (⟨relay, x.answers ++ [some item]⟩, st) := by
  simp only [run, step, h]
  rfl

theorem run_reader_of_ended {relay : Relay S} (h : x.relay.receive = (.ended, relay)) (st : σ) :
    x.run pull release [.reader] st = (⟨relay, x.answers ++ [none]⟩, st) := by
  simp only [run, step, h]
  rfl

/-- A reader that waits for the worker follows some schedule. -/
theorem exists_schedule_await (steps : Nat) (x : Exchange S)
    (h : x.relay.attached = true → x.relay.lag ≤ steps) (st : σ) :
    ∃ schedule, x.run pull release schedule st
      = (⟨(x.relay.await pull release steps st).1.2,
          x.answers ++ [(x.relay.await pull release steps st).1.1]⟩,
        (x.relay.await pull release steps st).2) := by
  rcases hrec : x.relay.receive with ⟨item | _ | _, relay⟩
  · refine ⟨[.reader], ?_⟩
    rw [Relay.await_of_item release hrec, run_reader_of_item pull release hrec]
    rfl
  · refine ⟨[.reader], ?_⟩
    rw [Relay.await_of_ended release hrec, run_reader_of_ended pull release hrec]
    rfl
  · obtain ⟨hattached, hlag, rfl⟩ := Relay.lag_pos_of_waiting hrec
    have hsteps := h hattached
    cases steps with
    | zero => omega
    | succ steps =>
      have hnearer : (x.relay.work pull release st).1.lag ≤ steps := by
        have := Relay.lag_work release pull hattached st
        omega
      obtain ⟨schedule, hrun⟩ := exists_schedule_await steps
        { x with relay := (x.relay.work pull release st).1 } (fun _ => hnearer)
        (x.relay.work pull release st).2
      refine ⟨.worker :: schedule, ?_⟩
      rw [Relay.await_of_waiting release hrec]
      exact hrun

/-- Reading on while the worker moves only when the reader waits is one of the schedules. -/
theorem exists_schedule_next (x : Exchange S) (st : σ) :
    ∃ schedule, x.run pull release schedule st
      = (⟨(x.relay.next pull release st).1.2, x.answers ++ [(x.relay.next pull release st).1.1]⟩,
        (x.relay.next pull release st).2) := by
  obtain ⟨schedule, hrun⟩ := exists_schedule_await pull release 2 x
    (fun _ => x.relay.lag_le_two) st
  rcases hawait : x.relay.await pull release 2 st with ⟨⟨answer, relay⟩, st'⟩
  rw [hawait] at hrun
  have hnext : x.relay.next pull release st
      = ((answer, (relay.settle pull release st').1), (relay.settle pull release st').2) := by
    simp only [Relay.next, bind, StateT.bind, hawait]
    rfl
  rw [hnext]
  cases hworker : relay.worker with
  | leaving source =>
    refine ⟨schedule ++ [.worker], ?_⟩
    rw [run_append]
    simp only [bind, StateT.bind, hrun, Relay.settle, hworker]
    rfl
  | _ =>
    refine ⟨schedule, ?_⟩
    rw [hrun]
    simp only [Relay.settle, hworker]
    rfl

theorem exists_schedule_pulls (times : Nat) (x : Exchange S) (st : σ) :
    ∃ schedule, (x.run pull release schedule st).1.answers
      = x.answers ++ (pulls (Relay.next pull release) times x.relay st).1 := by
  induction times generalizing x st with
  | zero => exact ⟨[], (List.append_nil _).symm⟩
  | succ times ih =>
    rcases hnext : x.relay.next pull release st with ⟨⟨answer, relay⟩, st'⟩
    obtain ⟨first, hfirst⟩ := exists_schedule_next pull release x st
    rw [hnext] at hfirst
    obtain ⟨rest, hrest⟩ := ih ⟨relay, x.answers ++ [answer]⟩ st'
    refine ⟨first ++ rest, ?_⟩
    rw [run_append, pulls_succ hnext]
    simp only [bind, StateT.bind, hfirst, hrest, List.append_assoc, List.singleton_append]

end Schedules

end Exchange

/-- A relay delivers the items of its source up to the first error, in turn. -/
theorem Relay.pulls_next {pull : S → StateM σ (Option Item × S)} (release : S → StateM σ Unit)
    (times : Nat) (source : S) (capacity : Nat) (st : σ) :
    (pulls (Relay.next pull release) times (.start source capacity) st).1
      = (List.range times).map (itemAt pull source st) := by
  obtain ⟨schedule, hanswers⟩ :=
    Exchange.exists_schedule_pulls pull release times (.start source capacity) st
  have hfollows := (Exchange.follows_run pull release schedule source capacity st).answered
  rw [hanswers] at hfollows
  simpa [Exchange.start, length_pulls] using hfollows

/-- What holds a source and passes its answers on has the same answers. -/
theorem pulls_passed_on {T : Type} {pull : S → StateM σ (Option Item × S)}
    {pull' : T → StateM σ (Option Item × T)} (hold : S → T)
    (h : ∀ source st, pull' (hold source) st
      = (((pull source st).1.1, hold (pull source st).1.2), (pull source st).2))
    (times : Nat) (source : S) (st : σ) :
    (pulls pull' times (hold source) st).1 = (pulls pull times source st).1 := by
  induction times generalizing source st with
  | zero => rfl
  | succ times ih => rw [pulls_succ (h source st), pulls_succ rfl, ih]

/-- The next node of an axis, as its key. -/
def NodeAxis.nextKey (a : NodeAxis) : StateM Registry (Option Item × NodeAxis) := do
  let (item, a) ← a.next
  return (item.map (·.map (·.handle.key)), a)

theorem NodeAxis.nextKey_eq (it : AxisIterator) (document : Nat) (r : Registry) :
    NodeAxis.nextKey ⟨it, document⟩ r = (((Stream.next .handles it r).1.1,
      ⟨(Stream.next .handles it r).1.2, document⟩), (Stream.next .handles it r).2) := by
  have hkeys : ∀ answer : Option (Except AccessError Handle),
      (answer.map (·.map fun h => (⟨h, document⟩ : Node))).map (·.map (·.handle.key))
        = answer.map (·.map (·.key)) := fun answer => by rcases answer with _ | _ | _ <;> rfl
  exact Prod.ext (Prod.ext (hkeys _) rfl) rfl

/-- The keys on an axis are the same, whether it delivers nodes or handles. -/
theorem NodeAxis.itemAt_nextKey (a : NodeAxis) (r : Registry) :
    itemAt NodeAxis.nextKey a r
      = itemAt (S := Stream .handles) (Stream.next .handles) a.handles r := by
  funext i
  exact congrArg (fun answers => (upToError answers)[i]?)
    (pulls_passed_on (S := Stream .handles) (fun it => (⟨it, a.document⟩ : NodeAxis))
      (fun it r => NodeAxis.nextKey_eq it a.document r) (i + 1) a.handles r)

namespace ConcurrentAxis

/-- The exchange of an axis with its reader, under a schedule. -/
def exchange (a : ConcurrentAxis) (schedule : List Party) :
    StateM Registry (Exchange (Stream a.shape)) :=
  Exchange.run (Stream.next a.shape) (Stream.stop a.shape) schedule ⟨a.relay, []⟩

/-- An axis delivers certain items in turn: under every schedule, to a reader that keeps asking, and
also if the worker moves only when the reader waits. -/
structure Delivers (a : ConcurrentAxis) (r : Registry) (items : Nat → Option Item) : Prop where
  follows : ∀ schedule, (a.exchange schedule r).1.Follows items a.relay.capacity
  answers : ∀ schedule, (a.exchange (schedule ++ [.worker, .worker, .reader]) r).1.answers.length
    = (a.exchange schedule r).1.answers.length + 1
  pulled : ∀ times, (pulls next times a r).1 = (List.range times).map items

theorem spawn_delivers (shape : Stream.Shape) (source : Stream shape) (capacity : Nat)
    (r : Registry) :
    (spawn shape source capacity).Delivers r (itemAt (Stream.next shape) source r) where
  follows schedule :=
    Exchange.follows_run (Stream.next shape) (Stream.stop shape) schedule source capacity r
  answers schedule :=
    Exchange.answers_after_two_steps (Stream.next shape) (Stream.stop shape) schedule
  pulled times := by
    rw [← Relay.pulls_next (Stream.stop shape) times source capacity r]
    exact pulls_passed_on (fun relay => (⟨shape, relay⟩ : ConcurrentAxis)) (fun _ _ => rfl) times
      (.start source capacity) r

/-- A concurrent axis over nodes begins as the axis itself does, and reads ahead as the document was
configured for. -/
theorem run_ofAxis (n : Node) (axis : Axis) (test : NodeTest) (r : Registry) :
    match (Session.iterate n (.axis axis) test).run r with
    | (.error e, r') => (ofAxis n axis test).run r = (.error e, r')
    | (.ok nodes, r') => ∃ d, r.document? n.document = some d ∧ (ofAxis n axis test).run r
        = (.ok (.spawn .handles nodes.handles d.config.concurrentBuffer), r') := by
  have hiterate : Session.iterate n (.axis axis) test
      = n.iterate axis test >>= fun it => return ⟨it, n.document⟩ := rfl
  have hofAxis : ofAxis n axis test = n.getDocument >>= fun d =>
      n.iterate axis test >>= fun it =>
        return .spawn .handles it d.config.concurrentBuffer := rfl
  cases hd : r.document? n.document with
  | none =>
    rw [hiterate, Access.run_bind_of_error (Node.run_iterate_of_released hd axis test), hofAxis]
    exact Access.run_bind_of_error (n.run_getDocument_of_released hd)
  | some d =>
    rw [hiterate, hofAxis, Access.run_bind_of_ok (Node.run_getDocument hd)]
    rcases hrun : (n.iterate axis test).run r with ⟨e | it, r'⟩
    · rw [Access.run_bind_of_error hrun]
      exact Access.run_bind_of_error hrun
    · rw [Access.run_bind_of_ok hrun]
      exact ⟨d, rfl, Access.run_bind_of_ok hrun⟩

/-- A concurrent axis delivers what its source would bring up to the first error, under every
schedule of worker and reader and for every length of the queue: the items of a list, and the keys
on an axis from a node. -/
theorem delivers_in_turn :
    (∀ (shape : Stream.Shape) (source : Stream shape) (capacity : Nat) (r : Registry),
      (spawn shape source capacity).Delivers r (itemAt (Stream.next shape) source r)) ∧
    (∀ (items : List Item) (capacity : Nat) (r : Registry),
      (spawn .listed items capacity).Delivers r fun i => (upToError (items.map some))[i]?) ∧
    ∀ (n : Node) (axis : Axis) (test : NodeTest) (r : Registry),
      match (Session.iterate n (.axis axis) test).run r with
      | (.error e, r') => (ofAxis n axis test).run r = (.error e, r')
      | (.ok nodes, r') => ∃ a d, (ofAxis n axis test).run r = (.ok a, r') ∧
          r.document? n.document = some d ∧ a.relay.capacity = d.config.concurrentBuffer ∧
          a.Delivers r' (itemAt NodeAxis.nextKey nodes r') := by
  refine ⟨spawn_delivers, fun items capacity r => ?_, fun n axis test r => ?_⟩
  · have h := spawn_delivers .listed items capacity r
    rwa [funext (itemAt_listed items r)] at h
  · have hrun := run_ofAxis n axis test r
    revert hrun
    rcases (Session.iterate n (.axis axis) test).run r with ⟨e | nodes, r'⟩
    · exact id
    · rintro ⟨d, hd, hrun⟩
      refine ⟨_, d, hrun, hd, rfl, ?_⟩
      rw [NodeAxis.itemAt_nextKey]
      exact spawn_delivers .handles nodes.handles _ r'

end ConcurrentAxis

end DocTree
