import DocTree.Stream.Basic

/-!
# What relays deliver

A source supplies a list of keys if pulling it brings them one after the other and then nothing any
more. A relay over such a source supplies the same keys, whatever its capacity: those in the queue
come first, then the one that the worker offers, then what the source still has. Neither a step of
the worker nor an attempt of the reader that brings nothing changes this list, so it does not matter
when the worker moves. A reader that waits for the worker has waited long enough after two steps.

## Main definitions

- `Supplies`, `pulls` — sources that do not fail, and pulling several times
- `Relay.Holds` — the keys that a relay will still deliver
- `Paced` — a relay whose worker moves as a schedule says

## Main statements

- `Supplies.pulls_eq` — the answers to any number of pulls
- `Relay.supplies_next` — a relay whose worker moves only when the reader waits
- `Paced.supplies_next` — a relay under any schedule
-/

namespace DocTree

variable {σ S : Type} {Left : S → List Int → Prop} {keys : List Int}

/-- `Left` says which keys a source has left: pulled, it delivers the first of them, or nothing if
there is none, and has the others left. It does not fail, whatever the shared state is. -/
def Supplies (pull : S → StateM σ (Option Item × S)) (Left : S → List Int → Prop) : Prop :=
  ∀ ⦃s : S⦄ ⦃keys : List Int⦄, Left s keys → ∀ st : σ,
    ∃ s' st', pull s st = ((keys.head?.map .ok, s'), st') ∧ Left s' keys.tail

/-- The answers to so many pulls. -/
def pulls (pull : S → StateM σ (Option Item × S)) : (times : Nat) → S → StateM σ (List (Option Item))
  | 0, _ => return []
  | times + 1, s => do
    let (item, s) ← pull s
    return item :: (← pulls pull times s)

theorem run_pulls_succ {pull : S → StateM σ (Option Item × S)} {s s' : S} {item : Option Item}
    {st st' : σ} (h : pull s st = ((item, s'), st')) (times : Nat) :
    pulls pull (times + 1) s st
      = (item :: (pulls pull times s' st').1, (pulls pull times s' st').2) := by
  simp only [pulls, bind, StateT.bind, h]
  rfl

theorem pulls_succ {pull : S → StateM σ (Option Item × S)} {s s' : S} {item : Option Item}
    {st st' : σ} (h : pull s st = ((item, s'), st')) (times : Nat) :
    (pulls pull (times + 1) s st).1 = item :: (pulls pull times s' st').1 :=
  congrArg Prod.fst (run_pulls_succ h times)

/-- A source delivers its keys in turn, and then nothing for ever. -/
theorem Supplies.pulls_eq {pull : S → StateM σ (Option Item × S)} (h : Supplies pull Left) {s : S}
    (hs : Left s keys) (times : Nat) (st : σ) :
    (pulls pull times s st).1 = (List.range times).map fun i => keys[i]?.map .ok := by
  induction times generalizing s keys st with
  | zero => rfl
  | succ times ih =>
    obtain ⟨s', st', hpull, hs'⟩ := h hs st
    rw [pulls_succ hpull, ih hs' st', List.range_succ_eq_map, List.map_cons, List.map_map]
    simp [Function.comp_def, List.head?_eq_getElem?]

/-- A source with few keys left still has few keys left when it has been pulled. -/
theorem Supplies.bounded {pull : S → StateM σ (Option Item × S)} (h : Supplies pull Left) (n : Nat) :
    Supplies pull fun s keys => Left s keys ∧ keys.length ≤ n := by
  rintro s keys ⟨hs, hlen⟩ st
  obtain ⟨s', st', hpull, hs'⟩ := h hs st
  exact ⟨s', st', hpull, hs', by rw [List.length_tail]; omega⟩

/-- A list that has these keys left, and no error among them. -/
def Listed (items : Stream .listed) (keys : List Int) : Prop := items = keys.map .ok

theorem listed_map (keys : List Int) : Listed (keys.map .ok) keys := rfl

theorem supplies_listed : Supplies (Stream.next .listed) Listed := by
  rintro items keys rfl st
  exact ⟨keys.tail.map .ok, st, by cases keys <;> rfl, rfl⟩

/-- The keys that a worker will still send, if its source does not fail. -/
inductive Worker.Sends (Left : S → List Int → Prop) : Worker S → List Int → Prop where
  | ready {source : S} {keys : List Int} (h : Left source keys) : Sends Left (.ready source) keys
  | offering {source : S} {keys : List Int} (key : Int) (h : Left source keys) :
      Sends Left (.offering (.ok key) source) (key :: keys)
  | leaving {source : S} : Sends Left (.leaving source) []
  | finished : Sends Left .finished []

namespace Relay

variable {pull : S → StateM σ (Option Item × S)} (release : S → StateM σ Unit) {r : Relay S}

/-- The keys that a relay will still deliver: those in the queue, then those of the worker. A reader
that has seen the end has left a worker that is finished. -/
inductive Holds (Left : S → List Int → Prop) : Relay S → List Int → Prop where
  | attached {worker : Worker S} {rest : List Int} (capacity : Nat) (queued : List Int)
      (h : worker.Sends Left rest) :
      Holds Left ⟨worker, capacity, queued.map .ok, true⟩ (queued ++ rest)
  | detached (capacity : Nat) : Holds Left ⟨.finished, capacity, [], false⟩ []

theorem holds_start {source : S} (h : Left source keys) (capacity : Nat) :
    (start source capacity).Holds Left keys :=
  .attached capacity [] (.ready h)

/-- The steps that the worker has to make before an attempt of the reader brings something. -/
def lag (r : Relay S) : Nat :=
  match r.queue, r.worker with
  | _ :: _, _ => 0
  | [], .ready _ => 2
  | [], .offering _ _ => if r.capacity = 0 then 0 else 1
  | [], .leaving _ => 1
  | [], .finished => 0

theorem lag_le_two (r : Relay S) : r.lag ≤ 2 := by
  unfold lag
  split <;> try split
  all_goals omega

section Work

variable {source source' : S} {item : Item} {st st' : σ} {capacity : Nat}
  {queue : List Item}

theorem work_of_item (h : pull source st = ((some item, source'), st')) (attached : Bool) :
    work pull release ⟨.ready source, capacity, queue, attached⟩ st
      = (⟨.offering item source', capacity, queue, attached⟩, st') := by
  simp only [Relay.work, bind, StateT.bind, h]
  rfl

theorem work_of_none (h : pull source st = ((none, source'), st')) (attached : Bool) :
    work pull release ⟨.ready source, capacity, queue, attached⟩ st
      = (⟨.leaving source', capacity, queue, attached⟩, st') := by
  simp only [Relay.work, bind, StateT.bind, h]
  rfl

theorem work_of_room (h : queue.length < capacity) (item : Item) (source : S) (st : σ) :
    work pull release ⟨.offering item source, capacity, queue, true⟩ st
      = (⟨afterSending item source, capacity, queue ++ [item], true⟩, st) := by
  simp only [Relay.work, Bool.not_true, Bool.false_eq_true, if_false, h, if_true]
  rfl

theorem work_of_full (h : ¬ queue.length < capacity) (item : Item) (source : S) (st : σ) :
    work pull release ⟨.offering item source, capacity, queue, true⟩ st
      = (⟨.offering item source, capacity, queue, true⟩, st) := by
  simp only [Relay.work, Bool.not_true, Bool.false_eq_true, if_false, h]
  rfl

/-- The worker leaves the reader and the size of the queue alone. -/
theorem attached_work (pull : S → StateM σ (Option Item × S)) (r : Relay S) (st : σ) :
    (r.work pull release st).1.attached = r.attached ∧
      (r.work pull release st).1.capacity = r.capacity := by
  obtain ⟨worker, capacity, queue, attached⟩ := r
  cases worker with
  | ready source =>
    rcases hpull : pull source st with ⟨⟨_ | item, source'⟩, st'⟩
    · rw [work_of_none release hpull]
      exact ⟨rfl, rfl⟩
    · rw [work_of_item release hpull]
      exact ⟨rfl, rfl⟩
  | offering item source =>
    cases attached with
    | false => exact ⟨rfl, rfl⟩
    | true =>
      by_cases hroom : queue.length < capacity
      · rw [work_of_room release hroom]
        exact ⟨rfl, rfl⟩
      · rw [work_of_full release hroom]
        exact ⟨rfl, rfl⟩
  | leaving source => exact ⟨rfl, rfl⟩
  | finished => exact ⟨rfl, rfl⟩

/-- A step of the worker brings a reader that waits nearer to what it waits for. -/
theorem lag_work (pull : S → StateM σ (Option Item × S)) (h : r.attached = true) (st : σ) :
    (r.work pull release st).1.lag ≤ r.lag - 1 := by
  obtain ⟨worker, capacity, queue, attached⟩ := r
  obtain rfl : attached = true := h
  cases worker with
  | ready source =>
    rcases hpull : pull source st with ⟨⟨_ | item, source'⟩, st'⟩
    · rw [work_of_none release hpull]
      cases queue <;> simp [lag]
    · rw [work_of_item release hpull]
      cases queue <;> simp only [lag]
      · split <;> omega
      · omega
  | offering item source =>
    by_cases hroom : queue.length < capacity
    · rw [work_of_room release hroom]
      cases queue <;> simp [lag]
    · rw [work_of_full release hroom]
      cases queue with
      | nil =>
        have hnone : capacity = 0 := by simpa using hroom
        simp [lag, hnone]
      | cons _ _ => simp [lag]
  | leaving source => cases queue <;> exact Nat.zero_le _
  | finished => cases queue <;> exact Nat.zero_le _

end Work

/-- Only a reader that has not gone away waits, and it waits for a worker that is behind. -/
theorem lag_pos_of_waiting {r' : Relay S} (h : r.receive = (.waiting, r')) :
    r.attached = true ∧ 0 < r.lag ∧ r' = r := by
  obtain ⟨worker, capacity, queue, attached⟩ := r
  cases attached with
  | false => cases h
  | true =>
    cases queue with
    | cons item queue => cases h
    | nil =>
      cases worker with
      | ready source => cases h; exact ⟨rfl, by simp [lag], rfl⟩
      | offering item source =>
        by_cases hnone : capacity = 0
        · simp [receive, hnone] at h
        · obtain rfl : _ = r' := by simpa [receive, hnone] using h
          exact ⟨rfl, by simp [lag, hnone], rfl⟩
      | leaving source => cases h; exact ⟨rfl, by simp [lag], rfl⟩
      | finished => cases h

/-- A step of the worker does not change what the relay will deliver. -/
theorem Holds.work (h : Supplies pull Left) (hr : r.Holds Left keys) (st : σ) :
    ∃ r' st', r.work pull release st = (r', st') ∧ r'.Holds Left keys := by
  cases hr with
  | detached capacity => exact ⟨_, st, rfl, .detached capacity⟩
  | @attached _ rest capacity queued hw =>
    cases hw with
    | @ready source _ hs =>
      obtain ⟨source', st', hpull, hs'⟩ := h hs st
      cases rest with
      | nil => exact ⟨_, st', work_of_none release hpull true, .attached capacity queued .leaving⟩
      | cons key rest =>
        exact ⟨_, st', work_of_item release hpull true,
          .attached capacity queued (.offering key hs')⟩
    | @offering source rest key hs =>
      by_cases hroom : (queued.map Except.ok : List Item).length < capacity
      · refine ⟨_, st, work_of_room release hroom _ _ st, ?_⟩
        simpa [afterSending] using Holds.attached capacity (queued ++ [key]) (.ready hs)
      · exact ⟨_, st, work_of_full release hroom _ _ st,
          .attached capacity queued (.offering key hs)⟩
    | @leaving source => exact ⟨_, (release source st).2, rfl, .attached capacity queued .finished⟩
    | finished => exact ⟨_, st, rfl, .attached capacity queued .finished⟩

/-- What an attempt of the reader brings: the next key, the end, or nothing yet. -/
theorem Holds.receive (hr : r.Holds Left keys) :
    (∃ key rest r', keys = key :: rest ∧ r.receive = (.item (.ok key), r') ∧ r'.Holds Left rest) ∨
      (∃ r', keys = [] ∧ r.receive = (.ended, r') ∧ r'.Holds Left []) ∨
      r.receive = (.waiting, r) := by
  cases hr with
  | detached capacity => exact .inr (.inl ⟨_, rfl, rfl, .detached capacity⟩)
  | attached capacity queued hw =>
    cases queued with
    | cons key queued => exact .inl ⟨key, _, _, rfl, rfl, .attached capacity queued hw⟩
    | nil =>
      cases hw with
      | ready hs => exact .inr (.inr rfl)
      | @offering source rest key hs =>
        by_cases hnone : capacity = 0
        · subst hnone
          exact .inl ⟨key, rest, _, rfl, rfl, .attached 0 [] (.ready hs)⟩
        · exact .inr (.inr (by simp [Relay.receive, hnone]))
      | leaving => exact .inr (.inr rfl)
      | finished => exact .inr (.inl ⟨_, rfl, rfl, .detached capacity⟩)

theorem await_of_item {item : Item} {r' : Relay S} (h : r.receive = (.item item, r'))
    (steps : Nat) : r.await pull release steps = pure (some item, r') := by
  unfold Relay.await
  rw [h]

theorem await_of_ended {r' : Relay S} (h : r.receive = (.ended, r')) (steps : Nat) :
    r.await pull release steps = pure (none, r') := by
  unfold Relay.await
  rw [h]

theorem await_of_waiting (h : r.receive = (.waiting, r)) (steps : Nat) :
    r.await pull release (steps + 1) = r.work pull release >>= await pull release steps := by
  unfold Relay.await
  simp only [h]

/-- A reader that waits for as many steps as the worker is behind gets the next key, or finds the
end. -/
theorem Holds.await (h : Supplies pull Left) {steps : Nat} (hr : r.Holds Left keys)
    (hlag : r.lag ≤ steps) (st : σ) :
    ∃ r' st', r.await pull release steps st = ((keys.head?.map .ok, r'), st') ∧
      r'.Holds Left keys.tail := by
  induction steps generalizing r st with
  | zero =>
    rcases hr.receive with ⟨key, rest, r', rfl, hrec, hr'⟩ | ⟨r', rfl, hrec, hr'⟩ | hrec
    · exact ⟨r', st, congrFun (await_of_item release hrec 0) st, hr'⟩
    · exact ⟨r', st, congrFun (await_of_ended release hrec 0) st, hr'⟩
    · have hpos := (lag_pos_of_waiting hrec).2.1
      omega
  | succ steps ih =>
    rcases hr.receive with ⟨key, rest, r', rfl, hrec, hr'⟩ | ⟨r', rfl, hrec, hr'⟩ | hrec
    · exact ⟨r', st, congrFun (await_of_item release hrec _) st, hr'⟩
    · exact ⟨r', st, congrFun (await_of_ended release hrec _) st, hr'⟩
    · obtain ⟨r₁, st₁, hwork, hr₁⟩ := hr.work release h st
      have hlag₁ : r₁.lag ≤ r.lag - 1 := by
        simpa only [hwork] using lag_work release pull (lag_pos_of_waiting hrec).1 st
      obtain ⟨r₂, st₂, hawait, hr₂⟩ := ih hr₁ (by omega) st₁
      refine ⟨r₂, st₂, ?_, hr₂⟩
      rw [await_of_waiting release hrec]
      simp only [bind, StateT.bind, hwork]
      exact hawait

theorem Holds.settle (h : Supplies pull Left) (hr : r.Holds Left keys) (st : σ) :
    ∃ r' st', r.settle pull release st = (r', st') ∧ r'.Holds Left keys := by
  obtain ⟨r', st', hwork, hr'⟩ := hr.work release h st
  cases hworker : r.worker with
  | leaving => exact ⟨r', st', by rw [Relay.settle, hworker]; exact hwork, hr'⟩
  | _ => exact ⟨r, st, by rw [Relay.settle, hworker]; rfl, hr⟩

/-- A relay supplies what its source supplies. -/
theorem supplies_next (h : Supplies pull Left) :
    Supplies (Relay.next pull release) (Holds Left) := by
  intro r keys hr st
  obtain ⟨r₁, st₁, hawait, hr₁⟩ := hr.await release h r.lag_le_two st
  obtain ⟨r₂, st₂, hsettle, hr₂⟩ := hr₁.settle release h st₁
  refine ⟨r₂, st₂, ?_, hr₂⟩
  simp only [Relay.next, bind, StateT.bind, hawait, hsettle]
  rfl

/-- So many steps of the worker. -/
def runAhead {m : Type → Type} [Monad m] (pull : S → m (Option Item × S)) (release : S → m Unit) :
    (steps : Nat) → Relay S → m (Relay S)
  | 0, r => return r
  | steps + 1, r => do runAhead pull release steps (← r.work pull release)

theorem Holds.runAhead (h : Supplies pull Left) (steps : Nat) (hr : r.Holds Left keys) (st : σ) :
    ∃ r' st', r.runAhead pull release steps st = (r', st') ∧ r'.Holds Left keys := by
  induction steps generalizing r st with
  | zero => exact ⟨r, st, rfl, hr⟩
  | succ steps ih =>
    obtain ⟨r₁, st₁, hwork, hr₁⟩ := hr.work release h st
    obtain ⟨r₂, st₂, hrun, hr₂⟩ := ih hr₁ st₁
    refine ⟨r₂, st₂, ?_, hr₂⟩
    simp only [Relay.runAhead, bind, StateT.bind, hwork]
    exact hrun

end Relay

/-- A relay together with a schedule for its worker: the steps that it makes from one key that the
reader takes to the next attempt of the reader. -/
structure Paced (S : Type) where
  relay : Relay S
  pace : Nat → Nat

namespace Paced

variable {pull : S → StateM σ (Option Item × S)} (release : S → StateM σ Unit)

/-- The worker moves as it is scheduled, then the reader attempts to get the next key, and waits for
the worker if there is nothing yet. -/
def next (pull : S → StateM σ (Option Item × S)) (release : S → StateM σ Unit) (p : Paced S) :
    StateM σ (Option Item × Paced S) := do
  let r ← p.relay.runAhead pull release (p.pace 0)
  let (item, relay) ← r.await pull release 2
  return (item, { relay, pace := fun i => p.pace (i + 1) })

/-- Whatever the schedule is, a relay supplies what its source supplies. -/
theorem supplies_next (h : Supplies pull Left) :
    Supplies (Paced.next pull release) fun p => p.relay.Holds Left := by
  intro p keys hp st
  obtain ⟨r₁, st₁, hrun, hr₁⟩ := hp.runAhead release h (p.pace 0) st
  obtain ⟨r₂, st₂, hawait, hr₂⟩ := hr₁.await release h r₁.lag_le_two st₁
  refine ⟨{ relay := r₂, pace := fun i => p.pace (i + 1) }, st₂, ?_, hr₂⟩
  simp only [Paced.next, bind, StateT.bind, hrun, hawait]
  rfl

end Paced

end DocTree
