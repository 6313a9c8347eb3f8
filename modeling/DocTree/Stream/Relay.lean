import DocTree.Error

/-!
# Relays

A relay is an axis that a worker runs ahead of its reader. The worker pulls keys from a source and
puts them into a queue of bounded length, where the reader takes them. The worker stops after an
error, at the end of the source, and when the reader has gone; then it gives the source up. A queue
of length zero is a hand-over: the reader takes what the worker offers.

`Relay.work` and `Relay.receive` are the steps that the two can make in any order. `Relay.next` is
the order in which the worker moves only when the reader waits.

## Main definitions

- `Relay` — worker, queue and reader
- `Relay.work`, `Relay.receive` — one step of the worker, one attempt of the reader
- `Relay.next`, `Relay.stop` — reading on, and going away
-/

namespace DocTree

/-- What a source of keys delivers before it ends. -/
abbrev Item := Except AccessError Int

/-- What the worker of a relay is doing. -/
inductive Worker (S : Type) where
  /-- About to pull the next item. -/
  | ready (source : S)
  /-- About to put an item into the queue. -/
  | offering (item : Item) (source : S)
  /-- About to give up the source. -/
  | leaving (source : S)
  | finished

/-- A source of keys that is read ahead. -/
structure Relay (S : Type) where
  worker : Worker S
  capacity : Nat
  queue : List Item := []
  /-- Whether the reader has not gone away or seen the end. -/
  attached : Bool := true

/-- What the reader of a relay gets. -/
inductive Received where
  | item (item : Item)
  | ended
  /-- There is nothing yet. -/
  | waiting

namespace Relay

variable {S : Type} {m : Type → Type} [Monad m]

/-- A relay that has not been read yet. -/
def start (source : S) (capacity : Nat) : Relay S := ⟨.ready source, capacity, [], true⟩

/-- What the worker does after an item has been taken from it. -/
def afterSending (item : Item) (source : S) : Worker S :=
  match item with
  | .ok _ => .ready source
  | .error _ => .leaving source

/-- One step of the worker, for a source that is advanced by `pull` and given up by `release`. With
no room in the queue it does nothing. -/
def work (pull : S → m (Option Item × S)) (release : S → m Unit) (r : Relay S) :
    m (Relay S) := do
  match r.worker with
  | .ready source =>
    match ← pull source with
    | (some item, source) => return { r with worker := .offering item source }
    | (none, source) => return { r with worker := .leaving source }
  | .offering item source =>
    if !r.attached then return { r with worker := .leaving source }
    else if r.queue.length < r.capacity then
      return { r with worker := afterSending item source, queue := r.queue ++ [item] }
    else return r
  | .leaving source =>
    release source
    return { r with worker := .finished }
  | .finished => return r

/-- One attempt of the reader. -/
def receive (r : Relay S) : Received × Relay S :=
  if !r.attached then (.ended, r)
  else
    match r.queue, r.worker with
    | item :: queue, _ => (.item item, { r with queue })
    | [], .offering item source =>
      if r.capacity = 0 then (.item item, { r with worker := afterSending item source })
      else (.waiting, r)
    | [], .finished => (.ended, { r with attached := false })
    | [], _ => (.waiting, r)

/-- Let the worker move until the reader gets something, for so many steps at most. -/
def await (pull : S → m (Option Item × S)) (release : S → m Unit) :
    (steps : Nat) → Relay S → m (Option Item × Relay S)
  | steps, r => do
    match r.receive, steps with
    | (.item item, r), _ => return (some item, r)
    | (.ended, r), _ => return (none, r)
    | (.waiting, r), 0 => return (none, r)
    | (.waiting, r), steps + 1 => await pull release steps (← r.work pull release)

/-- Let a worker that is about to leave do so. -/
def settle (pull : S → m (Option Item × S)) (release : S → m Unit) (r : Relay S) : m (Relay S) :=
  match r.worker with
  | .leaving _ => r.work pull release
  | _ => pure r

/-- The next item, none at the end. Two steps of the worker always bring something. -/
def next (pull : S → m (Option Item × S)) (release : S → m Unit) (r : Relay S) :
    m (Option Item × Relay S) := do
  let (item, r) ← r.await pull release 2
  return (item, ← r.settle pull release)

/-- The reader goes away. A worker that has not finished pulls once more, finds nobody to take the
item and gives up its source. -/
def stop (pull : S → m (Option Item × S)) (release : S → m Unit) (r : Relay S) : m Unit := do
  let r := { r with attached := false, queue := [] }
  let r ← r.work pull release
  let r ← r.work pull release
  let _ ← r.work pull release

end Relay

end DocTree
