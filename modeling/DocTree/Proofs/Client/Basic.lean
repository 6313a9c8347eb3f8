import DocTree.Move
import DocTree.Proofs.Client.Operation
import DocTree.Stream.Basic

/-!
# Clients

A client holds cursors, scopes and iterators over shared state, and uses them in any order. Besides it
performs operations that leave nothing in hand. Someone may add revisions to the stores meanwhile, and
set their budgets.

## Main definitions

- `Holding`, `Holding.use` — what a client has in hand, and what it does with that
- `Acquisition`, `Acquisition.perform` — how something gets in hand
- `Client`, `Action`, `Client.run` — the client as a whole, step by step
-/

namespace DocTree

/-- What a client has in hand. A cursor by hand is kept after it was closed, too: it can still be asked
to move, and to close again. -/
inductive Holding where
  | cursor (store : Nat) (c : Cursor)
  /-- A cursor by hand that was closed. -/
  | closed (store : Nat) (c : Cursor)
  /-- A cursor on a node that is given back at the latest when it is dropped. -/
  | scope (store : Nat) (c : Cursor)
  | handles (it : AxisIterator)
  | nodes (axis : NodeAxis)
  | lenient (axis : LenientAxis)

/-- What can be done with something in hand. -/
inductive Use where
  | move (m : Move)
  | advance (w : Walk)
  | close
  | intoHandle
  | drop
  | next

/-- How something gets in hand. -/
inductive Acquisition where
  | openCursor (store revision : Nat)
  | openScope (store revision : Nat) (key : Int)
  | dispatch (d : Dispatcher) (origin : Handle) (axis : Axis) (test : NodeTest)
  | again (it : AxisIterator)
  | iterate (n : Node) (axis : Axis) (test : NodeTest)
  | nodesAgain (axis : NodeAxis)
  | iterateLenient (n : Node) (code : Nat) (test : NodeTest)

/-- Shared state, and what a client has in hand. -/
structure Client where
  registry : Registry
  holdings : List Holding := []

/-- A step of the client, or of someone who looks after the stores. -/
inductive Action where
  | acquire (a : Acquisition)
  | use (i : Nat) (u : Use)
  | operate (o : Operation)
  | commit (store : Nat) (c : Content)
  | refill (store : Nat) (budget : Int64)

namespace Holding

/-- Carry out a reading with a cursor of a store; the cursor afterwards. -/
def steer {σ α : Type} (store : Nat) (c : Cursor) (r : Reading σ α) (init : σ) :
    StateM Registry Cursor := do
  return (← Registry.onStore store (Store.perform c r init)).cursor

/-- Use something in hand; what is left of it. Nothing happens where the use does not fit. -/
def use : Use → Holding → StateM Registry (Option Holding)
  | .move m, cursor store c => do
    return some (cursor store (← steer store c (m.reading c.snapshot c.place) ()))
  | .move m, closed store c => do
    return some (closed store (← steer store c (m.reading c.snapshot c.place) ()))
  | .move m, scope store c => do
    return some (scope store (← steer store c (m.reading c.snapshot c.place) ()))
  | .advance w, scope store c => do
    return some (scope store (← steer store c (w.advance c.snapshot c.place) w))
  | .close, cursor store c | .close, closed store c => do
    let (_, c) ← Registry.onStore store (Store.close c)
    return some (closed store c)
  | .close, scope store c | .intoHandle, scope store c => do
    let _ ← Registry.onStore store (Store.close c)
    return none
  | .drop, scope store c => do
    Registry.onStore store (Store.release c)
    return none
  | .drop, handles it => do
    Registry.onStore it.dispatcher.store it.abandon
    return none
  | .drop, nodes axis => do
    axis.abandon
    return none
  | .drop, lenient axis => do
    axis.abandon
    return none
  | .next, handles it => return some (handles (← it.nextKey).2)
  | .next, nodes axis => return some (nodes (← axis.next).2)
  | .next, lenient axis => return some (lenient (← axis.next).2)
  | _, h => return some h

end Holding

/-- Get something in hand, if that does not fail. -/
def Acquisition.perform : Acquisition → Access Holding
  | openCursor store revision => do
    let c ← Registry.access store do return (← Store.openCursor revision).mapError .storage
    return .cursor store c
  | openScope store revision key => do
    return .scope store (← Registry.access store (Store.openAt revision key))
  | dispatch d origin axis test => do
    return .handles (← Registry.access d.store (d.dispatch origin axis test))
  | again it => return .handles (← Registry.access it.dispatcher.store it.again)
  | iterate n axis test => return .nodes ⟨← n.iterate axis test, n.document⟩
  | nodesAgain axis => return .nodes (← axis.again)
  | iterateLenient n code test => return .lenient (← n.iterateLenient code test)

namespace Client

/-- What one action makes of a client. What is used comes to the front. -/
def perform (client : Client) : Action → Client
  | .acquire a =>
    match a.perform.run client.registry with
    | (.ok h, registry) => ⟨registry, h :: client.holdings⟩
    | (.error _, registry) => { client with registry }
  | .use i u =>
    match client.holdings[i]? with
    | some h =>
      let (kept, registry) := h.use u client.registry
      ⟨registry, kept.toList ++ client.holdings.eraseIdx i⟩
    | none => client
  | .operate o => { client with registry := (o.perform.run client.registry).2 }
  | .commit store c =>
    { client with registry := (Registry.onStore store (Store.commit c) client.registry).2 }
  | .refill store budget =>
    { client with
      registry := (Registry.onStore store
        (modify fun s => { s with meter := s.meter.refill budget }) client.registry).2 }

/-- What a sequence of actions makes of a client. -/
def run (client : Client) (actions : List Action) : Client := actions.foldl perform client

end Client

end DocTree
