import DocTree.Proofs.Client.Lending
import DocTree.Proofs.Store.Budget

/-!
# Budgets that are overdrawn

A store with a budget is known by any number of copies, which share the revisions and what is left of
the budget. What happens to an operation beyond the budget is up to the copy through which it is asked
for, and a cursor keeps to the copy that lent it. Lending a cursor is an operation, and so is each move
for which the storage has to be asked.

An operation that is granted its budget is not told from one on a store without a budget. One that is
refused moves no cursor. But what is left of a budget is a 64-bit word, from which refused operations
take as well. Below the least word there comes the greatest one, and then operations are granted again.
So operations stay refused just as long as no more than the budget and `2 ^ 63 + 1` are asked for.

## Main definitions

- `Rationed`, `Rationed.Request`, `Rationed.run` — a store with a budget, request by request
- `Rationed.payer` — the operation that a request asks for
- `Rationed.verdicts` — which of the operations are granted
- `Rationed.bare` — the same without a budget

## Main statements

- `Rationed.serve_of_granted`, `Rationed.serve_of_refused` — one request
- `Rationed.verdicts_refill` — all the operations after a budget was set
- `Rationed.refusals_after_refill` — what is refused, for how long, and what goes before it
-/

namespace DocTree

namespace Meter

variable {m : Meter}

/-- A refused operation is paid for all the same. -/
theorem spend_of_refused (h : m.grants = false) :
    m.spend = (match m.fault with
      | .backend => .error exhausted
      | .missing => .ok false, m.after 1) := by
  refine Prod.ext ?_ m.spend_snd
  simp only [spend, h]
  rfl

/-- A word that is counted down stays at zero or below for as long as it is not counted down below the
least word. -/
theorem left_stays_iff {x : Int} (hlow : -2 ^ 63 ≤ x) (hhigh : x < 2 ^ 63) (n : Nat) :
    (∀ i j : Nat, i ≤ j → j < n → (x - i).bmod (2 ^ 64) ≤ 0 → (x - j).bmod (2 ^ 64) ≤ 0) ↔
      (n : Int) ≤ x + 2 ^ 63 + 1 := by
  constructor
  · intro hstays
    by_contra hn
    -- Here the word is the least one, and one step later the greatest one.
    obtain ⟨i, hi⟩ : ∃ i : Nat, (i : Int) = x + 2 ^ 63 := ⟨(x + 2 ^ 63).toNat, by omega⟩
    have hleast : (x - i).bmod (2 ^ 64) = -2 ^ 63 := by
      rw [show x - (i : Int) = -2 ^ 63 by omega]
      decide
    have hgreatest : (x - (i + 1 : Nat)).bmod (2 ^ 64) = 2 ^ 63 - 1 := by
      rw [show x - ((i + 1 : Nat) : Int) = -2 ^ 63 - 1 by omega]
      decide
    have := hstays i (i + 1) (Nat.le_succ i) (by omega) (by omega)
    omega
  · intro hn i j hij hj hi
    rw [Int.bmod_eq_of_le (by omega) (by omega)] at hi ⊢
    omega

end Meter

/-- Whether the storage has to be asked for a move. -/
def Move.asks (m : Move) (t : Snapshot) (here : Nat) : Bool :=
  match (m.reading t here : Reading Unit Bool) with
  | .move _ _ => true
  | _ => false

namespace Move

variable {m : Move} {t : Snapshot} {here : Nat}

theorem reading_of_asks (h : m.asks t here = true) :
    m.reading t here = (.ask (m.target t here) : Reading Unit Bool) := by
  rcases m.reading_eq t here with hask | ⟨-, hdone⟩
  · exact hask
  · rw [asks, hdone] at h
    cases h

theorem reading_of_not_asks (h : m.asks t here = false) :
    m.reading t here = (.done false : Reading Unit Bool) := by
  rcases m.reading_eq t here with hask | ⟨-, hdone⟩
  · rw [asks, hask] at h
    cases h
  · exact hdone

end Move

namespace Cursor

variable {c : Cursor} {meter : Meter}

/-- A move that is granted is made as if there were no budget. -/
theorem run_move_of_granted (c : Cursor) (m : Move)
    (h : m.asks c.snapshot c.place = true → meter.grants = true) :
    (m.reading c.snapshot c.place).run () c meter =
      { (m.reading c.snapshot c.place).run () c {} with
        meter := meter.after (m.asks c.snapshot c.place).toNat } := by
  cases hasks : m.asks c.snapshot c.place with
  | false =>
    rw [Move.reading_of_not_asks hasks]
    rfl
  | true =>
    have hgrants : meter.GrantsNext 1 := fun i hi => by
      obtain rfl := Nat.lt_one_iff.1 hi
      exact h hasks
    have hfree : ({} : Meter).GrantsNext 1 := Meter.grantsNext_of_unlimited rfl 1
    rw [Move.reading_of_asks hasks]
    simp only [Reading.ask, Reading.run, Cursor.request_of_grantsNext hgrants,
      Cursor.request_of_grantsNext hfree]
    by_cases hopen : c.isOpen = true
    · rw [if_pos hopen]
      cases m.target c.snapshot c.place <;> rfl
    · rw [if_neg hopen]
      rfl

/-- A move is paid for if the storage has to be asked for it. -/
theorem meter_run_move (c : Cursor) (m : Move) (meter : Meter) :
    ((m.reading c.snapshot c.place).run () c meter).meter =
      meter.after (m.asks c.snapshot c.place).toNat := by
  cases hasks : m.asks c.snapshot c.place with
  | false =>
    rw [Move.reading_of_not_asks hasks]
    rfl
  | true =>
    rw [Move.reading_of_asks hasks]
    show (Reading.run _ () c meter).meter = meter.after 1
    rw [← c.meter_request (m.target c.snapshot c.place) meter]
    simp only [Reading.ask, Reading.run]
    rcases c.request (m.target c.snapshot c.place) meter with ⟨_ | _ | c', m'⟩ <;> rfl

/-- A move that is refused leaves the cursor where it is. -/
theorem run_move_of_refused {m : Move} (hasks : m.asks c.snapshot c.place = true)
    (hgrants : meter.grants = false) :
    (m.reading c.snapshot c.place).run () c meter =
      ⟨match meter.fault with
        | .backend => .error (.storage Meter.exhausted)
        | .missing => .ok false, (), c, meter.after 1⟩ := by
  rw [Move.reading_of_asks hasks]
  simp only [Reading.ask, Reading.run, Cursor.request, Meter.spend_of_refused hgrants]
  cases meter.fault <;> rfl

end Cursor

/-- The store as it is seen through a copy: what is beyond the budget fails as that copy says. -/
def Store.through (f : Fault) (s : Store) : Store := { s with meter := { s.meter with fault := f } }

/-- A store with a budget that is known by any number of copies, and the cursors that it has lent. -/
structure Rationed where
  store : Store
  /-- What each of the copies does with an operation beyond the budget. -/
  copies : List Fault
  /-- The cursors in the order in which they were lent, each with what it does beyond the budget. -/
  cursors : List (Fault × Cursor) := []

namespace Rationed

open Lending (Answer)

/-- What a user can ask for. Revisions are committed to the store itself. -/
inductive Request where
  /-- One more copy, which may do something else beyond the budget. -/
  | copy (copy : Nat) (fault? : Option Fault)
  | commit (c : Content)
  | openCursor (copy revision : Nat)
  | move (cursor : Nat) (m : Move)
  | close (cursor : Nat)

/-- Answer a request. -/
def serve (q : Request) (l : Rationed) : Answer × Rationed :=
  match q with
  | .copy i fault? =>
    match l.copies[i]? with
    | none => (.unknown, l)
    | some f => (.copied, { l with copies := l.copies ++ [fault?.getD f] })
  | .commit c =>
    let (revision, store) := Store.commit c l.store
    (.committed revision, { l with store })
  | .openCursor i revision =>
    match l.copies[i]? with
    | none => (.unknown, l)
    | some f =>
      match Store.openCursor revision (l.store.through f) with
      | (.error e, store) => (.opened (.error e), { l with store })
      | (.ok c, store) => (.opened (.ok ()), { l with store, cursors := l.cursors ++ [(f, c)] })
  | .move j m =>
    match l.cursors[j]? with
    | none => (.unknown, l)
    | some (f, c) =>
      let (run, store) := Store.perform c (m.reading c.snapshot c.place) () (l.store.through f)
      (.moved run.outcome, { l with store, cursors := l.cursors.set j (f, run.cursor) })
  | .close j =>
    match l.cursors[j]? with
    | none => (.unknown, l)
    | some (f, c) =>
      let ((outcome, c), store) := Store.close c l.store
      (.closed outcome, { l with store, cursors := l.cursors.set j (f, c) })

/-- Answer one request after the other. -/
def run : List Request → Rationed → List Answer × Rationed
  | [], l => ([], l)
  | q :: qs, l =>
    let (answer, l) := serve q l
    let (answers, l) := run qs l
    (answer :: answers, l)

/-- Set a budget. -/
def refill (l : Rationed) (b : Int64) : Rationed :=
  { l with store := { l.store with meter := l.store.meter.refill b } }

/-- The same store, copies and cursors, without a budget. -/
def bare (l : Rationed) : Rationed := { l with store := { l.store with meter := {} } }

/-- If a request asks for an operation, what happens to it beyond the budget. -/
def payer (l : Rationed) : Request → Option Fault
  | .openCursor i _ => l.copies[i]?
  | .move j m =>
    match l.cursors[j]? with
    | none => none
    | some (f, c) => if m.asks c.snapshot c.place then some f else none
  | _ => none

/-- For each operation that is asked for by some requests, whether it is granted its budget. -/
def verdicts : List Request → Rationed → List Bool
  | [], _ => []
  | q :: qs, l =>
    ((l.payer q).map fun _ => l.store.meter.grants).toList ++ verdicts qs (serve q l).2

/-- What is answered to a request that is refused its operation, if it does not go ahead. -/
def refusal : Fault → Request → Option Answer
  | .backend, .openCursor _ _ => some (.opened (.error Meter.exhausted))
  | .backend, .move _ _ => some (.moved (.error (.storage Meter.exhausted)))
  | .missing, .move _ _ => some (.moved (.ok false))
  | _, _ => none

variable {l l₁ l₂ : Rationed} {q : Request} {f : Fault} {b : Int64}

/-- A request is answered as without a budget, and does the same. -/
def GoesAhead (l : Rationed) (q : Request) : Prop :=
  (serve q l).1 = (serve q l.bare).1 ∧ (serve q l).2.bare = (serve q l.bare).2.bare

/-- A cursor that is lent is the same with or without a budget. -/
theorem goesAhead_openCursor {i revision : Nat} (hf : l.copies[i]? = some f) {moved : Bool}
    (hspend : (l.store.through f).meter.spend.1 = .ok moved) :
    l.GoesAhead (.openCursor i revision) := by
  have hspend' : (l.store.through f).meter.spend = (.ok moved, (l.store.through f).meter.after 1) :=
    Prod.ext hspend rfl
  have hfree : (l.bare.store.through f).meter.spend
      = (.ok true, (l.bare.store.through f).meter.after 1) := rfl
  have hf' : l.bare.copies[i]? = some f := hf
  simp only [GoesAhead, serve, hf, hf', Store.openCursor_apply, hspend', hfree]
  have hview : (l.bare.store.through f).view? revision = (l.store.through f).view? revision := rfl
  rw [hview]
  cases (l.store.through f).view? revision <;> exact ⟨rfl, rfl⟩

/-- A request that is not refused anything is answered as without a budget. -/
theorem serve_of_granted (h : ∀ f, l.payer q = some f → l.store.meter.grants = true) :
    l.GoesAhead q := by
  cases q with
  | copy i fault? =>
    show (serve (.copy i fault?) l).1 = _ ∧ _
    have hbare : l.bare.copies[i]? = l.copies[i]? := rfl
    simp only [serve, hbare]
    cases l.copies[i]? <;> trivial
  | commit c => exact ⟨rfl, rfl⟩
  | openCursor i revision =>
    cases hf : l.copies[i]? with
    | none =>
      have hf' : l.bare.copies[i]? = none := hf
      simp only [GoesAhead, serve, hf, hf']
      exact ⟨trivial, rfl⟩
    | some f =>
      have hgrants : (l.store.through f).meter.grants = true := h f hf
      have hspend : (l.store.through f).meter.spend.1 = .ok true := by
        simp only [Meter.spend, hgrants, if_true]
      exact goesAhead_openCursor hf hspend
  | move j m =>
    cases hj : l.cursors[j]? with
    | none =>
      have hj' : l.bare.cursors[j]? = none := hj
      simp only [GoesAhead, serve, hj, hj']
      exact ⟨trivial, rfl⟩
    | some x =>
      obtain ⟨f, c⟩ := x
      have hj' : l.bare.cursors[j]? = some (f, c) := hj
      have hgrants : m.asks c.snapshot c.place = true → (l.store.through f).meter.grants = true :=
        fun hasks => h f (by simp only [payer, hj, hasks, if_true])
      have hrun := c.run_move_of_granted m hgrants
      have hgrants' : m.asks c.snapshot c.place = true →
          (l.bare.store.through f).meter.grants = true := fun _ => rfl
      have hfree := c.run_move_of_granted m hgrants'
      simp only [GoesAhead, serve, hj, hj', Store.perform_apply, hrun, hfree]
      exact ⟨trivial, rfl⟩
  | close j =>
    cases hj : l.cursors[j]? with
    | none =>
      have hj' : l.bare.cursors[j]? = none := hj
      simp only [GoesAhead, serve, hj, hj']
      exact ⟨trivial, rfl⟩
    | some x =>
      obtain ⟨f, c⟩ := x
      have hj' : l.bare.cursors[j]? = some (f, c) := hj
      simp only [GoesAhead, serve, hj, hj', Store.close_apply]
      cases c.isOpen <;> exact ⟨rfl, rfl⟩

/-- A request that is refused its operation either fails, and changes nothing but what is left of the
budget, or it goes ahead. -/
theorem serve_of_refused (hf : l.payer q = some f) (hgrants : l.store.meter.grants = false) :
    match refusal f q with
    | some answer => (serve q l).1 = answer ∧ (serve q l).2.bare = l.bare
    | none => l.GoesAhead q := by
  cases q with
  | openCursor i revision =>
    change l.copies[i]? = some f at hf
    have hgrants' : (l.store.through f).meter.grants = false := hgrants
    cases f with
    | backend =>
      have hspend : (l.store.through .backend).meter.spend
          = (.error Meter.exhausted, (l.store.through .backend).meter.after 1) :=
        Meter.spend_of_refused hgrants'
      simp only [refusal, serve, hf, Store.openCursor_apply, hspend]
      exact ⟨trivial, rfl⟩
    | missing =>
      exact goesAhead_openCursor hf (congrArg Prod.fst (Meter.spend_of_refused hgrants'))
  | move j m =>
    obtain ⟨c, hj, hasks⟩ : ∃ c, l.cursors[j]? = some (f, c) ∧ m.asks c.snapshot c.place = true := by
      simp only [payer] at hf
      split at hf
      · cases hf
      · next f' c hj =>
        obtain ⟨hasks, hf⟩ := Option.ite_none_right_eq_some.1 hf
        exact ⟨c, Option.some.inj hf ▸ hj, hasks⟩
    have hsame : l.cursors.set j (f, c) = l.cursors := by
      obtain ⟨hlt, hget⟩ := List.getElem?_eq_some_iff.1 hj
      rw [← hget, List.set_getElem_self]
    have hgrants' : (l.store.through f).meter.grants = false := hgrants
    have hrun := Cursor.run_move_of_refused hasks hgrants'
    have hserve : (serve (.move j m) l).2.bare = l.bare := by
      simp only [serve, hj, Store.perform_apply, hrun, hsame]
      rfl
    cases f <;> refine ⟨?_, hserve⟩ <;> simp only [serve, hj, Store.perform_apply, hrun] <;> rfl
  | copy => cases hf
  | commit => cases hf
  | close => cases hf

/-- Each operation is paid for, granted or not. -/
theorem meter_serve (q : Request) (l : Rationed) :
    (serve q l).2.store.meter.budget? = l.store.meter.budget? ∧
      (serve q l).2.store.meter.used = l.store.meter.used + (l.payer q).isSome.toNat := by
  cases q with
  | copy i fault? =>
    simp only [serve]
    cases l.copies[i]? <;> exact ⟨rfl, rfl⟩
  | commit c => exact ⟨rfl, rfl⟩
  | openCursor i revision =>
    cases hf : l.copies[i]? with
    | none =>
      simp only [serve, payer, hf]
      exact ⟨trivial, rfl⟩
    | some f =>
      have hpaid := Store.meter_openCursor (l.store.through f) revision
      have hstore : (serve (.openCursor i revision) l).2.store =
          (Store.openCursor revision (l.store.through f)).2 := by
        simp only [serve, hf]
        split
        · next h => rw [h]
        · next h => rw [h]
      rw [hstore, hpaid, payer, hf]
      exact ⟨rfl, rfl⟩
  | move j m =>
    simp only [serve, payer]
    rcases l.cursors[j]? with _ | ⟨f, c⟩
    · exact ⟨rfl, rfl⟩
    · dsimp only
      rw [Store.perform_apply, c.meter_run_move m]
      cases m.asks c.snapshot c.place <;> exact ⟨rfl, rfl⟩
  | close j =>
    simp only [serve]
    rcases l.cursors[j]? with _ | ⟨f, c⟩
    · exact ⟨rfl, rfl⟩
    · simp only [Store.close_apply]
      cases c.isOpen <;> exact ⟨rfl, rfl⟩

theorem verdicts_cons (q : Request) (qs : List Request) (l : Rationed) :
    verdicts (q :: qs) l =
      ((l.payer q).map fun _ => l.store.meter.grants).toList ++ verdicts qs (serve q l).2 :=
  rfl

/-- The operations are granted or refused by what is left, and each of them leaves one less. -/
theorem verdicts_eq (hb : l.store.meter.budget? = some b) (qs : List Request) :
    verdicts qs l = (List.range (verdicts qs l).length).map fun (k : Nat) =>
      decide (0 < (b.toInt - (l.store.meter.used + k : Nat)).bmod (2 ^ 64)) := by
  induction qs generalizing l with
  | nil => rfl
  | cons q qs ih =>
    obtain ⟨hbudget, hused⟩ := meter_serve q l
    have hrest := ih (hbudget.trans hb)
    rw [hused] at hrest
    cases hpayer : l.payer q with
    | none =>
      rw [hpayer] at hrest
      have hcons : verdicts (q :: qs) l = verdicts qs (serve q l).2 := by
        rw [verdicts_cons, hpayer]
        rfl
      rw [hcons]
      exact hrest
    | some f =>
      rw [hpayer] at hrest
      have hfirst : l.store.meter.grants =
          decide (0 < (b.toInt - (l.store.meter.used + 0 : Nat)).bmod (2 ^ 64)) := by
        rw [Bool.eq_iff_iff, decide_eq_true_iff]
        exact Meter.grants_iff_left hb
      have hcons : verdicts (q :: qs) l = l.store.meter.grants :: verdicts qs (serve q l).2 := by
        rw [verdicts_cons, hpayer]
        rfl
      rw [hcons, List.length_cons, List.range_succ_eq_map, List.map_cons, List.map_map, ← hfirst]
      refine congrArg _ (hrest.trans ?_)
      apply List.map_congr_left
      intro k _
      have hsum : l.store.meter.used + (some f).isSome.toNat + k = l.store.meter.used + (k + 1) := by
        rw [Nat.add_assoc, Nat.add_comm k 1]
        rfl
      show decide _ = decide _
      rw [hsum]

/-- Whether the operation with a given number is granted, after a budget was set. -/
theorem verdicts_refill (l : Rationed) (b : Int64) (qs : List Request) {i : Nat} {granted : Bool} :
    (verdicts qs (l.refill b))[i]? = some granted ↔ i < (verdicts qs (l.refill b)).length ∧
      decide (0 < (b.toInt - i).bmod (2 ^ 64)) = granted := by
  have hall : verdicts qs (l.refill b) = (List.range (verdicts qs (l.refill b)).length).map
      fun (k : Nat) => decide (0 < (b.toInt - (0 + k : Nat)).bmod (2 ^ 64)) :=
    verdicts_eq (b := b) rfl qs
  rw [congrArg (·[i]?) hall, List.getElem?_map]
  by_cases hi : i < (verdicts qs (l.refill b)).length
  · rw [List.getElem?_range hi]
    simp only [hi, true_and, Option.map_some, Option.some.injEq, Nat.zero_add]
  · rw [List.getElem?_eq_none (by simpa using hi)]
    simp [hi]

theorem run_cons (q : Request) (qs : List Request) (l : Rationed) :
    run (q :: qs) l =
      ((serve q l).1 :: (run qs (serve q l).2).1, (run qs (serve q l).2).2) :=
  rfl

/-- As long as no operation is refused, requests are answered as without a budget, and do the same. -/
theorem run_of_granted (hsame : l₁.bare = l₂.bare) (hfree : l₂.store.meter.budget? = none)
    (qs : List Request) (hgranted : false ∉ verdicts qs l₁) :
    (run qs l₁).1 = (run qs l₂).1 ∧ (run qs l₁).2.bare = (run qs l₂).2.bare := by
  induction qs generalizing l₁ l₂ with
  | nil => exact ⟨rfl, hsame⟩
  | cons q qs ih =>
    rw [verdicts_cons, List.mem_append, not_or] at hgranted
    have hfirst : l₁.GoesAhead q := by
      apply serve_of_granted
      intro f hf
      by_contra hrefused
      apply hgranted.1
      rw [hf, eq_false_of_ne_true hrefused]
      exact List.mem_singleton_self false
    have hother : l₂.GoesAhead q := by
      apply serve_of_granted
      intro f hf
      rw [Meter.grants, hfree]
    obtain ⟨hanswers, hlater⟩ := ih
      (hfirst.2.trans ((congrArg (fun l => (serve q l).2.bare) hsame).trans hother.2.symm))
      ((meter_serve q l₂).1.trans hfree) hgranted.2
    have hanswer : (serve q l₁).1 = (serve q l₂).1 :=
      hfirst.1.trans ((congrArg (fun l => (serve q l).1) hsame).trans hother.1.symm)
    rw [run_cons, run_cons]
    exact ⟨List.cons_eq_cons.2 ⟨hanswer, hanswers⟩, hlater⟩

/-- Whatever is asked of a store after its budget was set:

* Once an operation is refused, all later ones are refused as well, if and only if no more operations
  are asked for than the budget and `2 ^ 63 + 1`.
* A request whose operation is refused fails as the copy says, and nothing has changed then but what is
  left of the budget. Only lending a cursor goes ahead, if nodes are missing beyond the budget.
* As long as nothing is refused, the answers are those of the store without a budget, and so are its
  revisions and all cursors. -/
theorem refusals_after_refill (l : Rationed) (b : Int64) (qs : List Request) :
    let start := l.refill b
    ((∀ i j : Nat, i ≤ j → (verdicts qs start)[i]? = some false →
        (verdicts qs start)[j]? ≠ some true) ↔
      ((verdicts qs start).length : Int) ≤ b.toInt + 2 ^ 63 + 1) ∧
    (∀ before q after f, qs = before ++ q :: after →
      let reached := (run before start).2
      reached.payer q = some f → reached.store.meter.grants = false →
      match refusal f q with
      | some answer => (serve q reached).1 = answer ∧ (serve q reached).2.bare = reached.bare
      | none => reached.GoesAhead q) ∧
    ∀ before after, qs = before ++ after → false ∉ verdicts before start →
      (run before start).1 = (run before l.bare).1 ∧
        (run before start).2.bare = (run before l.bare).2.bare := by
  intro start
  refine ⟨?stays, ?refused, ?granted⟩
  case stays =>
    have hverdict : ∀ {i : Nat} {granted : Bool}, (verdicts qs start)[i]? = some granted ↔
        i < (verdicts qs start).length ∧ decide (0 < (b.toInt - i).bmod (2 ^ 64)) = granted :=
      verdicts_refill l b qs
    rw [← Meter.left_stays_iff b.le_toInt b.toInt_lt]
    simp only [hverdict, ne_eq, not_and, decide_eq_false_iff_not, decide_eq_true_iff, Int.not_lt]
    constructor
    · intro hstays i j hij hj hi
      exact hstays i j hij ⟨Nat.lt_of_le_of_lt hij hj, hi⟩ hj
    · intro hstays i j hij hi hj
      exact hstays i j hij hj hi.2
  case refused =>
    intro before q after f _ reached hpayer hrefused
    exact serve_of_refused hpayer hrefused
  case granted =>
    intro before after _ hgranted
    have hsame : start.bare = l.bare.bare := rfl
    exact run_of_granted hsame rfl before hgranted

/-- A store with one element, known by one copy. -/
def smallRationed : Rationed :=
  { store := { revisions := #[.ofContent (.element { name := .ofLocal "a" } .nil .nil)] }
    copies := [.backend] }

/-- A budget of two operations, which a cursor and its first move take. The second move fails and
leaves the cursor where it is, and so does everything that comes after it. -/
theorem refusals_after_refill_two :
    let start := smallRationed.refill 2
    let reached := (run [.openCursor 0 0, .move 0 .firstChild] start).2
    (∀ qs, (verdicts qs start).length ≤ 2 ^ 63 →
      ∀ i j : Nat, i ≤ j → (verdicts qs start)[i]? = some false →
        (verdicts qs start)[j]? ≠ some true) ∧
    verdicts [.openCursor 0 0, .move 0 .firstChild, .move 0 .parent] start = [true, true, false] ∧
    (serve (.move 0 .parent) reached).1 = .moved (.error (.storage Meter.exhausted)) ∧
    (serve (.move 0 .parent) reached).2.bare = reached.bare ∧
    reached.bare = (run [.openCursor 0 0, .move 0 .firstChild] smallRationed.bare).2.bare := by
  intro start reached
  have hverdicts : verdicts [.openCursor 0 0, .move 0 .firstChild, .move 0 .parent] start
      = [true, true, false] := by decide
  obtain ⟨-, hrefused, hgranted⟩ := refusals_after_refill smallRationed 2
    [.openCursor 0 0, .move 0 .firstChild, .move 0 .parent]
  obtain ⟨hanswer, hsame⟩ := hrefused [.openCursor 0 0, .move 0 .firstChild] (.move 0 .parent) []
    .backend rfl rfl rfl
  refine ⟨fun qs hqs => ?_, hverdicts, hanswer, hsame, ?_⟩
  · have htwo : (2 : Int64).toInt = 2 := rfl
    have hlength : ((verdicts qs start).length : Int) ≤ (2 : Int64).toInt + 2 ^ 63 + 1 := by
      rw [htwo]
      omega
    exact (refusals_after_refill smallRationed 2 qs).1.2 hlength
  · exact (hgranted [.openCursor 0 0, .move 0 .firstChild] [.move 0 .parent] rfl (by decide)).2

/-- With the least budget the first cursor is refused, and the second one is lent. -/
theorem granted_after_refusal_least :
    let start := smallRationed.refill Int64.minValue
    verdicts [.openCursor 0 0, .openCursor 0 0] start = [false, true] ∧
      (run [.openCursor 0 0, .openCursor 0 0] start).1 =
        [.opened (.error Meter.exhausted), .opened (.ok ())] :=
  ⟨rfl, rfl⟩

end Rationed

end DocTree
