import DocTree.Proofs.Axis.Dispatch
import DocTree.Proofs.Store.Budget

/-!
# Axes under a budget

An iterator without a budget delivers each handle after a certain number of operations, and comes to
its end after another. Under a budget beyond which operations fail it delivers the handles for which
the budget is enough; then it ends, or fails if the end is out of reach. Nothing that was begun with
the last operations shows, and nothing is tried again.

## Main definitions

- `AxisIterator.Timed` — handles with the number of operations after which they are delivered
- `AxisIterator.pulls` — the first answers of an iterator
- `AxisIterator.answersWithin` — what a budget leaves of the answers

## Main statements

- `AxisIterator.Timed.pulls_limit` — the answers of an iterator under a budget
- `Dispatcher.dispatch_within_budget` — dispatching and iterating under a budget
-/

namespace DocTree

open Store

variable {b : Int64}

namespace Dispatcher

theorem breaksOff_dispatch (hb : 0 ≤ b) (d : Dispatcher) (origin : Handle) (axis : Axis)
    (test : NodeTest) : BreaksOff b (d.dispatch origin axis test) Exhausted := by
  unfold dispatch
  dsimp only
  split
  · exact breaksOff_pure _ _
  · exact breaksOff_pure _ _
  · refine (breaksOff_openAt hb _ _).bind ?_ ?_
    · intro opened
      cases opened with
      | error e => exact breaksOff_pure _ _
      | ok c => exact breaksOff_pure _ _
    · rintro _ rfl
      exact ensures_pure rfl
  · refine (breaksOff_openAt hb _ _).bind ?_ ?_
    · intro opened
      cases opened with
      | error e => exact breaksOff_pure _ _
      | ok c =>
        by_cases hparent : (c.snapshot.firstChild? c.place).isSome
        · simp only [hparent, if_true]
          exact breaksOff_pure _ _
        · simp only [hparent]
          exact (breaksOff_release c fun _ => False).bind (fun _ => breaksOff_pure _ _)
            fun _ h => h.elim
    · rintro _ rfl
      exact ensures_pure rfl

end Dispatcher

namespace AxisIterator

variable {it : AxisIterator} {pool : NamePool} {s : Store} {timeline : List (Handle × Nat)}
  {tEnd : Nat}

/-- An iterator that breaks off tells the error and is exhausted. -/
theorem breaksOff_next (hb : 0 ≤ b) (it : AxisIterator) (pool : NamePool) :
    BreaksOff b (it.next pool) fun answer =>
      answer.1 = some (.error (.storage Meter.exhausted)) ∧ answer.2.progress = .exhausted := by
  unfold next
  rcases it.progress with _ | _ | ⟨walk, c⟩
  · exact breaksOff_pure _ _
  · exact breaksOff_pure _ _
  · refine breaksOff_perform_bind hb c _ () (fun _ _ => rfl) ?_ ?_
    · intro run
      rcases run.outcome with e | _ | walk'
      · exact (breaksOff_release _ fun _ => False).bind (fun _ => breaksOff_pure _ _)
          fun _ h => h.elim
      · exact (breaksOff_release _ fun _ => False).bind (fun _ => breaksOff_pure _ _)
          fun _ h => h.elim
      · exact breaksOff_pure _ _
    · intro run hfailed
      have houtcome : run.outcome = .error (.storage Meter.exhausted) := hfailed
      rw [houtcome]
      exact (ensures_true _).bind fun _ _ => ensures_pure ⟨rfl, rfl⟩

/-- Asking the iterator for the next node until there is none, with no error: what it delivers, and
when. Times are numbers of operations on the store. -/
inductive Timed (pool : NamePool) : AxisIterator → Store → List (Handle × Nat) → Nat → Prop where
  | stop {it it' : AxisIterator} {s s' : Store} (h : it.next pool s = ((none, it'), s')) :
      Timed pool it s [] s'.meter.used
  | item {it it' : AxisIterator} {s s' : Store} {x : Handle} {timeline : List (Handle × Nat)}
      {tEnd : Nat} (h : it.next pool s = ((some (.ok x), it'), s'))
      (rest : Timed pool it' s' timeline tEnd) :
      Timed pool it s ((x, s'.meter.used) :: timeline) tEnd

/-- An iterator that comes to its end delivers each handle at some time. -/
theorem Drains.exists_timed {hs : List Handle} {s' : Store} (h : it.Drains pool s hs s') :
    ∃ timeline, it.Timed pool s timeline s'.meter.used ∧ timeline.map Prod.fst = hs := by
  induction h with
  | stop h => exact ⟨[], .stop h, rfl⟩
  | item h rest ih =>
    obtain ⟨timeline, htimed, hmap⟩ := ih
    exact ⟨_, .item h htimed, by rw [List.map_cons, hmap]⟩

/-- The first `n` answers of an iterator. -/
def pulls (pool : NamePool) : Nat → AxisIterator → Store →
    List (Option (Except AccessError Handle))
  | 0, _, _ => []
  | n + 1, it, s =>
    let ((answer, it'), s') := it.next pool s
    answer :: pulls pool n it' s'

/-- The answers for which a budget is enough, up to the last one that is not that there is no more:
an error, if the end is beyond the budget. -/
def answersWithin (b : Int64) (timeline : List (Handle × Nat)) (tEnd : Nat) :
    List (Option (Except AccessError Handle)) :=
  (timeline.filter fun x => (x.2 : Int) ≤ b.toInt).map (fun x => some (.ok x.1)) ++
    if b.toInt < tEnd then [some (.error (.storage Meter.exhausted))] else []

theorem pulls_succ {answer : Option (Except AccessError Handle)} {it' : AxisIterator} {s' : Store}
    (h : it.next pool s = ((answer, it'), s')) (n : Nat) :
    it.pulls pool (n + 1) s = answer :: it'.pulls pool n s' := by
  rw [pulls, h]

theorem pulls_of_exhausted (h : it.progress = .exhausted) (n : Nat) (s : Store) :
    it.pulls pool n s = List.replicate n none := by
  induction n with
  | zero => rfl
  | succ n ih =>
    have hnext : it.next pool s = ((none, it), s) := by
      simp only [next, h]
      rfl
    rw [pulls_succ hnext, ih, List.replicate_succ]

/-- Nothing is delivered before now. -/
theorem Timed.used_le (h : it.Timed pool s timeline tEnd) :
    (∀ x ∈ timeline, s.meter.used ≤ x.2) ∧ s.meter.used ≤ tEnd := by
  have hmetered : ∀ it : AxisIterator, Metered (it.next pool) :=
    fun it => (breaksOff_next (b := 0) (by decide) it pool).metered
  induction h with
  | @stop it it' s s' h =>
    have hle := (hmetered it).used_le s
    rw [h] at hle
    exact ⟨List.forall_mem_nil _, hle⟩
  | @item it it' s s' x timeline tEnd h rest ih =>
    have hle := (hmetered it).used_le s
    rw [h] at hle
    refine ⟨?_, Nat.le_trans hle ih.2⟩
    intro y hy
    rcases List.mem_cons.1 hy with rfl | hy
    · exact hle
    · exact Nat.le_trans hle (ih.1 y hy)

/-- If the budget is overdrawn already, all that is left is the error. -/
theorem answersWithin_of_beyond (hall : ∀ x ∈ timeline, b.toInt < x.2) (hend : b.toInt < tEnd) :
    answersWithin b timeline tEnd = [some (.error (.storage Meter.exhausted))] := by
  have hnone : (timeline.filter fun x => (x.2 : Int) ≤ b.toInt) = [] := by
    rw [List.filter_eq_nil_iff]
    intro x hx
    have := hall x hx
    simp only [decide_eq_true_eq]
    omega
  rw [answersWithin, hnone, if_pos hend]
  rfl

/-- The budget ends within the next answer: that is the error, and then there is none. -/
theorem pulls_of_beyond (hb : 0 ≤ b) (hfree : s.Unlimited) (hs : s.Within b)
    (hmore : ¬(it.next pool s).2.Within b) {n m : Nat} (hn : n ≤ m) :
    it.pulls pool n (s.limit b) =
      (some (.error (.storage Meter.exhausted)) :: List.replicate m none).take n := by
  obtain ⟨hanswer, hexhausted⟩ := (breaksOff_next hb it pool).beyond s hfree hs hmore
  rcases hnext : it.next pool (s.limit b) with ⟨⟨answer, it'⟩, s'⟩
  rw [hnext] at hanswer hexhausted
  obtain rfl : answer = some (.error (.storage Meter.exhausted)) := hanswer
  cases n with
  | zero => rfl
  | succ n =>
    rw [pulls_succ hnext, pulls_of_exhausted hexhausted, List.take_succ_cons, List.take_replicate,
      Nat.min_eq_left (by omega)]

/-- The answers of an iterator under a budget, and after that none. The induction is on the answers
without the budget. -/
theorem Timed.pulls_limit (hb : 0 ≤ b) (h : it.Timed pool s timeline tEnd) (hfree : s.Unlimited)
    (hs : s.Within b) {n m : Nat} (hn : n ≤ m) :
    it.pulls pool n (s.limit b) =
      (answersWithin b timeline tEnd ++ List.replicate m none).take n := by
  induction h generalizing n with
  | @stop it it' s s' h =>
    by_cases hmore : s'.Within b
    · have hlimit := (breaksOff_next hb it pool).within s hfree hs (by rwa [h])
      rw [h] at hlimit
      have hexhausted : it'.progress = .exhausted := by
        have hlast := (it.ensures_next pool s).2.2
        rw [h] at hlast
        exact hlast rfl
      have hend : answersWithin b [] s'.meter.used = [] := by
        rw [answersWithin, if_neg (Int.not_lt.2 hmore)]
        rfl
      rw [hend, List.nil_append, List.take_replicate, Nat.min_eq_left hn]
      cases n with
      | zero => rfl
      | succ n =>
        rw [pulls_succ hlimit, pulls_of_exhausted hexhausted, List.replicate_succ]
    · rw [answersWithin_of_beyond (List.forall_mem_nil _) (not_within_iff.1 hmore)]
      exact pulls_of_beyond hb hfree hs (by rwa [h]) hn
  | @item it it' s s' x timeline tEnd h rest ih =>
    by_cases hmore : s'.Within b
    · have hlimit := (breaksOff_next hb it pool).within s hfree hs (by rwa [h])
      rw [h] at hlimit
      have hfree' : s'.Unlimited := by
        have hnext := (breaksOff_next hb it pool).metered.unlimited hfree
        rwa [h] at hnext
      have hcons : answersWithin b ((x, s'.meter.used) :: timeline) tEnd =
          some (.ok x) :: answersWithin b timeline tEnd := by
        have hle : ((s'.meter.used : Nat) : Int) ≤ b.toInt := hmore
        simp only [answersWithin, List.filter_cons, hle, decide_true, if_true, List.map_cons,
          List.cons_append]
      cases n with
      | zero => rfl
      | succ n =>
        rw [pulls_succ hlimit, hcons, List.cons_append, List.take_succ_cons,
          ih hfree' hmore (by omega)]
    · -- All that comes later is beyond the budget as well.
      have hlate : b.toInt < s'.meter.used := not_within_iff.1 hmore
      obtain ⟨hle, hend⟩ := rest.used_le
      rw [answersWithin_of_beyond ?_ (by omega)]
      · exact pulls_of_beyond hb hfree hs (by rwa [h]) hn
      · intro y hy
        rcases List.mem_cons.1 hy with rfl | hy
        · exact hlate
        · have := hle y hy
          omega

end AxisIterator

/-- Without a budget no failure to open a cursor is due to one. -/
theorem Store.openAt_ne_exhausted {s : Store} (hfree : s.meter.budget? = none) (revision : Nat)
    (key : Int) : ¬Exhausted (openAt revision key s).1 := by
  have hgrants := Meter.grantsNext_of_unlimited hfree
  rw [openAt_eq]
  show ¬Exhausted (arrive key (openCursor revision s).1 (openCursor revision s).2).1
  cases hv : s.view? revision with
  | none =>
    have hopen : (openCursor revision s).1 = .error (.unknownRevision revision) := by
      simp only [openCursor_apply,
        (hgrants 1).spend Nat.one_pos, hv]
    rw [hopen]
    intro h
    cases h
  | some t =>
    rw [openCursor_of_grantsNext hv (hgrants 1)]
    let c : Cursor := { revision, snapshot := t }
    have hmove : (s.meter.after 1).GrantsNext 1 :=
      Meter.grantsNext_of_unlimited (m := s.meter.after 1) hfree 1
    show ¬Exhausted (settle key ((Reading.ask (t.find? key)).run () c (s.meter.after 1)) _).1
    rw [Reading.ask, Reading.run_move _ _ rfl hmove]
    cases t.find? key with
    | none =>
      intro h
      cases h
    | some k =>
      intro h
      cases h

theorem Dispatcher.dispatch_ne_exhausted {s : Store} (hfree : s.meter.budget? = none)
    (d : Dispatcher) (origin : Handle) (axis : Axis) (test : NodeTest) :
    ¬Exhausted (d.dispatch origin axis test s).1 := by
  have hopen := openAt_ne_exhausted hfree d.revision origin.key
  unfold dispatch
  cases axis.opening origin.kind with
  | nothing => exact nofun
  | originOnly => exact nofun
  | walk =>
    simp only [Bind.bind, StateT.bind]
    rcases hlent : openAt d.revision origin.key s with ⟨e | c, s'⟩
    · rw [hlent] at hopen
      intro h
      cases h
      exact hopen rfl
    · exact nofun
  | walkIfParent =>
    simp only [Bind.bind, StateT.bind]
    rcases hlent : openAt d.revision origin.key s with ⟨e | c, s'⟩
    · rw [hlent] at hopen
      intro h
      cases h
      exact hopen rfl
    · dsimp only
      split
      · exact nofun
      · exact nofun

/-- Whenever an axis is dispatched on a committed revision, with a budget that has just been set and
beyond which operations fail. Dispatching fails for that reason if and only if it takes more operations
than the budget has. Otherwise the iterator delivers, in the same order, the handles that it would
deliver without a budget after no more operations than the budget has; then it tells the error once if
the end would come later; and then there is nothing more. Without a budget an iterator from any node
of the revision does come to its end. -/
theorem Dispatcher.dispatch_within_budget (c : Content) (d : Dispatcher) (s : Store)
    (hc : s.snapshot? d.revision = some (.ofContent c)) (hfault : s.meter.fault = .backend)
    (axis : Axis) (test : NodeTest) (pool : NamePool) :
    (∀ k < (Snapshot.ofContent c).size, ∃ it s₀ timeline tEnd,
      d.dispatch ((c.seen s.hidesNames).handle d.revision k) axis test s.unlimited = (.ok it, s₀) ∧
        it.Timed pool s₀ timeline tEnd) ∧
    ∀ (origin : Handle) (b : Int64), 0 ≤ b →
      ((d.dispatch origin axis test { s with meter := s.meter.refill b }).1 =
          .error (.storage Meter.exhausted) ↔
        b.toInt < (d.dispatch origin axis test s.unlimited).2.meter.used) ∧
      ∀ it s₀ timeline tEnd, d.dispatch origin axis test s.unlimited = (.ok it, s₀) →
        it.Timed pool s₀ timeline tEnd → (s₀.meter.used : Int) ≤ b.toInt →
        ∃ s₁, d.dispatch origin axis test { s with meter := s.meter.refill b } = (.ok it, s₁) ∧
          ∀ n, it.pulls pool n s₁ =
            (AxisIterator.answersWithin b timeline tEnd ++ List.replicate n none).take n := by
  have hfree : s.unlimited.Unlimited := ⟨rfl, hfault⟩
  refine ⟨?run, ?budget⟩
  case run =>
    intro k hk
    have hsize : k < (c.seen s.hidesNames).size := by simpa using hk
    obtain ⟨ks, hroute, hlength, -⟩ := axis.exists_route (c.isTree_seen s.hidesNames) hsize d.revision
    have hdelivers : d.Delivers (c.seen s.hidesNames) k axis test pool _ :=
      delivers_route (c.isTree_seen s.hidesNames) hsize hroute hlength
    obtain ⟨n, hn⟩ := hdelivers
    have hv : s.unlimited.view? d.revision = some (c.seen s.hidesNames) :=
      Store.view?_of_committed hc
    obtain ⟨it, s₀, hit, hdrains⟩ := hn s.unlimited hv (Meter.grantsNext_of_unlimited rfl n)
    obtain ⟨timeline, htimed, -⟩ := hdrains.exists_timed
    exact ⟨it, s₀, timeline, _, hit, htimed⟩
  case budget =>
    intro origin b hb
    have hs : s.unlimited.Within b := by
      show ((0 : Nat) : Int) ≤ b.toInt
      simpa using Int64.le_iff_toInt_le.1 hb
    have hbreaks := breaksOff_dispatch hb d origin axis test
    have hlimit : { s with meter := s.meter.refill b } = s.unlimited.limit b := rfl
    rw [hlimit]
    refine ⟨⟨?_, ?_⟩, ?_⟩
    · intro herror
      by_contra hmore
      have hwithin := hbreaks.within _ hfree hs (Int.not_lt.1 hmore)
      rw [hwithin] at herror
      exact dispatch_ne_exhausted hfree.budget?_eq d origin axis test herror
    · intro hmore
      exact hbreaks.beyond _ hfree hs (not_within_iff.2 hmore)
    · intro it s₀ timeline tEnd hit htimed hle
      have hwithin := hbreaks.within _ hfree hs (by rw [hit]; exact hle)
      have hfree' := hbreaks.metered.unlimited hfree
      rw [hit] at hwithin hfree'
      exact ⟨_, hwithin, fun n => htimed.pulls_limit hb hfree' hle (Nat.le_refl n)⟩

/-- The second of three nodes is a text, which is delivered with the fourth operation; a fifth one
would be needed to find out that there is no other. -/
theorem Dispatcher.dispatch_within_budget_text :
    ∃ it s₁, dispatch ⟨0, 0, 0⟩ ((mixedContent.seen false).handle 0 0) .descendant (.kind .text)
        { mixedStore with meter := mixedStore.meter.refill 4 } = (.ok it, s₁) ∧
      it.pulls .empty 3 s₁ =
        [some (.ok ((mixedContent.seen false).handle 0 3)),
          some (.error (.storage Meter.exhausted)), none] := by
  obtain ⟨-, hbudget⟩ := dispatch_within_budget mixedContent ⟨0, 0, 0⟩ mixedStore rfl rfl
    .descendant (.kind .text) .empty
  obtain ⟨-, hpulls⟩ := hbudget ((mixedContent.seen false).handle 0 0) 4 (by decide)
  obtain ⟨s₁, hit, hanswers⟩ := hpulls _ _ _ _ rfl (.item rfl (.stop rfl)) (by decide)
  refine ⟨_, s₁, hit, ?_⟩
  rw [hanswers 3]
  rfl

end DocTree
