import DocTree.Proofs.Axis.Budget
import DocTree.Proofs.Store.Refused
import DocTree.Proofs.Walk.Astray

/-!
# Axes with missing nodes

Beyond its budget a store may say of every node that it is missing. An iterator takes that for the
end or reports it, so that it delivers what comes first of the handles that it would deliver
otherwise. Only a walk backward over subtrees may go astray, and after that it gets no further: the
last handle that is delivered is then one of those that come later, and some before it are left out.

## Main definitions

- `Walk.SeekBalked` — how a search for the next node ends that is refused moves
- `AxisIterator.Delivers` — the handles that an iterator delivers before it ends or fails
- `CutShort` — what is left of the handles of an axis

## Main statements

- `AxisIterator.exists_delivers` — what an iterator delivers if nodes are missing from some time on
- `Dispatcher.dispatch_with_missing_nodes` — dispatching and iterating with missing nodes
- `Dispatcher.preceding_leaves_out_handle` — a handle that is left out
-/

namespace DocTree

open Reading Snapshot

variable {t : Snapshot} {σ : Type} {here k n visits : Nat} {w w' : Walk} {ks : List Nat}
  {accepts : Nat → Bool}

namespace Walk

/-- Refused all moves, a search with a walk that is stuck finds nothing more. -/
theorem refused_seek (hstuck : w.Stuck t here) (accepts : Nat → Bool) (visits : Nat) (s : σ) :
    ((w.seek t accepts visits here).refused s here).outcome = .ok none ∧
      ((w.seek t accepts visits here).refused s here).cost ≤ 1 := by
  cases visits with
  | zero => exact ⟨rfl, Nat.zero_le 1⟩
  | succ visits =>
    rw [seek, refused_bind, refused_observe]
    unfold Stuck at hstuck
    generalize (w.advance t here).refused w here = e at hstuck
    obtain ⟨outcome, state, place, cost⟩ := e
    obtain ⟨rfl, hcost⟩ := hstuck
    exact ⟨rfl, hcost⟩

/-- How a search ends that is refused moves, with the route `ks` ahead. -/
inductive SeekBalked (t : Snapshot) (strays : Bool) (accepts : Nat → Bool) (ks : List Nat)
    (e : Ending σ (Option Walk)) : Prop where
  | stops (h : e.outcome = .ok none) (hcost : e.cost ≤ 3)
  | fails {err : AccessError} (h : e.outcome = .error err) (hcost : e.cost ≤ 3)
  /-- The search has found some node of the route, and gets no further. -/
  | astray {w : Walk} (hstrays : strays = true) (h : e.outcome = .ok (some w)) (hcost : e.cost ≤ 3)
      (hmem : e.place ∈ ks.filter accepts) (hstuck : w.Stuck t e.place)

theorem SeekBalked.cost_le {strays : Bool} {e : Ending σ (Option Walk)}
    (h : SeekBalked t strays accepts ks e) : e.cost ≤ 3 := by
  cases h with
  | stops _ hcost => exact hcost
  | fails _ hcost => exact hcost
  | astray _ _ hcost => exact hcost

theorem SeekBalked.cons {strays : Bool} {e : Ending σ (Option Walk)}
    (h : SeekBalked t strays accepts ks e) (k : Nat) : SeekBalked t strays accepts (k :: ks) e := by
  cases h with
  | stops h hcost => exact .stops h hcost
  | fails h hcost => exact .fails h hcost
  | astray hstrays h hcost hmem hstuck =>
    refine .astray hstrays h hcost ?_ hstuck
    rw [List.mem_filter] at hmem ⊢
    exact ⟨List.mem_cons_of_mem k hmem.1, hmem.2⟩

/-- What becomes of a search in which a visit is refused moves. -/
theorem seekBalked_of_balked {strays : Bool} {e : Ending Walk Bool} (h : Balked t strays ks e)
    (accepts : Nat → Bool) (visits : Nat) (s : σ) :
    SeekBalked t strays accepts ks ((e.observed s).thenRefused fun x =>
      if !x.1 then .done none
      else if accepts x.2.2 then .done (some x.2.1)
      else seek t accepts visits x.2.1 x.2.2) := by
  obtain ⟨outcome, state, place, cost⟩ := e
  cases h with
  | stops h =>
    obtain ⟨rfl, hcost⟩ := h
    exact .stops rfl (Nat.le_succ_of_le hcost)
  | fails h hcost =>
    obtain rfl := h
    exact .fails rfl (Nat.le_succ_of_le hcost)
  | astray hstrays h hcost hmem hstuck =>
    obtain rfl := h
    simp only [Ending.observed, Except.map, Ending.thenRefused, Bool.not_true, Bool.false_eq_true,
      if_false]
    cases haccepts : accepts place with
    | true =>
      have hfound : place ∈ ks.filter accepts := List.mem_filter.2 ⟨hmem, haccepts⟩
      exact .astray hstrays rfl (Nat.le_succ_of_le hcost) hfound hstuck
    | false =>
      obtain ⟨hnone, hmore⟩ := refused_seek hstuck accepts visits s
      exact .stops hnone (Nat.add_le_add hcost hmore)

/-- A search is refused moves in one of its visits. -/
theorem whenRefused_seek (h : t.IsTree) (hk : here < t.size) {left : Nat}
    (hw : w.Within t here left) (hroute : Route t w here ks) (accepts : Nat → Bool) (visits : Nat)
    (s : σ) :
    (w.seek t accepts visits here).WhenRefused (SeekBalked t w.strays accepts ks) s here := by
  induction visits generalizing w here ks left with
  | zero => trivial
  | succ visits ih =>
    refine ((hw.whenRefused_advance h hroute).observe s).bind ?balked ?visited
    case balked =>
      rintro _ ⟨e, he, rfl⟩
      exact seekBalked_of_balked he accepts visits s
    case visited =>
      rintro ⟨moved, w', k⟩ s' m hyields
      obtain ⟨hadvance, rfl, rfl⟩ := hyields.of_observe
      have hbegins := hroute.begins hadvance
      cases moved with
      | false => trivial
      | true =>
        obtain ⟨rest, rfl, hrest⟩ := hbegins
        obtain ⟨hlt, left', hw'⟩ := hw.next h hk hadvance
        simp only [Bool.not_true, Bool.false_eq_true, if_false]
        cases accepts m with
        | true => trivial
        | false =>
          have hseek := ih hlt hw' hrest
          rw [strays_of_yields hadvance] at hseek
          exact hseek.mono fun e he => he.cons m

/-- A walk that a search returns is on course. -/
theorem Within.of_seek (h : t.IsTree) (hk : here < t.size) {left : Nat} (hw : w.Within t here left)
    {s s' : σ} (hseek : (w.seek t accepts visits here).Yields s here (some w') s' k) :
    k < t.size ∧ (∃ left', w'.Within t k left') ∧ w'.strays = w.strays := by
  induction visits generalizing w here left with
  | zero => exact nomatch (yields_done_iff.1 hseek).1
  | succ visits ih =>
    obtain ⟨⟨moved, w₁, m₁⟩, s₁, m, hvisit, hrest⟩ := hseek.of_bind
    obtain ⟨hadvance, rfl, rfl⟩ := hvisit.of_observe
    cases moved with
    | false => exact nomatch (yields_done_iff.1 hrest).1
    | true =>
      obtain ⟨hlt, left₁, hw₁⟩ := hw.next h hk hadvance
      have hstrays := strays_of_yields hadvance
      simp only [Bool.not_true, Bool.false_eq_true, if_false] at hrest
      cases haccepts : accepts m with
      | true =>
        rw [haccepts, if_pos rfl] at hrest
        obtain ⟨hfound, -, rfl⟩ := yields_done_iff.1 hrest
        obtain rfl := Option.some.inj hfound
        exact ⟨hlt, ⟨left₁, hw₁⟩, hstrays⟩
      | false =>
        rw [haccepts, if_neg (by decide)] at hrest
        obtain ⟨hlt', hw', hstrays'⟩ := ih hlt hw₁ hrest
        exact ⟨hlt', hw', hstrays'.trans hstrays⟩

end Walk

/-- What is left of a sequence of handles when nodes are missing. It is cut short; if the walk may
stray, the last handle that is left may be one of those that come later. -/
structure CutShort (strays : Bool) (hs ds : List Handle) : Prop where
  sublist : ds.Sublist hs
  dropLast_begins : ds.dropLast <+: hs
  begins : strays = false → ds <+: hs

namespace CutShort

variable {strays : Bool} {hs ds : List Handle} {x : Handle}

theorem nil : CutShort strays hs [] := ⟨hs.nil_sublist, List.nil_prefix, fun _ => List.nil_prefix⟩

theorem refl (strays : Bool) (hs : List Handle) : CutShort strays hs hs :=
  ⟨List.Sublist.refl hs, List.dropLast_prefix hs, fun _ => List.prefix_rfl⟩

theorem cons (h : CutShort strays hs ds) (x : Handle) : CutShort strays (x :: hs) (x :: ds) := by
  refine ⟨h.sublist.cons_cons x, ?_, fun hnot => List.cons_prefix_cons.2 ⟨rfl, h.begins hnot⟩⟩
  cases ds with
  | nil => exact List.nil_prefix
  | cons y ds => exact List.cons_prefix_cons.2 ⟨rfl, h.dropLast_begins⟩

theorem astray (hmem : x ∈ hs) : CutShort true hs [x] :=
  ⟨List.singleton_sublist.2 hmem, List.nil_prefix, fun hnot => nomatch hnot⟩

end CutShort

namespace AxisIterator

variable {revision : Nat} {pool : NamePool} {s s' : Store} {it : AxisIterator} {c : Cursor}
  {run : Reading.Run Unit (Option Walk)}

/-- Asking the iterator for the next node up to its last answer: the nodes that it delivers before
it ends or fails. -/
inductive Delivers (pool : NamePool) : AxisIterator → Store → List Handle → Prop where
  | last {it : AxisIterator} {s : Store} (h : isLast (it.next pool s).1.1 = true) :
      Delivers pool it s []
  | item {it it' : AxisIterator} {s s' : Store} {x : Handle} {ds : List Handle}
      (h : it.next pool s = ((some (.ok x), it'), s')) (rest : Delivers pool it' s' ds) :
      Delivers pool it s (x :: ds)

theorem Drains.delivers {hs : List Handle} (h : it.Drains pool s hs s') :
    it.Delivers pool s hs := by
  induction h with
  | stop h => exact .last (by rw [h]; rfl)
  | item h rest ih => exact .item h ih

/-- What an iterator delivers before it ends or fails is determined. -/
theorem Delivers.unique {ds₁ ds₂ : List Handle} (h₁ : it.Delivers pool s ds₁)
    (h₂ : it.Delivers pool s ds₂) : ds₁ = ds₂ := by
  induction h₁ generalizing ds₂ with
  | last h =>
    cases h₂ with
    | last h' => rfl
    | item h' rest' =>
      rw [h'] at h
      cases h
  | item h rest ih =>
    cases h₂ with
    | last h' =>
      rw [h] at h'
      cases h'
    | item h' rest' =>
      obtain ⟨heq, rfl⟩ := Prod.mk.inj (h.symm.trans h')
      simp only [Prod.mk.injEq, Option.some.injEq, Except.ok.injEq] at heq
      obtain ⟨rfl, rfl⟩ := heq
      rw [ih rest']

theorem isLast_next (hit : it.progress = .walking w c)
    (hrun : (it.search pool w c).run () c s.meter = run)
    (hlast : ∀ w', run.outcome ≠ .ok (some w')) : isLast (it.next pool s).1.1 = true := by
  simp only [next, hit]
  simp only [Bind.bind, StateT.bind, perform_search hrun]
  rcases houtcome : run.outcome with e | _ | w'
  · rfl
  · rfl
  · exact absurd houtcome (hlast w')

/-- An iterator whose walk is stuck delivers nothing more. -/
theorem delivers_of_stuck (hit : it.progress = .walking w c) (hstuck : w.Stuck c.snapshot c.place)
    (hm : s.meter.RefusesNext 1) : it.Delivers pool s [] := by
  obtain ⟨hnone, hcost⟩ := Walk.refused_seek hstuck
    (fun k => it.test.accepts pool (c.snapshot.handle c.revision k)) (c.snapshot.size + 1) ()
  have hrun := run_of_refusesNext (it.search pool w c) () c (hm.mono hcost)
  refine .last (isLast_next hit hrun ?_)
  intro w' hfound
  rw [search, hnone] at hfound
  cases hfound

/-- An iterator that is refused moves in its next search delivers nothing more, or one handle of
those that are left if its walk goes astray. -/
theorem delivers_of_balked
    (hit : it.progress = .walking w { revision, snapshot := t, place := here }) {strays : Bool}
    {e : Ending Unit (Option Walk)}
    (he : Walk.SeekBalked t strays (it.test.accepts pool ∘ t.handle revision) ks e)
    (hrun : (it.search pool w { revision, snapshot := t, place := here }).run ()
      { revision, snapshot := t, place := here } s.meter =
        ⟨e.outcome, e.state, { revision, snapshot := t, place := e.place }, s.meter.after n⟩)
    (hm : (s.meter.after n).RefusesNext 1) :
    ∃ ds, it.Delivers pool s ds ∧
      CutShort strays ((ks.map (t.handle revision)).filter (it.test.accepts pool)) ds := by
  cases he with
  | stops h =>
    exact ⟨[], .last (isLast_next hit hrun fun w' => by rw [h]; exact nofun), .nil⟩
  | fails h =>
    exact ⟨[], .last (isLast_next hit hrun fun w' => by rw [h]; exact nofun), .nil⟩
  | astray hstrays h _ hmem hstuck =>
    subst hstrays
    refine ⟨[t.handle revision e.place], .item (next_of_search hit hrun h)
      (delivers_of_stuck rfl hstuck hm), .astray ?_⟩
    rw [List.filter_map]
    exact List.mem_map_of_mem hmem

/-- If nodes are missing from some time on, an iterator delivers what is left of the accepted places
of its route. The induction is on the length of the route, since an item may skip some of it. -/
theorem exists_delivers (h : t.IsTree) (hk : here < t.size) {left : Nat}
    (hw : w.Within t here left) (hroute : Route t w here ks) (hlength : ks.length ≤ t.size)
    (pool : NamePool) (it : AxisIterator)
    (hit : it.progress = .walking w { revision, snapshot := t, place := here }) (s : Store)
    (hm : s.meter.RunsOut n 4) :
    ∃ ds, it.Delivers pool s ds ∧
      CutShort w.strays ((ks.map (t.handle revision)).filter (it.test.accepts pool)) ds := by
  induction hlen : ks.length using Nat.strongRecOn generalizing w here ks left it s n with
  | ind len ih =>
    let accepts := it.test.accepts pool ∘ t.handle revision
    let search : Reading Unit (Option Walk) := w.seek t accepts (t.size + 1) here
    by_cases hcost : search.cost () here ≤ n
    · -- The next search is granted all that it asks for.
      obtain ⟨n, rfl⟩ := Nat.exists_eq_add_of_le hcost
      have hgrants := (Meter.grantsNext_add.1 hm.grants).1
      rw [List.filter_map]
      obtain ⟨hnil, top, hseek⟩ | ⟨w', k, rest, hseek, hrest, hless, hfilter⟩ :=
        hroute.yields_seek () accepts (Nat.lt_succ_of_le hlength)
      · refine ⟨[], .last ?_, .nil⟩
        rw [it.next_of_end hit rfl hseek hgrants]
        rfl
      · obtain ⟨hlt, ⟨left', hw'⟩, hstrays⟩ := hw.of_seek h hk hseek
        obtain ⟨ds, hds, hcut⟩ := ih rest.length (by omega) hlt hw' hrest (by omega)
          { it with progress := .walking w' { revision, snapshot := t, place := k } } rfl
          { s with meter := s.meter.after (search.cost () here) } hm.after rfl
        rw [List.filter_map, hstrays] at hcut
        rw [hfilter, List.map_cons]
        exact ⟨_, .item (it.next_of_found hit rfl hseek hgrants) hds, hcut.cons _⟩
    · -- The next search is refused moves.
      obtain ⟨e, he, hrun⟩ := (Walk.whenRefused_seek h hk hw hroute accepts (t.size + 1) ()).run
        (c := { revision, snapshot := t, place := here }) rfl hm (Nat.lt_of_not_le hcost)
        fun e he => Nat.le_succ_of_le he.cost_le
      refine delivers_of_balked hit he hrun ?_
      rw [← Meter.after_after]
      exact hm.refuses.after (Nat.add_le_add_right he.cost_le 1)

end AxisIterator

namespace Dispatcher

variable {d : Dispatcher} {axis : Axis} {test : NodeTest} {pool : NamePool} {s : Store}

/-- Dispatching reports a missing node, or there is an iterator, which delivers what is left of the
handles of a list. -/
def DeliversLeft (d : Dispatcher) (origin : Handle) (axis : Axis) (test : NodeTest) (pool : NamePool)
    (s : Store) (hs : List Handle) : Prop :=
  (d.dispatch origin axis test s).1 = .error (.noSuchNode origin.key) ∨
    ∃ it s₁ ds, d.dispatch origin axis test s = (.ok it, s₁) ∧ it.Delivers pool s₁ ds ∧
      CutShort (axis.walk origin).strays hs ds

theorem dispatch_of_missing {origin : Handle} {e : AccessError}
    (hopening : axis.opening origin.kind = .walk ∨ axis.opening origin.kind = .walkIfParent)
    (hopen : (Store.openAt d.revision origin.key s).1 = .error e) :
    (d.dispatch origin axis test s).1 = .error e := by
  rcases hlent : Store.openAt d.revision origin.key s with ⟨lent, s₁⟩
  rw [hlent] at hopen
  obtain rfl : lent = .error e := hopen
  rcases hopening with hopening | hopening
  · simp only [dispatch, hopening]
    simp only [Bind.bind, StateT.bind, hlent]
    rfl
  · simp only [dispatch, hopening]
    simp only [Bind.bind, StateT.bind, hlent]
    rfl

/-- An iterator that walks delivers what is left of the route, if its cursor can be opened. -/
theorem deliversLeft_walk (h : t.IsTree) (hk : k < t.size)
    (hopening : axis.opening (t.kind k) = .walk ∨
      (axis.opening (t.kind k) = .walkIfParent ∧ (t.firstChild? k).isSome = true))
    (hroute : Route t (axis.walk (t.handle d.revision k)) k ks) (hlength : ks.length ≤ t.size)
    (hv : s.view? d.revision = some t) (hm : s.meter.RunsOut n 4) :
    d.DeliversLeft (t.handle d.revision k) axis test pool s
      ((ks.map (t.handle d.revision)).filter (test.accepts pool)) := by
  by_cases hn : n < 2
  · exact .inl (dispatch_of_missing (hopening.imp_right And.left)
      (Store.openAt_of_refused hv (hm.refuses_second hn) _))
  · obtain ⟨n, rfl⟩ := Nat.exists_eq_add_of_le (Nat.le_of_not_lt hn)
    let it := AxisIterator.mk d (t.handle d.revision k) axis test
      (.walking (axis.walk (t.handle d.revision k)) ⟨d.revision, t, k, true⟩)
    have hopen : Store.openAt d.revision (t.handle d.revision k).key s = _ :=
      Store.openAt_of_grantsNext hv hk (Meter.grantsNext_add.1 hm.grants).1
    obtain ⟨ds, hds, hcut⟩ := AxisIterator.exists_delivers h hk (axis.within_walk h hk d.revision)
      hroute hlength pool it rfl
      { s with meter := s.meter.after 2, openCursors := s.openCursors + 1 } hm.after
    exact .inr ⟨it, _, ds, dispatch_walking hopening hopen, hds, hcut⟩

/-- Where there are no children, nothing is left out. -/
theorem deliversLeft_childless (hk : k < t.size)
    (hopening : axis.opening (t.kind k) = .walkIfParent) (hc : t.firstChild? k = none)
    (hv : s.view? d.revision = some t) (hm : s.meter.RunsOut n 4) :
    d.DeliversLeft (t.handle d.revision k) axis test pool s [] := by
  by_cases hn : n < 2
  · exact .inl (dispatch_of_missing (.inr hopening)
      (Store.openAt_of_refused hv (hm.refuses_second hn) _))
  · have hopen : Store.openAt d.revision (t.handle d.revision k).key s = _ :=
      Store.openAt_of_grantsNext hv hk (hm.grants.mono (Nat.le_of_not_lt hn))
    exact .inr ⟨_, _, [], dispatch_childless hopening hc hopen, .last rfl, .nil⟩

/-- If nodes are missing from some time on, a dispatched iterator delivers what is left of the
accepted nodes of the route, or dispatching reports that the origin is missing. -/
theorem deliversLeft_route (h : t.IsTree) (hk : k < t.size)
    (hroute : Route t (axis.walk (t.handle d.revision k)) k ks) (hlength : ks.length ≤ t.size)
    (hv : s.view? d.revision = some t) (hm : s.meter.RunsOut n 4) :
    d.DeliversLeft (t.handle d.revision k) axis test pool s
      ((ks.map (t.handle d.revision)).filter (test.accepts pool)) := by
  have hkind : (t.handle d.revision k).kind = t.kind k := rfl
  cases hopening : axis.opening (t.kind k) with
  | nothing =>
    refine .inr ⟨⟨d, t.handle d.revision k, axis, test, .exhausted⟩, s, [], ?_, .last rfl, .nil⟩
    simp only [dispatch, hkind, hopening]
    rfl
  | originOnly =>
    obtain rfl := hroute.unique (axis.route_of_originOnly h hk hopening)
    refine .inr ⟨⟨d, t.handle d.revision k, axis, test, .pending⟩, s, _, ?_,
      (AxisIterator.drains_of_pending rfl pool s).delivers, .refl _ _⟩
    simp only [dispatch, hkind, hopening]
    rfl
  | walk => exact deliversLeft_walk h hk (.inl hopening) hroute hlength hv hm
  | walkIfParent =>
    cases hc : t.firstChild? k with
    | none =>
      obtain rfl := hroute.unique (axis.route_of_childless h hk hopening hc)
      exact deliversLeft_childless hk hopening hc hv hm
    | some c => exact deliversLeft_walk h hk (.inr ⟨hopening, by simp [hc]⟩) hroute hlength hv hm

/-- Whenever an axis is dispatched on a committed revision, with a budget that has just been set and
beyond which nodes seem to be missing: dispatching reports that the origin is missing, or there is an
iterator. What that delivers before it ends or fails is part of what it would deliver without a
budget, in the same order. All but the last of these handles come first there, and none is left out
in front of them; along all axes other than the two that go backward over subtrees, that is true of
the last one, too. -/
theorem dispatch_with_missing_nodes (c : Content) (d : Dispatcher) (s : Store)
    (hc : s.snapshot? d.revision = some (.ofContent c)) (hfault : s.meter.fault = .missing)
    (k : Nat) (hk : k < (Snapshot.ofContent c).size) (axis : Axis) (test : NodeTest)
    (pool : NamePool) :
    ∃ hs : List Handle,
      (∃ it s₁ s₂,
        d.dispatch ((c.seen s.hidesNames).handle d.revision k) axis test s.unlimited = (.ok it, s₁) ∧
          it.Drains pool s₁ hs s₂) ∧
      ∀ b : Int64, 0 ≤ b →
        (d.dispatch ((c.seen s.hidesNames).handle d.revision k) axis test
            { s with meter := s.meter.refill b }).1 = .error (.noSuchNode k) ∨
          ∃ it s₁ ds, d.dispatch ((c.seen s.hidesNames).handle d.revision k) axis test
              { s with meter := s.meter.refill b } = (.ok it, s₁) ∧
            it.Delivers pool s₁ ds ∧ ds.Sublist hs ∧ ds.dropLast <+: hs ∧
              (axis ≠ .preceding → axis ≠ .precedingOrAncestor → ds <+: hs) := by
  have htree := c.isTree_seen s.hidesNames
  have hsize : k < (c.seen s.hidesNames).size := by simpa using hk
  have hview : s.view? d.revision = some (c.seen s.hidesNames) := Store.view?_of_committed hc
  obtain ⟨ks, hroute, hlength, -⟩ := axis.exists_route htree hsize d.revision
  let origin := (c.seen s.hidesNames).handle d.revision k
  let accepted := (ks.map ((c.seen s.hidesNames).handle d.revision)).filter (test.accepts pool)
  refine ⟨accepted, ?free, ?missing⟩
  case free =>
    have hdelivers : d.Delivers (c.seen s.hidesNames) k axis test pool accepted :=
      delivers_route htree hsize hroute hlength
    obtain ⟨n, hn⟩ := hdelivers
    obtain ⟨it, s₁, hit, hdrains⟩ := hn s.unlimited hview (Meter.grantsNext_of_unlimited rfl n)
    exact ⟨it, s₁, _, hit, hdrains⟩
  case missing =>
    intro b hb
    have hm := s.meter.runsOut_refill (k := 4) hb hfault (by decide)
    have hleft :
        d.DeliversLeft origin axis test pool { s with meter := s.meter.refill b } accepted :=
      deliversLeft_route htree hsize hroute hlength hview hm
    refine hleft.imp id ?_
    rintro ⟨it, s₁, ds, hit, hds, hcut⟩
    refine ⟨it, s₁, ds, hit, hds, hcut.sublist, hcut.dropLast_begins, ?_⟩
    intro hpreceding hancestor
    refine hcut.begins ?_
    cases axis with
    | preceding => exact absurd rfl hpreceding
    | precedingOrAncestor => exact absurd rfl hancestor
    | _ => rfl

/-- An element `a` with elements `b` and `d`, of which the first has an element `c`. -/
def nestedContent : Content :=
  .element { name := .ofLocal "a" }
    (.element { name := .ofLocal "b" } (.element { name := .ofLocal "c" } .nil .nil)
      (.element { name := .ofLocal "d" } .nil .nil)) .nil

/-- The handle of a node of that. The document node has the key 0, and `d` the key 4. -/
def nested (key : Nat) : Handle := (nestedContent.seen false).handle 0 key

/-- A store with that as its only revision, in which nodes can be missing. -/
def nestedStore : Store :=
  { revisions := #[.ofContent nestedContent], meter := { fault := .missing } }

/-- To open a cursor on the document node takes two operations, and to go on to each of the four
nodes below it one, so that a budget of four is enough for the first two of them. -/
theorem dispatch_with_missing_nodes_nested :
    ∃ it s₁, dispatch ⟨0, 0, 0⟩ (nested 0) .descendant .any
        { nestedStore with meter := nestedStore.meter.refill 4 } = (.ok it, s₁) ∧
      it.Delivers .empty s₁ [nested 1, nested 2] ∧
        [nested 1, nested 2] <+: [nested 1, nested 2, nested 3, nested 4] := by
  obtain ⟨hs, ⟨it, s₁, s₂, hit, hdrains⟩, hbudget⟩ := dispatch_with_missing_nodes nestedContent
    ⟨0, 0, 0⟩ nestedStore rfl rfl 0 (by decide) .descendant .any .empty
  obtain ⟨hwalking, rfl⟩ := Prod.mk.inj hit
  obtain rfl := Except.ok.inj hwalking
  have hfour : hs = [nested 1, nested 2, nested 3, nested 4] :=
    (hdrains.unique (.item rfl (.item rfl (.item rfl (.item rfl (.stop rfl)))))).1
  subst hfour
  obtain hmissing | ⟨it', s₁', ds, hit', hds, -, -, hbegins⟩ := hbudget 4 (by decide)
  · cases hmissing
  · obtain ⟨hwalking', rfl⟩ := Prod.mk.inj hit'
    obtain rfl := Except.ok.inj hwalking'
    have htwo : ds = [nested 1, nested 2] := hds.unique (.item rfl (.item rfl (.last rfl)))
    subst htwo
    exact ⟨_, _, hit', hds, hbegins (by decide) (by decide)⟩

/-- Before `d` come `c` and `b`. With a budget of six, the sixth operation takes the cursor to `b`;
`c` seems to be missing then, and `b` is delivered in its place. -/
theorem preceding_leaves_out_handle :
    (∃ it s₁ s₂,
      dispatch ⟨0, 0, 0⟩ (nested 4) .preceding .any nestedStore.unlimited = (.ok it, s₁) ∧
      it.Drains .empty s₁ [nested 3, nested 2] s₂) ∧
    (∃ it s₁, dispatch ⟨0, 0, 0⟩ (nested 4) .preceding .any
        { nestedStore with meter := nestedStore.meter.refill 6 } = (.ok it, s₁) ∧
      it.Delivers .empty s₁ [nested 2]) ∧
    ¬[nested 2] <+: [nested 3, nested 2] := by
  refine ⟨⟨_, _, _, rfl, .item (AxisIterator.next_of_visit rfl (Walk.run_advance 9 rfl) rfl rfl)
      (.item (AxisIterator.next_of_visit rfl (Walk.run_advance 9 rfl) rfl rfl)
        (.stop (AxisIterator.next_of_stop rfl (Walk.run_advance 9 rfl) rfl)))⟩,
    ⟨_, _, rfl, .item (AxisIterator.next_of_visit rfl (Walk.run_advance 9 rfl) rfl rfl)
      (.last ?last)⟩, ?differs⟩
  case last =>
    rw [AxisIterator.next_of_stop rfl (Walk.run_advance 9 rfl) rfl]
    rfl
  case differs =>
    intro hbegins
    exact absurd (congrArg Handle.key (List.cons_prefix_cons.1 hbegins).1) (by decide)

end Dispatcher

end DocTree
