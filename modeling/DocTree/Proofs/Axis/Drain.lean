import DocTree.Proofs.Store.Granted
import DocTree.Proofs.Walk.Rounds
import DocTree.Proofs.Walk.Route

/-!
# Draining walks and iterators

A walk is drained by advancing it until it is over, an iterator by asking for the next node until
there is none. Undisturbed, a walk drained with a cursor visits its route, and an iterator that goes
along the same walk delivers what its test accepts of it.

## Main definitions

- `Walk.Drains` — a walk advanced with a cursor up to its end
- `AxisIterator.Drains` — an iterator asked up to its end

## Main statements

- `Route.exists_drains` — a walk visits its route
- `AxisIterator.next_of_visit`, `AxisIterator.next_of_stop` — the next node, from how the walk goes on
- `Route.exists_iterator_drains` — an iterator delivers what is accepted of the route
-/

namespace DocTree

open Reading Snapshot

variable {t : Snapshot} {here k : Nat} {w : Walk} {ks : List Nat}

namespace Walk

/-- Advancing the walk with the cursor for the first time to its end: the handles of the nodes on the
way, and the store afterwards. -/
inductive Drains : Walk → Cursor → Store → List Handle → Store → Prop where
  | stop {w : Walk} {c : Cursor} {s s' : Store} {run : Reading.Run Walk Bool}
      (h : Store.perform c (w.advance c.snapshot c.place) w s = (run, s'))
      (hstop : run.outcome = .ok false) : Drains w c s [] s'
  | visit {w : Walk} {c : Cursor} {s s' s'' : Store} {run : Reading.Run Walk Bool}
      {hs : List Handle} (h : Store.perform c (w.advance c.snapshot c.place) w s = (run, s'))
      (hvisit : run.outcome = .ok true) (rest : Drains run.state run.cursor s' hs s'') :
      Drains w c s (run.cursor.handle :: hs) s''

/-- What a walk visits is determined. -/
theorem Drains.unique {c : Cursor} {s s₁ s₂ : Store} {hs₁ hs₂ : List Handle}
    (h₁ : w.Drains c s hs₁ s₁) (h₂ : w.Drains c s hs₂ s₂) : hs₁ = hs₂ ∧ s₁ = s₂ := by
  induction h₁ generalizing hs₂ s₂ with
  | stop h hstop =>
    cases h₂ with
    | stop h' hstop' => exact ⟨rfl, (Prod.mk.inj (h.symm.trans h')).2⟩
    | visit h' hvisit' rest' =>
      obtain ⟨rfl, rfl⟩ := Prod.mk.inj (h.symm.trans h')
      simp [hstop] at hvisit'
  | visit h hvisit rest ih =>
    cases h₂ with
    | stop h' hstop' =>
      obtain ⟨rfl, rfl⟩ := Prod.mk.inj (h.symm.trans h')
      simp [hvisit] at hstop'
    | visit h' hvisit' rest' =>
      obtain ⟨rfl, rfl⟩ := Prod.mk.inj (h.symm.trans h')
      obtain ⟨rfl, rfl⟩ := ih rest'
      exact ⟨rfl, rfl⟩

end Walk

namespace AxisIterator

/-- Asking the iterator for the next node until there is none, with no error: the nodes that it
delivers, and the store afterwards. -/
inductive Drains (pool : NamePool) : AxisIterator → Store → List Handle → Store → Prop where
  | stop {it it' : AxisIterator} {s s' : Store} (h : it.next pool s = ((none, it'), s')) :
      Drains pool it s [] s'
  | item {it it' : AxisIterator} {s s' s'' : Store} {x : Handle} {hs : List Handle}
      (h : it.next pool s = ((some (.ok x), it'), s')) (rest : Drains pool it' s' hs s'') :
      Drains pool it s (x :: hs) s''

/-- What an iterator delivers is determined. -/
theorem Drains.unique {pool : NamePool} {it : AxisIterator} {s s₁ s₂ : Store}
    {hs₁ hs₂ : List Handle} (h₁ : it.Drains pool s hs₁ s₁) (h₂ : it.Drains pool s hs₂ s₂) :
    hs₁ = hs₂ ∧ s₁ = s₂ := by
  induction h₁ generalizing hs₂ s₂ with
  | stop h =>
    cases h₂ with
    | stop h' => exact ⟨rfl, (Prod.mk.inj (h.symm.trans h')).2⟩
    | item h' rest' => exact nomatch (Prod.mk.inj (Prod.mk.inj (h.symm.trans h')).1).1
  | item h rest ih =>
    cases h₂ with
    | stop h' => exact nomatch (Prod.mk.inj (Prod.mk.inj (h.symm.trans h')).1).1
    | item h' rest' =>
      obtain ⟨heq, rfl⟩ := Prod.mk.inj (h.symm.trans h')
      simp only [Prod.mk.injEq, Option.some.injEq, Except.ok.injEq] at heq
      obtain ⟨rfl, rfl⟩ := heq
      obtain ⟨rfl, rfl⟩ := ih rest'
      exact ⟨rfl, rfl⟩

end AxisIterator

/-- Undisturbed, a walk visits its route. -/
theorem Route.exists_drains (h : Route t w here ks) (revision : Nat) :
    ∃ n, ∀ s : Store, s.meter.GrantsNext n →
      w.Drains { revision, snapshot := t, place := here } s (ks.map (t.handle revision))
        { s with meter := s.meter.after n } := by
  induction h with
  | @stop w w' here top h =>
    refine ⟨(w.advance t here).cost w here, ?_⟩
    intro s hs
    have hstep := Store.perform_of_yields (c := { revision, snapshot := t, place := here }) h rfl hs
    exact .stop hstep rfl
  | @visit w w' here k ks h rest ih =>
    obtain ⟨n, hn⟩ := ih
    refine ⟨(w.advance t here).cost w here + n, ?_⟩
    intro s hs
    rw [Meter.grantsNext_add] at hs
    have hstep := Store.perform_of_yields (c := { revision, snapshot := t, place := here }) h rfl
      hs.1
    have hrest := hn { s with meter := s.meter.after ((w.advance t here).cost w here) } hs.2
    rw [Meter.after_after] at hrest
    exact .visit hstep rfl hrest

section Seek

variable {σ : Type} {visits : Nat}

/-- A search goes along the route of its walk to the first place that is accepted, and the walk has
the rest of the route from there; or it comes to the end of the route. -/
theorem Route.yields_seek (h : Route t w here ks) (s : σ) (accepts : Nat → Bool)
    (hvisits : ks.length < visits) :
    (ks.filter accepts = [] ∧ ∃ top, (w.seek t accepts visits here).Yields s here none s top) ∨
      ∃ w' k rest, (w.seek t accepts visits here).Yields s here (some w') s k ∧
        Route t w' k rest ∧ rest.length < ks.length ∧
        ks.filter accepts = k :: rest.filter accepts := by
  induction h generalizing visits with
  | @stop w w' here top h =>
    obtain ⟨visits, rfl⟩ := Nat.exists_eq_succ_of_ne_zero (by omega : visits ≠ 0)
    exact .inl ⟨rfl, top, (h.observe s).bind (.done none s top)⟩
  | @visit w w' here k ks h rest ih =>
    obtain ⟨visits, rfl⟩ := Nat.exists_eq_succ_of_ne_zero (by omega : visits ≠ 0)
    have hrest : ks.length < visits := Nat.lt_of_succ_lt_succ hvisits
    cases haccepts : accepts k with
    | true =>
      refine .inr ⟨w', k, ks, (h.observe s).bind ?_, rest, Nat.lt_succ_self _, by simp [haccepts]⟩
      simpa [haccepts] using Yields.done (some w') s k
    | false =>
      -- The search goes on from `k`, with one visit less to spend.
      have hskip : ∀ {found : Option Walk} {m : Nat},
          (w'.seek t accepts visits k).Yields s k found s m →
            (w.seek t accepts (visits + 1) here).Yields s here found s m := by
        intro found m hseek
        refine (h.observe s).bind ?_
        simpa [haccepts] using hseek
      rw [List.filter_cons_of_neg (by simp [haccepts])]
      obtain ⟨hnil, top, hseek⟩ | ⟨w'', m, rest', hseek, hroute, hlength, hfilter⟩ :=
        ih hrest
      · exact .inl ⟨hnil, top, hskip hseek⟩
      · exact .inr ⟨w'', m, rest', hskip hseek, hroute, Nat.lt_succ_of_lt hlength, hfilter⟩

end Seek

section Iterator

variable {revision : Nat} {pool : NamePool} {s : Store} {it : AxisIterator}

namespace AxisIterator

/-- The search for the next node of an iterator that walks. -/
def search (it : AxisIterator) (pool : NamePool) (w : Walk) (c : Cursor) :
    Reading Unit (Option Walk) :=
  w.seek c.snapshot (fun k => it.test.accepts pool (c.snapshot.handle c.revision k))
    (c.snapshot.size + 1) c.place

section Search

variable {c c' : Cursor} {w' : Walk} {m' : Meter} {run : Run Unit (Option Walk)}

theorem perform_search (hrun : (it.search pool w c).run () c s.meter = run) :
    Store.perform c
        (w.seek c.snapshot (fun k => it.test.accepts pool (c.snapshot.handle c.revision k))
          (c.snapshot.size + 1) c.place) () s =
      (run, { s with meter := run.meter }) :=
  Store.perform_of_run hrun

theorem next_of_search (hit : it.progress = .walking w c)
    (hrun : (it.search pool w c).run () c s.meter = run) (hfound : run.outcome = .ok (some w')) :
    it.next pool s =
      ((some (.ok run.cursor.handle), { it with progress := .walking w' run.cursor }),
        { s with meter := run.meter }) := by
  simp only [next, hit]
  simp only [Bind.bind, StateT.bind, perform_search hrun, hfound]
  rfl

theorem next_of_search_end (hit : it.progress = .walking w c)
    (hrun : (it.search pool w c).run () c s.meter = run) (hend : run.outcome = .ok none)
    (hopen : run.cursor.isOpen = true) :
    it.next pool s =
      ((none, { it with progress := .exhausted }),
        { s with meter := run.meter, openCursors := s.openCursors - 1 }) := by
  simp only [next, hit]
  simp only [Bind.bind, StateT.bind, perform_search hrun, hend, Store.release_of_open hopen]
  rfl

/-- The next node of an iterator whose walk goes on to a node that is accepted. -/
theorem next_of_visit {x : Handle} (hit : it.progress = .walking w c)
    (h : (w.advance c.snapshot c.place).run w c s.meter = ⟨.ok true, w', c', m'⟩)
    (haccepts : it.test.accepts pool (c.snapshot.handle c.revision c'.place) = true)
    (hx : c'.handle = x) :
    it.next pool s =
      ((some (.ok x), { it with progress := .walking w' c' }), { s with meter := m' }) := by
  subst hx
  have hrun : (it.search pool w c).run () c s.meter = ⟨.ok (some w'), (), c', m'⟩ := by
    rw [search, Walk.seek, run_bind, run_observe, h]
    simp [Run.andThen, Except.map, haccepts, run]
  exact next_of_search hit hrun rfl

/-- An iterator is over when its walk is. -/
theorem next_of_stop (hit : it.progress = .walking w c)
    (h : (w.advance c.snapshot c.place).run w c s.meter = ⟨.ok false, w', c', m'⟩)
    (hopen : c'.isOpen = true) :
    it.next pool s =
      ((none, { it with progress := .exhausted }),
        { s with meter := m', openCursors := s.openCursors - 1 }) := by
  have hrun : (it.search pool w c).run () c s.meter = ⟨.ok none, (), c', m'⟩ := by
    rw [search, Walk.seek, run_bind, run_observe, h]
    simp [Run.andThen, Except.map, run]
  exact next_of_search_end hit hrun rfl hopen

end Search

/-- The next node of an iterator that finds one. -/
theorem next_of_found {accepts : Nat → Bool} {w' : Walk}
    (hit : it.progress = .walking w { revision, snapshot := t, place := here })
    (haccepts : accepts = fun k => it.test.accepts pool (t.handle revision k))
    (h : (w.seek t accepts (t.size + 1) here).Yields () here (some w') () k)
    (hm : s.meter.GrantsNext ((w.seek t accepts (t.size + 1) here).cost () here)) :
    it.next pool s =
      ((some (.ok (t.handle revision k)),
          { it with progress := .walking w' { revision, snapshot := t, place := k } }),
        { s with meter :=
            s.meter.after ((w.seek t accepts (t.size + 1) here).cost () here) }) := by
  subst haccepts
  exact next_of_search hit (h.run rfl hm) rfl

/-- An iterator that finds no more gives its cursor back. -/
theorem next_of_end {accepts : Nat → Bool} {top : Nat}
    (hit : it.progress = .walking w { revision, snapshot := t, place := here })
    (haccepts : accepts = fun k => it.test.accepts pool (t.handle revision k))
    (h : (w.seek t accepts (t.size + 1) here).Yields () here none () top)
    (hm : s.meter.GrantsNext ((w.seek t accepts (t.size + 1) here).cost () here)) :
    it.next pool s =
      ((none, { it with progress := .exhausted }),
        { s with
          meter := s.meter.after ((w.seek t accepts (t.size + 1) here).cost () here)
          openCursors := s.openCursors - 1 }) := by
  subst haccepts
  exact next_of_search_end hit (h.run rfl hm) rfl rfl

end AxisIterator

/-- Undisturbed, an iterator delivers what its test accepts of the route of its walk, and gives its
cursor back. The induction is on the length of the route, since an item may skip some of it. -/
theorem Route.exists_iterator_drains (h : Route t w here ks) (hlength : ks.length ≤ t.size)
    (pool : NamePool) (it : AxisIterator)
    (hit : it.progress = .walking w { revision, snapshot := t, place := here }) :
    ∃ n, ∀ s : Store, s.meter.GrantsNext n →
      it.Drains pool s ((ks.map (t.handle revision)).filter (it.test.accepts pool))
        { s with meter := s.meter.after n, openCursors := s.openCursors - 1 } := by
  induction hn : ks.length using Nat.strongRecOn generalizing w here ks it with
  | ind n ih =>
    rw [List.filter_map]
    let seek : Reading Unit (Option Walk) :=
      w.seek t (it.test.accepts pool ∘ t.handle revision) (t.size + 1) here
    let cost := seek.cost () here
    obtain ⟨hnil, top, hseek⟩ | ⟨w', k, rest, hseek, hroute, hless, hfilter⟩ :=
      h.yields_seek () (it.test.accepts pool ∘ t.handle revision) (Nat.lt_succ_of_le hlength)
    · refine ⟨cost, ?_⟩
      intro s hs
      rw [hnil]
      exact .stop (it.next_of_end hit rfl hseek hs)
    · -- The item is the first accepted place; the iterator goes on with the rest of the route.
      obtain ⟨m, hm⟩ := ih rest.length (by omega) hroute (by omega)
        { it with progress := .walking w' { revision, snapshot := t, place := k } } rfl rfl
      refine ⟨cost + m, ?_⟩
      intro s hs
      rw [Meter.grantsNext_add] at hs
      have hrest := hm { s with meter := s.meter.after cost } hs.2
      rw [Meter.after_after, List.filter_map] at hrest
      rw [hfilter, List.map_cons]
      exact .item (it.next_of_found hit rfl hseek hs.1) hrest

end Iterator

end DocTree
