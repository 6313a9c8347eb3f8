import DocTree.Proofs.Axis.Drain
import DocTree.Proofs.Registry.Undisturbed

/-!
# Dispatching an axis

An iterator delivers what the walk along its axis visits, as far as the test accepts it. That holds
also where the dispatcher opens no cursor, since there the walk visits nothing, or nothing but the
origin.

## Main statements

- `Dispatcher.delivers_route` — what a dispatched iterator delivers
- `Dispatcher.dispatch_delivers_accepted` — iterators and walks along all axes
-/

namespace DocTree

open Reading Snapshot

variable {t : Snapshot} {here k : Nat} {w : Walk} {ks ks' : List Nat}

/-- The route of a walk is determined. -/
theorem Route.unique (h : Route t w here ks) (h' : Route t w here ks') : ks = ks' := by
  induction h generalizing ks' with
  | stop h =>
    cases h' with
    | stop h' => rfl
    | visit h' rest' => exact absurd (h.unique h').1 (by decide)
  | visit h rest ih =>
    cases h' with
    | stop h' => exact absurd (h.unique h').1 (by decide)
    | visit h' rest' =>
      obtain ⟨-, rfl, rfl⟩ := h.unique h'
      rw [ih rest']

/-- An iterator that has only its origin to look at delivers that, if it is accepted. -/
theorem AxisIterator.drains_of_pending {it : AxisIterator} (hit : it.progress = .pending)
    (pool : NamePool) (s : Store) :
    it.Drains pool s ([it.origin].filter (it.test.accepts pool)) s := by
  have hstop : AxisIterator.Drains pool { it with progress := .exhausted } s [] s := .stop rfl
  cases haccepts : it.test.accepts pool it.origin with
  | true =>
    rw [List.filter_cons_of_pos haccepts]
    have hnext : it.next pool s =
        ((some (.ok it.origin), { it with progress := .exhausted }), s) := by
      simp only [next, hit, haccepts, if_true]
      rfl
    exact .item hnext hstop
  | false =>
    rw [List.filter_cons_of_neg (by simp [haccepts])]
    have hnext : it.next pool s = ((none, { it with progress := .exhausted }), s) := by
      simp only [next, hit, haccepts, Bool.false_eq_true, if_false]
      rfl
    exact .stop hnext

namespace Dispatcher

variable {d : Dispatcher} {axis : Axis} {test : NodeTest} {pool : NamePool}

section Opened

variable {origin : Handle} {c : Cursor} {s s₁ : Store}

/-- With a cursor at the origin, a walk begins there. -/
theorem dispatch_walking
    (hopening : axis.opening origin.kind = .walk ∨
      (axis.opening origin.kind = .walkIfParent ∧ (c.snapshot.firstChild? c.place).isSome = true))
    (hopen : Store.openAt d.revision origin.key s = (.ok c, s₁)) :
    d.dispatch origin axis test s =
      (.ok ⟨d, origin, axis, test, .walking (axis.walk origin) c⟩, s₁) := by
  rcases hopening with hopening | ⟨hopening, hparent⟩
  · simp only [dispatch, hopening]
    simp only [Bind.bind, StateT.bind, hopen]
    rfl
  · simp only [dispatch, hopening]
    simp only [Bind.bind, StateT.bind, hopen, hparent, if_true]
    rfl

/-- Where there are no children, the cursor is given back at once. -/
theorem dispatch_childless (hopening : axis.opening origin.kind = .walkIfParent)
    (hc : c.snapshot.firstChild? c.place = none)
    (hopen : Store.openAt d.revision origin.key s = (.ok c, s₁)) :
    d.dispatch origin axis test s =
      (.ok ⟨d, origin, axis, test, .exhausted⟩, (Store.release c s₁).2) := by
  simp only [dispatch, hopening]
  simp only [Bind.bind, StateT.bind, hopen, hc]
  rfl

end Opened

/-- Undisturbed, an iterator is dispatched that delivers the handles of a list, after which no cursor
of it is open. -/
def Delivers (d : Dispatcher) (t : Snapshot) (k : Nat) (axis : Axis) (test : NodeTest)
    (pool : NamePool) (hs : List Handle) : Prop :=
  ∃ n, ∀ s : Store, s.view? d.revision = some t → s.meter.GrantsNext n →
    ∃ it s₁, d.dispatch (t.handle d.revision k) axis test s = (.ok it, s₁) ∧
      it.Drains pool s₁ hs { s with meter := s.meter.after n }

theorem delivers_nothing (hopening : axis.opening (t.kind k) = .nothing) :
    d.Delivers t k axis test pool [] := by
  have hkind : (t.handle d.revision k).kind = t.kind k := rfl
  refine ⟨0, fun s _ _ => ⟨⟨d, t.handle d.revision k, axis, test, .exhausted⟩, s, ?_, .stop rfl⟩⟩
  simp only [dispatch, hkind, hopening]
  rfl

theorem delivers_origin (hopening : axis.opening (t.kind k) = .originOnly) :
    d.Delivers t k axis test pool ([t.handle d.revision k].filter (test.accepts pool)) := by
  have hkind : (t.handle d.revision k).kind = t.kind k := rfl
  refine ⟨0, fun s _ _ => ⟨⟨d, t.handle d.revision k, axis, test, .pending⟩, s, ?_,
    AxisIterator.drains_of_pending rfl pool s⟩⟩
  simp only [dispatch, hkind, hopening]
  rfl

/-- An iterator that walks delivers what is accepted of the route. -/
theorem delivers_walk (hk : k < t.size)
    (hopening : axis.opening (t.kind k) = .walk ∨
      (axis.opening (t.kind k) = .walkIfParent ∧ (t.firstChild? k).isSome = true))
    (hroute : Route t (axis.walk (t.handle d.revision k)) k ks) (hlength : ks.length ≤ t.size) :
    d.Delivers t k axis test pool
      ((ks.map (t.handle d.revision)).filter (test.accepts pool)) := by
  let it := AxisIterator.mk d (t.handle d.revision k) axis test
    (.walking (axis.walk (t.handle d.revision k)) ⟨d.revision, t, k, true⟩)
  obtain ⟨n, hn⟩ := hroute.exists_iterator_drains hlength pool it rfl
  refine ⟨2 + n, ?_⟩
  intro s hv hs
  rw [Meter.grantsNext_add] at hs
  have hopen : Store.openAt d.revision (t.handle d.revision k).key s = _ :=
    Store.openAt_of_grantsNext hv hk hs.1
  have hdrains := hn { s with meter := s.meter.after 2, openCursors := s.openCursors + 1 } hs.2
  rw [Meter.after_after] at hdrains
  exact ⟨it, _, dispatch_walking hopening hopen, hdrains⟩

theorem delivers_childless (hk : k < t.size) (hopening : axis.opening (t.kind k) = .walkIfParent)
    (hc : t.firstChild? k = none) : d.Delivers t k axis test pool [] := by
  refine ⟨2, fun s hv hs => ⟨⟨d, t.handle d.revision k, axis, test, .exhausted⟩,
    { s with meter := s.meter.after 2 }, ?_, .stop rfl⟩⟩
  have hopen : Store.openAt d.revision (t.handle d.revision k).key s = _ :=
    Store.openAt_of_grantsNext hv hk hs
  rw [dispatch_childless hopening hc hopen, Store.release_of_open rfl]
  rfl

/-- Undisturbed, a dispatched iterator delivers what its test accepts of the route of the walk along
the axis. -/
theorem delivers_route (h : t.IsTree) (hk : k < t.size)
    (hroute : Route t (axis.walk (t.handle d.revision k)) k ks) (hlength : ks.length ≤ t.size) :
    d.Delivers t k axis test pool
      ((ks.map (t.handle d.revision)).filter (test.accepts pool)) := by
  cases hopening : axis.opening (t.kind k) with
  | nothing =>
    obtain rfl := hroute.unique (axis.route_of_nothing h hk hopening)
    exact delivers_nothing hopening
  | originOnly =>
    obtain rfl := hroute.unique (axis.route_of_originOnly h hk hopening)
    exact delivers_origin hopening
  | walk => exact delivers_walk hk (.inl hopening) hroute hlength
  | walkIfParent =>
    cases hc : t.firstChild? k with
    | none =>
      obtain rfl := hroute.unique (axis.route_of_childless h hk hopening hc)
      exact delivers_childless hk hopening hc
    | some c => exact delivers_walk hk (.inr ⟨hopening, by simp [hc]⟩) hroute hlength

/-- Along every axis, from every node of a committed revision and with every test, a walk with a
cursor at the origin comes to its end, and a dispatched iterator delivers exactly those of the visited
nodes that the test accepts, in the same order; nothing of this depends on the store but that it has
the revision and grants the operations, which are `n` and `m`. What is visited is what a document
tells of the node with that key. -/
theorem dispatch_delivers_accepted (c : Content) (hidesNames : Bool) (d : Dispatcher) (k : Nat)
    (hk : k < (Snapshot.ofContent c).size) (axis : Axis) (test : NodeTest) (pool : NamePool) :
    ∃ (visited : List Handle) (n m : Nat),
      (∀ s : Store, s.snapshot? d.revision = some (.ofContent c) → s.hidesNames = hidesNames →
        s.meter.GrantsNext n →
        ∃ cursor s₁, Store.openAt d.revision ((c.seen hidesNames).handle d.revision k).key s =
            (.ok cursor, s₁) ∧
          ∀ hs s₂, (axis.walk ((c.seen hidesNames).handle d.revision k)).Drains cursor s₁ hs s₂ ↔
            hs = visited ∧
              s₂ = { s with meter := s.meter.after n, openCursors := s.openCursors + 1 }) ∧
      (∀ s : Store, s.snapshot? d.revision = some (.ofContent c) → s.hidesNames = hidesNames →
        s.meter.GrantsNext m →
        ∃ it s₁, d.dispatch ((c.seen hidesNames).handle d.revision k) axis test s =
            (.ok it, s₁) ∧
          ∀ hs s₂, it.Drains pool s₁ hs s₂ ↔
            hs = visited.filter (test.accepts pool) ∧ s₂ = { s with meter := s.meter.after m }) ∧
      ∀ h ∈ visited, ∀ (r : Registry) (e : Document) (id : Nat), e.revision = d.revision →
        (r.store e.mount.store).snapshot? e.revision = some (.ofContent c) →
        (r.store e.mount.store).hidesNames = hidesNames →
        (r.store e.mount.store).closeFails = false → (e.node id h.key).Undisturbed r →
        (e.node id h.key).answer r = .ok ⟨h, id⟩ := by
  have htree := c.isTree_seen hidesNames
  have hsize : k < (c.seen hidesNames).size := by simpa using hk
  -- The route, and what it costs to go along it, depend on the snapshot only.
  obtain ⟨ks, hroute, hlength, hks⟩ := axis.exists_route htree hsize d.revision
  obtain ⟨n, hwalk⟩ := hroute.exists_drains d.revision
  have hdelivers : d.Delivers (c.seen hidesNames) k axis test pool _ :=
    delivers_route htree hsize hroute hlength
  obtain ⟨m, hdispatch⟩ := hdelivers
  refine ⟨ks.map ((c.seen hidesNames).handle d.revision), 2 + n, m, ?walk, ?dispatch, ?node⟩
  case walk =>
    intro s hc hnames hs
    have hv := Store.view?_of_committed hc
    rw [hnames] at hv
    rw [Meter.grantsNext_add] at hs
    refine ⟨_, _, Store.openAt_of_grantsNext hv hsize hs.1, ?_⟩
    intro hs' s₂
    have hdrains := hwalk
      { s with meter := s.meter.after 2, openCursors := s.openCursors + 1 } hs.2
    rw [Meter.after_after] at hdrains
    constructor
    · exact fun h => h.unique hdrains
    · rintro ⟨rfl, rfl⟩
      exact hdrains
  case dispatch =>
    intro s hc hnames hs
    have hv := Store.view?_of_committed hc
    rw [hnames] at hv
    obtain ⟨it, s₁, hit, hdrains⟩ := hdispatch s hv hs
    refine ⟨it, s₁, hit, ?_⟩
    intro hs' s₂
    constructor
    · exact fun h => h.unique hdrains
    · rintro ⟨rfl, rfl⟩
      exact hdrains
  case node =>
    intro h hh r e id hrevision hc hnames hclose hundisturbed
    obtain ⟨j, hj, rfl⟩ := List.mem_map.1 hh
    have hanswer := e.answer_node (k := j) hc (by simpa using hks j hj) hclose hundisturbed
    rw [hnames, hrevision] at hanswer
    exact hanswer

/-- An element with an attribute, a text and a comment. -/
def mixedContent : Content :=
  .element { name := .ofLocal "e", attributes := [(.ofLocal "a", "1")] }
    (.leaf (.text "t") (.leaf (.comment "c") .nil)) .nil

/-- A store in which that is the only revision. -/
def mixedStore : Store := { revisions := #[.ofContent mixedContent] }

/-- That revision as a document. -/
def mixedDocument : Document := ⟨⟨0, 0⟩, 0, 0, none, 0, {}⟩

/-- Of the three nodes below the document node, an iterator over the texts delivers the second, as
the document tells of it. -/
theorem dispatch_delivers_text :
    (∃ it s₁, dispatch ⟨0, 0, 0⟩ ((mixedContent.seen false).handle 0 0) .descendant (.kind .text)
        mixedStore = (.ok it, s₁) ∧
      ∃ s₂, it.Drains .empty s₁ [(mixedContent.seen false).handle 0 3] s₂) ∧
    (mixedDocument.node 0 3).answer { stores := #[mixedStore] } =
      .ok ⟨(mixedContent.seen false).handle 0 3, 0⟩ := by
  obtain ⟨visited, n, m, hwalk, hdispatch, hnode⟩ := dispatch_delivers_accepted mixedContent false
    ⟨0, 0, 0⟩ 0 (by decide) .descendant (.kind .text) .empty
  have hfree : ∀ n, mixedStore.meter.GrantsNext n := Meter.grantsNext_of_unlimited rfl
  obtain ⟨cursor, s₁, hopen, hvisited⟩ := hwalk mixedStore rfl rfl (hfree n)
  obtain ⟨it, s₁', hit, hdrains⟩ := hdispatch mixedStore rfl rfl (hfree m)
  obtain ⟨hcursor, rfl⟩ := Prod.mk.inj hopen
  obtain rfl := Except.ok.inj hcursor
  have hthree : visited = [1, 3, 4].map ((mixedContent.seen false).handle 0) :=
    ((hvisited _ _).1 (.visit rfl rfl (.visit rfl rfl (.visit rfl rfl (.stop rfl rfl))))).1.symm
  refine ⟨⟨it, s₁', hit, _, (hdrains _ _).2 ⟨?_, rfl⟩⟩, ?_⟩
  · rw [hthree]
    rfl
  · have htext : (mixedContent.seen false).handle 0 3 ∈ visited := by
      rw [hthree]
      simp
    exact hnode _ htext { stores := #[mixedStore] } mixedDocument 0 rfl rfl rfl rfl
      (Access.undisturbed_of_single _ rfl rfl)

end Dispatcher

end DocTree
