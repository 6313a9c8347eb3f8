import DocTree.Proofs.Axis.Budget
import DocTree.Proofs.Client.Basic
import DocTree.Proofs.NamePool.Codes
import DocTree.Proofs.Node.DocumentOrder
import DocTree.Proofs.Registry.Later

/-!
# Iterators in turns

Any number of iterators are asked in turns for their next nodes. In between others are dispatched,
and clients do what they like to the shared state: revisions are committed, cursors and documents come
and go, nodes are read, and names get codes. None of that shows in what an iterator delivers. Each
time that it is asked it answers as if it had been alone with its store and its pool since it was
dispatched, and an iteration that is started again starts from the beginning, however far the first
one has got.

## Main definitions

- `Scene`, `Turn`, `Scene.run` — iterators and a client, turn by turn
- `answersOf` — what one of the iterators has answered
- `Scene.Faultless` — the storage refuses nothing when an iterator is asked

## Main statements

- `Client.later_perform` — whatever a client does leads to a later state of the registry
- `Scene.answersOf_run` — an iterator answers as it does alone
- `Scene.answers_as_alone` — from its dispatch on, and again after it has been started again
-/

namespace DocTree

/-! ### What clients do to the registry -/

theorem Operation.advances_perform (o : Operation) : o.perform.Advances :=
  Access.compositional_advances.perform o fun _ _ absent _ h => h.orAbsent absent

theorem Holding.advances_use (h : Holding) (u : Use) : Registry.Advances (h.use u) := by
  have hsteer : ∀ {σ α : Type} (store : Nat) (c : Cursor) (r : Reading σ α) (init : σ),
      Registry.Advances (steer store c r init) := fun store c r init =>
    (Registry.advances_onStore store (Store.advances_perform c r init)).bind fun _ =>
      Registry.advances_pure _
  have hclose : ∀ store c, Registry.Advances (Registry.onStore store (Store.close c)) :=
    fun store c => Registry.advances_onStore store (Store.advances_close c)
  unfold use
  split
  · exact (hsteer _ _ _ _).bind fun _ => Registry.advances_pure _
  · exact (hsteer _ _ _ _).bind fun _ => Registry.advances_pure _
  · exact (hsteer _ _ _ _).bind fun _ => Registry.advances_pure _
  · exact (hsteer _ _ _ _).bind fun _ => Registry.advances_pure _
  · exact (hclose _ _).bind fun _ => Registry.advances_pure _
  · exact (hclose _ _).bind fun _ => Registry.advances_pure _
  · exact (hclose _ _).bind fun _ => Registry.advances_pure _
  · exact (hclose _ _).bind fun _ => Registry.advances_pure _
  · exact (Registry.advances_onStore _ (Store.advances_release _)).bind fun _ =>
      Registry.advances_pure _
  · exact (Registry.advances_onStore _ (AxisIterator.advances_abandon _)).bind fun _ =>
      Registry.advances_pure _
  · exact (NodeAxis.advances_abandon _).bind fun _ => Registry.advances_pure _
  · exact (LenientAxis.advances_abandon _).bind fun _ => Registry.advances_pure _
  · exact (AxisIterator.advances_nextKey _).bind fun _ => Registry.advances_pure _
  · exact (NodeAxis.advances_next _).bind fun _ => Registry.advances_pure _
  · exact (LenientAxis.advances_next _).bind fun _ => Registry.advances_pure _
  · exact Registry.advances_pure _

theorem Node.advances_iterate (n : Node) (axis : Axis) (test : NodeTest) :
    (n.iterate axis test).Advances :=
  Access.compositional_advances.bind (Access.compositional_advances.getDocument n) fun d =>
    d.dispatcher.advances_access n.handle axis test

theorem Acquisition.advances_perform (a : Acquisition) : a.perform.Advances := by
  have h := Access.compositional_advances
  cases a with
  | openCursor store revision =>
    refine h.bind ?_ fun c => h.pure _
    exact Registry.advances_onStore store
      ((Store.advances_openCursor revision).bind fun lent => Store.advances_pure _)
  | openScope store revision key =>
    refine h.bind ?_ fun c => h.pure _
    exact Registry.advances_onStore store (Store.advances_openAt revision key)
  | dispatch d origin axis test =>
    exact h.bind (d.advances_access origin axis test) fun it => h.pure _
  | again it =>
    exact h.bind (it.dispatcher.advances_access it.origin it.axis it.test) fun it => h.pure _
  | iterate n axis test => exact h.bind (n.advances_iterate axis test) fun it => h.pure _
  | nodesAgain axis =>
    refine h.bind ?_ fun axis => h.pure _
    exact h.bind (axis.handles.dispatcher.advances_access _ _ _) fun it => h.pure _
  | iterateLenient n code test =>
    refine h.bind ?_ fun axis => h.pure _
    refine Access.Advances.orAbsent _ ?_
    have hcode : (monadLift (Axis.ofCode code) : Access Axis).Advances := by
      cases Axis.ofCode code with
      | error e => exact h.throw e
      | ok axis => exact h.pure axis
    exact h.bind hcode fun axis => h.bind (n.advances_iterate axis test) fun it => h.pure _

/-- Whatever a client does leads to a later state of the registry. -/
theorem Client.later_perform (client : Client) (action : Action) :
    client.registry.Later (client.perform action).registry := by
  cases action with
  | acquire a =>
    have hlater := a.advances_perform client.registry
    simp only [perform]
    rcases hrun : a.perform.run client.registry with ⟨e | h, registry⟩
    · rw [hrun] at hlater
      exact hlater
    · rw [hrun] at hlater
      exact hlater
  | use i u =>
    simp only [perform]
    cases client.holdings[i]? with
    | some h => exact h.advances_use u client.registry
    | none => exact .refl _
  | operate o => exact o.advances_perform client.registry
  | commit store c =>
    exact Registry.advances_onStore store (Store.advances_commit c) client.registry
  | refill store budget => exact Registry.later_setStore (Store.later_of_eq rfl rfl)

/-! ### Turns -/

/-- A client, and iterators that are asked in turns. -/
structure Scene extends Client where
  iterators : List AxisIterator := []

/-- A turn of an iterator, or of the client. -/
inductive Turn where
  /-- Dispatch another iterator. -/
  | dispatch (d : Dispatcher) (origin : Handle) (axis : Axis) (test : NodeTest)
  /-- Start the iteration of the iterator `i` again, as another iterator. -/
  | again (i : Nat)
  /-- Ask the iterator `i` for its next node. -/
  | next (i : Nat)
  /-- Whatever else a client does. -/
  | act (a : Action)
  /-- Ask a pool for a code or a name. -/
  | name (pool : Nat) (call : NamePool.Call)

/-- Whether the iterator `i` is asked for its next node. -/
def Turn.asks (i : Nat) : Turn → Bool
  | next j => j == i
  | _ => false

theorem Turn.eq_next_of_asks {i : Nat} {t : Turn} (h : t.asks i = true) : t = .next i := by
  cases t with
  | next j => rw [show j = i from beq_iff_eq.1 h]
  | _ => cases h

/-- What iterators have answered: each answer with the number of the iterator. -/
abbrev Transcript := List (Nat × Option (Except AccessError Handle))

/-- What the iterator `i` has answered. -/
def answersOf (i : Nat) (log : Transcript) : List (Option (Except AccessError Handle)) :=
  (log.filter (·.1 == i)).map (·.2)

namespace Scene

/-- The scene with one more iterator, if it can be had. -/
def welcome (x : Scene) (work : Access AxisIterator) : Scene :=
  match work.run x.registry with
  | (.ok it, registry) => { x with registry, iterators := x.iterators ++ [it] }
  | (.error _, registry) => { x with registry }

/-- What comes of a turn: an answer if an iterator was asked, and the scene afterwards. -/
def perform (x : Scene) : Turn → Transcript × Scene
  | .dispatch d origin axis test =>
    ([], x.welcome (Registry.access d.store (d.dispatch origin axis test)))
  | .again i =>
    match x.iterators[i]? with
    | some it => ([], x.welcome (Registry.access it.dispatcher.store it.again))
    | none => ([], x)
  | .next i =>
    match x.iterators[i]? with
    | some it =>
      let ((answer, it), registry) := it.nextKey x.registry
      ([(i, answer)], { x with registry, iterators := x.iterators.set i it })
    | none => ([], x)
  | .act a => ([], { x with toClient := x.toClient.perform a })
  | .name pool call =>
    ([], { x with registry := (Registry.onPool pool (·.reply call) x.registry).2 })

/-- What comes of some turns. -/
def run : List Turn → Scene → Transcript × Scene
  | [], x => ([], x)
  | t :: turns, x =>
    let (log, x) := x.perform t
    let (log', x) := run turns x
    (log ++ log', x)

/-- No store refuses a request that is made in a turn. -/
def Undisturbed (x : Scene) (t : Turn) : Prop :=
  ∀ id, (x.registry.store id).meter.GrantsNext
    (((x.perform t).2.registry.store id).meter.used - (x.registry.store id).meter.used)

/-- No store refuses a request when the iterator `i` is asked. -/
def Faultless (i : Nat) : List Turn → Scene → Prop
  | [], _ => True
  | t :: turns, x => (t.asks i = true → x.Undisturbed t) ∧ Faultless i turns (x.perform t).2

variable {x : Scene} {i : Nat} {it : AxisIterator}

theorem registry_welcome (x : Scene) (work : Access AxisIterator) :
    (x.welcome work).registry = (work.run x.registry).2 := by
  unfold welcome
  rcases work.run x.registry with ⟨_ | _, _⟩ <;> rfl

theorem iterators_welcome (x : Scene) (work : Access AxisIterator) :
    (x.welcome work).iterators = x.iterators ++ ((work.run x.registry).1.toOption).toList := by
  unfold welcome
  rcases work.run x.registry with ⟨_ | _, _⟩
  · exact (List.append_nil _).symm
  · rfl

theorem perform_next (hit : x.iterators[i]? = some it) :
    x.perform (.next i) = ([(i, (it.nextKey x.registry).1.1)],
      { x with
        registry := (it.nextKey x.registry).2
        iterators := x.iterators.set i (it.nextKey x.registry).1.2 }) := by
  simp only [perform, hit]
  rfl

theorem perform_again (hit : x.iterators[i]? = some it) :
    x.perform (.again i) = x.perform (.dispatch it.dispatcher it.origin it.axis it.test) := by
  simp only [perform, hit]
  rfl

/-- Every turn leads to a later state of the registry. -/
theorem later_perform (x : Scene) (t : Turn) : x.registry.Later (x.perform t).2.registry := by
  have hwelcome : ∀ (d : Dispatcher) origin axis test, x.registry.Later
      (x.welcome (Registry.access d.store (d.dispatch origin axis test))).registry := by
    intro d origin axis test
    rw [registry_welcome]
    exact d.advances_access origin axis test x.registry
  cases t with
  | dispatch d origin axis test => exact hwelcome d origin axis test
  | again i =>
    simp only [perform]
    cases x.iterators[i]? with
    | some it => exact hwelcome it.dispatcher it.origin it.axis it.test
    | none => exact .refl _
  | next i =>
    simp only [perform]
    cases x.iterators[i]? with
    | some it => exact it.advances_nextKey x.registry
    | none => exact .refl _
  | act a => exact x.toClient.later_perform a
  | name pool call => exact Registry.advances_onPool pool (fun p => p.extends_reply call) x.registry

theorem later_run (turns : List Turn) (x : Scene) : x.registry.Later (x.run turns).2.registry := by
  induction turns generalizing x with
  | nil => exact .refl _
  | cons t turns ih => exact (x.later_perform t).trans (ih _)

/-- A turn in which an iterator is not asked leaves it as it is. -/
theorem getElem?_perform (hit : x.iterators[i]? = some it) {t : Turn} (ht : t.asks i = false) :
    (x.perform t).2.iterators[i]? = some it := by
  have hwelcome : ∀ work, (x.welcome work).iterators[i]? = some it := by
    intro work
    rw [iterators_welcome, List.getElem?_append_left (List.getElem?_eq_some_iff.1 hit).1, hit]
  cases t with
  | dispatch d origin axis test => exact hwelcome _
  | again j =>
    simp only [perform]
    cases x.iterators[j]? with
    | some it' => exact hwelcome _
    | none => exact hit
  | next j =>
    have hij : j ≠ i := by simpa [Turn.asks] using ht
    simp only [perform]
    cases x.iterators[j]? with
    | some it' => exact (List.getElem?_set_ne hij).trans hit
    | none => exact hit
  | act a => exact hit
  | name pool call => exact hit

/-- In such a turn nothing is heard of it. -/
theorem answersOf_perform {t : Turn} (ht : t.asks i = false) : answersOf i (x.perform t).1 = [] := by
  cases t with
  | next j =>
    have hij : (j == i) = false := ht
    cases hj : x.iterators[j]? with
    | some it' => simp [perform_next hj, answersOf, hij]
    | none => simp [perform, hj, answersOf]
  | again j =>
    simp only [perform]
    cases x.iterators[j]? <;> rfl
  | _ => rfl

theorem answersOf_append (log log' : Transcript) :
    answersOf i (log ++ log') = answersOf i log ++ answersOf i log' := by
  simp [answersOf]

/-- No store refuses anything in the course of work on one of them exactly if that one does not. -/
theorem undisturbed_onStore_iff {α : Type} {r : Registry} {id : Nat} {work : StateM Store α} :
    (∀ other, (r.store other).meter.GrantsNext
      (((Registry.onStore id work r).2.store other).meter.used - (r.store other).meter.used)) ↔
      (r.store id).Undisturbed work := by
  rw [Registry.onStore_eq]
  by_cases hid : id < r.stores.size
  · constructor
    · intro h
      have hstore := h id
      rwa [Registry.store_setStore hid] at hstore
    · intro h other
      by_cases hother : id = other
      · subst hother
        rwa [Registry.store_setStore hid]
      · rw [Registry.store_setStore_of_ne hother, Nat.sub_self]
        exact Meter.grantsNext_zero _
  · -- A store that there is not has no budget either.
    have hstores : r.stores.setIfInBounds id (work (r.store id)).2 = r.stores :=
      Array.setIfInBounds_eq_of_size_le (Nat.le_of_not_lt hid)
    have hnone : r.store id = {} := by simp [Registry.store, Nat.le_of_not_lt hid]
    rw [Registry.setStore, hstores, hnone]
    refine ⟨fun _ => Meter.grantsNext_of_unlimited rfl _, fun _ other => ?_⟩
    rw [Nat.sub_self]
    exact Meter.grantsNext_zero _

theorem undisturbed_next_iff (hit : x.iterators[i]? = some it) :
    x.Undisturbed (.next i) ↔ (x.registry.store it.dispatcher.store).Undisturbed
      (it.next (x.registry.pool it.dispatcher.pool)) := by
  rw [Undisturbed, perform_next hit]
  exact undisturbed_onStore_iff

theorem undisturbed_dispatch_iff {d : Dispatcher} {origin : Handle} {axis : Axis}
    {test : NodeTest} : x.Undisturbed (.dispatch d origin axis test) ↔
      (x.registry.store d.store).Undisturbed (d.dispatch origin axis test) := by
  rw [Undisturbed, perform, registry_welcome]
  exact undisturbed_onStore_iff

theorem undisturbed_again_iff (hit : x.iterators[i]? = some it) :
    x.Undisturbed (.again i) ↔ (x.registry.store it.dispatcher.store).Undisturbed it.again := by
  rw [Undisturbed, perform_again hit]
  exact undisturbed_dispatch_iff

/-- A turn can only bring an iterator further. -/
theorem exists_progress_perform (hit : x.iterators[i]? = some it) (t : Turn) :
    ∃ progress, (x.perform t).2.iterators[i]? = some { it with progress } := by
  cases ht : t.asks i with
  | false => exact ⟨it.progress, getElem?_perform hit ht⟩
  | true =>
    obtain rfl := Turn.eq_next_of_asks ht
    have hnext : (it.nextKey x.registry).1.2 =
        { it with progress := (it.nextKey x.registry).1.2.progress } :=
      it.ensures_next_eq _ _
    refine ⟨(it.nextKey x.registry).1.2.progress, ?_⟩
    rw [perform_next hit, ← hnext]
    exact List.getElem?_set_self (List.getElem?_eq_some_iff.1 hit).1

theorem exists_progress_run (hit : x.iterators[i]? = some it) (turns : List Turn) :
    ∃ progress, (x.run turns).2.iterators[i]? = some { it with progress } := by
  induction turns generalizing x it with
  | nil => exact ⟨it.progress, hit⟩
  | cons t turns ih =>
    obtain ⟨progress, hprogress⟩ := exists_progress_perform hit t
    obtain ⟨progress', hprogress'⟩ := ih hprogress
    exact ⟨progress', hprogress'⟩

/-- What an iterator answers in an undisturbed turn does not depend on its store, nor on what its pool
has learned since the test was settled. -/
theorem nextKey_eq (hit : x.iterators[i]? = some it) (hturn : x.Undisturbed (.next i))
    {pool : NamePool} (hpool : pool.Extends (x.registry.pool it.dispatcher.pool))
    (hsettled : it.test.Settled pool) {s : Store} (hs : s.meter.budget? = none) :
    (it.nextKey x.registry).1 = (it.next pool s).1 := by
  have hsame : it.next (x.registry.pool it.dispatcher.pool) = it.next pool :=
    AxisIterator.next_congr fun h => hsettled.accepts_eq hpool h
  have hstore := (undisturbed_next_iff hit).1 hturn
  rw [hsame] at hstore
  show (it.next (x.registry.pool it.dispatcher.pool) (x.registry.store it.dispatcher.store)).1 = _
  rw [hsame]
  exact (it.steady_next pool).answer_eq hstore (Meter.grantsNext_of_unlimited hs _)

/-- An iterator answers as it does alone, with the pool that it had once and with a store that has no
budget. The induction is on the turns; the store of the iterator that is alone goes along only when it
is asked. -/
theorem answersOf_run {turns : List Turn} (hit : x.iterators[i]? = some it) {pool : NamePool}
    (hpool : pool.Extends (x.registry.pool it.dispatcher.pool)) (hsettled : it.test.Settled pool)
    (hturns : x.Faultless i turns) {s : Store} (hs : s.meter.budget? = none) :
    answersOf i (x.run turns).1 = it.pulls pool (turns.countP (·.asks i)) s := by
  induction turns generalizing x it s with
  | nil => rfl
  | cons t turns ih =>
    obtain ⟨hturn, hrest⟩ := hturns
    have hlater := (x.later_perform t).pools it.dispatcher.pool
    show answersOf i ((x.perform t).1 ++ ((x.perform t).2.run turns).1) = _
    rw [answersOf_append]
    cases ht : t.asks i with
    | false =>
      rw [answersOf_perform ht, List.countP_cons_of_neg (by simp [ht])]
      exact ih (getElem?_perform hit ht) (hpool.trans hlater) hsettled hrest hs
    | true =>
      obtain rfl := Turn.eq_next_of_asks ht
      have hanswer := nextKey_eq hit (hturn ht) hpool hsettled hs
      rcases halone : it.next pool s with ⟨⟨answer, it'⟩, s'⟩
      rw [halone] at hanswer
      have hit' : it' = { it with progress := it'.progress } := by
        have hnext := it.ensures_next_eq pool s
        rwa [halone] at hnext
      have hs' : s'.meter.budget? = none := by
        obtain ⟨n, hn⟩ := (it.steady_next pool).metered s
        rw [halone] at hn
        rw [show s'.meter = _ from hn]
        exact hs
      rw [List.countP_cons_of_pos ht, AxisIterator.pulls_succ halone]
      rw [perform_next hit] at hlater hrest ⊢
      rw [hanswer] at hrest ⊢
      have hhead : answersOf i [(i, answer)] = [answer] := by simp [answersOf]
      rw [hhead, List.singleton_append]
      refine congrArg _ (ih ?_ ?_ ?_ hrest hs')
      · exact List.getElem?_set_self (List.getElem?_eq_some_iff.1 hit).1
      · rw [hit']
        exact hpool.trans hlater
      · rw [hit']
        exact hsettled

variable {d : Dispatcher} {origin : Handle} {axis : Axis} {test : NodeTest}

/-- Dispatching adds an iterator to the scene exactly if it does not fail. -/
theorem iterators_dispatch :
    (x.perform (.dispatch d origin axis test)).2.iterators = x.iterators ++ [it] ↔
      (d.dispatch origin axis test (x.registry.store d.store)).1 = .ok it := by
  have hwelcome : (x.perform (.dispatch d origin axis test)).2.iterators = x.iterators ++
      ((d.dispatch origin axis test (x.registry.store d.store)).1.toOption).toList :=
    iterators_welcome x _
  rw [hwelcome, List.append_cancel_left_eq]
  cases (d.dispatch origin axis test (x.registry.store d.store)).1 with
  | error e => simp [Except.toOption]
  | ok it' => simp [Except.toOption]

/-- Let an iterator be dispatched in any scene, with a test that is settled by then. In whatever turns
the iterators of the scene are then asked, others are dispatched, and clients use and change what is
shared: if the storage refuses nothing when the iterator is asked, it answers as it does when it is
asked as often alone, with the pool and the store as they were, but for any budget. And whenever its
iteration is then started again, with nothing refused, the new iterator answers, in whatever turns
follow, as the first one does alone from the beginning. -/
theorem answers_as_alone (x : Scene) (d : Dispatcher) (origin : Handle) (axis : Axis)
    (test : NodeTest) (it : AxisIterator) (hsettled : test.Settled (x.registry.pool d.pool))
    (hdispatch : x.Undisturbed (.dispatch d origin axis test))
    (hit : (x.perform (.dispatch d origin axis test)).2.iterators = x.iterators ++ [it])
    (turns : List Turn)
    (hturns : (x.perform (.dispatch d origin axis test)).2.Faultless x.iterators.length turns) :
    let first := x.iterators.length
    let x₀ := (x.perform (.dispatch d origin axis test)).2
    let alone := fun n =>
      it.pulls (x.registry.pool d.pool) n (x₀.registry.store d.store).unlimited
    answersOf first (x₀.run turns).1 = alone (turns.countP (·.asks first)) ∧
      ((x₀.run turns).2.Undisturbed (.again first) →
        let second := (x₀.run turns).2.iterators.length
        let x₁ := ((x₀.run turns).2.perform (.again first)).2
        x₁.iterators = (x₀.run turns).2.iterators ++ [it] ∧
          ∀ later, x₁.Faultless second later →
            answersOf second (x₁.run later).1 = alone (later.countP (·.asks second))) := by
  intro first x₀ alone
  have hgiven := iterators_dispatch.1 hit
  have hparts : it = ⟨d, origin, axis, test, it.progress⟩ := by
    have hensures := d.ensures_dispatch_eq origin axis test (x.registry.store d.store)
    rwa [hgiven] at hensures
  have hdispatcher : it.dispatcher = d := by rw [hparts]
  have hsettled' : it.test.Settled (x.registry.pool d.pool) := by rwa [hparts]
  have hlater₀ : x.registry.Later x₀.registry := x.later_perform _
  have hfirst : x₀.iterators[first]? = some it := by
    rw [show x₀.iterators = _ from hit]
    exact List.getElem?_concat_length
  refine ⟨?alone, ?again⟩
  case alone =>
    refine answersOf_run hfirst ?_ hsettled' hturns rfl
    rw [hdispatcher]
    exact hlater₀.pools d.pool
  case again =>
    intro hagain second x₁
    have hlater : x.registry.Later (x₀.run turns).2.registry := hlater₀.trans (later_run turns x₀)
    obtain ⟨progress, hcurrent⟩ := exists_progress_run hfirst turns
    rw [hparts] at hcurrent
    have hiterators : x₁.iterators = (x₀.run turns).2.iterators ++ [it] := by
      -- To start it again is to dispatch what was dispatched at first.
      rw [show x₁ = ((x₀.run turns).2.perform (.again first)).2 from rfl, perform_again hcurrent,
        iterators_dispatch]
      exact Dispatcher.dispatch_later hgiven (undisturbed_dispatch_iff.1 hdispatch)
        (hlater.stores d.store) ((undisturbed_again_iff hcurrent).1 hagain)
    refine ⟨hiterators, ?_⟩
    intro later hfaultless
    refine answersOf_run ?_ ?_ hsettled' hfaultless rfl
    · rw [hiterators]
      exact List.getElem?_concat_length
    · rw [hdispatcher]
      exact (hlater.trans (later_perform _ _)).pools d.pool

/-- A scene over one store with an element in its only revision, and one pool. -/
def smallScene : Scene where
  registry := { Node.smallRegistry with pools := #[.empty] }

/-- While the first iterator is asked twice, a name gets a code, a revision is committed, an iterator
is dispatched over it and asked, and a document is released. -/
def smallTurns : List Turn :=
  [.name 0 (.name "" "" "t"), .next 0, .act (.commit 0 Node.smallContent),
    .dispatch ⟨0, 1, 0⟩ ((Node.smallContent.seen false).handle 1 0) .descendant .any, .next 1,
    .act (.operate (.releaseDocument 0)), .next 0]

/-- The element and its text are delivered in these turns. Started again then, the iteration delivers
both of them anew and comes to its end, while the first two iterators go on. -/
theorem answers_as_alone_element_text :
    let x₀ := (smallScene.perform (.dispatch ⟨0, 0, 0⟩ ((Node.smallContent.seen false).handle 0 0)
      .descendant .any)).2
    let x₁ := ((x₀.run smallTurns).2.perform (.again 0)).2
    let element := (Node.smallContent.seen false).handle 0 1
    let text := (Node.smallContent.seen false).handle 0 3
    answersOf 0 (x₀.run smallTurns).1 = [some (.ok element), some (.ok text)] ∧
      answersOf 2 (x₁.run [.next 0, .next 2, .next 1, .next 2, .next 2]).1 =
        [some (.ok element), some (.ok text), none] := by
  have hnext : ∀ {x : Scene} {i : Nat} {it : AxisIterator}, x.iterators[i]? = some it →
      (x.registry.store it.dispatcher.store).meter.budget? = none → x.Undisturbed (.next i) :=
    fun hit hfree => (undisturbed_next_iff hit).2 (Meter.grantsNext_of_unlimited hfree _)
  intro x₀ x₁ element text
  obtain ⟨hfirst, hagain⟩ := answers_as_alone smallScene ⟨0, 0, 0⟩
    ((Node.smallContent.seen false).handle 0 0) .descendant .any _ trivial
    (undisturbed_dispatch_iff.2 (Meter.grantsNext_of_unlimited rfl _)) rfl smallTurns
    ⟨nofun, fun _ => hnext rfl rfl, nofun, nofun, nofun, nofun, fun _ => hnext rfl rfl, trivial⟩
  obtain ⟨-, hsecond⟩ := hagain ((undisturbed_again_iff rfl).2 (Meter.grantsNext_of_unlimited rfl _))
  refine ⟨hfirst.trans rfl, ?_⟩
  exact (hsecond [.next 0, .next 2, .next 1, .next 2, .next 2]
    ⟨nofun, fun _ => hnext rfl rfl, nofun, fun _ => hnext rfl rfl, fun _ => hnext rfl rfl,
      trivial⟩).trans rfl

end Scene

end DocTree
