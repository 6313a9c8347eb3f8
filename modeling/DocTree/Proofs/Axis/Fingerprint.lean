import DocTree.Proofs.NamePool.Codes
import DocTree.Proofs.Node.DocumentOrder
import DocTree.Proofs.Node.Lenient
import DocTree.Proofs.Registry.Later
import DocTree.Session.Names

/-!
# Tests for fingerprints

A test for the fingerprint of a name accepts exactly what the test for the name accepts, in the pool
that the fingerprint is from and in all that becomes of it. So an iteration with the one test is an
iteration with the other one in disguise: it answers the same, and does the same to the storage,
whatever else happens in between.

## Main definitions

- `AxisIterator.retest` — an iterator with another test
- `Mimics` — readers that answer the same under an invariant
- `BeginsAs` — operations that begin the same iteration, the one in disguise
- `deliveriesAmid` — what an iteration delivers while other things happen

## Main statements

- `NodeTest.accepts_fingerprint` — fingerprints are tested as names are
- `Mimics.run_deliveriesAmid` — what a reader in disguise delivers
- `Node.iterate_by_fingerprint` — iterations with a fingerprint that a node has got for its name
-/

namespace DocTree

variable {S T A : Type}

namespace NodeTest

variable {p : NamePool} {uri localPart : String} {f : Nat} {code : Int}

/-- A test for the fingerprint of a name accepts what the test for the name accepts. -/
theorem accepts_fingerprint (k : Kind) (hf : p.fingerprint? uri localPart = some f) (h : Handle) :
    (fingerprint k f).accepts p h = (name k uri localPart).accepts p h := by
  refine congrArg (h.kind == k && ·) ?_
  rcases h.expandedName? with _ | ⟨uri', localPart'⟩
  · rfl
  · simp only [Option.bind_some]
    rw [Bool.eq_iff_iff]
    cases hf' : p.fingerprint? uri' localPart' with
    | none =>
      -- A name that the pool does not know is another one.
      have hother : (uri', localPart') ≠ (uri, localPart) := by
        rintro ⟨⟩
        cases hf.symm.trans hf'
      simpa using hother
    | some f' =>
      have hsame : f' = f ↔ (uri', localPart') = (uri, localPart) := Interner.eq_iff_of_find? hf' hf
      simpa [Int.natCast_inj] using hsame

/-- A code that is no fingerprint of the pool is the code of no node. -/
theorem accepts_fingerprint_of_unknown (k : Kind)
    (hcode : ∀ uri localPart (f : Nat), p.fingerprint? uri localPart = some f → (f : Int) ≠ code)
    (h : Handle) : (fingerprint k code).accepts p h = false := by
  rw [accepts, Bool.and_eq_false_iff]
  refine .inr ?_
  rcases h.expandedName? with _ | ⟨uri, localPart⟩
  · rfl
  · simp only [Option.bind_some]
    cases hf : p.fingerprint? uri localPart with
    | none => rfl
    | some f => exact beq_eq_false_iff_ne.mpr (hcode uri localPart f hf)

end NodeTest

/-! ### Iterators with another test -/

/-- The iterator with another test. -/
def AxisIterator.retest (test : NodeTest) (it : AxisIterator) : AxisIterator := { it with test }

theorem AxisIterator.dispatcher_retest (test : NodeTest) (it : AxisIterator) :
    (it.retest test).dispatcher = it.dispatcher :=
  rfl

/-- Tests that accept the same handles make the same answers. -/
theorem AxisIterator.next_retest {test : NodeTest} {it : AxisIterator} {p : NamePool}
    (h : ∀ x, test.accepts p x = it.test.accepts p x) (s : Store) :
    (it.retest test).next p s
      = (((it.next p s).1.1, (it.next p s).1.2.retest test), (it.next p s).2) := by
  obtain ⟨d, origin, axis, test', progress⟩ := it
  have haccepts : test.accepts p = test'.accepts p := funext h
  unfold next retest
  simp only [haccepts]
  rcases progress with _ | _ | ⟨walk, c⟩
  · rfl
  · rfl
  · simp only [bind, StateT.bind]
    rcases Store.perform c _ () s with ⟨run, s'⟩
    dsimp only
    rcases run.outcome with e | _ | walk'
    · rfl
    · rfl
    · rfl

/-- A test has no part in how an iteration begins. -/
theorem Dispatcher.dispatch_retest (d : Dispatcher) (origin : Handle) (axis : Axis)
    (test test' : NodeTest) (s : Store) :
    d.dispatch origin axis test' s = ((d.dispatch origin axis test s).1.map (·.retest test'),
      (d.dispatch origin axis test s).2) := by
  have hparts := d.ensures_dispatch_eq origin axis test s
  rw [d.dispatch_congr test test' rfl rfl]
  rcases hrun : d.dispatch origin axis test s with ⟨e | it, s'⟩
  · rfl
  · rw [hrun] at hparts
    show (Except.ok (AxisIterator.mk d origin axis test' it.progress), s') =
      (.ok (it.retest test'), s')
    rw [show it = ⟨d, origin, axis, test, it.progress⟩ from hparts]
    rfl

/-! ### Readers in disguise -/

/-- Under an invariant, a reader in disguise answers what it answers without, and does the same to the
registry. The invariant stays, also when other things happen. -/
structure Mimics (pull : S → StateM Registry (A × S)) (disguise : S → S) (I : Registry → S → Prop) :
    Prop where
  answers : ∀ ⦃r s⦄, I r s →
    pull (disguise s) r = (((pull s r).1.1, disguise (pull s r).1.2), (pull s r).2)
  keeps : ∀ ⦃r s⦄, I r s → I (pull s r).2 (pull s r).1.2
  lasts : ∀ ⦃r r' s⦄, r.Later r' → I r s → I r' s

/-- What an iteration delivers that is begun now, with something happening before each answer. -/
def deliveriesAmid (start : Access S) (pull : S → StateM Registry (A × S))
    (events : List (Registry → Registry)) : Access (List A) := do
  let s ← start
  monadLift (pullsAmid pull events s)

/-- One operation begins what another one does, but in disguise. -/
structure BeginsAs (start disguised : Access S) (disguise : S → S) (I : Registry → S → Prop)
    (r : Registry) : Prop where
  run_eq : disguised.run r = ((start.run r).1.map disguise, (start.run r).2)
  begins : ∀ s, (start.run r).1 = .ok s → I (start.run r).2 s

namespace BeginsAs

variable {start disguised : Access S} {disguise : S → S} {I : Registry → S → Prop}
  {r : Registry}

/-- Both fail. -/
theorem of_error {e : AccessError} {r' : Registry} (h : start.run r = (.error e, r'))
    (h' : disguised.run r = (.error e, r')) : BeginsAs start disguised disguise I r where
  run_eq := by rw [h, h']; rfl
  begins s hs := by rw [h] at hs; cases hs

/-- What is begun is made into something else. -/
theorem map (h : BeginsAs start disguised disguise I r) (make : S → T) {disguise' : T → T}
    {I' : Registry → T → Prop} (hmake : ∀ s, make (disguise s) = disguise' (make s))
    (hI : ∀ r s, I r s → I' r (make s)) :
    BeginsAs (start >>= fun s => pure (make s)) (disguised >>= fun s => pure (make s)) disguise' I'
      r := by
  constructor
  · rw [Access.run_bind_pure, Access.run_bind_pure, h.run_eq]
    rcases (start.run r).1 with _ | s
    · rfl
    · exact congrArg (fun t => (Except.ok t, (start.run r).2)) (hmake s)
  · intro t ht
    rw [Access.run_bind_pure] at ht ⊢
    obtain ⟨s, hs, rfl⟩ : ∃ s, (start.run r).1 = .ok s ∧ make s = t := by
      rcases hstart : (start.run r).1 with _ | s
      · rw [hstart] at ht; cases ht
      · rw [hstart] at ht; exact ⟨s, rfl, Except.ok.inj ht⟩
    exact hI _ s (h.begins s hs)

theorem orAbsent (h : BeginsAs start disguised disguise I r) {absent : S}
    (hdisguise : disguise absent = absent) (hI : ∀ r, I r absent) :
    BeginsAs (Access.orAbsent absent start) (Access.orAbsent absent disguised) disguise I r := by
  constructor
  · rw [Access.run_orAbsent, Access.run_orAbsent, h.run_eq]
    rcases start.run r with ⟨e | s, r'⟩
    · by_cases he : e.category = .storage
      · simp [Except.map, he, hdisguise]
      · simp [Except.map, he]
    · rfl
  · intro s hs
    rw [Access.run_orAbsent] at hs ⊢
    rcases hstart : start.run r with ⟨e | s', r'⟩
    · rw [hstart] at hs
      by_cases he : e.category = .storage
      · simp only [he, if_true] at hs
        exact Except.ok.inj hs ▸ hI r'
      · simp [he] at hs
    · rw [hstart] at hs
      have hbegins := h.begins s'
      rw [hstart] at hbegins
      exact Except.ok.inj hs ▸ hbegins rfl

end BeginsAs

namespace Mimics

variable {pull : S → StateM Registry (A × S)} {disguise : S → S} {I : Registry → S → Prop}
  {events : List (Registry → Registry)} {r : Registry} {s : S}

theorem pullsAmid_eq (h : Mimics pull disguise I) (hs : I r s)
    (hevents : ∀ event ∈ events, ∀ r : Registry, r.Later (event r)) :
    pullsAmid pull events (disguise s) r = pullsAmid pull events s r := by
  induction events generalizing s r with
  | nil => rfl
  | cons event events ih =>
    have hnow : I (event r) s := h.lasts (hevents event List.mem_cons_self r) hs
    rw [pullsAmid_cons, pullsAmid_cons, h.answers hnow,
      ih (h.keeps hnow) fun e he => hevents e (List.mem_cons_of_mem _ he)]

/-- A reader in disguise delivers what it would have delivered without, whatever happens. -/
theorem run_deliveriesAmid (h : Mimics pull disguise I) {start disguised : Access S}
    (hbegins : BeginsAs start disguised disguise I r)
    (hevents : ∀ event ∈ events, ∀ r : Registry, r.Later (event r)) :
    (deliveriesAmid disguised pull events).run r = (deliveriesAmid start pull events).run r := by
  rw [deliveriesAmid, deliveriesAmid]
  rcases hstart : start.run r with ⟨e | s, r'⟩
  · have hdisguised : disguised.run r = (.error e, r') := by rw [hbegins.run_eq, hstart]; rfl
    rw [Access.run_bind_of_error hstart, Access.run_bind_of_error hdisguised]
  · have hdisguised : disguised.run r = (.ok (disguise s), r') := by rw [hbegins.run_eq, hstart]; rfl
    have hs : I r' s := by simpa [hstart] using hbegins.begins s (by rw [hstart])
    rw [Access.run_bind_of_ok hstart, Access.run_bind_of_ok hdisguised]
    exact congrArg (fun run : List A × Registry => (Except.ok run.1, run.2))
      (h.pullsAmid_eq hs hevents)

/-- Nodes are read as their handles are. -/
theorem nodes {disguise : AxisIterator → AxisIterator} {I : Registry → AxisIterator → Prop}
    (h : Mimics AxisIterator.nextKey disguise I) :
    Mimics NodeAxis.next (fun a => { a with handles := disguise a.handles })
      fun r a => I r a.handles where
  answers r a ha := by
    simp only [NodeAxis.next_eq, bind, StateT.bind, h.answers ha]
    rfl
  keeps _ _ ha := h.keeps ha
  lasts _ _ _ hlater ha := h.lasts hlater ha

/-- A lenient axis is read as the plain one is. -/
theorem lenient {disguise : NodeAxis → NodeAxis} {I : Registry → NodeAxis → Prop}
    (h : Mimics NodeAxis.next disguise I) :
    Mimics LenientAxis.next (fun a => ⟨a.nodes?.map disguise⟩)
      fun r a => ∀ nodes ∈ a.nodes?, I r nodes where
  answers := by
    rintro r ⟨_ | nodes⟩ ha
    · rfl
    · simp only [Option.map_some, LenientAxis.run_next, h.answers (ha nodes rfl)]
      split <;> rfl
  keeps := by
    rintro r ⟨_ | nodes⟩ ha
    · exact ha
    · rw [LenientAxis.run_next]
      split
      · exact fun _ hnone => absurd hnone (Option.not_mem_none _)
      · intro nodes' hnodes'
        obtain rfl : (nodes.next r).1.2 = nodes' := Option.some.inj hnodes'
        exact h.keeps (ha nodes rfl)
  lasts r r' a hlater ha nodes hnodes := h.lasts hlater (ha nodes hnodes)

end Mimics

namespace AxisIterator

variable {kind : Kind} {uri localPart : String} {f : Nat}

/-- The iterator tests for the fingerprint that its pool has for a name. -/
structure TestsFor (kind : Kind) (uri localPart : String) (f : Nat) (r : Registry)
    (it : AxisIterator) : Prop where
  fingerprint : (r.pool it.dispatcher.pool).fingerprint? uri localPart = some f
  test_eq : it.test = .fingerprint kind f

theorem run_nextKey (it : AxisIterator) (r : Registry) :
    it.nextKey r = ((it.next (r.pool it.dispatcher.pool) (r.store it.dispatcher.store)).1,
      r.setStore it.dispatcher.store
        (it.next (r.pool it.dispatcher.pool) (r.store it.dispatcher.store)).2) :=
  rfl

/-- An iterator that tests for a fingerprint may as well test for the name. -/
theorem mimics_nextKey (kind : Kind) (uri localPart : String) (f : Nat) :
    Mimics nextKey (retest (.name kind uri localPart)) (TestsFor kind uri localPart f) where
  answers r it h := by
    have haccepts : ∀ x, (NodeTest.name kind uri localPart).accepts (r.pool it.dispatcher.pool) x
        = it.test.accepts (r.pool it.dispatcher.pool) x := fun x => by
      rw [h.test_eq, NodeTest.accepts_fingerprint kind h.fingerprint]
    rw [run_nextKey, run_nextKey, dispatcher_retest, next_retest haccepts]
  keeps r it h := by
    have hit : (it.nextKey r).1.2 = { it with progress := (it.nextKey r).1.2.progress } :=
      it.ensures_next_eq _ _
    rw [hit]
    exact ⟨((it.advances_nextKey r).pools _).names _ _ h.fingerprint, h.test_eq⟩
  lasts r r' it hlater h := ⟨(hlater.pools _).names _ _ h.fingerprint, h.test_eq⟩

end AxisIterator

section Begin

variable {r : Registry} {uri localPart : String} {f : Nat}

/-- A dispatcher begins the same iteration with both tests. -/
theorem Dispatcher.beginsAs_access (kind : Kind) (d : Dispatcher) (origin : Handle) (axis : Axis)
    (hf : (r.pool d.pool).fingerprint? uri localPart = some f) :
    BeginsAs (Registry.access d.store (d.dispatch origin axis (.fingerprint kind f)))
      (Registry.access d.store (d.dispatch origin axis (.name kind uri localPart)))
      (.retest (.name kind uri localPart)) (AxisIterator.TestsFor kind uri localPart f) r where
  run_eq := by
    show ((d.dispatch origin axis _ (r.store d.store)).1,
      r.setStore d.store (d.dispatch origin axis _ (r.store d.store)).2) = _
    rw [d.dispatch_retest origin axis (.fingerprint kind f)]
    rfl
  begins it hit := by
    have hparts : it = ⟨d, origin, axis, .fingerprint kind f, it.progress⟩ := by
      have hensures := d.ensures_dispatch_eq origin axis (.fingerprint kind f) (r.store d.store)
      have hit' : (d.dispatch origin axis (.fingerprint kind f) (r.store d.store)).1 = .ok it := hit
      rwa [hit'] at hensures
    rw [hparts]
    exact ⟨hf, rfl⟩

/-- So does a node. -/
theorem Node.beginsAs_iterate (kind : Kind) (n : Node) (axis : Axis)
    (hf : ∀ d, r.document? n.document = some d →
      (r.pool d.pool).fingerprint? uri localPart = some f) :
    BeginsAs (n.iterate axis (.fingerprint kind f)) (n.iterate axis (.name kind uri localPart))
      (.retest (.name kind uri localPart)) (AxisIterator.TestsFor kind uri localPart f) r := by
  cases hd : r.document? n.document with
  | none => exact .of_error (run_iterate_of_released hd axis _) (run_iterate_of_released hd axis _)
  | some d =>
    have hbegins := d.dispatcher.beginsAs_access kind n.handle axis (hf d hd)
    constructor
    · rw [run_iterate hd, run_iterate hd]
      exact hbegins.run_eq
    · rw [run_iterate hd]
      exact hbegins.begins

theorem Session.beginsAs_iterate (kind : Kind) (n : Node) (choice : AxisChoice)
    (hf : ∀ d, r.document? n.document = some d →
      (r.pool d.pool).fingerprint? uri localPart = some f) :
    BeginsAs (iterate n choice (.fingerprint kind f)) (iterate n choice (.name kind uri localPart))
      (fun a => { a with handles := a.handles.retest (.name kind uri localPart) })
      (fun r a => a.handles.TestsFor kind uri localPart f r) r := by
  unfold iterate
  cases choice.resolve with
  | error e => exact .of_error rfl rfl
  | ok axis =>
    exact (n.beginsAs_iterate kind axis hf).map (fun it => (⟨it, n.document⟩ : NodeAxis))
      (fun _ => rfl) fun _ _ h => h

theorem Node.beginsAs_iterateLenient (kind : Kind) (n : Node) (code : Nat)
    (hf : ∀ d, r.document? n.document = some d →
      (r.pool d.pool).fingerprint? uri localPart = some f) :
    BeginsAs (n.iterateLenient code (.fingerprint kind f))
      (n.iterateLenient code (.name kind uri localPart))
      (fun a => ⟨a.nodes?.map fun a =>
        { a with handles := a.handles.retest (.name kind uri localPart) }⟩)
      (fun r a => ∀ nodes ∈ a.nodes?, nodes.handles.TestsFor kind uri localPart f r) r := by
  rw [iterateLenient_eq, iterateLenient_eq]
  refine ((Session.beginsAs_iterate kind n (.code code) hf).map (fun a => (⟨some a⟩ : LenientAxis))
    (fun _ => rfl) ?_).orAbsent rfl fun _ _ hnone => absurd hnone (Option.not_mem_none _)
  exact fun _ _ h _ hnodes => Option.some.inj hnodes ▸ h

end Begin

/-- The code that a pool gives for a name has the fingerprint of the name. -/
theorem NamePool.fingerprint?_of_allocate {p : NamePool} (hbounded : p.Bounded)
    {qualifier uri localPart : String} {code : Nat}
    (h : (p.allocate qualifier uri localPart).1 = .ok code) :
    (p.allocate qualifier uri localPart).2.fingerprint? uri localPart
      = some (fingerprintOf code) := by
  obtain ⟨-, hbounded', hcodes⟩ := gives_allocate hbounded qualifier uri localPart
  obtain ⟨k, f, -, hf, rfl⟩ := hcodes code h
  have hlt := Nat.lt_of_lt_of_le (Interner.find?_lt hf) hbounded'.names
  rw [fingerprintOf, Nat.mul_add_mod_self_right, Nat.mod_eq_of_lt hlt]
  exact hf

/-- Only elements, attributes and processing instructions have name codes. -/
theorem Node.run_nameCode {n : Node} {d : Document} {r : Registry}
    (hd : r.document? n.document = some d) :
    n.nameCode.run r = if n.isQualified || n.handle.kind == .instruction then
      let answer := Registry.onPool d.pool (·.allocate n.qualifier n.uri n.localPart) r
      (answer.1.map some, answer.2)
    else (.ok none, r) := by
  unfold nameCode
  split
  · rw [Access.run_bind_of_ok (run_getDocument hd)]
    exact Access.run_bind_pure _ some r
  · rfl

theorem Node.run_fingerprint (n : Node) (r : Registry) :
    n.fingerprint.run r =
      ((n.nameCode.run r).1.map (·.map NamePool.fingerprintOf), (n.nameCode.run r).2) :=
  Access.run_bind_pure n.nameCode _ r

/-- A fingerprint that a node has got for its name is that of this name in the pool. -/
theorem Node.fingerprint?_of_fingerprint {n : Node} {d : Document} {p : NamePool} {r : Registry}
    {f : Nat} (hd : r.document? n.document = some d) (hp : r.pools[d.pool]? = some p)
    (hbounded : p.Bounded) (h : n.fingerprint.answer r = .ok (some f)) :
    ((n.fingerprint.run r).2.pool d.pool).fingerprint? n.uri n.localPart = some f := by
  have hpool : r.pool d.pool = p := by rw [Registry.pool, hp]; rfl
  obtain ⟨hid, -⟩ := Array.getElem?_eq_some_iff.mp hp
  have hanswer : (Registry.onPool d.pool (·.allocate n.qualifier n.uri n.localPart) r).1
      = (p.allocate n.qualifier n.uri n.localPart).1 := by
    rw [← hpool]
    rfl
  rw [Access.answer, run_fingerprint, run_nameCode hd] at h
  rw [run_fingerprint, run_nameCode hd]
  split at h
  · dsimp only at h
    rw [hanswer] at h
    rcases hcode : (p.allocate n.qualifier n.uri n.localPart).1 with e | code
    · rw [hcode] at h
      cases h
    · rw [hcode] at h
      obtain rfl : NamePool.fingerprintOf code = f := Option.some.inj (Except.ok.inj h)
      rw [if_pos ‹_›]
      dsimp only
      rw [Registry.pool_onPool hid, hpool]
      exact NamePool.fingerprint?_of_allocate hbounded hcode
  · cases h

namespace SessionM

variable {α β : Type}

/-- An operation of a session that changes nothing. -/
def Looks (a : SessionM α) : Prop := ∀ s : Session, (a.run s).2 = s

theorem looks_pure (a : α) : Looks (pure a) := fun _ => rfl

theorem looks_throw (e : Refusal) : Looks (throw e : SessionM α) := fun _ => rfl

theorem looks_get : Looks (get : SessionM Session) := fun _ => rfl

theorem Looks.bind {a : SessionM α} {f : α → SessionM β} (ha : Looks a) (hf : ∀ x, Looks (f x)) :
    Looks (a >>= f) := by
  intro s
  rw [ExceptT.run_bind]
  simp only [Bind.bind, StateT.bind]
  have hs := ha s
  rcases hrun : a.run s with ⟨_ | x, s'⟩
  · rw [hrun] at hs
    exact hs
  · rw [hrun] at hs
    exact (hf x s').trans hs

theorem looks_lookup? (name : String) : Looks (lookup? name) :=
  looks_get.bind fun _ => looks_pure _

theorem looks_find (name : String) (select : Object → Option α) : Looks (find name select) := by
  refine (looks_lookup? name).bind fun o? => ?_
  cases o?.bind select with
  | some a => exact looks_pure a
  | none => exact looks_throw _

theorem looks_getPool (name : String) : Looks (getPool name) := by
  refine (looks_lookup? name).bind fun o? => ?_
  have hdocument : Looks (getDocument name) := by
    refine (looks_find name _).bind fun id => looks_get.bind fun s => ?_
    cases s.registry.document? id with
    | some d => exact looks_pure _
    | none => exact looks_throw _
  split
  · exact looks_pure _
  · exact hdocument.bind fun _ => looks_pure _

end SessionM

/-- Looking whether a handle passes a test changes nothing. -/
theorem Session.looks_testHandle (test : NodeTest) (handle pool : String) :
    SessionM.Looks (testHandle test handle pool) :=
  (SessionM.looks_find handle _).bind fun _ => (SessionM.looks_getPool pool).bind fun _ =>
    SessionM.looks_get.bind fun _ => SessionM.looks_pure _

namespace Node

/-- Take a pool after any calls. A test for the fingerprint that it has for a name accepts every
handle that the test for the name accepts, and no other; a code that it has for no name is that of no
handle; and testing changes nothing. So when a node of a document over the pool has been given the
fingerprint of its name, then from that time on, whatever happens, iterations over any axis in any
document over the pool deliver with a test for the fingerprint what they deliver with a test for the
URI and the local part that the node tells, and do the same to the registry. -/
theorem iterate_by_fingerprint (calls : List NamePool.Call) :
    let p := (NamePool.transcript calls .empty).2
    (∀ kind uri localPart (f : Nat), p.fingerprint? uri localPart = some f → ∀ h : Handle,
      (NodeTest.fingerprint kind f).accepts p h = (NodeTest.name kind uri localPart).accepts p h) ∧
    (∀ kind (code : Int),
      (∀ uri localPart (f : Nat), p.fingerprint? uri localPart = some f → (f : Int) ≠ code) →
      ∀ h : Handle, (NodeTest.fingerprint kind code).accepts p h = false) ∧
    (∀ test handle pool (s : Session), ((Session.testHandle test handle pool).run s).2 = s) ∧
    (∀ (it : AxisIterator) (r : Registry), (it.nextKey r).2.pools = r.pools) ∧
    ∀ (r : Registry) (n : Node) (d : Document) (f : Nat), r.document? n.document = some d →
      r.pools[d.pool]? = some p → n.fingerprint.answer r = .ok (some f) →
      ∀ now : Registry, (n.fingerprint.run r).2.Later now →
      ∀ events : List (Registry → Registry), (∀ event ∈ events, ∀ r : Registry, r.Later (event r)) →
        let byCode := NodeTest.fingerprint n.handle.kind f
        let byName := NodeTest.name n.handle.kind n.uri n.localPart
        (∀ (d' : Dispatcher) (origin : Handle) (axis : Axis), d'.pool = d.pool →
          let handles := fun test => deliveriesAmid
            (Registry.access d'.store (d'.dispatch origin axis test)) AxisIterator.nextKey events
          (handles byCode).run now = (handles byName).run now) ∧
        ∀ m : Node, (∀ d', now.document? m.document = some d' → d'.pool = d.pool) →
          (∀ choice : Session.AxisChoice,
            let nodes := fun test =>
              deliveriesAmid (Session.iterate m choice test) NodeAxis.next events
            (nodes byCode).run now = (nodes byName).run now) ∧
          ∀ code : Nat,
            let lenient := fun test =>
              deliveriesAmid (m.iterateLenient code test) LenientAxis.next events
            (lenient byCode).run now = (lenient byName).run now := by
  intro p
  refine ⟨fun kind _ _ _ hf => NodeTest.accepts_fingerprint kind hf,
    fun kind _ hcode => NodeTest.accepts_fingerprint_of_unknown kind hcode,
    Session.looks_testHandle, fun _ _ => rfl, ?_⟩
  intro r n d f hd hp hanswer now hnow events hevents byCode byName
  have hbounded : p.Bounded :=
    (NamePool.codes_of_mem_transcript calls NamePool.bounded_empty).2.1
  have hf : (now.pool d.pool).fingerprint? n.uri n.localPart = some f :=
    (hnow.pools d.pool).names _ _ (fingerprint?_of_fingerprint hd hp hbounded hanswer)
  have hhandles := AxisIterator.mimics_nextKey n.handle.kind n.uri n.localPart f
  refine ⟨fun d' origin axis hpool => ?_, fun m hm => ⟨fun choice => ?_, fun code => ?_⟩⟩
  · refine (hhandles.run_deliveriesAmid ?_ hevents).symm
    exact d'.beginsAs_access _ origin axis (hpool ▸ hf)
  · refine (hhandles.nodes.run_deliveriesAmid ?_ hevents).symm
    exact Session.beginsAs_iterate _ m choice fun d' hd' => hm d' hd' ▸ hf
  · refine (hhandles.nodes.lenient.run_deliveriesAmid ?_ hevents).symm
    exact m.beginsAs_iterateLenient _ code fun d' hd' => hm d' hd' ▸ hf

/-- An element has been given the fingerprint of its name. With that, it is found among the children of
the document node, also in another document over the pool, and after a revision has been committed. -/
theorem iterate_by_fingerprint_child :
    let r : Registry := { smallRegistry with pools := #[.empty] }
    let element := smallNode 0 1
    let commit := fun r : Registry => (Registry.onStore 0 (Store.commit smallContent) r).2
    element.fingerprint.answer r = .ok (some 0) ∧
      (deliveriesAmid (Session.iterate (smallNode 1 0) (.axis .child) (.fingerprint .element 0))
        NodeAxis.next [commit]).answer (element.fingerprint.run r).2
        = .ok [some (.ok (smallNode 1 1))] := by
  intro r element commit
  have hname : NamePool.empty.names.find? ("", "e") = none := Interner.find?_empty _
  have hqualifier : NamePool.empty.qualifiers.find? "" = some 0 := by
    simp [NamePool.empty, Interner.find?_add, Interner.size, Interner.empty]
  have hallocate : NamePool.empty.allocate "" "" "e" =
      (.ok 0, ⟨NamePool.empty.names.add _ hname, NamePool.empty.qualifiers, NamePool.empty.uris⟩) := by
    have hlimit : 0 < NamePool.fingerprintLimit := by decide
    have hsize : NamePool.empty.names.size = 0 := rfl
    simp [NamePool.allocate, NamePool.internName, NamePool.internQualifier,
      Interner.intern_of_room hname, Interner.intern_of_find? hqualifier, NamePool.codeOr, hlimit,
      hsize]
  have hrun : element.fingerprint.run r = (.ok (some 0), { r with
      pools := #[⟨NamePool.empty.names.add _ hname, NamePool.empty.qualifiers,
        NamePool.empty.uris⟩] }) := by
    have hpool : Registry.onPool 0 (·.allocate "" "" "e") r =
        ((NamePool.empty.allocate "" "" "e").1,
          { r with pools := #[(NamePool.empty.allocate "" "" "e").2] }) :=
      rfl
    have hnamed : (element.isQualified || element.handle.kind == .instruction) = true := rfl
    rw [run_fingerprint, run_nameCode (d := smallDocument ⟨0, 0⟩) rfl, if_pos hnamed]
    show ((Registry.onPool 0 (·.allocate "" "" "e") r).1.map some |>.map _,
      (Registry.onPool 0 (·.allocate "" "" "e") r).2) = _
    rw [hpool, hallocate]
    rfl
  have hanswer : element.fingerprint.answer r = .ok (some 0) := by rw [Access.answer, hrun]
  refine ⟨hanswer, ?_⟩
  obtain ⟨-, -, -, -, h⟩ := iterate_by_fingerprint []
  have hevents : ∀ event ∈ [commit], ∀ r : Registry, r.Later (event r) := by
    intro event hevent r
    obtain rfl : event = commit := by simpa using hevent
    exact Registry.advances_onStore 0 (Store.advances_commit smallContent) r
  have hpool : ∀ d, (element.fingerprint.run r).2.document? 1 = some d → d.pool = 0 := by
    intro d hd
    rw [hrun] at hd
    obtain rfl : smallDocument ⟨0, 0⟩ = d := Option.some.inj hd
    rfl
  obtain ⟨-, hnodes⟩ := h r element (smallDocument ⟨0, 0⟩) 0 rfl rfl hanswer _ (.refl _)
    [commit] hevents
  have hsame := (hnodes (smallNode 1 0) hpool).1 (.axis .child)
  refine (congrArg Prod.fst hsame).trans ?_
  rw [hrun]
  rfl

end Node

end DocTree
