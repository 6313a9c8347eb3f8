import DocTree.Proofs.Client.Custody
import DocTree.Session.Axes

/-!
# What lenient access hides

A lenient operation does to the registry what the plain one does, and answers what that answers. Only
a failure of the storage is hidden, behind the answer that stands for "nothing there"; errors of any
other class are told. A lenient axis ends where the plain one would fail for the storage. Until then
it delivers the same nodes, whatever happens to the registry between two of them, and after its first
error or its end there is nothing more to come. At that point the plain iterator has given its cursor
back already, so that nothing changes for the store when the lenient axis lets go of it.

## Main definitions

- `Access.LenientOf` — a lenient operation beside the plain one
- `pullsAmid` — the answers of an axis while other things happen
- `LenientAxis.Mirrors` — a lenient axis beside the plain one

## Main statements

- `LenientAxis.Mirrors.next` — one answer of both
- `Node.lenient_answers` — lenient operations and axes on any registry
-/

namespace DocTree

variable {α σ S A : Type}

/-- A lenient operation beside the plain one: it does the same and answers the same, but `absent`
where the storage fails. It never answers that the storage failed. -/
structure Access.LenientOf (absent : α) (plain lenient : Access α) : Prop where
  after_eq : ∀ r, (lenient.run r).2 = (plain.run r).2
  answer_eq : ∀ r, lenient.answer r = match plain.answer r with
    | .ok a => .ok a
    | .error e => if e.category = .storage then .ok absent else .error e
  category_ne : ∀ r e, lenient.answer r = .error e → e.category ≠ .storage

theorem Access.run_orAbsent (absent : α) (work : Access α) (r : Registry) :
    (orAbsent absent work).run r = match work.run r with
      | (.ok a, r') => (.ok a, r')
      | (.error e, r') => (if e.category = .storage then .ok absent else .error e, r') := by
  simp only [orAbsent, tryCatch, tryCatchThe, MonadExceptOf.tryCatch, ExceptT.tryCatch,
    ExceptT.run_mk, bind, StateT.bind]
  rcases hwork : work.run r with ⟨e | a, r'⟩
  · rw [show work r = (.error e, r') from hwork]
    by_cases h : e.category = .storage
    · simp only [AccessError.isStorage, h, decide_true, if_true]
      rfl
    · simp only [AccessError.isStorage, h, decide_false, Bool.false_eq_true, if_false]
      rfl
  · rw [show work r = (.ok a, r') from hwork]
    rfl

theorem Access.lenientOf_orAbsent (absent : α) (work : Access α) :
    LenientOf absent work (orAbsent absent work) where
  after_eq r := by
    rw [run_orAbsent]
    rcases work.run r with ⟨_ | _, _⟩ <;> rfl
  answer_eq r := by
    rw [answer, answer, run_orAbsent]
    rcases work.run r with ⟨_ | _, _⟩ <;> rfl
  category_ne r e h := by
    rw [answer, run_orAbsent] at h
    rcases hwork : work.run r with ⟨e' | _, _⟩
    · simp only [hwork] at h
      split at h
      · cases h
      · next hother =>
        cases h
        exact hother
    · simp only [hwork] at h
      cases h

/-- An answer of an axis, with the end in place of a failure of the storage. -/
def quietly : Option (Except AccessError α) → Option (Except AccessError α)
  | some (.error e) => if e.category = .storage then none else some (.error e)
  | answer => answer

/-- The answers to some pulls, before each of which something else happens to the shared state. -/
def pullsAmid (pull : S → StateM σ (A × S)) : (events : List (σ → σ)) → S → StateM σ (List A)
  | [], _ => return []
  | event :: events, s => do
    modify event
    let (answer, s) ← pull s
    return answer :: (← pullsAmid pull events s)

theorem pullsAmid_cons (pull : S → StateM σ (A × S)) (event : σ → σ) (events : List (σ → σ)) (s : S)
    (st : σ) :
    pullsAmid pull (event :: events) s st
      = ((pull s (event st)).1.1 :: (pullsAmid pull events (pull s (event st)).1.2
          (pull s (event st)).2).1,
        (pullsAmid pull events (pull s (event st)).1.2 (pull s (event st)).2).2) :=
  rfl

theorem Registry.onStore_pure (id : Nat) (a : α) (r : Registry) :
    Registry.onStore id (pure a) r = (a, r) := by
  have hstores : r.stores.setIfInBounds id (r.store id) = r.stores := by
    apply Array.ext_getElem?
    intro i
    rw [Array.getElem?_setIfInBounds]
    split
    · next h =>
      subst h
      split
      · next hlt => simp [store, hlt]
      · next hlt => simp [hlt]
    · rfl
  exact congrArg (fun stores => (a, { r with stores })) hstores

namespace NodeAxis

variable {a : NodeAxis}

theorem run_next_of_exhausted (h : a.handles.progress = .exhausted) (r : Registry) :
    a.next r = ((none, a), r) := by
  have hpull : a.handles.nextKey r = ((none, a.handles), r) := by
    change Registry.onStore a.handles.dispatcher.store (a.handles.next _) r = _
    rw [AxisIterator.next, h]
    exact Registry.onStore_pure _ (none, a.handles) r
  rw [next_eq]
  simp only [bind, StateT.bind, hpull]
  rfl

theorem run_abandon_of_exhausted (h : a.handles.progress = .exhausted) (r : Registry) :
    a.abandon r = ((), r) := by
  rw [abandon, AxisIterator.abandon, h]
  exact Registry.onStore_pure _ () r

theorem exhausted_of_isLast {r : Registry} (h : AxisIterator.isLast (a.next r).1.1 = true) :
    (a.next r).1.2.handles.progress = .exhausted := by
  have hlast : AxisIterator.isLast (a.handles.nextKey r).1.1 = true := by
    rw [← isLast_map fun handle : Handle => (⟨handle, a.document⟩ : Node)]
    exact h
  exact (a.handles.ensures_next (r.pool a.handles.dispatcher.pool)
    (r.store a.handles.dispatcher.store)).2.2 hlast

end NodeAxis

namespace LenientAxis

variable {axis : LenientAxis} {nodes : NodeAxis}

/-- A lenient axis beside a plain one: it holds the plain one, or both are at their end. -/
inductive Mirrors : LenientAxis → NodeAxis → Prop where
  | holding (nodes : NodeAxis) : Mirrors ⟨some nodes⟩ nodes
  | ended {nodes : NodeAxis} (h : nodes.handles.progress = .exhausted) : Mirrors ⟨none⟩ nodes

theorem run_next_none (r : Registry) : LenientAxis.next ⟨none⟩ r = ((none, ⟨none⟩), r) := rfl

/-- The next answer of a lenient axis by that of the plain one. -/
theorem run_next (nodes : NodeAxis) (r : Registry) :
    LenientAxis.next ⟨some nodes⟩ r = ((quietly (nodes.next r).1.1,
      if AxisIterator.isLast (nodes.next r).1.1 then ⟨none⟩ else ⟨some (nodes.next r).1.2⟩),
      (nodes.next r).2) := by
  have hexhausted := NodeAxis.exhausted_of_isLast (a := nodes) (r := r)
  unfold LenientAxis.next
  simp only [bind, StateT.bind]
  rcases hnext : nodes.next r with ⟨⟨_ | e | n, nodes'⟩, r'⟩
  · rw [hnext] at hexhausted
    simp only [StateT.bind, nodes'.run_abandon_of_exhausted (hexhausted rfl)]
    rfl
  · rw [hnext] at hexhausted
    simp only [StateT.bind, nodes'.run_abandon_of_exhausted (hexhausted rfl), AccessError.isStorage,
      decide_eq_true_eq]
    rfl
  · rfl

/-- The next answers of both, in the same registry: they are the same but for a failure of the
storage, and leave the same registry behind. -/
theorem Mirrors.next (h : axis.Mirrors nodes) (r : Registry) :
    (axis.next r).1.1 = quietly (nodes.next r).1.1 ∧ (axis.next r).2 = (nodes.next r).2 ∧
      (axis.next r).1.2.Mirrors (nodes.next r).1.2 := by
  cases h with
  | holding =>
    rw [run_next]
    refine ⟨rfl, rfl, ?_⟩
    split
    · next hlast => exact .ended (NodeAxis.exhausted_of_isLast hlast)
    · exact .holding _
  | ended h =>
    rw [nodes.run_next_of_exhausted h]
    exact ⟨rfl, rfl, .ended h⟩

/-- The answers of both while other things happen. -/
theorem Mirrors.pullsAmid (h : axis.Mirrors nodes) (events : List (Registry → Registry))
    (r : Registry) :
    DocTree.pullsAmid LenientAxis.next events axis r
      = ((DocTree.pullsAmid NodeAxis.next events nodes r).1.map quietly,
        (DocTree.pullsAmid NodeAxis.next events nodes r).2) := by
  induction events generalizing axis nodes r with
  | nil => rfl
  | cons event events ih =>
    obtain ⟨hanswer, hafter, hmirrors⟩ := h.next (event r)
    rw [pullsAmid_cons, pullsAmid_cons, hanswer, hafter, ih hmirrors]
    rfl

/-- A lenient axis that has ended has no more answers, and leaves the registry alone. -/
theorem pullsAmid_none (events : List (Registry → Registry)) (r : Registry) :
    (DocTree.pullsAmid LenientAxis.next events ⟨none⟩ r).1 = List.replicate events.length none := by
  induction events generalizing r with
  | nil => rfl
  | cons event events ih =>
    rw [pullsAmid_cons, run_next_none, ih]
    rfl

theorem isLast_quietly {α : Type} (answer : Option (Except AccessError α)) :
    AxisIterator.isLast (quietly answer) = AxisIterator.isLast answer := by
  rcases answer with _ | e | _
  · rfl
  · rw [quietly]
    split <;> rfl
  · rfl

/-- After its first error or its end a lenient axis has nothing more to tell. -/
theorem pairwise_pullsAmid (events : List (Registry → Registry)) (axis : LenientAxis)
    (r : Registry) :
    (DocTree.pullsAmid LenientAxis.next events axis r).1.Pairwise fun earlier later =>
      AxisIterator.isLast earlier = true → later = none := by
  induction events generalizing axis r with
  | nil => exact .nil
  | cons event events ih =>
    rw [pullsAmid_cons]
    refine .cons (fun later hlater hlast => ?_) (ih _ _)
    have hended : (axis.next (event r)).1.2 = ⟨none⟩ := by
      obtain ⟨_ | nodes⟩ := axis
      · rfl
      · rw [run_next, isLast_quietly] at hlast
        rw [run_next]
        exact if_pos hlast
    rw [hended, pullsAmid_none] at hlater
    exact List.eq_of_mem_replicate hlater

end LenientAxis

/-- A lenient axis begins as the plain one does. -/
theorem Node.iterateLenient_eq (n : Node) (code : Nat) (test : NodeTest) :
    n.iterateLenient code test = Access.orAbsent ⟨none⟩
      (Session.iterate n (.code code) test >>= fun nodes => return ⟨some nodes⟩) := by
  simp only [Session.iterate, Session.AxisChoice.resolve, bind_assoc, pure_bind]
  rfl

namespace Node

/-- Lenient operations on nodes, in any registry and whatever its stores refuse: they do and answer
what the plain ones do, but that they hide failures of the storage, and only these. A lenient axis
delivers what the plain one does while other things happen to the registry, with the end in place of
a failure of the storage, and after its first error or its end nothing any more. -/
theorem lenient_answers :
    (∀ n : Node, Access.LenientOf none n.parent n.parentLenient ∧
      Access.LenientOf false n.hasChildren n.hasChildrenLenient ∧
      Access.LenientOf 0 n.siblingPosition n.siblingPositionLenient ∧
      ∀ (code : Nat) (test : NodeTest), Access.LenientOf ⟨none⟩
        (Session.iterate n (.code code) test >>= fun nodes => return ⟨some nodes⟩)
        (n.iterateLenient code test)) ∧
    ∀ (nodes : NodeAxis) (events : List (Registry → Registry)) (r : Registry),
      pullsAmid LenientAxis.next events ⟨some nodes⟩ r
        = ((pullsAmid NodeAxis.next events nodes r).1.map quietly,
          (pullsAmid NodeAxis.next events nodes r).2) ∧
      ((pullsAmid LenientAxis.next events ⟨some nodes⟩ r).1.Pairwise fun earlier later =>
        AxisIterator.isLast earlier = true → later = none) ∧
      (pullsAmid LenientAxis.next events ⟨none⟩ r).1 = List.replicate events.length none := by
  refine ⟨fun n => ⟨?_, ?_, ?_, fun code test => ?_⟩,
    fun nodes events r => ⟨?_, ?_, ?_⟩⟩
  · exact Access.lenientOf_orAbsent _ _
  · exact Access.lenientOf_orAbsent _ _
  · exact Access.lenientOf_orAbsent _ _
  · rw [iterateLenient_eq]
    exact Access.lenientOf_orAbsent _ _
  · exact (LenientAxis.Mirrors.holding nodes).pullsAmid events r
  · exact LenientAxis.pairwise_pullsAmid events _ r
  · exact LenientAxis.pullsAmid_none events r

end Node

end DocTree
