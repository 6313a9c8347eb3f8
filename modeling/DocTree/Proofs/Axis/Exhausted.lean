import DocTree.Proofs.Axis.Links
import DocTree.Proofs.Walk.Spent

/-!
# Axes after their end

A walk along an axis may be advanced after it has said that it is over. It says so again, however
often it is asked, with one exception: from an origin without children the walk over its children goes
on to the siblings that follow the origin.

## Main definitions

- `Walk.advances` — advance a walk a number of times, whatever it says
- `Axis.Answers` — what a walk along an axis says then

## Main statements

- `Axis.answers_of_route` — the walk says what its route and its end say
- `Axis.stays_exhausted_iff` — when a walk that is over remains so
-/

namespace DocTree

open Reading Snapshot

variable {t : Snapshot} {c : Content} {hidesNames : Bool} {revision here k : Nat} {ks : List Nat}
  {axis : Axis} {answers : List (Option Nat)}

/-- Advance a walk a number of times, also when it has said that it is over: for each time the node
that it has come to, if there was one, or an error. -/
def Walk.advances : (times : Nat) → Walk → Cursor →
    StateM Store (List (Except AccessError (Option Handle)))
  | 0, _, _ => pure []
  | times + 1, w, cursor => do
    let run ← Store.perform cursor (w.advance cursor.snapshot cursor.place) w
    let answer := run.outcome.map fun moved => if moved then some run.cursor.handle else none
    return answer :: (← advances times run.state run.cursor)

theorem Walk.advances_succ {w : Walk} {cursor : Cursor} {s s' : Store} {run : Reading.Run Walk Bool}
    (h : Store.perform cursor (w.advance cursor.snapshot cursor.place) w s = (run, s'))
    (times : Nat) :
    w.advances (times + 1) cursor s =
      ((run.outcome.map fun moved => if moved then some run.cursor.handle else none) ::
        (run.state.advances times run.cursor s').1, (run.state.advances times run.cursor s').2) := by
  simp only [advances, Bind.bind, StateT.bind, h]
  rfl

/-- Where enough operations are granted, a walk answers as it does undisturbed. -/
theorem Walk.Answers.exists_advances {w : Walk} (h : w.Answers t here answers) (revision : Nat) :
    ∃ n, ∀ s : Store, s.meter.GrantsNext n →
      w.advances answers.length { revision, snapshot := t, place := here } s =
        (answers.map fun a => .ok (a.map (t.handle revision)),
          { s with meter := s.meter.after n }) := by
  induction h with
  | nil => exact ⟨0, fun s _ => rfl⟩
  | @cons w w' here m moved answers h rest ih =>
    obtain ⟨n, hn⟩ := ih
    refine ⟨(w.advance t here).cost w here + n, ?_⟩
    intro s hs
    rw [Meter.grantsNext_add] at hs
    have hstep := Store.perform_of_yields (c := { revision, snapshot := t, place := here }) h rfl
      hs.1
    have hrest := hn { s with meter := s.meter.after ((w.advance t here).cost w here) } hs.2
    rw [Meter.after_after] at hrest
    rw [List.length_cons, advances_succ hstep, hrest]
    cases moved <;> rfl

namespace Axis

/-- In every store with the revision, if enough operations are granted, a cursor opens at the node `k`,
and a walk along the axis that is advanced from there as often as the list has entries answers with
that: each time the node that it has come to, or that it is over. -/
def Answers (axis : Axis) (c : Content) (hidesNames : Bool) (revision k : Nat)
    (answers : List (Option Nat)) : Prop :=
  ∃ n, ∀ s : Store, s.snapshot? revision = some (.ofContent c) → s.hidesNames = hidesNames →
    s.meter.GrantsNext n →
    ∃ cursor s₁ s₂, Store.openAt revision ((c.seen hidesNames).handle revision k).key s =
        (.ok cursor, s₁) ∧
      (axis.walk ((c.seen hidesNames).handle revision k)).advances answers.length cursor s₁ =
        (answers.map fun a => .ok (a.map ((c.seen hidesNames).handle revision)), s₂)

/-- In a store without a budget enough operations are granted. -/
theorem Answers.exists_advances (h : axis.Answers c hidesNames revision k answers) {s : Store}
    (hc : s.snapshot? revision = some (.ofContent c)) (hnames : s.hidesNames = hidesNames)
    (hunlimited : s.meter.budget? = none) :
    ∃ cursor s₁ s₂, Store.openAt revision ((c.seen hidesNames).handle revision k).key s =
        (.ok cursor, s₁) ∧
      (axis.walk ((c.seen hidesNames).handle revision k)).advances answers.length cursor s₁ =
        (answers.map fun a => .ok (a.map ((c.seen hidesNames).handle revision)), s₂) := by
  obtain ⟨n, hn⟩ := h
  exact hn s hc hnames (Meter.grantsNext_of_unlimited hunlimited n)

/-- A walk with a cursor of its own answers as it does undisturbed. -/
theorem answers_of_walk (hk : k < (c.seen hidesNames).size)
    (h : (axis.walk ((c.seen hidesNames).handle revision k)).Answers (c.seen hidesNames) k answers) :
    axis.Answers c hidesNames revision k answers := by
  obtain ⟨n, hn⟩ := h.exists_advances revision
  refine ⟨2 + n, ?_⟩
  intro s hc hnames hs
  have hv := Store.view?_of_committed hc
  rw [hnames] at hv
  rw [Meter.grantsNext_add] at hs
  exact ⟨_, _, _, Store.openAt_of_grantsNext hv hk hs.1, hn _ hs.2⟩

/-- Handles of one revision differ if their nodes do. -/
theorem answers_injective (t : Snapshot) (revision : Nat) :
    Function.Injective fun a : Option Nat =>
      (.ok (a.map (t.handle revision)) : Except AccessError (Option Handle)) := by
  intro a b hab
  refine Option.map_injective ?_ (Except.ok.inj hab)
  intro j j' hj
  exact Int.ofNat_inj.1 (congrArg Handle.key hj)

/-- What a walk answers is determined. -/
theorem Answers.unique {answers' : List (Option Nat)}
    (h : axis.Answers c hidesNames revision k answers)
    (h' : axis.Answers c hidesNames revision k answers')
    (hlength : answers.length = answers'.length) : answers = answers' := by
  -- Both are told of a store which has the document in all its revisions.
  let s : Store := { revisions := Array.replicate (revision + 1) (.ofContent c), hidesNames }
  have hc : s.snapshot? revision = some (.ofContent c) := by simp [s, Store.snapshot?]
  obtain ⟨cursor, s₁, s₂, hopen, hadvances⟩ := h.exists_advances hc rfl rfl
  obtain ⟨cursor', s₁', s₂', hopen', hadvances'⟩ := h'.exists_advances hc rfl rfl
  obtain ⟨hcursor, rfl⟩ := Prod.mk.inj (hopen'.symm.trans hopen)
  obtain rfl := Except.ok.inj hcursor
  rw [← hlength, hadvances] at hadvances'
  exact List.map_injective_iff.2 (answers_injective _ revision) (Prod.mk.inj hadvances').1

theorem strays_walk_iff (origin : Handle) :
    (axis.walk origin).Strays t k ↔
      axis = .child ∧ t.firstChild? k = none ∧ (t.right? k).isSome := by
  cases axis <;> simp [walk, Walk.Strays]

/-- A walk over children that finds none goes on to the right of its origin. -/
theorem answers_of_childless (h : t.IsTree) (hk : k < t.size) (hc : t.firstChild? k = none)
    (times : Nat) :
    (Walk.children {}).Answers t k
      (none :: ((t.chain k).tail.map some ++ List.replicate times none)) := by
  have hover : ((Walk.children {}).advance t k).Yields (.children {}) k false (.children ⟨true⟩) k := by
    have hyields := (ChildWalk.yields_advance {} t k).mapNotes Walk.children
    rw [ChildWalk.target, if_neg (by decide), hc] at hyields
    exact hyields
  have hwithin : (Walk.children ⟨true⟩).Within t k t.size := by
    simp only [Walk.Within]
    omega
  exact .cons hover ((route_entered t k).answers h hk hwithin (by simp [Walk.Strays]) times)

/-- After some answers every walk is over for ever. -/
theorem exists_answers (h : t.IsTree) (hk : k < t.size) (axis : Axis) (revision : Nat) :
    ∃ first, (¬(axis = .child ∧ t.firstChild? k = none ∧ (t.right? k).isSome) → none ∉ first) ∧
      ∀ times, (axis.walk (t.handle revision k)).Answers t k
        (first ++ List.replicate times none) := by
  by_cases hstrays : (axis.walk (t.handle revision k)).Strays t k
  · obtain ⟨rfl, hc, hr⟩ := (strays_walk_iff _).1 hstrays
    exact ⟨none :: (t.chain k).tail.map some, fun hnot => absurd ⟨rfl, hc, hr⟩ hnot,
      answers_of_childless h hk hc⟩
  · obtain ⟨ks, hroute, -, -⟩ := axis.exists_route h hk revision
    exact ⟨ks.map some, fun _ => by simp,
      hroute.answers h hk (axis.within_walk h hk revision) hstrays⟩

/-- A walk that has said that it is over says so whenever it is advanced again, unless it is a walk
over children whose origin has none and has a sibling to its right. Then it goes on, with all siblings
to the right. -/
theorem stays_exhausted_iff (c : Content) (hidesNames : Bool) (revision k : Nat)
    (hk : k < (Snapshot.ofContent c).size) (axis : Axis) :
    (∀ times, ∃ answers, answers.length = times ∧ axis.Answers c hidesNames revision k answers) ∧
      ((∀ answers, axis.Answers c hidesNames revision k answers →
          answers.Pairwise fun a b => a = none → b = none) ↔
        ¬(axis = .child ∧ (Snapshot.ofContent c).firstChild? k = none ∧
          ((Snapshot.ofContent c).right? k).isSome)) ∧
      ((Snapshot.ofContent c).firstChild? k = none →
        ∃ after, Axis.followingSibling.Visits c hidesNames revision k after ∧
          ∀ times, Axis.child.Answers c hidesNames revision k
            (none :: (after.map some ++ List.replicate times none))) := by
  have htree := c.isTree_seen hidesNames
  have hsize : k < (c.seen hidesNames).size := by simpa using hk
  obtain ⟨first, hfirst, hanswers⟩ := exists_answers htree hsize axis revision
  rw [c.firstChild?_seen, c.right?_seen] at hfirst
  have htake : ∀ n, axis.Answers c hidesNames revision k
      ((first ++ List.replicate n none).take n) :=
    fun n => answers_of_walk hsize ((hanswers n).take n)
  refine ⟨?exist, ⟨?strays, ?stays⟩, ?siblings⟩
  case exist =>
    intro times
    exact ⟨_, by simp, htake times⟩
  case strays =>
    rintro hstays ⟨rfl, hc, hr⟩
    obtain ⟨s, hs⟩ := Option.isSome_iff_exists.1 hr
    rw [← c.firstChild?_seen hidesNames] at hc
    rw [← c.right?_seen hidesNames] at hs
    have hstays := hstays _ (answers_of_walk hsize (answers_of_childless htree hsize hc 0))
    rw [chain_of_right? hs, List.tail_cons, ← cons_tail_chain] at hstays
    -- The second answer is the sibling.
    cases List.rel_of_pairwise_cons hstays (List.mem_cons_self ..) rfl
  case stays =>
    intro hnot answers h
    rw [h.unique (htake answers.length) (by simp)]
    refine (List.pairwise_append.2 ⟨?_, ?_, ?_⟩).sublist (List.take_sublist _ _)
    · refine List.pairwise_of_forall_mem_list ?_
      rintro a ha b hb rfl
      exact absurd ha (hfirst hnot)
    · exact List.pairwise_replicate.2 (.inr fun _ => rfl)
    · intro a ha b hb _
      exact List.eq_of_mem_replicate hb
  case siblings =>
    intro hc
    rw [← c.firstChild?_seen hidesNames] at hc
    exact ⟨_, visits_of_route hsize (route_following _ k),
      fun times => answers_of_walk hsize (answers_of_childless htree hsize hc times)⟩

/-- An element with two empty elements in it. -/
def pairContent : Content :=
  .element { name := .ofLocal "r" } (.element { name := .ofLocal "a" } .nil
    (.element { name := .ofLocal "b" } .nil .nil)) .nil

/-- The handle of a node of that. The inner elements have the keys 2 and 3. -/
def pair (key : Nat) : Handle := (pairContent.seen false).handle 0 key

/-- A store with that as its only revision. -/
def pairStore : Store := { revisions := #[.ofContent pairContent] }

/-- From the second of the two there is no sibling to go on to. -/
theorem stays_exhausted_second :
    ∃ cursor s₁ s₂, Store.openAt 0 3 pairStore = (.ok cursor, s₁) ∧
      (Axis.child.walk (pair 3)).advances 2 cursor s₁ = ([.ok none, .ok none], s₂) ∧
      [(none : Option Nat), none].Pairwise fun a b => a = none → b = none := by
  obtain ⟨hexist, hstays, -⟩ := stays_exhausted_iff pairContent false 0 3 (by decide) .child
  obtain ⟨answers, hlength, hanswers⟩ := hexist 2
  have hpairwise := hstays.2 (by decide) answers hanswers
  obtain ⟨cursor, s₁, s₂, hopen, hadvances⟩ :=
    hanswers.exists_advances (s := pairStore) rfl rfl rfl
  obtain ⟨hcursor, rfl⟩ := Prod.mk.inj hopen
  obtain rfl := Except.ok.inj hcursor
  rw [hlength] at hadvances
  have hnone : answers = [none, none] := by
    apply List.map_injective_iff.2 (answers_injective (pairContent.seen false) 0)
    refine (Prod.mk.inj hadvances).1.symm.trans ?run
    case run => rfl
  subst hnone
  exact ⟨_, _, s₂, rfl, hadvances, hpairwise⟩

/-- From the first one a walk over children that has said that it is over goes on to the second. -/
theorem child_goes_on_to_sibling :
    ∃ cursor s₁ s₂, Store.openAt 0 2 pairStore = (.ok cursor, s₁) ∧
      (Axis.child.walk (pair 2)).advances 2 cursor s₁ =
        ([.ok none, .ok (some (pair 3))], s₂) ∧
      ¬[none, some (pair 3)].Pairwise fun a b => a = none → b = none := by
  refine ⟨_, _, _, rfl, Prod.ext ?answers rfl, by simp⟩
  case answers => rfl

end Axis

end DocTree
