import DocTree.Proofs.Stream.Failing

/-!
# What merges deliver of sources that fail

A merge that is pulled again and again has, at all times, delivered first keys of the result. It may
have come to an end after them, or to the failure of a side, which is delivered once. A side that
fails takes its last key with it, because a merge asks for the next key of a side before it delivers
the one that it has: of the result, all keys that are less than this one are delivered, and in a union
no others.

## Main definitions

- `Merge.Reached` — what a merge has come to after some pulls
- `Merge.Delivers` — what it has delivered, and what that has to do with the answers of its sides
- `Merge.Inputs.OneFails`, `Merge.keysBelow` — a side that fails, and the keys below its last one

## Main statements

- `SetAxis.combine_until_failure` — what is delivered of two sources that may fail
- `SetAxis.union_until_failure` — exactly what a union delivers of which one side fails
-/

namespace DocTree

namespace Merge

variable {σ L R : Type} {i : Inputs} {o : SetOperation} {s : Merge L R} {log : Answers}
  {answers : List (Option Item)} {enough : Prop}

/-- A merge after some pulls. -/
inductive Reached (i : Inputs) (o : SetOperation) (enough : Prop) :
    Merge L R → Answers → List (Option Item) → Prop where
  | fresh {s : Merge L R} (operation : s.operation = o) (started : s.started = false)
      (going : s.done = false) : Reached i o enough s {} []
  | going {s : Merge L R} {log : Answers} {delivered : List Int} {m n : Nat}
      (h : Going i o delivered m n s log) :
      Reached i o enough s log ((delivery delivered none).map some)
  | ended {s : Merge L R} {log : Answers} {delivered : List Int} (ends : Nat)
      (hdone : s.done = true) (h : Ended i o delivered enough log) :
      Reached i o enough s log ((delivery delivered none).map some ++ List.replicate ends none)
  | failed {s : Merge L R} {log : Answers} {delivered : List Int} {e : AccessError} (ends : Nat)
      (hdone : s.done = true) (h : Failed i o delivered e log) :
      Reached i o enough s log ((delivery delivered (some e)).map some ++ List.replicate ends none)

theorem delivery_none (keys : List Int) : delivery keys none = keys.map .ok :=
  List.append_nil _

/-- What the search has found settles what the merge has come to. -/
theorem Resolves.reached {delivered : List Int} {outcome : Except AccessError (Option Int)}
    (h : Resolves i o delivered enough outcome s log) :
    Reached i o enough (conclude outcome s).2 log
      ((delivery delivered none).map some ++ [(conclude outcome s).1]) := by
  rcases outcome with e | _ | k
  · have hanswers : (delivery delivered none).map some ++ [some (.error e)]
        = (delivery delivered (some e)).map some ++ List.replicate 0 none := by
      simp [delivery]
    exact hanswers ▸ .failed 0 rfl h
  · exact .ended 1 rfl h
  · obtain ⟨m, n, hgoing⟩ := h
    have hanswers : (delivery delivered none).map some ++ [some (.ok k)]
        = (delivery (delivered ++ [k]) none).map some := by
      simp [delivery]
    exact hanswers ▸ .going hgoing

theorem Reached.next (pull : Sides L R (StateM σ)) (rounds : Nat)
    (hrounds : enough → o = .union ∨ i.remaining 0 0 < rounds) (h : Reached i o enough s log answers)
    (st : σ) (hexplain : i.Explain (Merge.next pull.watched rounds s (st, log)).2.2) :
    Reached i o enough (Merge.next pull.watched rounds s (st, log)).1.2
      (Merge.next pull.watched rounds s (st, log)).2.2
      (answers ++ [(Merge.next pull.watched rounds s (st, log)).1.1]) := by
  have hfound {delivered : List Int} (going : s.done = false)
      (h : i.Secures (find pull.watched rounds) s log
        (Resolves i o delivered (o = .union ∨ i.remaining 0 0 < rounds))) :
      Reached i o enough (Merge.next pull.watched rounds s (st, log)).1.2
        (Merge.next pull.watched rounds s (st, log)).2.2
        ((delivery delivered none).map some ++
          [(Merge.next pull.watched rounds s (st, log)).1.1]) := by
    rcases hfind : (find pull.watched rounds).run.run s (st, log) with ⟨⟨outcome, s'⟩, st', log'⟩
    rw [next_of_find going hfind] at hexplain ⊢
    have hresolves := h st
    rw [hfind] at hresolves
    exact (hresolves hexplain).mono hrounds |>.reached
  cases h with
  | fresh operation started going =>
    exact hfound going (secures_find pull rounds operation started going)
  | going h => exact hfound h.midway.going (h.find pull rounds)
  | ended ends hdone h =>
    rw [next_of_done hdone, List.append_assoc, ← List.replicate_succ']
    exact .ended (ends + 1) hdone h
  | failed ends hdone h =>
    rw [next_of_done hdone, List.append_assoc, ← List.replicate_succ']
    exact .failed (ends + 1) hdone h

/-- What a merge that is watched has come to after any number of pulls. -/
theorem reached_watch (pull : Sides L R (StateM σ)) (rounds : Merge L R → Nat) (times : Nat)
    (operation : s.operation = o) (started : s.started = false) (going : s.done = false) (st : σ)
    (hexplain : i.Explain (watch pull rounds times s st).2) :
    ∃ s' : Merge L R, Reached i o (o = .union ∨ ∀ s, i.remaining 0 0 < rounds s) s'
      (watch pull rounds times s st).2 (watch pull rounds times s st).1 := by
  have hfresh : Reached i o (o = .union ∨ ∀ s, i.remaining 0 0 < rounds s) s {} [] :=
    .fresh operation started going
  exact pulls_inv (fun s => Merge.next pull.watched (rounds s) s)
    (P := fun s (st : σ × Answers) =>
      Reached i o (o = .union ∨ ∀ s, i.remaining 0 0 < rounds s) s st.2)
    (F := fun st : σ × Answers => i.Explain st.2)
    (fun s st h => h.of_before (before_next pull (rounds s) s st.1 st.2))
    (fun s st _ h => h.next pull (rounds s) (Or.imp_right fun hrounds => hrounds s) st.1)
    times hfresh hexplain

theorem Reached.mono {enough' : Prop} (h : Reached i o enough s log answers)
    (hle : enough' → enough) : Reached i o enough' s log answers := by
  cases h with
  | fresh operation started going => exact .fresh operation started going
  | going h => exact .going h
  | ended ends hdone h =>
    exact .ended ends hdone ⟨h.part, h.cleared, h.failures, h.whole ∘ hle, h.union ∘ hle⟩
  | failed ends hdone h => exact .failed ends hdone h

/-- What a merge has delivered after some pulls, and how this follows from what its sides have
answered. -/
structure Delivers (i : Inputs) (o : SetOperation) (enough : Prop) (log : Answers)
    (answers : List (Option Item)) (keys : List Int) (failure : Option AccessError) (ends : Nat) :
    Prop where
  /-- The keys, then the failure, if there is one, and after that nothing. -/
  answers_eq : answers = (delivery keys failure).map some ++ List.replicate ends none
  /-- The keys are the first ones of the result. -/
  part : keys <+: o.keys i.left i.right
  /-- The failure is the only one that a side has answered with. -/
  failures : log.failures = failure.toList
  /-- The right side could not have removed a key of the difference any more. -/
  cleared : o = .except → ∀ k ∈ keys, i.Clears log k
  /-- What is less than a key of the side that failed is not missing. -/
  cutOff : ∀ e ∈ failure, (i.leftFailure = some e ∧ CutOff i o keys i.left) ∨
    (i.rightFailure = some e ∧ CutOff i o keys i.right)
  /-- The end without a failure comes after the whole result. -/
  whole : failure = none → 0 < ends → enough → keys = o.keys i.left i.right

theorem Going.part {delivered : List Int} {m n : Nat} (h : Going i o delivered m n s log) :
    delivered <+: o.keys i.left i.right :=
  ⟨_, h.rest⟩

theorem Reached.delivers (h : Reached i o enough s log answers) :
    ∃ keys failure ends, Delivers i o enough log answers keys failure ends := by
  cases h with
  | fresh =>
    exact ⟨[], none, 0, rfl, List.nil_prefix, rfl, fun _ _ => nofun, nofun,
      fun _ hends => absurd hends (lt_irrefl 0)⟩
  | @going _ delivered _ _ h =>
    exact ⟨delivered, none, 0, (List.append_nil _).symm, h.part, h.midway.failures, h.cleared, nofun,
      fun _ hends => absurd hends (lt_irrefl 0)⟩
  | @ended _ delivered ends _ h =>
    exact ⟨delivered, none, ends, rfl, h.part, h.failures, h.cleared, nofun, fun _ _ => h.whole⟩
  | @failed _ delivered e ends _ h =>
    refine ⟨delivered, some e, ends, rfl, h.part, h.failures, h.cleared, ?_, nofun⟩
    rintro _ ⟨⟩
    exact h.cutOff

/-- One of the two sides fails after these keys, and the other one does not fail. -/
inductive Inputs.OneFails (i : Inputs) (e : AccessError) : List Int → Prop where
  | left (h : i.leftFailure = some e) (h' : i.rightFailure = none) : i.OneFails e i.left
  | right (h : i.leftFailure = none) (h' : i.rightFailure = some e) : i.OneFails e i.right

theorem answered_ended (items : List Item) (ends : Nat) :
    Answered (items.map some ++ List.replicate ends none) items := by
  refine List.ext_getElem? fun n => ?_
  by_cases hn : n < items.length + ends
  · rw [Exchange.getElem?_answers items hn, List.getElem?_map,
      List.getElem?_range (by simpa using hn)]
    rfl
  · simp [hn]

theorem answered_part {items items' : List Item} (h : items' <+: items) :
    Answered (items'.map some) items :=
  (answered_ended items 0).of_isPrefix (by simpa using h.map some)

/-- The keys of the result that are less than one of these keys. -/
def keysBelow (o : SetOperation) (i : Inputs) (keys : List Int) : List Int :=
  (o.keys i.left i.right).filter fun k => keys.any fun j => k < j

theorem keysBelow_of_append {delivered rest keys : List Int}
    (h : delivered ++ rest = o.keys i.left i.right) (hless : ∀ k ∈ delivered, ∃ j ∈ keys, k < j) :
    keysBelow o i keys = delivered ++ rest.filter fun k => keys.any fun j => k < j := by
  rw [keysBelow, ← h, List.filter_append, List.filter_eq_self.mpr]
  simpa using hless

/-- The failure of one side has left exactly the keys that are less than its last one. -/
theorem CutOff.eq_keysBelow {delivered keys : List Int} (h : CutOff i .union delivered keys)
    (hpart : delivered <+: SetOperation.union.keys i.left i.right) :
    delivered = keysBelow .union i keys := by
  obtain ⟨rest, hrest⟩ := hpart
  have hpairwise := SetOperation.union.keys_pairwise i.left i.right
  rw [← hrest, List.pairwise_append] at hpairwise
  rw [keysBelow_of_append hrest (h.union rfl), List.self_eq_append_right, List.filter_eq_nil_iff]
  intro k hk hless
  have hmem : k ∈ SetOperation.union.keys i.left i.right := hrest ▸ List.mem_append_right _ hk
  exact (hpairwise.2.2 k (h.less k hmem (by simpa using hless)) k hk).false

/-- As long as a side has not failed, what was delivered is less than the key on that side. -/
theorem Going.part_keysBelow {delivered keys : List Int} {m n : Nat} {e : AccessError}
    (h : Going i .union delivered m n s log) (hfails : i.OneFails e keys) :
    delivered <+: keysBelow .union i keys := by
  have hpairwise := SetOperation.union.keys_pairwise i.left i.right
  rw [← h.rest, List.pairwise_append] at hpairwise
  refine ⟨_, (keysBelow_of_append h.rest fun k hk => ?_).symm⟩
  obtain ⟨j, hj, hmem⟩ :
      ∃ j ∈ keys, j ∈ SetOperation.union.keys (i.left.drop m) (i.right.drop n) := by
    cases hfails with
    | left hl hr =>
      obtain ⟨j, hj⟩ := List.exists_mem_of_ne_nil (i.left.drop m) fun hnil =>
        nomatch hl.symm.trans (h.midway.left.ended hnil)
      exact ⟨j, List.mem_of_mem_drop hj,
        SetOperation.mem_keys.mpr (Finset.mem_union_left _ (List.mem_toFinset.mpr hj))⟩
    | right hl hr =>
      obtain ⟨j, hj⟩ := List.exists_mem_of_ne_nil (i.right.drop n) fun hnil =>
        nomatch hr.symm.trans (h.midway.right.ended hnil)
      exact ⟨j, List.mem_of_mem_drop hj,
        SetOperation.mem_keys.mpr (Finset.mem_union_right _ (List.mem_toFinset.mpr hj))⟩
  exact ⟨j, hj, hpairwise.2.2 k hk j hmem⟩

/-- A union of which one side fails is answered like a source that has the keys below the last one of
that side, and then fails. -/
theorem Reached.answered {keys : List Int} {e : AccessError} (hfails : i.OneFails e keys)
    (h : Reached i .union (SetOperation.union = .union) s log answers) :
    Answered answers (delivery (keysBelow .union i keys) (some e)) := by
  cases h with
  | fresh => rfl
  | going h =>
    refine answered_part (.trans ?_ (List.prefix_append _ _))
    rw [delivery_none]
    exact (h.part_keysBelow hfails).map _
  | ended _ _ h =>
    have hnone := h.union rfl rfl
    cases hfails with
    | left hl hr => simp [hl] at hnone
    | right hl hr => simp [hr] at hnone
  | @failed _ delivered e' ends _ h =>
    obtain ⟨rfl, hcut⟩ : e = e' ∧ CutOff i .union delivered keys := by
      cases hfails with
      | left hl hr => simpa [hl, hr] using h.cutOff
      | right hl hr => simpa [hl, hr] using h.cutOff
    rw [← hcut.eq_keysBelow h.part]
    exact answered_ended _ ends

end Merge

namespace SetAxis

/-- What a fresh combination of two axes that is watched has come to. -/
theorem reached_watch (operation : SetOperation) (left right : ConcurrentAxis) (times : Nat)
    (r : Registry) {i : Merge.Inputs}
    (hexplain : i.Explain (watch times (.combine operation left right) r).2) :
    ∃ s : Merge (Relay (Stream left.shape)) (Relay (Stream right.shape)),
      Merge.Reached i operation (operation = .union) s
        (watch times (.combine operation left right) r).2
        (watch times (.combine operation left right) r).1 := by
  obtain ⟨s, hs⟩ := Merge.reached_watch (sides left.shape right.shape) _ times rfl rfl rfl r hexplain
  exact ⟨s, hs.mono .inl⟩

/-- Two sources that bring ascending keys and may fail are combined: what is delivered are first keys
of the result, then the failure of a side, if one was met, and nothing for ever. No key of a
difference is delivered that the right side could still have removed, and none is missing that is
less than a key of the side that failed. So it is for any two sources and for any two concurrent
axes, whatever they share. -/
theorem combine_until_failure :
    (∀ {σ L R : Type} (pull : Merge.Sides L R (StateM σ)) (rounds : Merge L R → Nat)
      (operation : SetOperation) (left : L) (right : R) (times : Nat) (st : σ) (i : Merge.Inputs),
      let s : Merge L R := { operation, left, right }
      let run := Merge.watch pull rounds times s st
      run.1 = (pulls (fun s => Merge.next pull (rounds s) s) times s st).1 ∧
      (i.Explain run.2 → ∃ keys failure ends, Merge.Delivers i operation
        (operation = .union ∨ ∀ s, i.left.length + i.right.length < rounds s) run.2 run.1 keys failure
        ends)) ∧
    ∀ (operation : SetOperation) (left right : ConcurrentAxis) (times : Nat) (r : Registry)
      (i : Merge.Inputs),
      let run := watch times (.combine operation left right) r
      run.1 = (pulls SetAxis.next times (.combine operation left right) r).1 ∧
      (i.Explain run.2 → ∃ keys failure ends, Merge.Delivers i operation (operation = .union) run.2
        run.1 keys failure ends) := by
  refine ⟨fun pull rounds operation left right times st i => ⟨?_, fun hexplain => ?_⟩,
    fun operation left right times r i => ⟨?_, fun hexplain => ?_⟩⟩
  · exact Merge.watch_fst pull rounds times _ st
  · obtain ⟨s, hs⟩ := Merge.reached_watch pull rounds times rfl rfl rfl st hexplain
    exact hs.delivers
  · exact watch_fst times _ r
  · obtain ⟨s, hs⟩ := reached_watch operation left right times r hexplain
    exact hs.delivers

/-- A difference whose right side fails when it is asked for a second key. That this will not be 3 is
not known then, so that 3 is not delivered. So it is if the workers move by a schedule on which the
left one is ever further ahead. -/
theorem combine_until_failure_right :
    ∃ i : Merge.Inputs, i.left = [1, 3, 5] ∧ i.leftFailure = none ∧ i.right = [2] ∧
      i.rightFailure = some .documentReleased ∧
      (∀ r : Registry,
        let run := watch 3 (.combine .except (.spawn .listed [.ok 1, .ok 3, .ok 5] 2)
          (.spawn .listed [.ok 2, .error .documentReleased] 0)) r
        run.1 = [some (.ok 1), some (.error .documentReleased), none] ∧
        ∃ keys failure ends,
          Merge.Delivers i .except (SetOperation.except = .union) run.2 run.1 keys failure ends) ∧
      ∀ r : Registry,
        let run := Merge.watch ⟨Paced.next (Stream.next .listed) (Stream.stop .listed),
            Paced.next (Stream.next .listed) (Stream.stop .listed)⟩ (fun _ => 9) 3
          { operation := .except, left := ⟨.start [.ok 1, .ok 3, .ok 5] 2, fun n => n⟩,
            right := ⟨.start [.ok 2, .error .documentReleased] 0, fun _ => 9⟩ } r
        run.1 = [some (.ok 1), some (.error .documentReleased), none] ∧
        ∃ keys failure ends, Merge.Delivers i .except
          (SetOperation.except = .union ∨ ∀ _ : Merge (Paced (Stream .listed))
            (Paced (Stream .listed)), i.left.length + i.right.length < 9)
          run.2 run.1 keys failure ends := by
  let i : Merge.Inputs :=
    { left := [1, 3, 5]
      right := [2]
      rightFailure := some .documentReleased
      leftAscends := ⟨by decide, by decide⟩
      rightAscends := ⟨by decide, by decide⟩ }
  refine ⟨i, rfl, rfl, rfl, rfl, fun r => ?_, fun r => ?_⟩
  · have hrun : watch 3 (.combine .except (.spawn .listed [.ok 1, .ok 3, .ok 5] 2)
        (.spawn .listed [.ok 2, .error .documentReleased] 0)) r
        = ([some (.ok 1), some (.error .documentReleased), none],
          ⟨[some (.ok 1), some (.ok 3)], [some (.ok 2), some (.error .documentReleased)]⟩) := by
      with_unfolding_all rfl
    have h := (combine_until_failure.2 .except (.spawn .listed [.ok 1, .ok 3, .ok 5] 2)
      (.spawn .listed [.ok 2, .error .documentReleased] 0) 3 r i).2
    rw [hrun] at h ⊢
    exact ⟨rfl, h ⟨rfl, rfl⟩⟩
  · have hrun : Merge.watch ⟨Paced.next (Stream.next .listed) (Stream.stop .listed),
          Paced.next (Stream.next .listed) (Stream.stop .listed)⟩ (fun _ => 9) 3
        { operation := .except, left := ⟨.start [.ok 1, .ok 3, .ok 5] 2, fun n => n⟩,
          right := ⟨.start [.ok 2, .error .documentReleased] 0, fun _ => 9⟩ } r
        = ([some (.ok 1), some (.error .documentReleased), none],
          ⟨[some (.ok 1), some (.ok 3)], [some (.ok 2), some (.error .documentReleased)]⟩) := by
      with_unfolding_all rfl
    have h := (combine_until_failure.1 ⟨Paced.next (Stream.next .listed) (Stream.stop .listed),
        Paced.next (Stream.next .listed) (Stream.stop .listed)⟩ (fun _ => 9) .except
      ⟨.start [.ok 1, .ok 3, .ok 5] 2, fun n => n⟩
      ⟨.start [.ok 2, .error .documentReleased] 0, fun _ => 9⟩ 3 r i).2
    rw [hrun] at h ⊢
    exact ⟨rfl, h ⟨rfl, rfl⟩⟩

/-- A union of which one side fails: the keys of the result that are less than the last key of that
side are delivered, then the error, and nothing for ever. The last key of that side is lost, and
nothing is delivered before the error if it had none. -/
theorem union_until_failure {i : Merge.Inputs} {e : AccessError} {keys : List Int}
    (hfails : i.OneFails e keys) :
    (∀ {σ L R : Type} (pull : Merge.Sides L R (StateM σ)) (rounds : Merge L R → Nat) (left : L)
      (right : R) (times : Nat) (st : σ),
      let s : Merge L R := { operation := .union, left, right }
      let run := Merge.watch pull rounds times s st
      run.1 = (pulls (fun s => Merge.next pull (rounds s) s) times s st).1 ∧
      (i.Explain run.2 → Answered run.1 (delivery (Merge.keysBelow .union i keys) (some e)))) ∧
    ∀ (left right : ConcurrentAxis) (times : Nat) (r : Registry),
      let run := watch times (.combine .union left right) r
      run.1 = (pulls SetAxis.next times (.combine .union left right) r).1 ∧
      (i.Explain run.2 → Answered run.1 (delivery (Merge.keysBelow .union i keys) (some e))) := by
  refine ⟨fun pull rounds left right times st => ⟨?_, fun hexplain => ?_⟩,
    fun left right times r => ⟨?_, fun hexplain => ?_⟩⟩
  · exact Merge.watch_fst pull rounds times _ st
  · obtain ⟨s, hs⟩ := Merge.reached_watch pull rounds times rfl rfl rfl st hexplain
    exact (hs.mono fun _ => .inl rfl).answered hfails
  · exact watch_fst times _ r
  · obtain ⟨s, hs⟩ := reached_watch .union left right times r hexplain
    exact hs.answered hfails

/-- The left side has brought 1 and 3 before it failed. The 3 is lost. -/
theorem union_until_failure_left :
    ∃ i : Merge.Inputs, i.left = [1, 3] ∧ i.right = [2] ∧ i.OneFails .documentReleased [1, 3] ∧
      ∀ r : Registry, Answered
        (pulls SetAxis.next 4 (.combine .union
          (.spawn .listed [.ok 1, .ok 3, .error .documentReleased] 2) (.spawn .listed [.ok 2] 0)) r).1
        [.ok 1, .ok 2, .error .documentReleased] := by
  let i : Merge.Inputs :=
    { left := [1, 3]
      leftFailure := some .documentReleased
      right := [2]
      leftAscends := ⟨by decide, by decide⟩
      rightAscends := ⟨by decide, by decide⟩ }
  have hfails : i.OneFails .documentReleased [1, 3] := .left rfl rfl
  refine ⟨i, rfl, rfl, hfails, fun r => ?_⟩
  have h := (union_until_failure hfails).2
    (.spawn .listed [.ok 1, .ok 3, .error .documentReleased] 2) (.spawn .listed [.ok 2] 0) 4 r
  have hall : SetOperation.union.keys [1, 3] [2] = [1, 2, 3] :=
    SetOperation.keys_eq (by decide) (by decide)
  have hkeys : Merge.keysBelow .union i [1, 3] = [1, 2] := (congrArg (List.filter _) hall).trans rfl
  rw [hkeys] at h
  exact h.1 ▸ h.2 ⟨rfl, rfl⟩

/-- An axis that fails after its first key delivers this key before the error. In the union with an
axis that has no keys and does not fail, the key is lost. -/
theorem union_loses_last_key :
    (∀ r : Registry,
      (pulls ConcurrentAxis.next 3 (.spawn .listed [.ok 1, .error .documentReleased] 1) r).1
        = [some (.ok 1), some (.error .documentReleased), none]) ∧
    1 ∈ SetOperation.union.keys [1] [] ∧
    ∀ r : Registry,
      (pulls SetAxis.next 3 (.combine .union
        (.spawn .listed [.ok 1, .error .documentReleased] 1) (.spawn .listed [] 1)) r).1
        = [some (.error .documentReleased), none, none] :=
  ⟨fun _ => rfl, by simp [SetOperation.eval], fun _ => rfl⟩

end SetAxis

end DocTree
