import DocTree.Proofs.Stream.Watched

/-!
# Looking for the next key while sources fail

A merge looks one key ahead on each side, and each look may show a failure in place of a key. What the
sides bring is given by two lists of keys and the failures after them; that a run of the merge is one
over these inputs shows in what the sides have answered to it. A look leads to the next key or to the
failure, a round of the search to a merge that has one key less before it, and the search to the next
key of the result, to its end or to the failure that cuts it off.

## Main definitions

- `Merge.Inputs`, `Merge.Inputs.Explain` — what the sides bring, and answers that are these items
- `Merge.Inputs.Secures` — what a step leads to, if the answers are such
- `Merge.Going` — a merge that has delivered a part of the result and has the rest before it
- `Merge.Resolves` — what the search for the next key leads to

## Main statements

- `Merge.Going.sift`, `Merge.Going.find`, `Merge.secures_find` — the search, midway and at the start
-/

namespace DocTree

/-- What a source brings that has these keys: the keys, and then the failure, if there is one. -/
def delivery (keys : List Int) (failure : Option AccessError) : List Item :=
  keys.map .ok ++ (failure.map .error).toList

/-- The answers are these items in turn, and that there is no more where there is none. -/
def Answered (answers : List (Option Item)) (items : List Item) : Prop :=
  answers = (List.range answers.length).map fun i => items[i]?

/-- The errors among some answers. -/
def failuresAmong (answers : List (Option Item)) : List AccessError :=
  answers.filterMap fun
    | some (.error e) => some e
    | _ => none

section Answers

variable {answers answers' : List (Option Item)} {answer : Option Item} {items : List Item}
  {keys : List Int} {failure : Option AccessError} {i : Nat}

theorem answered_append :
    Answered (answers ++ [answer]) items ↔
      Answered answers items ∧ answer = items[answers.length]? := by
  simp [Answered, List.range_succ]

theorem Answered.of_isPrefix (h : Answered answers' items) (hle : answers <+: answers') :
    Answered answers items := by
  obtain ⟨more, rfl⟩ := hle
  induction more using List.reverseRecOn with
  | nil => simpa using h
  | append_singleton more answer ih =>
    rw [← List.append_assoc] at h
    exact ih (answered_append.mp h).1

theorem delivery_getElem? (h : i ≤ keys.length) :
    (delivery keys failure)[i]? = ((keys.drop i).head?.map .ok).or (failure.map .error) := by
  unfold delivery
  rw [List.head?_drop]
  rcases h.lt_or_eq with hlt | rfl
  · rw [List.getElem?_append_left (by simpa using hlt), List.getElem?_map,
      List.getElem?_eq_getElem hlt]
    rfl
  · rw [List.getElem?_append_right (by simp)]
    cases failure <;> simp

@[simp] theorem failuresAmong_append :
    failuresAmong (answers ++ answers') = failuresAmong answers ++ failuresAmong answers' :=
  List.filterMap_append

/-- A source has been asked once more than `i` times, and has not failed so far. -/
structure Looked (keys : List Int) (failure : Option AccessError) (i : Nat)
    (answers : List (Option Item)) (current : Int) : Prop where
  length : answers.length = i + 1
  seen : (keys.drop i).head?.map .ok ∈ answers
  current_eq : current = (keys.drop i).headD noKey
  healthy : failuresAmong answers = []
  ended : keys.drop i = [] → failure = none

/-- The next answer of a source that has not come to its end: a look at the next key, or the failure
if there is no key left. -/
theorem looked_or_failed (hlen : answers.length = i) (hi : i ≤ keys.length)
    (healthy : failuresAmong answers = [])
    (h : Answered (answers ++ [answer]) (delivery keys failure)) :
    (∃ key, keyOf answer = .ok key ∧ Looked keys failure i (answers ++ [answer]) key) ∨
      ∃ e, answer = some (.error e) ∧ failure = some e ∧ keys.drop i = [] := by
  have hanswer := (answered_append.mp h).2
  rw [hlen, delivery_getElem? hi] at hanswer
  cases hrest : keys.drop i with
  | cons key rest =>
    rw [hrest] at hanswer
    obtain rfl : answer = some (.ok key) := hanswer
    refine .inl ⟨key, rfl, by simp [hlen], by simp [hrest], by simp [hrest], ?_, by simp [hrest]⟩
    rw [failuresAmong_append, healthy]
    rfl
  | nil =>
    rw [hrest] at hanswer
    cases failure with
    | none =>
      obtain rfl : answer = none := hanswer
      refine .inl ⟨noKey, rfl, by simp [hlen], by simp [hrest], by simp [hrest], ?_, by simp⟩
      rw [failuresAmong_append, healthy]
      rfl
    | some e => exact .inr ⟨e, hanswer, rfl, rfl⟩

theorem Looked.drop_ne_nil {current other : Int} (h : Looked keys failure i answers current)
    (hfirst : comesFirst current other = true) : keys.drop i ≠ [] := by
  intro hnil
  have hcurrent : current = noKey := by rw [h.current_eq, hnil, List.headD_nil]
  simp [hcurrent] at hfirst

end Answers

/-- The errors that the sides answered with. -/
def Answers.failures (log : Answers) : List AccessError :=
  failuresAmong log.left ++ failuresAmong log.right

namespace Merge

variable {σ L R α β : Type}

/-- What the two sides of a merge bring: keys of nodes that ascend, after which they may fail. -/
structure Inputs where
  left : List Int
  leftFailure : Option AccessError := none
  right : List Int
  rightFailure : Option AccessError := none
  leftAscends : Ascends left
  rightAscends : Ascends right

variable {i : Inputs} {o : SetOperation}

/-- What the sides have answered is what they bring, as far as they were asked. -/
structure Inputs.Explain (i : Inputs) (log : Answers) : Prop where
  left : Answered log.left (delivery i.left i.leftFailure)
  right : Answered log.right (delivery i.right i.rightFailure)

theorem Inputs.Explain.of_before {log log' : Answers} (h : i.Explain log') (hle : log.Before log') :
    i.Explain log :=
  ⟨h.left.of_isPrefix hle.left, h.right.of_isPrefix hle.right⟩

/-- If what the sides have answered is what they bring, the outcome of the step, the merge afterwards
and what has been written down then are as `Q` says. -/
def Inputs.Secures (i : Inputs) (step : Step L R (StateM (σ × Answers)) α) (s : Merge L R)
    (log : Answers) (Q : Except AccessError α → Merge L R → Answers → Prop) : Prop :=
  ∀ st : σ, i.Explain (step.run.run s (st, log)).2.2 → Q (step.run.run s (st, log)).1.1
    (step.run.run s (st, log)).1.2 (step.run.run s (st, log)).2.2

section Rules

variable {watched : Step L R (StateM (σ × Answers)) α} {s : Merge L R} {log : Answers}
  {Q : Except AccessError α → Merge L R → Answers → Prop}

theorem secures_pure {x : α} (h : Q (.ok x) s log) : i.Secures (σ := σ) (pure x) s log Q :=
  fun _ _ => h

theorem secures_modify {f : Merge L R → Merge L R}
    {Q : Except AccessError PUnit → Merge L R → Answers → Prop} (h : Q (.ok ()) (f s) log) :
    i.Secures (σ := σ) (modify f) s log Q :=
  fun _ _ => h

/-- A step that begins with a look at the merge. -/
theorem secures_get_bind {f : Merge L R → Step L R (StateM (σ × Answers)) α}
    (h : i.Secures (f s) s log Q) : i.Secures (get >>= f) s log Q :=
  h

/-- What the sides have answered to the first step is part of what they have answered in the end. -/
theorem Inputs.Secures.bind {watched' : α → Step L R (StateM (σ × Answers)) β}
    {Q' : Except AccessError β → Merge L R → Answers → Prop}
    (h : i.Secures watched s log Q) (hgrows : ∀ x, Grows (watched' x))
    (herror : ∀ e s log, Q (.error e) s log → Q' (.error e) s log)
    (hok : ∀ x s log, Q (.ok x) s log → i.Secures (watched' x) s log Q') :
    i.Secures (watched >>= watched') s log Q' := by
  intro st hexplain
  have hfirst := h st
  rcases hrun : watched.run.run s (st, log) with ⟨⟨e | x, s₁⟩, st₁, log₁⟩
  · rw [hrun] at hfirst
    rw [run_bind_of_error hrun] at hexplain ⊢
    exact herror e s₁ log₁ (hfirst hexplain)
  · rw [hrun] at hfirst
    rw [run_bind_of_ok hrun] at hexplain ⊢
    exact hok x s₁ log₁ (hfirst (hexplain.of_before (hgrows x s₁ st₁ log₁))) st₁ hexplain

theorem Inputs.Secures.mono {Q' : Except AccessError α → Merge L R → Answers → Prop}
    (h : i.Secures watched s log Q) (hQ : ∀ outcome s log, Q outcome s log → Q' outcome s log) :
    i.Secures watched s log Q' :=
  fun st hexplain => hQ _ _ _ (h st hexplain)

/-- What is written down stays. -/
theorem Inputs.Secures.and_before (h : i.Secures watched s log Q) (hgrows : Grows watched) :
    i.Secures watched s log fun outcome s' log' => Q outcome s' log' ∧ log.Before log' :=
  fun st hexplain => ⟨h st hexplain, hgrows s st log⟩

end Rules

section Look

variable {pull : Sides L R (StateM σ)} {s : Merge L R} {log : Answers} {n : Nat}

/-- The outcome of a look at the left. -/
inductive LooksLeft (i : Inputs) (n : Nat) (s : Merge L R) (log : Answers) :
    Except AccessError Unit → Merge L R → Answers → Prop where
  | key {left : L} {key : Int} {answers : List (Option Item)}
      (h : Looked i.left i.leftFailure n answers key) :
      LooksLeft i n s log (.ok ()) { s with left, currentLeft := key } { log with left := answers }
  | failure {s' : Merge L R} {answers : List (Option Item)} {e : AccessError}
      (h : i.leftFailure = some e) (hend : i.left.drop n = []) (hfail : failuresAmong answers = [e]) :
      LooksLeft i n s log (.error e) s' { log with left := answers }

theorem secures_advanceLeft (hlen : log.left.length = n) (hn : n ≤ i.left.length)
    (healthy : failuresAmong log.left = []) :
    i.Secures (advanceLeft pull.watched) s log (LooksLeft i n s log) := by
  intro st hexplain
  rw [run_advanceLeft (pull.watched_left s.left st log)] at hexplain ⊢
  generalize pull.left s.left st = pulled at hexplain ⊢
  obtain ⟨⟨answer, left⟩, st'⟩ := pulled
  have hleft : Answered (log.left ++ [answer]) (delivery i.left i.leftFailure) := by
    rcases answer with _ | _ | _ <;> exact hexplain.left
  rcases looked_or_failed hlen hn healthy hleft with ⟨key, hkey, hlooked⟩ | ⟨e, rfl, hfail, hend⟩
  · simp only [hkey]
    exact .key hlooked
  · refine .failure hfail hend ?_
    rw [failuresAmong_append, healthy]
    rfl

/-- The outcome of a look at the right. -/
inductive LooksRight (i : Inputs) (n : Nat) (s : Merge L R) (log : Answers) :
    Except AccessError Unit → Merge L R → Answers → Prop where
  | key {right : R} {key : Int} {answers : List (Option Item)}
      (h : Looked i.right i.rightFailure n answers key) :
      LooksRight i n s log (.ok ()) { s with right, currentRight := key }
        { log with right := answers }
  | failure {s' : Merge L R} {answers : List (Option Item)} {e : AccessError}
      (h : i.rightFailure = some e) (hend : i.right.drop n = [])
      (hfail : failuresAmong answers = [e]) :
      LooksRight i n s log (.error e) s' { log with right := answers }

theorem secures_advanceRight (hlen : log.right.length = n) (hn : n ≤ i.right.length)
    (healthy : failuresAmong log.right = []) :
    i.Secures (advanceRight pull.watched) s log (LooksRight i n s log) := by
  intro st hexplain
  rw [run_advanceRight (pull.watched_right s.right st log)] at hexplain ⊢
  generalize pull.right s.right st = pulled at hexplain ⊢
  obtain ⟨⟨answer, right⟩, st'⟩ := pulled
  have hright : Answered (log.right ++ [answer]) (delivery i.right i.rightFailure) := by
    rcases answer with _ | _ | _ <;> exact hexplain.right
  rcases looked_or_failed hlen hn healthy hright with ⟨key, hkey, hlooked⟩ | ⟨e, rfl, hfail, hend⟩
  · simp only [hkey]
    exact .key hlooked
  · refine .failure hfail hend ?_
    rw [failuresAmong_append, healthy]
    rfl

end Look

/-- A merge that has been started, none of whose sides has failed, before the keys of the left from
the `m`-th and those of the right from the `n`-th on. -/
structure Midway (i : Inputs) (o : SetOperation) (m n : Nat) (s : Merge L R) (log : Answers) :
    Prop where
  operation : s.operation = o
  started : s.started = true
  going : s.done = false
  left : Looked i.left i.leftFailure m log.left s.currentLeft
  right : Looked i.right i.rightFailure n log.right s.currentRight

theorem Midway.failures {s : Merge L R} {log : Answers} {m n : Nat} (h : Midway i o m n s log) :
    log.failures = [] := by
  rw [Answers.failures, h.left.healthy, h.right.healthy, List.append_nil]

/-- There is a key left on a side that is looked at. -/
theorem Midway.drop_left_ne_nil {s : Merge L R} {log : Answers} {m n : Nat}
    (h : Midway i o m n s log) (hl : s.onLeft = true) : i.left.drop m ≠ [] :=
  h.left.drop_ne_nil (show comesFirst s.currentLeft s.currentRight = true from hl)

theorem Midway.drop_right_ne_nil {s : Merge L R} {log : Answers} {m n : Nat}
    (h : Midway i o m n s log) (hr : s.onRight = true) : i.right.drop n ≠ [] :=
  h.right.drop_ne_nil (show comesFirst s.currentRight s.currentLeft = true from hr)

/-- One of the sides that are looked at has no more keys, but a failure. -/
structure Strikes (i : Inputs) (m n : Nat) (onLeft onRight : Bool) (e : AccessError) (log : Answers) :
    Prop where
  side : (onLeft = true ∧ i.leftFailure = some e ∧ i.left.drop (m + 1) = []) ∨
    (onRight = true ∧ i.rightFailure = some e ∧ i.right.drop (n + 1) = [])
  failures : log.failures = [e]

section Advance

variable {s : Merge L R} {log : Answers} {m m' n : Nat} {onLeft onRight : Bool}

theorem lt_length_of_drop {keys : List Int} (h : keys.drop m ≠ []) : m + 1 ≤ keys.length := by
  rw [ne_eq, List.drop_eq_nil_iff] at h
  omega

theorem Midway.advanceLeft (pull : Sides L R (StateM σ)) (hmid : Midway i o m n s log)
    (h : i.left.drop m ≠ []) :
    i.Secures (Merge.advanceLeft pull.watched) s log fun outcome s' log' =>
      match outcome with
      | .ok _ => Midway i o (m + 1) n s' log'
      | .error e => Strikes i m n true onRight e log' := by
  refine (secures_advanceLeft hmid.left.length (lt_length_of_drop h) hmid.left.healthy).mono ?_
  rintro _ _ _ (⟨hleft⟩ | ⟨hfail, hend, hanswers⟩)
  · exact ⟨hmid.operation, hmid.started, hmid.going, hleft, hmid.right⟩
  · exact ⟨.inl ⟨rfl, hfail, hend⟩, by simp [Answers.failures, hanswers, hmid.right.healthy]⟩

theorem Midway.advanceRight (pull : Sides L R (StateM σ)) (hmid : Midway i o m' n s log)
    (h : i.right.drop n ≠ []) :
    i.Secures (Merge.advanceRight pull.watched) s log fun outcome s' log' =>
      match outcome with
      | .ok _ => Midway i o m' (n + 1) s' log'
      | .error e => Strikes i m n onLeft true e log' := by
  refine (secures_advanceRight hmid.right.length (lt_length_of_drop h) hmid.right.healthy).mono ?_
  rintro _ _ _ (⟨hright⟩ | ⟨hfail, hend, hanswers⟩)
  · exact ⟨hmid.operation, hmid.started, hmid.going, hmid.left, hright⟩
  · exact ⟨.inr ⟨rfl, hfail, hend⟩, by simp [Answers.failures, hanswers, hmid.left.healthy]⟩

/-- The sides that have a key are looked at again: the left one first, so that a failure there leaves
the right one alone. -/
theorem Midway.advance (pull : Sides L R (StateM σ)) (hmid : Midway i o m n s log)
    (hl : onLeft = true → i.left.drop m ≠ []) (hr : onRight = true → i.right.drop n ≠ []) :
    i.Secures (Merge.advance pull.watched onLeft onRight) s log fun outcome s' log' =>
      match outcome with
      | .ok _ => Midway i o (m + onLeft.toNat) (n + onRight.toNat) s' log'
      | .error e => Strikes i m n onLeft onRight e log' := by
  cases onLeft <;> cases onRight
  · exact secures_pure hmid
  · rw [advance_right]
    exact hmid.advanceRight pull (hr rfl)
  · rw [advance_left]
    exact hmid.advanceLeft pull (hl rfl)
  · rw [advance_both]
    exact (hmid.advanceLeft pull (hl rfl)).bind (fun _ => (watches_advanceRight pull).grows)
      (fun _ _ _ h => h) fun _ _ _ hmid' => hmid'.advanceRight pull (hr rfl)

end Advance

/-- A key that the right side, as far as it was asked, can no longer remove: it has brought a greater
one, or has ended without a failure. -/
def Inputs.Clears (i : Inputs) (log : Answers) (k : Int) : Prop :=
  (∃ j, some (.ok j) ∈ log.right ∧ k < j) ∨ i.rightFailure = none ∧ none ∈ log.right

theorem Inputs.Clears.of_before {log log' : Answers} {k : Int} (h : i.Clears log k)
    (hle : log.Before log') : i.Clears log' k := by
  rcases h with ⟨j, hj, hlt⟩ | ⟨hfail, hnone⟩
  · exact .inl ⟨j, hle.right.mem hj, hlt⟩
  · exact .inr ⟨hfail, hle.right.mem hnone⟩

/-- A merge that has delivered these keys and has the rest of the result before it. -/
structure Going (i : Inputs) (o : SetOperation) (delivered : List Int) (m n : Nat) (s : Merge L R)
    (log : Answers) : Prop where
  midway : Midway i o m n s log
  rest : delivered ++ o.keys (i.left.drop m) (i.right.drop n) = o.keys i.left i.right
  cleared : o = .except → ∀ k ∈ delivered, i.Clears log k

/-- What a merge has delivered that has ended. -/
structure Ended (i : Inputs) (o : SetOperation) (delivered : List Int) (enough : Prop)
    (log : Answers) : Prop where
  part : delivered <+: o.keys i.left i.right
  cleared : o = .except → ∀ k ∈ delivered, i.Clears log k
  failures : log.failures = []
  whole : enough → delivered = o.keys i.left i.right
  union : enough → o = .union → i.leftFailure = none ∧ i.rightFailure = none

/-- The failure of a side that had these keys has cut the result off: of what is less than one of
them nothing is missing. -/
structure CutOff (i : Inputs) (o : SetOperation) (delivered keys : List Int) : Prop where
  less : ∀ k ∈ o.keys i.left i.right, (∃ j ∈ keys, k < j) → k ∈ delivered
  union : o = .union → ∀ k ∈ delivered, ∃ j ∈ keys, k < j

/-- What a merge has delivered that has failed. -/
structure Failed (i : Inputs) (o : SetOperation) (delivered : List Int) (e : AccessError)
    (log : Answers) : Prop where
  part : delivered <+: o.keys i.left i.right
  cleared : o = .except → ∀ k ∈ delivered, i.Clears log k
  failures : log.failures = [e]
  cutOff : (i.leftFailure = some e ∧ CutOff i o delivered i.left) ∨
    (i.rightFailure = some e ∧ CutOff i o delivered i.right)

/-- What the search for the next key leads to, if it is given rounds enough. -/
def Resolves (i : Inputs) (o : SetOperation) (delivered : List Int) (enough : Prop) :
    Except AccessError (Option Int) → Merge L R → Answers → Prop
  | .ok (some k), s, log => ∃ m n, Going i o (delivered ++ [k]) m n s log
  | .ok none, _, log => Ended i o delivered enough log
  | .error e, _, log => Failed i o delivered e log

theorem Resolves.mono {delivered : List Int} {enough enough' : Prop} (h : enough' → enough)
    {outcome : Except AccessError (Option Int)} {s : Merge L R} {log : Answers}
    (hfound : Resolves i o delivered enough outcome s log) :
    Resolves i o delivered enough' outcome s log := by
  rcases outcome with e | _ | k
  · exact hfound
  · exact ⟨hfound.part, hfound.cleared, hfound.failures, hfound.whole ∘ h, hfound.union ∘ h⟩
  · exact hfound

section Round

variable {s : Merge L R} {log : Answers} {m n : Nat} {delivered : List Int} {e : AccessError}

/-- A key that is the least on the left alone cannot be on the right. -/
theorem Midway.clears (hmid : Midway i o m n s log) (hl : s.onLeft = true)
    (hr : s.onRight = false) : i.Clears log s.currentLeft := by
  have hseen := hmid.right.seen
  have hcurrent := hmid.right.current_eq
  have hb := i.rightAscends.drop n
  cases hrest : i.right.drop n with
  | nil =>
    rw [hrest] at hseen
    exact .inr ⟨hmid.right.ended hrest, hseen⟩
  | cons j rest =>
    rw [hrest] at hseen hcurrent hb
    obtain rfl : s.currentRight = j := hcurrent
    have hne : s.currentLeft ≠ noKey := fun h => by simp [onLeft, h] at hl
    exact .inl ⟨s.currentRight, hseen, by simpa [onRight, comesFirst, hb.ne_noKey, hne] using hr⟩

/-- The failure of the side that had the least key as its last one leaves nothing less behind. -/
theorem cutOff_of_least {keys rest : List Int} {x : Int}
    (hrest : delivered ++ rest = o.keys i.left i.right) (hx : x ∈ keys) (hlast : ∀ j ∈ keys, j ≤ x)
    (hle : ∀ k ∈ rest, x ≤ k) (hunion : o = .union → x ∈ rest) : CutOff i o delivered keys := by
  constructor
  · rintro k hk ⟨j, hj, hlt⟩
    rw [← hrest, List.mem_append] at hk
    exact hk.resolve_right fun hk => absurd (hlt.trans_le (hlast j hj)) (hle k hk).not_gt
  · intro ho k hk
    have hpairwise := o.keys_pairwise i.left i.right
    rw [← hrest, List.pairwise_append] at hpairwise
    exact ⟨x, hx, hpairwise.2.2 k hk x (hunion ho)⟩

/-- A list that has no more keys behind the one that was looked at. -/
theorem last_of_drop {keys : List Int} (h : Ascends keys) (hne : keys.drop m ≠ [])
    (hend : keys.drop (m + 1) = []) :
    (keys.drop m).headD noKey ∈ keys.drop m ∧ ∀ j ∈ keys, j ≤ (keys.drop m).headD noKey := by
  rw [← List.tail_drop] at hend
  obtain ⟨x, hx⟩ : ∃ x, keys.drop m = [x] := by
    rcases hrest : keys.drop m with - | ⟨x, rest⟩
    · exact absurd hrest hne
    · rw [hrest] at hend
      exact ⟨x, congrArg _ hend⟩
  rw [hx]
  refine ⟨List.mem_singleton.mpr rfl, fun j hj => ?_⟩
  have hpairwise := h.pairwise
  rw [← List.take_append_drop m keys, hx] at hj hpairwise
  rcases List.mem_append.mp hj with hj | hj
  · exact ((List.pairwise_append.mp hpairwise).2.2 j hj x (List.mem_singleton.mpr rfl)).le
  · exact (List.mem_singleton.mp hj).le

theorem Going.cutOff (h : Going i o delivered m n s log) {log' : Answers}
    (hstrikes : Strikes i m n s.onLeft s.onRight e log') :
    (i.leftFailure = some e ∧ CutOff i o delivered i.left) ∨
      (i.rightFailure = some e ∧ CutOff i o delivered i.right) := by
  have ha := i.leftAscends.drop m
  have hb := i.rightAscends.drop n
  have hleft := h.midway.left.current_eq
  have hright := h.midway.right.current_eq
  rcases hstrikes.side with ⟨hl, hfail, hend⟩ | ⟨hr, hfail, hend⟩
  · obtain ⟨hmem, hlast⟩ :=
      last_of_drop i.leftAscends (h.midway.drop_left_ne_nil hl) hend
    rw [onLeft, hleft, hright] at hl
    refine .inl ⟨hfail, cutOff_of_least h.rest (List.mem_of_mem_drop hmem) hlast
      (fun k hk => headD_le_of_comesFirst ha hb hl (SetOperation.mem_of_mem_keys hk)) ?_⟩
    rintro rfl
    exact SetOperation.mem_keys.mpr (Finset.mem_union_left _ (List.mem_toFinset.mpr hmem))
  · obtain ⟨hmem, hlast⟩ :=
      last_of_drop i.rightAscends (h.midway.drop_right_ne_nil hr) hend
    rw [onRight, hleft, hright] at hr
    refine .inr ⟨hfail, cutOff_of_least h.rest (List.mem_of_mem_drop hmem) hlast
      (fun k hk => headD_le_of_comesFirst hb ha hr (SetOperation.mem_of_mem_keys hk).symm) ?_⟩
    rintro rfl
    exact SetOperation.mem_keys.mpr (Finset.mem_union_right _ (List.mem_toFinset.mpr hmem))

/-- How many keys the two sides have left. -/
def Inputs.remaining (i : Inputs) (m n : Nat) : Nat :=
  (i.left.drop m).length + (i.right.drop n).length

theorem Midway.remaining_lt (hmid : Midway i o m n s log)
    (hover : o.isOver s.currentLeft s.currentRight = false) :
    i.remaining (m + s.onLeft.toNat) (n + s.onRight.toNat) < i.remaining m n := by
  have hleft : s.onLeft = true → m < i.left.length := fun h =>
    lt_length_of_drop (hmid.drop_left_ne_nil h)
  have hright : s.onRight = true → n < i.right.length := fun h =>
    lt_length_of_drop (hmid.drop_right_ne_nil h)
  have hone := onLeft_or_onRight hover
  simp only [Inputs.remaining, List.length_drop]
  cases hl : s.onLeft <;> cases hr : s.onRight <;> simp_all <;> omega

/-- What a round of the search leads to. -/
theorem Going.advance (pull : Sides L R (StateM σ)) (h : Going i o delivered m n s log)
    (hover : o.isOver s.currentLeft s.currentRight = false) :
    i.Secures (Merge.advance pull.watched s.onLeft s.onRight) s log fun outcome s' log' =>
      match outcome with
      | .ok _ => ∃ m' n', i.remaining m' n' < i.remaining m n ∧
          Going i o (delivered ++ if o.keeps s.onLeft s.onRight then [s.least] else []) m' n' s' log'
      | .error e => Failed i o delivered e log' := by
  have hmid := h.midway
  refine ((hmid.advance pull hmid.left.drop_ne_nil hmid.right.drop_ne_nil).and_before
    (watches_advance pull _ _).grows).mono ?_
  rintro (e | _) s' log' ⟨houtcome, hle⟩
  · exact ⟨⟨_, h.rest⟩, fun ho k hk => (h.cleared ho k hk).of_before hle, houtcome.failures,
      h.cutOff houtcome⟩
  have hround := o.keys_round (i.leftAscends.drop m) (i.rightAscends.drop n) hmid.left.current_eq
    hmid.right.current_eq hover
  refine ⟨_, _, hmid.remaining_lt hover, houtcome, ?_, fun ho k hk => ?_⟩
  · rw [← h.rest, hround, List.append_assoc, List.drop_drop, List.drop_drop]
    rfl
  · rcases List.mem_append.mp hk with hk | hk
    · exact (h.cleared ho k hk).of_before hle
    · -- What a difference delivers is on the left alone.
      subst ho
      obtain ⟨hl, hr, rfl⟩ : s.onLeft = true ∧ s.onRight = false ∧ k = s.least := by
        cases hl : s.onLeft <;> cases hr : s.onRight <;> simp_all [SetOperation.keeps]
      rw [least, if_pos hl]
      exact (hmid.clears hl hr).of_before hle

theorem Going.sift (pull : Sides L R (StateM σ)) (rounds : Nat)
    (h : Going i o delivered m n s log) :
    i.Secures (Merge.sift pull.watched o rounds) s log
      (Resolves i o delivered (i.remaining m n < rounds)) := by
  have hpart : delivered <+: o.keys i.left i.right := ⟨_, h.rest⟩
  induction rounds generalizing m n s log with
  | zero =>
    exact secures_pure ⟨hpart, h.cleared, h.midway.failures,
      fun hlt => absurd hlt (Nat.not_lt_zero _), fun hlt => absurd hlt (Nat.not_lt_zero _)⟩
  | succ rounds ih =>
    have hmid := h.midway
    have ha := i.leftAscends.drop m
    have hb := i.rightAscends.drop n
    refine secures_get_bind ?_
    cases hover : o.isOver s.currentLeft s.currentRight with
    | true =>
      have hnil := SetOperation.keys_eq_nil_of_isOver ha hb hmid.left.current_eq
        hmid.right.current_eq hover
      have hwhole : delivered = o.keys i.left i.right := by
        rw [← h.rest, hnil, List.append_nil]
      refine secures_pure ⟨hpart, h.cleared, hmid.failures, fun _ => hwhole, fun _ ho => ?_⟩
      subst ho
      have hends : s.currentLeft = noKey ∧ s.currentRight = noKey := by simpa using hover
      rw [hmid.left.current_eq, hmid.right.current_eq, ha.headD_eq_noKey, hb.headD_eq_noKey] at hends
      exact ⟨hmid.left.ended hends.1, hmid.right.ended hends.2⟩
    | false =>
      have hadvance := h.advance pull hover
      simp only [Bool.false_eq_true, if_false,
        SetOperation.check_eq_ok ha hmid.left.current_eq hover]
      cases hkeeps : o.keeps s.onLeft s.onRight with
      | true =>
        rw [hkeeps, if_pos rfl] at hadvance
        refine hadvance.bind (fun _ => (watches_pure _).grows) (fun _ _ _ => id) ?_
        rintro _ s' log' ⟨m', n', -, h'⟩
        exact secures_pure ⟨m', n', h'⟩
      | false =>
        rw [hkeeps, if_neg Bool.false_ne_true, List.append_nil] at hadvance
        refine hadvance.bind (fun _ => (watches_sift pull o rounds).grows) (fun _ _ _ => id) ?_
        rintro _ s' log' ⟨m', n', hlt, h'⟩
        exact (ih h').mono fun _ _ _ => Resolves.mono (by omega)

end Round

section Run

variable {s : Merge L R} {log : Answers} {m n : Nat} {delivered : List Int}

/-- The search for the next key, when both sides have been looked at. -/
theorem Going.search (pull : Sides L R (StateM σ)) (rounds : Nat)
    (h : Going i o delivered m n s log) :
    i.Secures (Merge.search pull.watched rounds) s log
      (Resolves i o delivered (o = .union ∨ i.remaining 0 0 < rounds)) := by
  have hremaining : i.remaining m n ≤ i.remaining 0 0 := by
    simp only [Inputs.remaining, List.length_drop]
    omega
  refine secures_get_bind ?_
  rw [h.midway.operation]
  cases o with
  | union =>
    -- A union does not count rounds.
    rw [union_eq_sift _ (i.remaining m n)]
    exact (h.sift pull _).mono fun _ _ _ => Resolves.mono fun _ => Nat.lt_succ_self _
  | intersect =>
    rw [intersect_eq_sift]
    exact (h.sift pull rounds).mono fun _ _ _ => Resolves.mono (by simpa using hremaining.trans_lt)
  | except =>
    rw [except_eq_sift]
    exact (h.sift pull rounds).mono fun _ _ _ => Resolves.mono (by simpa using hremaining.trans_lt)

theorem Going.find (pull : Sides L R (StateM σ)) (rounds : Nat)
    (h : Going i o delivered m n s log) :
    i.Secures (Merge.find pull.watched rounds) s log
      (Resolves i o delivered (o = .union ∨ i.remaining 0 0 < rounds)) := by
  refine secures_get_bind ?_
  rw [h.midway.started]
  exact h.search pull rounds

/-- Where a side has nothing but a failure, nothing is missing. -/
theorem cutOff_nil {keys : List Int} (h : keys.drop 0 = []) : CutOff i o [] keys := by
  obtain rfl : keys = [] := h
  exact ⟨fun _ _ hless => absurd hless (by simp), fun _ _ => nofun⟩

/-- The search for the first key begins with a look at both sides. -/
theorem secures_find (pull : Sides L R (StateM σ)) (rounds : Nat) (operation : s.operation = o)
    (started : s.started = false) (going : s.done = false) :
    i.Secures (find pull.watched rounds) s {}
      (Resolves i o [] (o = .union ∨ i.remaining 0 0 < rounds)) := by
  have hsearch := watches_search pull rounds
  have hright := (watches_advanceRight pull).bind fun _ => hsearch
  have hleft := (watches_advanceLeft pull).bind fun _ => hright
  refine secures_get_bind ?_
  rw [started]
  refine (secures_modify (f := fun s => { s with started := true })
    (Q := fun outcome s' log =>
      outcome = .ok () ∧ s' = { s with started := true } ∧ log = {}) ⟨rfl, rfl, rfl⟩).bind
    (fun _ => hleft.grows) (fun _ _ _ h => nomatch h.1) ?_
  rintro _ _ _ ⟨-, rfl, rfl⟩
  refine (secures_advanceLeft rfl (Nat.zero_le _) rfl).bind (fun _ => hright.grows) ?_ ?_
  · rintro e _ _ (- | ⟨hfail, hend, hanswers⟩)
    exact ⟨List.nil_prefix, fun _ _ => nofun, by rw [Answers.failures, hanswers]; rfl,
      .inl ⟨hfail, cutOff_nil hend⟩⟩
  rintro _ _ _ (⟨hleft⟩ | -)
  refine (secures_advanceRight rfl (Nat.zero_le _) rfl).bind (fun _ => hsearch.grows) ?_ ?_
  · rintro e _ _ (- | ⟨hfail, hend, hanswers⟩)
    exact ⟨List.nil_prefix, fun _ _ => nofun, by rw [Answers.failures, hanswers, hleft.healthy]; rfl,
      .inr ⟨hfail, cutOff_nil hend⟩⟩
  rintro _ _ _ (⟨hright⟩ | -)
  exact Going.search pull rounds ⟨⟨operation, rfl, going, hleft, hright⟩, rfl, fun _ _ => nofun⟩

end Run

end Merge

end DocTree
