import DocTree.Proofs.Stream.Relay
import Mathlib.Data.Finset.Sort

/-!
# What merges deliver

A merge of two sources of ascending keys delivers the keys of the union, the intersection or the
difference, ascending. Between two pulls it stands at a pair of lists, `Merge.Ahead`: what is left on
each side, of which the first key has been looked at already. A step of the merge either takes the
least key of the result off this pair, or drops a key that the result does not have; as no key is
negative, `noKey` can only be the look of a list that has ended.

## Main definitions

- `SetOperation.eval`, `SetOperation.keys` — the operation on sets, and its result in order
- `Merge.Brings` — what a step of a merge that does not fail leads to
- `Merge.Ahead`, `Merge.Holds` — what a merge has before it

## Main statements

- `Merge.supplies_next` — a merge of two sources supplies the keys of the result
- `SetAxis.combine_delivers` — two lists of keys, read ahead by workers and combined
-/

namespace DocTree

/-- The keys are those of nodes, and ascend. -/
structure Ascends (keys : List Int) : Prop where
  pairwise : keys.Pairwise (· < ·)
  nonneg : ∀ k ∈ keys, 0 ≤ k

theorem Ascends.tail {keys : List Int} (h : Ascends keys) : Ascends keys.tail :=
  ⟨h.pairwise.tail, fun k hk => h.nonneg k (List.mem_of_mem_tail hk)⟩

theorem Ascends.lt {k : Int} {keys : List Int} (h : Ascends (k :: keys)) : ∀ j ∈ keys, k < j :=
  (List.pairwise_cons.mp h.pairwise).1

/-- What is less than the first key is less than all. -/
theorem Ascends.lt_of_lt {k j : Int} {keys : List Int} (h : Ascends (k :: keys)) (hj : j < k) :
    ∀ i ∈ k :: keys, j < i :=
  List.forall_mem_cons.mpr ⟨hj, fun i hi => hj.trans (h.lt i hi)⟩

/-- A key of a node is not taken for the end. -/
theorem Ascends.ne_noKey {k : Int} {keys : List Int} (h : Ascends (k :: keys)) : k ≠ noKey := by
  have := h.nonneg k List.mem_cons_self
  unfold noKey
  omega

namespace SetOperation

/-- The operation on sets of keys. -/
def eval : SetOperation → Finset Int → Finset Int → Finset Int
  | union, left, right => left ∪ right
  | intersect, left, right => left ∩ right
  | except, left, right => left \ right

/-- The keys of the result, each once and ascending. -/
def keys (o : SetOperation) (left right : List Int) : List Int :=
  (o.eval left.toFinset right.toFinset).sort

variable {o : SetOperation} {k : Int} {left right left' right' : List Int}

@[simp] theorem mem_keys : k ∈ o.keys left right ↔ k ∈ o.eval left.toFinset right.toFinset :=
  Finset.mem_sort _

theorem keys_pairwise (o : SetOperation) (left right : List Int) :
    (o.keys left right).Pairwise (· < ·) :=
  (Finset.sortedLT_sort _).pairwise

theorem keys_eq_nil (h : ∀ j, j ∉ o.eval left.toFinset right.toFinset) : o.keys left right = [] := by
  rw [keys, Finset.eq_empty_of_forall_notMem h, Finset.sort_empty]

theorem keys_eq {ks : List Int} (hks : ks.Pairwise (· < ·))
    (h : o.eval left.toFinset right.toFinset = ks.toFinset) : o.keys left right = ks :=
  (keys_pairwise o left right).eq_of_mem_iff hks fun j => by rw [mem_keys, h, List.mem_toFinset]

theorem keys_congr (h : ∀ j, j ∈ o.eval left.toFinset right.toFinset ↔
    j ∈ o.eval left'.toFinset right'.toFinset) : o.keys left right = o.keys left' right' := by
  rw [keys, keys, Finset.ext h]

/-- The least key of the result is the first one. -/
theorem keys_eq_cons (h : ∀ j, j ∈ o.eval left.toFinset right.toFinset ↔
      j = k ∨ j ∈ o.eval left'.toFinset right'.toFinset)
    (hlt : ∀ j ∈ o.eval left'.toFinset right'.toFinset, k < j) :
    o.keys left right = k :: o.keys left' right' := by
  have hinsert : o.eval left.toFinset right.toFinset
      = insert k (o.eval left'.toFinset right'.toFinset) := by
    ext j
    rw [h, Finset.mem_insert]
  rw [keys, hinsert, Finset.sort_insert _ (fun j hj => (hlt j hj).le)
    fun hk => (hlt k hk).false]
  rfl

/-- Whether a key that is on these sides belongs to the result. -/
def keeps : SetOperation → (left right : Bool) → Bool
  | union, left, right => left || right
  | intersect, left, right => left && right
  | except, left, right => left && !right

variable {x y : Int} {xs ys : List Int}

/-- The least key of all, if it is on the left alone. -/
theorem keys_left (o : SetOperation) (ha : Ascends (x :: xs)) (hx : ∀ j ∈ right, x < j) :
    o.keys (x :: xs) right = (if o.keeps true false then [x] else []) ++ o.keys xs right := by
  have hxs := ha.lt
  cases o with
  | union | except => apply keys_eq_cons <;> grind [eval, List.mem_toFinset]
  | intersect => exact keys_congr (by grind [eval, List.mem_toFinset])

/-- The least key of all, if it is on the right alone. -/
theorem keys_right (o : SetOperation) (hb : Ascends (y :: ys)) (hy : ∀ j ∈ left, y < j) :
    o.keys left (y :: ys) = (if o.keeps false true then [y] else []) ++ o.keys left ys := by
  have hys := hb.lt
  cases o with
  | union => apply keys_eq_cons <;> grind [eval, List.mem_toFinset]
  | intersect | except => exact keys_congr (by grind [eval, List.mem_toFinset])

/-- The least key of all, if it is on both sides. -/
theorem keys_both (o : SetOperation) (ha : Ascends (x :: xs)) (hb : Ascends (x :: ys)) :
    o.keys (x :: xs) (x :: ys) = (if o.keeps true true then [x] else []) ++ o.keys xs ys := by
  have hxs := ha.lt
  have hys := hb.lt
  cases o with
  | union | intersect => apply keys_eq_cons <;> grind [eval, List.mem_toFinset]
  | except => exact keys_congr (by grind [eval, List.mem_toFinset])

end SetOperation

namespace Merge

variable {σ L R α β : Type} {s : Merge L R} {pull : Sides L R (StateM σ)}
  {LeftHas : L → List Int → Prop} {RightHas : R → List Int → Prop} {o : SetOperation}
  {a b : List Int}

/-- Whatever the shared state is, the step does not fail, and its result and the merge afterwards are
as `Q` says. -/
def Brings (step : Step L R (StateM σ) α) (s : Merge L R) (Q : α → Merge L R → Prop) : Prop :=
  ∀ st : σ, ∃ x s' st', step.run.run s st = ((.ok x, s'), st') ∧ Q x s'

section Rules

variable {step : Step L R (StateM σ) α} {Q : α → Merge L R → Prop}

theorem brings_pure {x : α} (h : Q x s) : Brings (σ := σ) (pure x) s Q :=
  fun st => ⟨x, s, st, rfl, h⟩

/-- What follows a step that does not fail begins where that has ended. -/
theorem run_bind_of_ok {f : α → Step L R (StateM σ) β} {x : α} {s' : Merge L R} {st st' : σ}
    (h : step.run.run s st = ((.ok x, s'), st')) :
    (step >>= f).run.run s st = (f x).run.run s' st' := by
  rw [ExceptT.run_bind, StateT.run_bind]
  show StateT.bind (step.run.run s) _ st = _
  simp only [StateT.bind, h]
  rfl

theorem Brings.bind {f : α → Step L R (StateM σ) β} {Q' : β → Merge L R → Prop}
    (h : Brings step s Q) (hf : ∀ x s', Q x s' → Brings (f x) s' Q') :
    Brings (step >>= f) s Q' := by
  intro st
  obtain ⟨x, s₁, st₁, hstep, hQ⟩ := h st
  obtain ⟨y, s₂, st₂, hrest, hQ'⟩ := hf x s₁ hQ st₁
  exact ⟨y, s₂, st₂, (run_bind_of_ok hstep).trans hrest, hQ'⟩

theorem Brings.mono {Q' : α → Merge L R → Prop} (h : Brings step s Q)
    (hQ : ∀ x s', Q x s' → Q' x s') : Brings step s Q' := by
  intro st
  obtain ⟨x, s', st', hstep, hx⟩ := h st
  exact ⟨x, s', st', hstep, hQ x s' hx⟩

/-- A step that begins with a look at the merge. -/
theorem brings_get_bind {f : Merge L R → Step L R (StateM σ) α} (h : Brings (f s) s Q) :
    Brings (get >>= f) s Q :=
  h

theorem brings_modify {f : Merge L R → Merge L R} {Q : PUnit → Merge L R → Prop} (h : Q () (f s)) :
    Brings (σ := σ) (modify f) s Q :=
  fun st => ⟨(), f s, st, rfl, h⟩

/-- A step that works on the shared state alone. -/
theorem brings_lift {work : StateM σ α} (h : ∀ st, ∃ x st', work st = (x, st') ∧ Q x s) :
    Brings (liftM work : Step L R (StateM σ) α) s Q := by
  intro st
  obtain ⟨x, st', hwork, hQ⟩ := h st
  refine ⟨x, s, st', ?_, hQ⟩
  show ((Except.ok (work st).1, s), (work st).2) = _
  rw [hwork]

end Rules

theorem keyOf_head? (a : List Int) : keyOf (a.head?.map .ok) = .ok (a.headD noKey) := by
  cases a <;> rfl

theorem brings_advanceLeft (hl : Supplies pull.left LeftHas) (hs : LeftHas s.left a) :
    Brings (advanceLeft pull) s fun _ s' =>
      ∃ left, LeftHas left a.tail ∧ s' = { s with left, currentLeft := a.headD noKey } := by
  refine brings_get_bind (.bind
    (Q := fun x s' => x.1 = a.head?.map .ok ∧ LeftHas x.2 a.tail ∧ s' = s)
    (brings_lift fun st => ?_) ?_)
  · obtain ⟨left, st', hpull, hleft⟩ := hl hs st
    exact ⟨_, st', hpull, rfl, hleft, rfl⟩
  · rintro ⟨_, left⟩ s₁ ⟨rfl, hleft, rfl⟩
    refine .bind (brings_modify (Q := fun _ s' => s' = { s₁ with left }) rfl) ?_
    rintro _ _ rfl
    rw [keyOf_head?]
    exact brings_modify ⟨left, hleft, rfl⟩

theorem brings_advanceRight (hr : Supplies pull.right RightHas) (hs : RightHas s.right b) :
    Brings (advanceRight pull) s fun _ s' =>
      ∃ right, RightHas right b.tail ∧ s' = { s with right, currentRight := b.headD noKey } := by
  refine brings_get_bind (.bind
    (Q := fun x s' => x.1 = b.head?.map .ok ∧ RightHas x.2 b.tail ∧ s' = s)
    (brings_lift fun st => ?_) ?_)
  · obtain ⟨right, st', hpull, hright⟩ := hr hs st
    exact ⟨_, st', hpull, rfl, hright, rfl⟩
  · rintro ⟨_, right⟩ s₁ ⟨rfl, hright, rfl⟩
    refine .bind (brings_modify (Q := fun _ s' => s' = { s₁ with right }) rfl) ?_
    rintro _ _ rfl
    rw [keyOf_head?]
    exact brings_modify ⟨right, hright, rfl⟩

/-- A merge that has been started: `a` and `b` are what it still has before it on its two sides, of
which it knows the first keys. -/
structure Ahead (LeftHas : L → List Int → Prop) (RightHas : R → List Int → Prop) (o : SetOperation)
    (a b : List Int) (s : Merge L R) : Prop where
  operation : s.operation = o
  started : s.started = true
  going : s.done = false
  currentLeft : s.currentLeft = a.headD noKey
  left : LeftHas s.left a.tail
  leftAscends : Ascends a
  currentRight : s.currentRight = b.headD noKey
  right : RightHas s.right b.tail
  rightAscends : Ascends b

/-- The key on the left has been dealt with. -/
theorem Ahead.advanceLeft (hl : Supplies pull.left LeftHas) (h : s.Ahead LeftHas RightHas o a b) :
    Brings (Merge.advanceLeft pull) s fun _ s' => s'.Ahead LeftHas RightHas o a.tail b := by
  refine (brings_advanceLeft hl h.left).mono ?_
  rintro _ _ ⟨left, hleft, rfl⟩
  exact ⟨h.operation, h.started, h.going, rfl, hleft, h.leftAscends.tail, h.currentRight, h.right,
    h.rightAscends⟩

/-- The key on the right has been dealt with. -/
theorem Ahead.advanceRight (hr : Supplies pull.right RightHas) (h : s.Ahead LeftHas RightHas o a b) :
    Brings (Merge.advanceRight pull) s fun _ s' => s'.Ahead LeftHas RightHas o a b.tail := by
  refine (brings_advanceRight hr h.right).mono ?_
  rintro _ _ ⟨right, hright, rfl⟩
  exact ⟨h.operation, h.started, h.going, h.currentLeft, h.left, h.leftAscends, rfl, hright,
    h.rightAscends.tail⟩

/-- What the search for the next key leads to. -/
def Finds (LeftHas : L → List Int → Prop) (RightHas : R → List Int → Prop) (o : SetOperation)
    (keys : List Int) : Option Int → Merge L R → Prop
  | none, _ => keys = []
  | some k, s => ∃ a b, s.Ahead LeftHas RightHas o a b ∧ keys = k :: o.keys a b

section Take

variable {k : Int} {keys : List Int}

/-- A key of the left is delivered when the left has been advanced. -/
theorem Ahead.takeLeft (hl : Supplies pull.left LeftHas) (h : s.Ahead LeftHas RightHas o a b)
    (hk : keys = k :: o.keys a.tail b) :
    Brings (do Merge.advanceLeft pull; return some k) s (Finds LeftHas RightHas o keys) :=
  (h.advanceLeft hl).bind fun _ _ h' => brings_pure ⟨_, _, h', hk⟩

/-- A key of the right is delivered when the right has been advanced. -/
theorem Ahead.takeRight (hr : Supplies pull.right RightHas) (h : s.Ahead LeftHas RightHas o a b)
    (hk : keys = k :: o.keys a b.tail) :
    Brings (do Merge.advanceRight pull; return some k) s (Finds LeftHas RightHas o keys) :=
  (h.advanceRight hr).bind fun _ _ h' => brings_pure ⟨_, _, h', hk⟩

/-- A key of both sides is delivered when both have been advanced. -/
theorem Ahead.takeBoth (hl : Supplies pull.left LeftHas) (hr : Supplies pull.right RightHas)
    (h : s.Ahead LeftHas RightHas o a b) (hk : keys = k :: o.keys a.tail b.tail) :
    Brings (do Merge.advanceLeft pull; Merge.advanceRight pull; return some k) s
      (Finds LeftHas RightHas o keys) :=
  (h.advanceLeft hl).bind fun _ _ h' => h'.takeRight hr hk

end Take

theorem Ahead.union_finds (hl : Supplies pull.left LeftHas) (hr : Supplies pull.right RightHas)
    (h : s.Ahead LeftHas RightHas .union a b) :
    Brings (union pull) s (Finds LeftHas RightHas .union (SetOperation.union.keys a b)) := by
  refine brings_get_bind ?_
  have hleft := h.currentLeft
  have hright := h.currentRight
  have ha := h.leftAscends
  have hb := h.rightAscends
  rcases a with - | ⟨x, xs⟩ <;> rcases b with - | ⟨y, ys⟩
  · simp only [hleft, hright, List.headD_nil, and_self, if_true]
    exact brings_pure (SetOperation.keys_eq_nil (by simp [SetOperation.eval]))
  · have hy := hb.ne_noKey
    simp only [hleft, hright, List.headD_nil, List.headD_cons, hy, ne_eq, not_true, false_and,
      and_false, or_self, if_true, if_false, true_or]
    exact h.takeRight hr (SetOperation.keys_right .union hb (by simp))
  · have hx := ha.ne_noKey
    simp only [hleft, hright, List.headD_nil, List.headD_cons, hx, false_and, true_or, if_true,
      if_false]
    exact h.takeLeft hl (SetOperation.keys_left .union ha (by simp))
  · have hx := ha.ne_noKey
    have hy := hb.ne_noKey
    simp only [hleft, hright, List.headD_cons, hx, hy, ne_eq, not_false_iff, true_and, false_or,
      and_self, if_false]
    rcases lt_trichotomy x y with hlt | rfl | hlt
    · rw [if_pos hlt]
      exact h.takeLeft hl (SetOperation.keys_left .union ha (hb.lt_of_lt hlt))
    · rw [if_neg (lt_irrefl x), if_neg (lt_irrefl x)]
      exact h.takeBoth hl hr (SetOperation.keys_both .union ha hb)
    · rw [if_neg hlt.not_gt, if_pos hlt]
      exact h.takeRight hr (SetOperation.keys_right .union hb (ha.lt_of_lt hlt))

theorem Ahead.intersect_finds (hl : Supplies pull.left LeftHas) (hr : Supplies pull.right RightHas)
    {rounds : Nat} (hrounds : a.length + b.length < rounds)
    (h : s.Ahead LeftHas RightHas .intersect a b) :
    Brings (intersect pull rounds) s
      (Finds LeftHas RightHas .intersect (SetOperation.intersect.keys a b)) := by
  induction rounds generalizing s a b with
  | zero => omega
  | succ rounds ih =>
    refine brings_get_bind ?_
    have hleft := h.currentLeft
    have hright := h.currentRight
    have ha := h.leftAscends
    have hb := h.rightAscends
    rcases a with - | ⟨x, xs⟩
    · simp only [hleft, List.headD_nil, true_or, if_true]
      exact brings_pure (SetOperation.keys_eq_nil (by simp [SetOperation.eval]))
    rcases b with - | ⟨y, ys⟩
    · simp only [hright, List.headD_nil, or_true, if_true]
      exact brings_pure (SetOperation.keys_eq_nil (by simp [SetOperation.eval]))
    simp only [hleft, hright, List.headD_cons, ha.ne_noKey, hb.ne_noKey, or_self, if_false]
    simp only [List.length_cons] at hrounds
    rcases lt_trichotomy x y with hlt | rfl | hlt
    · rw [if_pos hlt, SetOperation.keys_left .intersect ha (hb.lt_of_lt hlt)]
      exact (h.advanceLeft hl).bind fun _ _ h' =>
        ih (by simp only [List.length_cons]; omega) h'
    · rw [if_neg (lt_irrefl x), if_neg (lt_irrefl x)]
      exact h.takeBoth hl hr (SetOperation.keys_both .intersect ha hb)
    · rw [if_neg hlt.not_gt, if_pos hlt, SetOperation.keys_right .intersect hb (ha.lt_of_lt hlt)]
      exact (h.advanceRight hr).bind fun _ _ h' =>
        ih (by simp only [List.length_cons]; omega) h'

theorem Ahead.except_finds (hl : Supplies pull.left LeftHas) (hr : Supplies pull.right RightHas)
    {rounds : Nat} (hrounds : a.length + b.length < rounds)
    (h : s.Ahead LeftHas RightHas .except a b) :
    Brings (except pull rounds) s
      (Finds LeftHas RightHas .except (SetOperation.except.keys a b)) := by
  induction rounds generalizing s a b with
  | zero => omega
  | succ rounds ih =>
    refine brings_get_bind ?_
    have hleft := h.currentLeft
    have hright := h.currentRight
    have ha := h.leftAscends
    have hb := h.rightAscends
    rcases a with - | ⟨x, xs⟩
    · simp only [hleft, List.headD_nil, if_true]
      exact brings_pure (SetOperation.keys_eq_nil (by simp [SetOperation.eval]))
    have hnode : validateNode x = .ok () := if_neg (ha.nonneg x List.mem_cons_self).not_gt
    simp only [hleft, List.headD_cons, ha.ne_noKey, if_false, hnode]
    rcases b with - | ⟨y, ys⟩
    · simp only [hright, List.headD_nil, true_or, if_true]
      exact h.takeLeft hl (SetOperation.keys_left .except ha (by simp))
    simp only [hright, List.headD_cons, hb.ne_noKey, false_or]
    simp only [List.length_cons] at hrounds
    rcases lt_trichotomy x y with hlt | rfl | hlt
    · rw [if_pos hlt]
      exact h.takeLeft hl (SetOperation.keys_left .except ha (hb.lt_of_lt hlt))
    · rw [if_neg (lt_irrefl x), if_neg (lt_irrefl x), SetOperation.keys_both .except ha hb]
      exact (h.advanceLeft hl).bind fun _ _ h' => (h'.advanceRight hr).bind fun _ _ h'' =>
        ih (by omega) h''
    · rw [if_neg hlt.not_gt, if_pos hlt, SetOperation.keys_right .except hb (ha.lt_of_lt hlt)]
      exact (h.advanceRight hr).bind fun _ _ h' =>
        ih (by simp only [List.length_cons]; omega) h'

/-- The search for the next key, when both sides have been looked at. -/
theorem Ahead.search_finds (hl : Supplies pull.left LeftHas) (hr : Supplies pull.right RightHas)
    {rounds : Nat} (hrounds : a.length + b.length < rounds) (h : s.Ahead LeftHas RightHas o a b) :
    Brings (do
      match (← get).operation with
      | .union => union pull
      | .intersect => intersect pull rounds
      | .except => except pull rounds) s (Finds LeftHas RightHas o (o.keys a b)) := by
  refine brings_get_bind ?_
  rw [h.operation]
  cases o with
  | union => exact h.union_finds hl hr
  | intersect => exact h.intersect_finds hl hr hrounds
  | except => exact h.except_finds hl hr hrounds

/-- The keys that a merge will still deliver. -/
inductive Holds (LeftHas : L → List Int → Prop) (RightHas : R → List Int → Prop) :
    Merge L R → List Int → Prop where
  | fresh {s : Merge L R} {a b : List Int} (started : s.started = false) (going : s.done = false)
      (left : LeftHas s.left a) (ha : Ascends a) (right : RightHas s.right b) (hb : Ascends b) :
      Holds LeftHas RightHas s (s.operation.keys a b)
  | ahead {s : Merge L R} {o : SetOperation} {a b : List Int}
      (h : s.Ahead LeftHas RightHas o a b) : Holds LeftHas RightHas s (o.keys a b)
  | finished {s : Merge L R} (h : s.done = true) : Holds LeftHas RightHas s []

theorem Ahead.find_finds (hl : Supplies pull.left LeftHas) (hr : Supplies pull.right RightHas)
    {rounds : Nat} (hrounds : a.length + b.length < rounds) (h : s.Ahead LeftHas RightHas o a b) :
    Brings (find pull rounds) s (Finds LeftHas RightHas o (o.keys a b)) := by
  refine brings_get_bind ?_
  rw [h.started]
  exact h.search_finds hl hr hrounds

/-- The search for the first key begins with a look at both sides. -/
theorem find_finds (hl : Supplies pull.left LeftHas) (hr : Supplies pull.right RightHas)
    {rounds : Nat} (hrounds : a.length + b.length < rounds) (started : s.started = false)
    (going : s.done = false) (left : LeftHas s.left a) (ha : Ascends a)
    (right : RightHas s.right b) (hb : Ascends b) :
    Brings (find pull rounds) s
      (Finds LeftHas RightHas s.operation (s.operation.keys a b)) := by
  refine brings_get_bind ?_
  rw [started]
  refine .bind (brings_modify (Q := fun _ s' => s' = { s with started := true }) rfl) ?_
  rintro _ _ rfl
  refine (brings_advanceLeft (s := { s with started := true }) hl left).bind ?_
  rintro _ _ ⟨left', hleft, rfl⟩
  refine (brings_advanceRight (s := { s with left := left', currentLeft := _, started := true }) hr
    right).bind ?_
  rintro _ _ ⟨right', hright, rfl⟩
  exact Ahead.search_finds hl hr hrounds
    ⟨rfl, rfl, going, rfl, hleft, ha, rfl, hright, hb⟩

/-- After the end and after an error there is nothing more. -/
theorem next_of_done (h : s.done = true) (rounds : Nat) (st : σ) :
    next pull rounds s st = ((none, s), st) := by
  rw [next, h]
  rfl

/-- What a pull makes of what the search has found. The end and an error are the last of it. -/
def conclude (outcome : Except AccessError (Option Int)) (s : Merge L R) : Option Item × Merge L R :=
  match outcome with
  | .ok (some key) => (some (.ok key), s)
  | .ok none => (none, { s with done := true })
  | .error e => (some (.error e), { s with done := true })

theorem next_of_find {rounds : Nat} {outcome : Except AccessError (Option Int)} {s' : Merge L R}
    {st st' : σ} (going : s.done = false)
    (h : (find pull rounds).run.run s st = ((outcome, s'), st')) :
    next pull rounds s st = (conclude outcome s', st') := by
  unfold next
  rw [going]
  simp only [Bool.false_eq_true, if_false, bind, StateT.bind, h]
  rcases outcome with e | _ | key <;> rfl

/-- If the search finds the first of some keys, the pull delivers it and leaves the others. -/
theorem next_of_finds {rounds : Nat} {keys : List Int} (going : s.done = false)
    (h : Brings (find pull rounds) s (Finds LeftHas RightHas o keys)) (st : σ) :
    ∃ s' st', next pull rounds s st = ((keys.head?.map .ok, s'), st') ∧
      s'.Holds LeftHas RightHas keys.tail := by
  obtain ⟨found, s', st', hfind, hfound⟩ := h st
  cases found with
  | none =>
    obtain rfl : keys = [] := hfound
    exact ⟨_, st', next_of_find going hfind, .finished rfl⟩
  | some key =>
    obtain ⟨a, b, h', rfl⟩ := hfound
    exact ⟨s', st', next_of_find going hfind, .ahead h'⟩

/-- A merge of two sources of ascending keys supplies the keys of the result. -/
theorem supplies_next (rounds : Merge L R → Nat) (hl : Supplies pull.left LeftHas)
    (hr : Supplies pull.right RightHas)
    (hrounds : ∀ s a b, LeftHas s.left a → RightHas s.right b →
      a.length + b.length + 3 ≤ rounds s) :
    Supplies (fun s => Merge.next pull (rounds s) s) (Holds LeftHas RightHas) := by
  intro s keys hs st
  cases hs with
  | @fresh a b started going left ha right hb =>
    have hlen := hrounds s a b left right
    exact next_of_finds going
      (find_finds hl hr (by omega) started going left ha right hb) st
  | @ahead o a b h =>
    have hlen := hrounds s a.tail b.tail h.left h.right
    simp only [List.length_tail] at hlen
    exact next_of_finds h.going (h.find_finds hl hr (by omega)) st
  | finished hdone => exact ⟨s, st, next_of_done hdone _ st, .finished hdone⟩

end Merge

/-- No fewer keys than a relay holds, if its source is bounded so. -/
theorem Relay.Holds.length_le {S : Type} {Left : S → List Int → Prop} {bound : S → Nat}
    (hbound : ∀ s keys, Left s keys → keys.length ≤ bound s) {r : Relay S} {keys : List Int}
    (h : r.Holds Left keys) : keys.length ≤ Stream.relayBound bound r := by
  cases h with
  | detached capacity => exact Nat.zero_le _
  | attached capacity queued hw =>
    cases hw with
    | ready hs => simpa [Stream.relayBound] using hbound _ _ hs
    | offering key hs => simpa [Stream.relayBound] using hbound _ _ hs
    | leaving | finished => simp [Stream.relayBound]

namespace SetAxis

/-- A pull of the axis is one of its merge. -/
theorem next_eq {leftShape rightShape : Stream.Shape} {item : Option Item}
    {merge merge' : Merge (Relay (Stream leftShape)) (Relay (Stream rightShape))} {r r' : Registry}
    (h : Stream.next (.merged leftShape rightShape) merge r = ((item, merge'), r')) :
    SetAxis.next ⟨leftShape, rightShape, merge⟩ r =
      ((item, ⟨leftShape, rightShape, merge'⟩), r') := by
  simp only [SetAxis.next, bind, StateT.bind, h]
  rfl

/-- The pulls of the axis are those of its merge, which is given rounds enough. -/
theorem supplies_next_listed : Supplies SetAxis.next fun a keys =>
    ∃ merge, a = ⟨.listed, .listed, merge⟩ ∧
      merge.Holds (Relay.Holds Listed) (Relay.Holds Listed) keys := by
  rintro _ keys ⟨merge, rfl, hmerge⟩ r
  have hbound (items : Stream .listed) (keys : List Int) (h : Listed items keys) :
      keys.length ≤ Stream.bound .listed items := by
    subst h
    simp [Stream.bound]
  have hrelay := Relay.supplies_next (Stream.stop .listed) supplies_listed
  let pull : Merge.Sides (Relay (Stream .listed)) (Relay (Stream .listed)) (StateM Registry) :=
    ⟨Relay.next (Stream.next .listed) (Stream.stop .listed),
      Relay.next (Stream.next .listed) (Stream.stop .listed)⟩
  have hmerges : Supplies (fun s => Merge.next pull (Stream.bound (.merged .listed .listed) s) s)
      (Merge.Holds (Relay.Holds Listed) (Relay.Holds Listed)) :=
    Merge.supplies_next _ hrelay hrelay fun s a b ha hb => Nat.add_le_add_right
      (Nat.add_le_add (ha.length_le hbound) (hb.length_le hbound)) 3
  obtain ⟨merge', r', hnext, hmerge'⟩ := hmerges hmerge r
  have hstep : Stream.next (.merged .listed .listed) merge r
      = ((keys.head?.map .ok, merge'), r') := hnext
  exact ⟨⟨.listed, .listed, merge'⟩, r', next_eq hstep, merge', rfl, hmerge'⟩

/-- Two lists of ascending keys, read ahead by workers and combined: the axis delivers the keys of
the result, ascending and each once, and then nothing for ever, whatever the capacities of the queues
are. So it does if the workers move as any two schedules say. -/
theorem combine_delivers (operation : SetOperation) {left right : List Int}
    (hl : left.Pairwise (· < ·)) (hl₀ : ∀ k ∈ left, 0 ≤ k) (hr : right.Pairwise (· < ·))
    (hr₀ : ∀ k ∈ right, 0 ≤ k) (leftCapacity rightCapacity times : Nat) :
    (operation.keys left right).Pairwise (· < ·) ∧
    (∀ k, k ∈ operation.keys left right ↔ k ∈ operation.eval left.toFinset right.toFinset) ∧
    (∀ r : Registry,
      (pulls SetAxis.next times (.combine operation
          (.spawn .listed (left.map .ok) leftCapacity)
          (.spawn .listed (right.map .ok) rightCapacity)) r).1
        = (List.range times).map fun i => (operation.keys left right)[i]?.map .ok) ∧
    ∀ (leftPace rightPace : Nat → Nat) (rounds : Nat), left.length + right.length + 3 ≤ rounds →
      ∀ r : Registry,
        (pulls (Merge.next ⟨Paced.next (Stream.next .listed) (Stream.stop .listed),
              Paced.next (Stream.next .listed) (Stream.stop .listed)⟩ rounds) times
            { operation, left := ⟨.start (left.map .ok) leftCapacity, leftPace⟩,
              right := ⟨.start (right.map .ok) rightCapacity, rightPace⟩ } r).1
          = (List.range times).map fun i => (operation.keys left right)[i]?.map .ok := by
  have hleft : (Relay.start (left.map .ok) leftCapacity).Holds Listed left :=
    Relay.holds_start (listed_map left) leftCapacity
  have hright : (Relay.start (right.map .ok) rightCapacity).Holds Listed right :=
    Relay.holds_start (listed_map right) rightCapacity
  refine ⟨operation.keys_pairwise left right, fun k => SetOperation.mem_keys, ?_, ?_⟩
  · intro r
    exact supplies_next_listed.pulls_eq
      ⟨_, rfl, .fresh rfl rfl hleft ⟨hl, hl₀⟩ hright ⟨hr, hr₀⟩⟩ times r
  · intro leftPace rightPace rounds hrounds r
    have hpaced := Paced.supplies_next (Stream.stop .listed) supplies_listed
    have hrounds' (s : Merge (Paced (Stream .listed)) (Paced (Stream .listed))) (a b : List Int)
        (ha : s.left.relay.Holds Listed a ∧ a.length ≤ left.length)
        (hb : s.right.relay.Holds Listed b ∧ b.length ≤ right.length) :
        a.length + b.length + 3 ≤ rounds := by
      have := ha.2
      have := hb.2
      omega
    exact (Merge.supplies_next (fun _ => rounds) (hpaced.bounded left.length)
      (hpaced.bounded right.length) hrounds').pulls_eq
      (.fresh rfl rfl ⟨hleft, le_rfl⟩ ⟨hl, hl₀⟩ ⟨hright, le_rfl⟩ ⟨hr, hr₀⟩) times r

/-- A difference with keys in common, of which the last one is the last on both sides, over a
hand-over on the left. The workers first move only when they are waited for, then by a schedule on
which the left one is ever further ahead and the right one has finished before the first attempt. -/
theorem combine_delivers_difference :
    (∀ r : Registry,
      (pulls SetAxis.next 4 (.combine .except (.spawn .listed ([1, 3, 5, 7].map .ok) 0)
          (.spawn .listed ([3, 4, 7].map .ok) 5)) r).1
        = [some (.ok 1), some (.ok 5), none, none]) ∧
    ∀ r : Registry,
      (pulls (Merge.next ⟨Paced.next (Stream.next .listed) (Stream.stop .listed),
            Paced.next (Stream.next .listed) (Stream.stop .listed)⟩ 10) 4
          { operation := .except, left := ⟨.start ([1, 3, 5, 7].map .ok) 0, fun i => i⟩,
            right := ⟨.start ([3, 4, 7].map .ok) 5, fun _ => 9⟩ } r).1
        = [some (.ok 1), some (.ok 5), none, none] := by
  have h := combine_delivers .except (by decide : ([1, 3, 5, 7] : List Int).Pairwise (· < ·))
    (by decide) (by decide : ([3, 4, 7] : List Int).Pairwise (· < ·)) (by decide) 0 5 4
  have hkeys : SetOperation.except.keys [1, 3, 5, 7] [3, 4, 7] = [1, 5] :=
    SetOperation.keys_eq (by decide) (by decide)
  rw [hkeys] at h
  exact ⟨h.2.2.1, h.2.2.2 (fun i => i) (fun _ => 9) 10 (by decide)⟩

end SetAxis

end DocTree
