import DocTree.Proofs.Stream.Merge

/-!
# Differences that reject their first key

A difference looks at the first key of each side and checks the one on the left before it takes or
drops anything. A negative key stands for no node, so that the difference ends with an error, which
says what the key was; what the right side has does not matter. `noKey` is negative too. On the left
it is not told from the end of the list, and the difference ends without an error.

## Main definitions

- `Merge.Leads` — what a step of a merge leads to, which may be an error

## Main statements

- `Merge.next_of_negative` — the first pull of a difference, if the first key on its left is negative
- `SetAxis.except_of_negative` — all pulls, for two sources that are read ahead by workers
-/

namespace DocTree

variable {σ S : Type} {pull : S → StateM σ (Option Item × S)} {s : S}

/-- A source that stays as it is at its end brings nothing for ever. -/
theorem pulls_of_ended (h : ∀ st, pull s st = ((none, s), st)) (times : Nat) (st : σ) :
    (pulls pull times s st).1 = List.replicate times none := by
  induction times generalizing st with
  | zero => rfl
  | succ times ih => rw [pulls_succ (h st), ih, List.replicate_succ]

namespace Merge

variable {L R α β : Type} {s : Merge L R} {pull : Sides L R (StateM σ)}
  {LeftHas : L → List Int → Prop} {RightHas : R → List Int → Prop} {x : Int} {xs ys : List Int}

/-- Whatever the shared state is, the outcome of the step, an error or a result, and the merge
afterwards are as `Q` says. -/
def Leads (step : Step L R (StateM σ) α) (s : Merge L R)
    (Q : Except AccessError α → Merge L R → Prop) : Prop :=
  ∀ st : σ, ∃ outcome s' st', step.run.run s st = ((outcome, s'), st') ∧ Q outcome s'

section Rules

variable {step : Step L R (StateM σ) α} {Q : Except AccessError α → Merge L R → Prop}

theorem leads_pure {a : α} (h : Q (.ok a) s) : Leads (σ := σ) (pure a) s Q :=
  fun st => ⟨.ok a, s, st, rfl, h⟩

theorem leads_throw {e : AccessError} (h : Q (.error e) s) :
    Leads (throw e : Step L R (StateM σ) α) s Q :=
  fun st => ⟨.error e, s, st, rfl, h⟩

theorem leads_get_bind {f : Merge L R → Step L R (StateM σ) α} (h : Leads (f s) s Q) :
    Leads (get >>= f) s Q :=
  h

/-- What follows a step that does not fail. -/
theorem Brings.leads {f : α → Step L R (StateM σ) β} {Q : α → Merge L R → Prop}
    {Q' : Except AccessError β → Merge L R → Prop} (h : Brings step s Q)
    (hf : ∀ a s', Q a s' → Leads (f a) s' Q') : Leads (step >>= f) s Q' := by
  intro st
  obtain ⟨a, s₁, st₁, hstep, hQ⟩ := h st
  obtain ⟨outcome, s₂, st₂, hrest, hQ'⟩ := hf a s₁ hQ st₁
  exact ⟨outcome, s₂, st₂, (run_bind_of_ok hstep).trans hrest, hQ'⟩

end Rules

/-- A difference whose left key is negative does not get beyond it. Only if it is `noKey`, this is not
an error. -/
theorem leads_except (hx : x < 0) (hleft : s.currentLeft = x) (rounds : Nat) :
    Leads (except pull (rounds + 1)) s fun outcome _ =>
      outcome = if x = noKey then .ok none else .error (.notANode x) := by
  refine leads_get_bind ?_
  rw [hleft]
  by_cases hend : x = noKey
  · rw [if_pos hend]
    exact leads_pure (by rw [if_pos hend])
  · have hnode : validateNode x = .error (.notANode x) := if_pos hx
    simp only [if_neg hend, hnode]
    exact leads_throw rfl

/-- The search begins with a look at both sides. What is on the right is not checked. -/
theorem leads_find (hl : Supplies pull.left LeftHas) (hr : Supplies pull.right RightHas)
    (started : s.started = false) (operation : s.operation = .except)
    (left : LeftHas s.left (x :: xs)) (right : RightHas s.right ys) (hx : x < 0) (rounds : Nat) :
    Leads (find pull (rounds + 1)) s fun outcome _ =>
      outcome = if x = noKey then .ok none else .error (.notANode x) := by
  refine leads_get_bind ?_
  rw [started]
  refine Brings.leads (brings_modify (Q := fun _ s' => s' = { s with started := true }) rfl) ?_
  rintro _ _ rfl
  refine (brings_advanceLeft (s := { s with started := true }) hl left).leads ?_
  rintro _ _ ⟨left', -, rfl⟩
  refine (brings_advanceRight (s := { s with left := left', currentLeft := _, started := true }) hr
    right).leads ?_
  rintro _ _ ⟨right', -, rfl⟩
  refine leads_get_bind ?_
  simp only [operation]
  exact leads_except hx rfl rounds

/-- The first pull of a difference, if the first key on its left is negative. It is the last one. -/
theorem next_of_negative (pull : Sides L R (StateM σ)) (s : Merge L R)
    (hl : Supplies pull.left LeftHas) (hr : Supplies pull.right RightHas)
    (started : s.started = false) (going : s.done = false) (operation : s.operation = .except)
    (left : LeftHas s.left (x :: xs)) (right : RightHas s.right ys) (hx : x < 0)
    (rounds : Nat) (hrounds : 0 < rounds) (st : σ) :
    ∃ s' st', next pull rounds s st =
        ((if x = noKey then none else some (.error (.notANode x)), s'), st') ∧ s'.done = true := by
  obtain ⟨rounds, rfl⟩ := Nat.exists_eq_succ_of_ne_zero hrounds.ne'
  obtain ⟨outcome, s', st', hfind, rfl⟩ :=
    leads_find hl hr started operation left right hx rounds st
  refine ⟨{ s' with done := true }, st', ?_, rfl⟩
  rw [next_of_find going hfind]
  by_cases hend : x = noKey
  · rw [if_pos hend, if_pos hend]
    rfl
  · rw [if_neg hend, if_neg hend]
    rfl

end Merge

namespace SetAxis

/-- The difference of two sources that do not fail, read ahead by workers, of which the left one has a
negative key first: the first item is an error with this key, exactly if that is not `noKey`, and
otherwise the axis has ended, without a look at the other keys on the left; and then there is nothing
for ever. What the keys on the right are, what the sources are made of and what the capacities of the
queues are does not matter, nor how the workers move. -/
theorem except_of_negative {leftShape rightShape : Stream.Shape}
    {LeftHas : Stream leftShape → List Int → Prop} {RightHas : Stream rightShape → List Int → Prop}
    (hl : Supplies (Stream.next leftShape) LeftHas) (hr : Supplies (Stream.next rightShape) RightHas)
    {left : Stream leftShape} {right : Stream rightShape} {x : Int} {xs ys : List Int}
    (hleft : LeftHas left (x :: xs)) (hright : RightHas right ys) (hx : x < 0)
    (leftCapacity rightCapacity times : Nat) :
    (∀ r : Registry,
      (pulls SetAxis.next (times + 1) (.combine .except (.spawn leftShape left leftCapacity)
          (.spawn rightShape right rightCapacity)) r).1
        = (if x = noKey then none else some (.error (.notANode x))) :: List.replicate times none) ∧
    ∀ (leftPace rightPace : Nat → Nat) (rounds : Nat), 0 < rounds → ∀ r : Registry,
      (pulls (Merge.next ⟨Paced.next (Stream.next leftShape) (Stream.stop leftShape),
            Paced.next (Stream.next rightShape) (Stream.stop rightShape)⟩ rounds) (times + 1)
          { operation := .except, left := ⟨.start left leftCapacity, leftPace⟩,
            right := ⟨.start right rightCapacity, rightPace⟩ } r).1
        = (if x = noKey then none else some (.error (.notANode x))) :: List.replicate times none := by
  have hleft' := Relay.holds_start hleft leftCapacity
  have hright' := Relay.holds_start hright rightCapacity
  constructor
  · intro r
    let merge : Merge (Relay (Stream leftShape)) (Relay (Stream rightShape)) :=
      { operation := .except, left := .start left leftCapacity,
        right := .start right rightCapacity }
    obtain ⟨merge', r', hnext, hdone⟩ := Merge.next_of_negative
      ⟨Relay.next (Stream.next leftShape) (Stream.stop leftShape),
        Relay.next (Stream.next rightShape) (Stream.stop rightShape)⟩ merge
      (Relay.supplies_next _ hl) (Relay.supplies_next _ hr) rfl rfl rfl hleft' hright' hx
      (Stream.bound (.merged leftShape rightShape) merge) (Nat.succ_pos _) r
    have hended (r : Registry) : SetAxis.next ⟨leftShape, rightShape, merge'⟩ r =
        ((none, ⟨leftShape, rightShape, merge'⟩), r) :=
      next_eq (Merge.next_of_done hdone _ r)
    exact (pulls_succ (next_eq hnext) times).trans (by rw [pulls_of_ended hended])
  · intro leftPace rightPace rounds hrounds r
    let merge : Merge (Paced (Stream leftShape)) (Paced (Stream rightShape)) :=
      { operation := .except, left := ⟨.start left leftCapacity, leftPace⟩,
        right := ⟨.start right rightCapacity, rightPace⟩ }
    obtain ⟨merge', r', hnext, hdone⟩ := Merge.next_of_negative
      ⟨Paced.next (Stream.next leftShape) (Stream.stop leftShape),
        Paced.next (Stream.next rightShape) (Stream.stop rightShape)⟩ merge
      (Paced.supplies_next _ hl) (Paced.supplies_next _ hr) rfl rfl rfl hleft' hright' hx
      rounds hrounds r
    rw [pulls_succ hnext, pulls_of_ended fun r => Merge.next_of_done hdone rounds r]

/-- An atomic value before a node on the left. -/
theorem except_of_negative_atomic :
    (∀ r : Registry, (pulls SetAxis.next 3 (.combine .except (.spawn .listed ([-3, 1].map .ok) 2)
        (.spawn .listed ([1].map .ok) 2)) r).1
      = [some (.error (.notANode (-3))), none, none]) ∧
    ∀ r : Registry,
      (pulls (Merge.next ⟨Paced.next (Stream.next .listed) (Stream.stop .listed),
            Paced.next (Stream.next .listed) (Stream.stop .listed)⟩ 1) 3
          { operation := .except, left := ⟨.start ([-3, 1].map .ok) 2, fun i => i⟩,
            right := ⟨.start ([1].map .ok) 2, fun _ => 9⟩ } r).1
        = [some (.error (.notANode (-3))), none, none] := by
  have h := except_of_negative supplies_listed supplies_listed (listed_map [-3, 1]) (listed_map [1])
    (by decide) 2 2 2
  exact ⟨h.1, h.2 (fun i => i) (fun _ => 9) 1 (by decide)⟩

/-- The number of `noKey` before a node on the left: it stands for no node, but there is no error, and
the node is lost. -/
theorem except_ends_at_noKey :
    validateNode (-15) = .error (.notANode (-15)) ∧ ∀ r : Registry,
      (pulls SetAxis.next 3 (.combine .except (.spawn .listed ([-15, 1].map .ok) 2)
          (.spawn .listed [] 2)) r).1 = [none, none, none] :=
  ⟨rfl, fun _ => rfl⟩

end SetAxis

end DocTree
