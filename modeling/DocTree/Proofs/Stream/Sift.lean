import DocTree.Proofs.Stream.Merge

/-!
# One loop for the three operations

Union, intersection and difference differ in when they are over, in whether they check a key and in
what they deliver. What they share is the round: the least key of all is taken off the sides that
have it. `Merge.sift` is this round for any operation, and the three searches are it.

## Main definitions

- `comesFirst` — which of the two keys that a merge looks at comes first
- `Merge.sift` — the search for the next key, for any operation

## Main statements

- `Merge.union_eq_sift`, `Merge.intersect_eq_sift`, `Merge.except_eq_sift`
-/

namespace DocTree

/-- Of the two keys that a merge looks at, this one is not the end and not beyond the other. A key that
both sides have comes first on both. -/
def comesFirst (key other : Int) : Bool := key ≠ noKey ∧ (other = noKey ∨ key ≤ other)

section ComesFirst

variable {key other : Int}

@[simp] theorem comesFirst_noKey_left : comesFirst noKey other = false := by
  simp [comesFirst]

@[simp] theorem comesFirst_noKey_right : comesFirst key noKey = decide (key ≠ noKey) := by
  simp [comesFirst]

@[simp] theorem comesFirst_self : comesFirst key key = decide (key ≠ noKey) := by
  simp [comesFirst]

theorem comesFirst_of_lt (hkey : key ≠ noKey) (h : key < other) : comesFirst key other = true := by
  simp [comesFirst, hkey, h.le]

theorem not_comesFirst_of_lt (hother : other ≠ noKey) (h : other < key) :
    comesFirst key other = false := by
  simp [comesFirst, hother, h.not_ge]

end ComesFirst

/-- The look at a list of keys is `noKey` only at its end. -/
theorem Ascends.headD_eq_noKey {keys : List Int} (h : Ascends keys) :
    keys.headD noKey = noKey ↔ keys = [] := by
  cases keys with
  | nil => simp
  | cons k keys => simp [h.ne_noKey]

theorem Ascends.drop {keys : List Int} (h : Ascends keys) (n : Nat) : Ascends (keys.drop n) :=
  ⟨h.pairwise.sublist (List.drop_sublist n keys), fun k hk => h.nonneg k (List.mem_of_mem_drop hk)⟩

/-- The first key of all is the least one. -/
theorem headD_le_of_comesFirst {x y : List Int} (hx : Ascends x) (hy : Ascends y)
    (h : comesFirst (x.headD noKey) (y.headD noKey) = true) {k : Int} (hk : k ∈ x ∨ k ∈ y) :
    x.headD noKey ≤ k := by
  rcases x with - | ⟨j, xs⟩
  · simp at h
  rcases hk with hk | hk
  · rcases List.mem_cons.mp hk with rfl | hk
    · exact le_rfl
    · exact (hx.lt k hk).le
  · rcases y with - | ⟨l, ys⟩
    · simp at hk
    have hle : j ≤ l := by simpa [comesFirst, hx.ne_noKey, hy.ne_noKey] using h
    rcases List.mem_cons.mp hk with rfl | hk
    · exact hle
    · exact hle.trans (hy.lt k hk).le

namespace SetOperation

/-- Nothing more can come. -/
@[simp] def isOver : SetOperation → (left right : Int) → Bool
  | union, left, right => left = noKey ∧ right = noKey
  | intersect, left, right => left = noKey ∨ right = noKey
  | except, left, _ => left = noKey

/-- The difference checks the keys on its left. -/
@[simp] def check : SetOperation → (left : Int) → Except AccessError Unit
  | except, left => validateNode left
  | union, _ | intersect, _ => .ok ()

variable {o : SetOperation} {x y : List Int} {left right : Int}

/-- Every key of the result is on one of the sides. -/
theorem mem_of_mem_keys {k : Int} (h : k ∈ o.keys x y) : k ∈ x ∨ k ∈ y := by
  rw [mem_keys] at h
  cases o with
  | union => simpa [eval] using h
  | intersect | except =>
    simp only [eval, Finset.mem_inter, Finset.mem_sdiff, List.mem_toFinset] at h
    exact .inl h.1

/-- What a round leaves on the two sides has the rest of the result. -/
theorem keys_round (o : SetOperation) (hx : Ascends x) (hy : Ascends y) (hl : left = x.headD noKey)
    (hr : right = y.headD noKey) (hover : o.isOver left right = false) :
    o.keys x y =
      (if o.keeps (comesFirst left right) (comesFirst right left) then
        [if comesFirst left right then left else right]
      else []) ++
      o.keys (x.drop (comesFirst left right).toNat) (y.drop (comesFirst right left).toNat) := by
  subst hl hr
  rcases x with - | ⟨k, xs⟩
  · rcases y with - | ⟨l, ys⟩
    · cases o <;> simp at hover
    · have hless : ∀ j ∈ ([] : List Int), l < j := nofun
      simpa [hy.ne_noKey] using o.keys_right hy hless
  rcases y with - | ⟨l, ys⟩
  · have hless : ∀ j ∈ ([] : List Int), k < j := nofun
    simpa [hx.ne_noKey] using o.keys_left hx hless
  have hk := hx.ne_noKey
  have hl := hy.ne_noKey
  simp only [List.headD_cons]
  rcases lt_trichotomy k l with h | rfl | h
  · simpa [comesFirst_of_lt hk h, not_comesFirst_of_lt hk h] using o.keys_left hx (hy.lt_of_lt h)
  · simpa [hk] using o.keys_both hx hy
  · simpa [comesFirst_of_lt hl h, not_comesFirst_of_lt hl h] using o.keys_right hy (hx.lt_of_lt h)

/-- The result has nothing more when a round finds that it is over. -/
theorem keys_eq_nil_of_isOver (hx : Ascends x) (hy : Ascends y) (hl : left = x.headD noKey)
    (hr : right = y.headD noKey) (hover : o.isOver left right = true) : o.keys x y = [] := by
  subst hl hr
  refine keys_eq_nil fun k => ?_
  cases o with
  | union =>
    obtain ⟨rfl, rfl⟩ : x = [] ∧ y = [] := by
      simpa only [isOver, decide_eq_true_eq, hx.headD_eq_noKey, hy.headD_eq_noKey] using hover
    simp [eval]
  | intersect =>
    obtain rfl | rfl : x = [] ∨ y = [] := by
      simpa only [isOver, decide_eq_true_eq, hx.headD_eq_noKey, hy.headD_eq_noKey] using hover
    · simp [eval]
    · simp [eval]
  | except =>
    obtain rfl : x = [] := by
      simpa only [isOver, decide_eq_true_eq, hx.headD_eq_noKey] using hover
    simp [eval]

/-- The difference does not reject the key of a node. -/
theorem check_eq_ok (hx : Ascends x) (hl : left = x.headD noKey)
    (hover : o.isOver left right = false) : o.check left = .ok () := by
  subst hl
  cases o with
  | union | intersect => rfl
  | except =>
    rcases x with - | ⟨k, xs⟩
    · simp at hover
    · exact if_neg (hx.nonneg k List.mem_cons_self).not_gt

end SetOperation

namespace Merge

variable {L R : Type} {m : Type → Type} [Monad m] {pull : Sides L R m}

/-- The least key that the merge looks at is on the left. -/
def onLeft (s : Merge L R) : Bool := comesFirst s.currentLeft s.currentRight

/-- The least key that the merge looks at is on the right. -/
def onRight (s : Merge L R) : Bool := comesFirst s.currentRight s.currentLeft

/-- The least key that the merge looks at. -/
def least (s : Merge L R) : Int := if s.onLeft then s.currentLeft else s.currentRight

section Least

variable {s : Merge L R}

theorem least_of_lt (hl : s.currentLeft ≠ noKey) (h : s.currentLeft < s.currentRight) :
    s.onLeft = true ∧ s.onRight = false ∧ s.least = s.currentLeft := by
  simp [onLeft, onRight, least, comesFirst_of_lt hl h, not_comesFirst_of_lt hl h]

theorem least_of_gt (hr : s.currentRight ≠ noKey) (h : s.currentRight < s.currentLeft) :
    s.onLeft = false ∧ s.onRight = true ∧ s.least = s.currentRight := by
  simp [onLeft, onRight, least, comesFirst_of_lt hr h, not_comesFirst_of_lt hr h]

theorem least_of_eq (hl : s.currentLeft ≠ noKey) (h : s.currentRight = s.currentLeft) :
    s.onLeft = true ∧ s.onRight = true ∧ s.least = s.currentLeft := by
  simp [onLeft, onRight, least, h, hl]

theorem least_of_right_ended (hl : s.currentLeft ≠ noKey) (hr : s.currentRight = noKey) :
    s.onLeft = true ∧ s.onRight = false ∧ s.least = s.currentLeft := by
  simp [onLeft, onRight, least, hl, hr]

theorem least_of_left_ended (hl : s.currentLeft = noKey) (hr : s.currentRight ≠ noKey) :
    s.onLeft = false ∧ s.onRight = true ∧ s.least = s.currentRight := by
  simp [onLeft, onRight, least, hl, hr]

/-- As long as the operation is not over, one of the sides has the least key. -/
theorem onLeft_or_onRight {o : SetOperation}
    (h : o.isOver s.currentLeft s.currentRight = false) : s.onLeft = true ∨ s.onRight = true := by
  by_cases hl : s.currentLeft = noKey
  · by_cases hr : s.currentRight = noKey
    · cases o <;> simp [hl, hr] at h
    · exact .inr (least_of_left_ended hl hr).2.1
  by_cases hr : s.currentRight = noKey
  · exact .inl (least_of_right_ended hl hr).1
  rcases lt_trichotomy s.currentLeft s.currentRight with h | h | h
  · exact .inl (least_of_lt hl h).1
  · exact .inl (least_of_eq hl h.symm).1
  · exact .inr (least_of_gt hr h).2.1

end Least

/-- Look at the next keys of these sides. -/
def advance (pull : Sides L R m) (onLeft onRight : Bool) : Step L R m Unit := do
  if onLeft then advanceLeft pull
  if onRight then advanceRight pull

/-- The search for the next key: the least key of all is taken off the sides that have it, until it is
one that the result has. -/
def sift (pull : Sides L R m) (o : SetOperation) : (rounds : Nat) → Step L R m (Option Int)
  | 0 => return none
  | rounds + 1 => do
    let s ← get
    if o.isOver s.currentLeft s.currentRight then return none
    else
      match o.check s.currentLeft with
      | .error e => throw e
      | .ok _ => do
        advance pull s.onLeft s.onRight
        if o.keeps s.onLeft s.onRight then return some s.least
        else sift pull o rounds

@[simp] theorem advance_right : advance pull false true = advanceRight pull := by
  simp [advance]

@[simp] theorem advance_both :
    advance pull true true = (do advanceLeft pull; advanceRight pull) := by
  simp [advance]

/-- The search for the next key, when both sides have been looked at. -/
def search (pull : Sides L R m) (rounds : Nat) : Step L R m (Option Int) := do
  match (← get).operation with
  | .union => union pull
  | .intersect => intersect pull rounds
  | .except => except pull rounds

variable [LawfulMonad m]

@[simp] theorem advance_left : advance pull true false = advanceLeft pull := by
  simp [advance]

/-- A union delivers in its first round. -/
theorem union_eq_sift (pull : Sides L R m) (rounds : Nat) :
    union pull = sift pull .union (rounds + 1) := by
  unfold union sift
  refine congrArg _ (funext fun s => ?_)
  by_cases hl : s.currentLeft = noKey
  · by_cases hr : s.currentRight = noKey
    · simp [hl, hr]
    · simp [SetOperation.keeps, hl, hr, least_of_left_ended hl hr]
  by_cases hr : s.currentRight = noKey
  · simp [SetOperation.keeps, hl, hr, least_of_right_ended hl hr]
  rcases lt_trichotomy s.currentLeft s.currentRight with h | h | h
  · simp [SetOperation.keeps, hl, hr, h, least_of_lt hl h]
  · simp [SetOperation.keeps, hl, h.symm, least_of_eq hl h.symm]
  · simp [SetOperation.keeps, hl, hr, h, h.not_gt, least_of_gt hr h]

theorem intersect_eq_sift (pull : Sides L R m) (rounds : Nat) :
    intersect pull rounds = sift pull .intersect rounds := by
  induction rounds with
  | zero => rfl
  | succ rounds ih =>
    unfold intersect sift
    refine congrArg _ (funext fun s => ?_)
    by_cases hl : s.currentLeft = noKey
    · simp [hl]
    by_cases hr : s.currentRight = noKey
    · simp [hr]
    rcases lt_trichotomy s.currentLeft s.currentRight with h | h | h
    · simp [SetOperation.keeps, hl, hr, h, least_of_lt hl h, ih]
    · simp [SetOperation.keeps, hl, h.symm, least_of_eq hl h.symm]
    · simp [SetOperation.keeps, hl, hr, h, h.not_gt, least_of_gt hr h, ih]

theorem except_eq_sift (pull : Sides L R m) (rounds : Nat) :
    except pull rounds = sift pull .except rounds := by
  induction rounds with
  | zero => rfl
  | succ rounds ih =>
    unfold except sift
    refine congrArg _ (funext fun s => ?_)
    by_cases hl : s.currentLeft = noKey
    · simp [hl]
    rcases hcheck : validateNode s.currentLeft with e | _
    · simp [hl, hcheck]
    by_cases hr : s.currentRight = noKey
    · simp [SetOperation.keeps, hl, hr, hcheck, least_of_right_ended hl hr]
    rcases lt_trichotomy s.currentLeft s.currentRight with h | h | h
    · simp [SetOperation.keeps, hl, hr, h, hcheck, least_of_lt hl h]
    · simp [SetOperation.keeps, hl, h.symm, hcheck, least_of_eq hl h.symm, ih]
    · simp [SetOperation.keeps, hl, hr, h, h.not_gt, hcheck, least_of_gt hr h, ih]

end Merge

end DocTree
