import DocTree.Proofs.Node.DocumentOrder
import DocTree.Proofs.Reading.Refused

/-!
# Paths that are cut off

The moves of a cursor may be refused while it looks for the path of a node. An attribute or a
declaration is not found then, which is an error. But a cursor that counts siblings, or climbs, takes
the refusal for the end: what it has of the path counts as the whole.

## Main definitions

- `CutPath` — the lower part of a path
- `Snapshot.PathBalked` — how a search for a path ends that is refused moves

## Main statements

- `Snapshot.IsTree.whenRefused_path` — a search for a path, at whichever move the refusals set in
-/

namespace DocTree

open Reading

variable {σ : Type}

/-- The part of a path from some level on down. Of the siblings at that level not all may have been
counted. -/
def CutPath (path cut : List (Nat × Nat)) : Prop :=
  ∃ above below i j, path = above ++ (2, i) :: below ∧ cut = (2, j) :: below ∧ j ≤ i

theorem CutPath.append {path cut : List (Nat × Nat)} (h : CutPath path cut) (step : Nat × Nat) :
    CutPath (path ++ [step]) (cut ++ [step]) := by
  obtain ⟨above, below, i, j, rfl, rfl, hle⟩ := h
  exact ⟨above, below ++ [step], i, j, by simp, rfl, hle⟩

namespace Snapshot

/-- A search for what is owned did not find the node, or found it and is still there. -/
def SearchBalked (k n : Nat) (e : Ending σ (Nat × Nat)) : Prop :=
  (e.outcome = .error (.noSuchNode k) ∨ ∃ i, e.outcome = .ok (i, k) ∧ e.place = k) ∧ e.cost ≤ n

/-- A search for the path of `k`, with `below` after it, failed or came to a part of the path. -/
def PathBalked (t : Snapshot) (k : Nat) (below : List (Nat × Nat))
    (e : Ending σ (List (Nat × Nat))) : Prop :=
  ((∃ key, e.outcome = .error (.noSuchNode key)) ∨
      ∃ cut, CutPath (t.trail k) cut ∧ e.outcome = .ok (cut ++ below)) ∧
    e.cost ≤ 2 * t.size + 2

variable {t : Snapshot} {k p here n : Nat}

/-- The next level of a path is added to what there is of the levels above. -/
theorem PathBalked.of_parent {below : List (Nat × Nat)} {e : Ending σ (List (Nat × Nat))}
    (hp : t.parent? k = some p) (h : t.PathBalked p (t.rung p k :: below) e) :
    t.PathBalked k below e := by
  refine ⟨h.1.imp_right ?_, h.2⟩
  rintro ⟨cut, hcut, houtcome⟩
  refine ⟨cut ++ [t.rung p k], ?_, ?_⟩
  · rw [trail_of_parent? hp]
    exact hcut.append _
  · rw [houtcome, List.append_assoc]
    rfl

namespace IsTree

/-- Siblings that the cursor does not reach are not counted. -/
theorem whenRefused_countLeft (h : t.IsTree) (s : σ) (here count : Nat) :
    (t.countLeft here count).WhenRefused (fun e => ∃ j place, j ≤ t.leftCount here ∧
      t.parent? place = t.parent? here ∧ e = ⟨.ok (count + j, place), s, place, 1⟩) s here := by
  induction here using Nat.strongRecOn generalizing count with
  | ind here ih =>
    cases hl : t.left? here with
    | none =>
      rw [countLeft]
      split
      · simp_all
      · trivial
    | some l =>
      rw [countLeft]
      split
      · rename_i l' hl'
        obtain rfl : l = l' := by simpa [hl] using hl'
        have hp := (h.right?_spec (h.right?_eq_some_iff.2 hl)).1
        refine ⟨⟨0, here, Nat.zero_le _, rfl, rfl⟩, (ih l (left?_lt hl) (count + 1)).mono ?_⟩
        rintro _ ⟨j, place, hj, hplace, rfl⟩
        rw [leftCount_of_left? hl]
        exact ⟨j + 1, place, Nat.succ_le_succ hj, hplace.trans hp.symm,
          by rw [Nat.add_right_comm, ← Nat.add_assoc]⟩
      · simp_all

end IsTree

/-- Refused all moves, the cursor does not find what is owned. -/
theorem refused_searchOwned (t : Snapshot) (attributes : Bool) (owner key left index here : Nat)
    (s : σ) : (t.searchOwned attributes owner key left index here).refused s here =
      ⟨.error (.noSuchNode key), s, here, 2 * left⟩ := by
  induction left generalizing index with
  | zero => rfl
  | succ left ih =>
    have hrest := ih (index + 1)
    rw [searchOwned]
    simp only [ask, move_bind, done_bind, refused, Bool.false_eq_true, if_false, Bool.false_and, hrest]
    rw [Nat.mul_succ]

/-- Once the cursor is refused a move, it does not find what is owned any more. If that is the move back
to the owner, it has found the node, but is still there. -/
theorem whenRefused_searchOwned (t : Snapshot) (attributes : Bool) (owner key left index : Nat)
    (s : σ) : (t.searchOwned attributes owner key left index owner).WhenRefused
      (SearchBalked key (2 * left)) s owner := by
  induction left generalizing index with
  | zero => trivial
  | succ left ih =>
    refine ⟨?target, ?back, ?rest⟩
    case target =>
      have hrefused := t.refused_searchOwned attributes owner key (left + 1) index owner s
      rw [searchOwned] at hrefused
      exact ⟨.inl (congrArg Ending.outcome hrefused), Nat.le_of_eq (congrArg Ending.cost hrefused)⟩
    case back =>
      simp only [refused, Reading.bind, Bool.false_eq_true, if_false, ite_isSome_getD]
      generalize (t.owned attributes owner)[index]? = target
      by_cases hfound : (target.isSome && target.getD owner == key) = true
      · have hthere : target.getD owner = key := by simpa using (Bool.and_eq_true_iff.1 hfound).2
        rw [if_pos hfound]
        exact ⟨.inr ⟨index, by rw [hthere]; rfl, hthere⟩, by dsimp only [pure_def, refused]; omega⟩
      · rw [if_neg hfound, refused_searchOwned]
        exact ⟨.inl rfl, by dsimp only; omega⟩
    case rest =>
      simp only [Reading.bind, Option.isSome_some, Option.getD_some, if_true, ite_isSome_getD]
      split
      · trivial
      · exact (ih (index + 1)).mono fun e he => ⟨he.1, Nat.le_trans he.2 (by omega)⟩

/-- Refused all moves, the cursor finds no position of an attribute or a declaration. -/
theorem refused_ownedPosition (t : Snapshot) (k : Nat) (s : σ) :
    ((t.ownedPosition k).refused s k).outcome = .error (.noSuchNode k) ∧
      ((t.ownedPosition k).refused s k).cost ≤ 1 := by
  rw [ownedPosition]
  cases t.parent? k with
  | none => exact ⟨rfl, Nat.zero_le 1⟩
  | some owner => exact ⟨rfl, Nat.le_refl 1⟩

/-- Refused all moves, the cursor finds no path of an attribute or a declaration. -/
theorem refused_path_of_owned (t : Snapshot) (levels : Nat) (hk : (t.kind k).isStructural = false)
    (below : List (Nat × Nat)) (s : σ) :
    ((t.path (levels + 1) k below).refused s k).outcome = .error (.noSuchNode k) ∧
      ((t.path (levels + 1) k below).refused s k).cost ≤ 1 := by
  have howned := t.refused_ownedPosition k s
  have hfails : ∀ f : Nat × Nat → Reading σ (List (Nat × Nat)),
      ((t.ownedPosition k >>= f).refused s k).outcome = .error (.noSuchNode k) ∧
        ((t.ownedPosition k >>= f).refused s k).cost ≤ 1 := by
    intro f
    rw [refused_bind, Ending.thenRefused, howned.1]
    exact ⟨rfl, howned.2⟩
  rw [path]
  cases hkind : t.kind k with
  | namespaceDecl => exact hfails _
  | «attribute» => exact hfails _
  | _ => simp [hkind, Kind.isStructural] at hk

/-- What becomes of a search for a path in which the position of an attribute or a declaration was not
found, or the cursor stayed there. -/
theorem pathBalked_of_searchBalked {levels : Nat} (hk : (t.kind k).isStructural = false)
    {e : Ending σ (Nat × Nat)} (he : SearchBalked k (2 * t.size + 1) e) (rank : Nat)
    (below : List (Nat × Nat)) :
    t.PathBalked k below
      (e.thenRefused fun x => t.path (levels + 1) x.2 ((rank, x.1) :: below)) := by
  obtain ⟨outcome, state, place, cost⟩ := e
  obtain ⟨houtcome | ⟨i, houtcome, hplace⟩, hcost⟩ := he
  · obtain rfl := houtcome
    exact ⟨.inl ⟨k, rfl⟩, Nat.le_succ_of_le hcost⟩
  · obtain rfl : outcome = .ok (i, k) := houtcome
    obtain rfl : place = k := hplace
    -- The climb goes on from there, which is refused at once.
    obtain ⟨hfails, hmore⟩ := t.refused_path_of_owned levels hk ((rank, i) :: below) state
    have hsum := Nat.add_le_add hcost hmore
    exact ⟨.inl ⟨place, hfails⟩, hsum⟩

namespace IsTree

theorem length_owned_le (h : t.IsTree) (hp : p < t.size) (attributes : Bool) :
    (t.owned attributes p).length ≤ t.size := by
  have hbody := h.bodyStart_le_endOf hp
  have hend := h.endOf_le_size hp
  unfold bodyStart at hbody
  cases attributes with
  | false =>
    show (t.namespaces p).length ≤ t.size
    omega
  | true =>
    show (t.attributes p).length ≤ t.size
    omega

theorem whenRefused_ownedPosition (h : t.IsTree) (hk : k < t.size) (s : σ) :
    (t.ownedPosition k).WhenRefused (SearchBalked k (2 * t.size + 1)) s k := by
  rw [ownedPosition]
  cases hp : t.parent? k with
  | none => trivial
  | some owner =>
    have howner := parent?_lt hp
    have hlength := h.length_owned_le (p := owner) (by omega) (t.kind k == .attribute)
    refine ⟨⟨.inl rfl, Nat.le_add_left 1 _⟩, ?_⟩
    exact (t.whenRefused_searchOwned _ owner k _ 0 s).mono fun e he =>
      ⟨he.1, Nat.le_trans he.2 (by omega)⟩

section Level

variable {levels : Nat} {below : List (Nat × Nat)} {s : σ}

/-- The climb past an attribute or a declaration, which is looked for at its owner. -/
theorem whenRefused_ownedLevel (h : t.IsTree) (hk : k < t.size) (hp : t.parent? k = some p)
    (hkind : (t.kind k).isStructural = false)
    (hup : ∀ s : σ, (t.path (levels + 1) p (t.rung p k :: below)).WhenRefused
      (t.PathBalked k below) s p) :
    (do
      let (i, here) ← t.ownedPosition k
      t.path (levels + 1) here (((t.rung p k).1, i) :: below)).WhenRefused
        (t.PathBalked k below) s k := by
  refine (h.whenRefused_ownedPosition hk s).bind
    (fun e he => pathBalked_of_searchBalked hkind he _ below) ?_
  intro x s' m hyields
  obtain ⟨rfl, rfl, rfl⟩ := hyields.unique (h.yields_ownedPosition s hp hkind)
  exact hup _

/-- The climb past a structural node, which is counted among its siblings. -/
theorem whenRefused_structuralLevel (h : t.IsTree) (hp : t.parent? k = some p)
    (hrung : t.rung p k = (2, t.leftCount k))
    (hup : ∀ s : σ, (t.path levels p (t.rung p k :: below)).WhenRefused
      (t.PathBalked k below) s p) :
    (do
      let (i, first) ← t.countLeft k 0
      match t.parent? first with
      | some p =>
        if ← .step (some p) then t.path levels p ((2, i) :: below) else return (2, i) :: below
      | none => return (2, i) :: below).WhenRefused (t.PathBalked k below) s k := by
  have htrail : t.trail k = t.trail p ++ [(2, t.leftCount k)] := by rw [trail_of_parent? hp, hrung]
  refine (h.whenRefused_countLeft s k 0).bind ?counting ?climbing
  case counting =>
    rintro _ ⟨j, place, hj, hplace, rfl⟩
    rw [hp] at hplace
    refine ⟨.inr ⟨[(2, j)], ⟨_, _, _, j, htrail, rfl, hj⟩, ?_⟩, ?_⟩
    · simp only [Ending.thenRefused, hplace, Nat.zero_add]
      rfl
    · simp only [Ending.thenRefused, hplace]
      exact Nat.le_add_left 2 _
  case climbing =>
    intro x s' m hyields
    obtain ⟨first, hfirst, hcount⟩ := h.yields_countLeft s k 0
    obtain ⟨rfl, rfl, rfl⟩ := hyields.unique hcount
    simp only [hfirst, hp, Nat.zero_add]
    refine ⟨⟨.inr ⟨[(2, t.leftCount k)], ⟨_, _, _, _, htrail, rfl, Nat.le_refl _⟩, rfl⟩, ?_⟩, ?_⟩
    · exact Nat.le_add_left 1 _
    · rw [← hrung]
      exact hup _

end Level

/-- At whichever move the refusals set in, a search for a path fails or comes to a part of the path.
The induction is on the levels; each is nearer to the document node. -/
theorem whenRefused_path (h : t.IsTree) (hk : k < t.size) {levels : Nat} (hlevels : k + 2 ≤ levels)
    (below : List (Nat × Nat)) (s : σ) :
    (t.path levels k below).WhenRefused (t.PathBalked k below) s k := by
  induction levels generalizing k below s with
  | zero => trivial
  | succ levels ih =>
    rcases Nat.eq_zero_or_pos k with rfl | hpos
    · rw [path, (h.kind_eq_root_iff hk).2 rfl]
      trivial
    obtain ⟨p, hp⟩ := h.exists_parent hk (by omega)
    have hpk := parent?_lt hp
    have hup : ∀ s : σ, (t.path levels p (t.rung p k :: below)).WhenRefused
        (t.PathBalked k below) s p := fun s =>
      (ih (by omega) (by omega) (t.rung p k :: below) s).mono fun _ he => he.of_parent hp
    obtain ⟨levels, rfl⟩ : ∃ n, levels = n + 1 := ⟨levels - 1, by omega⟩
    have howned := fun hkind => h.whenRefused_ownedLevel (s := s) hk hp hkind hup
    rw [path]
    cases hkind : t.kind k with
    | root => simp [h.kind_eq_root_iff hk] at hkind; omega
    | namespaceDecl => simpa [rung, hkind] using howned (by simp [hkind, Kind.isStructural])
    | «attribute» => simpa [rung, hkind] using howned (by simp [hkind, Kind.isStructural])
    | _ => exact h.whenRefused_structuralLevel hp (by simp [rung, hkind]) hup

end IsTree

end Snapshot

namespace Handle

variable {t : Snapshot} {j k n : Nat}

/-- The first part of a comparison: the path of the node at `here`, and the move to the other node. -/
def approach (other : Handle) (t : Snapshot) (here : Nat) : Reading σ (List (Nat × Nat)) := do
  let this ← t.pathOf here
  if ← .ask (t.find? other.key) then return this else .fail (.noSuchNode other.key)

theorem orderFrom_eq (other : Handle) (t : Snapshot) (here : Nat) :
    (other.orderFrom t here : Reading σ Ordering) = do
      let this ← other.approach t here
      let that ← t.pathOf other.key.toNat
      return comparePaths this that := by
  rw [orderFrom, approach, Reading.bind_assoc]
  congr 1
  funext this
  rw [Reading.bind_assoc]
  congr 1
  funext moved
  cases moved with
  | false => rfl
  | true => rfl

theorem yields_approach (other : Handle) (h : t.IsTree) (s : σ) (hk : k < t.size) (hkey : other.key = j)
    (hj : j < t.size) : (other.approach t k).Yields s k (t.trail k) s j := by
  have hfind : t.find? other.key = some j := by rw [hkey, Snapshot.find?_natCast hj]
  rw [approach, hfind]
  exact (h.yields_pathOf s hk).bind ((Yields.ask (some j) s 0).bind (.done _ s j))

theorem cost_approach (other : Handle) (h : t.IsTree) (s : σ) (hk : k < t.size) (hkey : other.key = j)
    (hj : j < t.size) : (other.approach t k).cost s k = (t.pathOf k).cost s k + 1 := by
  have hfind : t.find? other.key = some j := by rw [hkey, Snapshot.find?_natCast hj]
  rw [approach, (h.yields_pathOf s hk).cost_bind, hfind]
  rfl

/-- If the refusals set in before the cursor is at the other node, the comparison fails. -/
theorem whenRefused_approach (other : Handle) (h : t.IsTree) (s : σ) (hk : k < t.size) :
    (other.approach t k).WhenRefused
      (fun e => (∃ key, e.outcome = .error (.noSuchNode key)) ∧ e.cost ≤ 2 * t.size + 3) s k := by
  refine (h.whenRefused_path hk (by omega) [] s).bind ?path ?move
  case path =>
    rintro ⟨outcome, state, place, cost⟩ ⟨⟨key, houtcome⟩ | ⟨cut, -, houtcome⟩, hcost⟩
    · obtain rfl := houtcome
      exact ⟨⟨key, rfl⟩, Nat.le_succ_of_le hcost⟩
    · obtain rfl := houtcome
      exact ⟨⟨other.key, rfl⟩, Nat.succ_le_succ hcost⟩
  case move =>
    intro this s' m _
    refine ⟨⟨⟨other.key, rfl⟩, Nat.le_add_left 1 _⟩, ?_⟩
    cases t.find? other.key with
    | none => trivial
    | some k => trivial

/-- A comparison that is refused moves on the way up from the other node fails, or takes a part of the
path of that node for the whole. -/
theorem whenRefused_compare (h : t.IsTree) (s : σ) (hj : j < t.size) (this : List (Nat × Nat)) :
    (do return comparePaths this (← t.pathOf j) : Reading σ Ordering).WhenRefused
      (fun e => ((∃ key, e.outcome = .error (.noSuchNode key)) ∨
          ∃ cut, CutPath (t.trail j) cut ∧ e.outcome = .ok (comparePaths this cut)) ∧
        e.cost ≤ 2 * t.size + 3) s j := by
  refine (h.whenRefused_path hj (by omega) [] s).bind ?_ fun _ _ _ _ => trivial
  rintro ⟨outcome, state, place, cost⟩ ⟨⟨key, houtcome⟩ | ⟨cut, hcut, houtcome⟩, hcost⟩
  · obtain rfl := houtcome
    exact ⟨.inl ⟨key, rfl⟩, Nat.le_succ_of_le hcost⟩
  · obtain rfl := houtcome
    refine ⟨.inr ⟨cut, hcut, ?_⟩, Nat.le_succ_of_le hcost⟩
    rw [List.append_nil]
    rfl

/-- What a comparison comes to that is granted `n` moves and refused all others: without the moves to
the other node it fails; with these it may fail still, or take a part of the path of that node for the
whole. -/
theorem outcome_orderFrom (other : Handle) (h : t.IsTree) (hk : k < t.size) (hkey : other.key = j)
    (hj : j < t.size) {c : Cursor} {m : Meter} (hopen : c.isOpen = true) (hc : c.place = k)
    (hm : m.RunsOut n (2 * t.size + 3))
    (hless : n < (other.orderFrom t k : Reading Unit Ordering).cost () k) :
    (∃ key, ((other.orderFrom t k).run () c m).outcome = .error (.noSuchNode key)) ∨
      (t.pathOf k : Reading Unit _).cost () k < n ∧ ∃ cut, CutPath (t.trail j) cut ∧
        ((other.orderFrom t k).run () c m).outcome = .ok (comparePaths (t.trail k) cut) := by
  subst hc
  have hnat : other.key.toNat = j := by omega
  have happroach := other.yields_approach h () hk hkey hj
  have hcost := other.cost_approach h () hk hkey hj
  rw [orderFrom_eq, hnat, happroach.cost_bind] at hless
  rw [orderFrom_eq, hnat, run_bind]
  by_cases hfirst : n < (other.approach t c.place : Reading Unit _).cost () c.place
  · obtain ⟨e, ⟨⟨key, houtcome⟩, -⟩, hrun⟩ :=
      (other.whenRefused_approach h () hk).run hopen hm hfirst fun e he => he.2
    rw [hrun, houtcome]
    exact .inl ⟨key, rfl⟩
  · obtain ⟨n, rfl⟩ := Nat.exists_eq_add_of_le (Nat.le_of_not_lt hfirst)
    rw [happroach.run hopen (Meter.grantsNext_add.1 hm.grants).1]
    have hrest : n < (do return comparePaths (t.trail c.place) (← t.pathOf j) :
        Reading Unit Ordering).cost () j := Nat.lt_of_add_lt_add_left hless
    obtain ⟨e, ⟨hresult, -⟩, hrun⟩ := (whenRefused_compare h () hj (t.trail c.place)).run
      (c := { c with place := j }) hopen hm.after hrest fun e he => he.2
    simp only [Run.andThen, hrun]
    refine hresult.imp id fun hcut => ⟨by omega, hcut⟩

end Handle

end DocTree
