import DocTree.Proofs.Walk.Complete
import DocTree.Proofs.Walk.Refused

/-!
# Walks that go astray

A walk backward goes down to the last node of a subtree, and does not heed a refusal on its way:
where it is let go no further, it says that it has come to the next node. It is on another node of its
route then, from which it gets no further, and it has left out those in between. All other visits that
are refused moves stop or fail.

## Main definitions

- `Walk.Balked` — how a visit ends that is refused moves
- `Walk.strays` — whether the walk may go astray

## Main statements

- `whenRefused_stepBack` — a step backward that is refused moves
- `PrecedingWalk.OnCourse.mem_of_goBack` — what it goes astray to is on the route
- `Walk.Within.whenRefused_advance` — visits of all walks
-/

namespace DocTree

open Reading Snapshot

variable {t : Snapshot} {σ : Type} {here : Nat}

/-- Refused all moves, a cursor does not go down. -/
theorem refused_sink (t : Snapshot) (s : σ) (here : Nat) :
    (sink t here false).refused s here = ⟨.ok (), s, here, (t.firstChild? here).isSome.toNat⟩ := by
  cases hc : t.firstChild? here with
  | some c =>
    rw [sink_of_firstChild? hc]
    rfl
  | none =>
    rw [sink_of_childless hc]
    rfl

/-- Where a way down ends that is refused moves: at a structural node from `low` on and before
`limit`. -/
structure EndsBetween (t : Snapshot) (low limit : Nat) (e : Ending σ Unit) : Prop where
  outcome_eq : e.outcome = .ok ()
  cost_le : e.cost ≤ 2
  low_le : low ≤ e.place
  lt_limit : e.place < limit
  structural : (t.kind e.place).isStructural = true

theorem EndsBetween.mono {low low' limit : Nat} {e : Ending σ Unit} (h : EndsBetween t low limit e)
    (hle : low' ≤ low) : EndsBetween t low' limit e :=
  ⟨h.outcome_eq, h.cost_le, Nat.le_trans hle h.low_le, h.lt_limit, h.structural⟩

/-- If the way to the last node of a subtree is cut off, the cursor is in that subtree. -/
theorem whenRefused_sink (h : t.IsTree) (s : σ) (hk : here < t.size)
    (hs : (t.kind here).isStructural = true) (sideways : Bool) (limit : Nat)
    (hlimit : if sideways then (t.parent? here).map t.endOf = some limit
      else t.endOf here = limit) :
    (sink t here sideways).WhenRefused (EndsBetween t here limit) s here := by
  have hend := h.lt_endOf hk
  induction here, sideways using sink.induct t with
  | case1 here r hr ih _ =>
    simp only [if_true] at hlimit ih
    have hgt := right?_gt hr
    have hspec := h.right?_spec hr
    obtain ⟨p, hp, hpe⟩ := Option.map_eq_some_iff.1 hlimit
    have hlast := h.endOf_le_endOf_parent hp
    rw [sink_of_right? hr]
    refine ⟨?_, (ih hgt.2 hspec.2.2 (by rw [hspec.1, hlimit]) (h.lt_endOf hgt.2)).mono
      fun e he => he.mono (by omega)⟩
    -- Refused the sibling, the cursor tries to go down from here, and is refused that, too.
    show EndsBetween t here limit { (sink t here false).refused s here with
      cost := ((sink t here false).refused s here).cost + 1 }
    rw [refused_sink]
    exact ⟨rfl, Nat.succ_le_succ (Bool.toNat_le _), Nat.le_refl here, by dsimp only; omega, hs⟩
  | case2 here hr ih =>
    simp only [if_true] at hlimit
    obtain ⟨p, hp, hpe⟩ := Option.map_eq_some_iff.1 hlimit
    rw [sink_of_last hr]
    exact ih hk hs (by simpa [endOf_of_parent? hs hr hp] using hpe) hend
  | case3 here sideways hside c hc ih =>
    obtain rfl : sideways = false := by simpa using hside
    simp only [Bool.false_eq_true, if_false, if_true] at hlimit ih
    have hgt := firstChild?_gt hc
    have hspec := h.firstChild?_eq_some_iff.1 hc
    rw [sink_of_firstChild? hc]
    refine ⟨⟨rfl, Nat.le_succ 1, Nat.le_refl here, ?_, hs⟩,
      (ih hgt.2 hspec.2.1 (by rw [hspec.1, Option.map_some, hlimit]) (h.lt_endOf hgt.2)).mono
        fun e he => he.mono (by omega)⟩
    rw [← hlimit]
    exact hend
  | case4 here sideways hside hc =>
    obtain rfl : sideways = false := by simpa using hside
    rw [sink_of_childless hc]
    trivial

/-- A step backward that is refused its first move stays where it is. -/
theorem refused_stepBack (t : Snapshot) (skips : Nat → Bool) (s : σ) (here : Nat) :
    ((stepBack t skips here).refused s here).Stops 1 := by
  rw [stepBack]
  cases t.left? here with
  | some l => exact ⟨rfl, Nat.le_refl 1⟩
  | none =>
    dsimp only
    split
    · exact ⟨rfl, Nat.le_refl 1⟩
    · exact ⟨rfl, Nat.zero_le 1⟩

/-- Where a step backward ends that goes astray: at a structural node before `limit` that is not
skipped, but need not be the last one. -/
structure Astray (t : Snapshot) (skips : Nat → Bool) (limit : Nat) (e : Ending σ Bool) : Prop where
  outcome_eq : e.outcome = .ok true
  cost_le : e.cost ≤ 2
  lt_limit : e.place < limit
  structural : (t.kind e.place).isStructural = true
  not_skipped : skips e.place = false

/-- If only nodes that contain the cursor are skipped, a step backward that is refused moves stays
where it is, or goes astray on its way down to the left. -/
theorem whenRefused_stepBack (h : t.IsTree) (s : σ) (skips : Nat → Bool) (hk : here < t.size)
    (hs : (t.kind here).isStructural = true)
    (hskips : ∀ j < here, skips j = true → t.Contains j here) :
    (stepBack t skips here).WhenRefused (fun e => e.Stops 1 ∨ Astray t skips here e) s here := by
  induction here using Nat.strongRecOn with
  | ind here ih =>
    rw [stepBack]
    cases hl : t.left? here with
    | some l =>
      have hlk := left?_lt hl
      have hspec := h.right?_spec (h.right?_eq_some_iff.2 hl)
      have hsink := whenRefused_sink h s (by omega) hspec.2.1 false here
        (by simpa using h.endOf_left hl)
      refine ⟨.inl ⟨rfl, Nat.le_refl 1⟩, hsink.bind ?_ fun _ _ _ _ => trivial⟩
      rintro ⟨outcome, state, place, cost⟩ ⟨rfl, hcost, hle, hlt, hms⟩
      exact .inr ⟨rfl, hcost, hlt, hms, h.not_skips_of_left hskips hl hle hlt⟩
    | none =>
      dsimp only
      split
      · rename_i p hp
        have hpk := parent?_lt hp
        refine ⟨.inl ⟨rfl, Nat.le_refl 1⟩, ?_⟩
        show WhenRefused _ (if skips p then stepBack t skips p else .done true) s p
        cases hskip : skips p with
        | false => trivial
        | true =>
          have hup := ih p hpk (by omega) (h.structural_parent hp)
            fun j hj hskips' => IsTree.contains_parent (hskips j (by omega) hskips') (by omega) hp
          refine hup.mono fun e he => he.imp_right ?_
          rintro ⟨houtcome, hcost, hlt, hms, hnot⟩
          exact ⟨houtcome, hcost, by omega, hms, hnot⟩
      · trivial

section Route

variable {w w' : Walk} {ks : List Nat}

/-- A visit that answers `moved` and takes the walk to `m` is the first one of the route `ks`. -/
def Route.Begins (t : Snapshot) (ks : List Nat) : (moved : Bool) → Walk → (m : Nat) → Prop
  | true, w, m => ∃ rest, ks = m :: rest ∧ Route t w m rest
  | false, _, _ => ks = []

theorem Route.begins (h : Route t w here ks) {moved : Bool} {m : Nat}
    (hyields : (w.advance t here).Yields w here moved w' m) : Begins t ks moved w' m := by
  cases h with
  | stop hstop =>
    obtain ⟨rfl, -, -⟩ := hstop.unique hyields
    rfl
  | visit hvisit rest =>
    obtain ⟨rfl, rfl, rfl⟩ := hvisit.unique hyields
    exact ⟨_, rfl, rest⟩

/-- Refused all moves, the walk is over. -/
def Walk.Stuck (t : Snapshot) (here : Nat) (w : Walk) : Prop :=
  ((w.advance t here).refused w here).Stops 1

/-- How a visit ends that is refused moves, with the route `ks` ahead. -/
inductive Walk.Balked (t : Snapshot) (strays : Bool) (ks : List Nat) (e : Ending Walk Bool) :
    Prop where
  | stops (h : e.Stops 2)
  | fails {err : AccessError} (h : e.outcome = .error err) (hcost : e.cost ≤ 2)
  /-- The walk is on some node of the route, and gets no further. -/
  | astray (hstrays : strays = true) (h : e.outcome = .ok true) (hcost : e.cost ≤ 2)
      (hmem : e.place ∈ ks) (hstuck : e.state.Stuck t e.place)

end Route

namespace PrecedingWalk

variable {w : PrecedingWalk} {ks : List Nat}

/-- How a visit of a walk backward ends that is refused moves. -/
def Balked (t : Snapshot) (ks : List Nat) (e : Ending PrecedingWalk Bool) : Prop :=
  Walk.Balked t true ks { e with state := .preceding e.state }

/-- If the walk goes on with `r`, the route `ks` is ahead. -/
def Leads (t : Snapshot) (r : Reading PrecedingWalk Bool) (w : PrecedingWalk) (here : Nat)
    (ks : List Nat) : Prop :=
  ∀ moved w' m, r.Yields w here moved w' m → Route.Begins t ks moved (.preceding w') m

theorem Leads.of_bind {α : Type} {r : Reading PrecedingWalk α} {f : α → Reading PrecedingWalk Bool}
    {a : α} {w' : PrecedingWalk} {k : Nat} (h : Leads t (r >>= f) w here ks)
    (hr : r.Yields w here a w' k) : Leads t (f a) w' k ks :=
  fun moved w'' m hyields => h moved w'' m (hr.bind hyields)

theorem leads_advance (h : Route t (.preceding w) here ks) : Leads t (w.advance t here) w here ks :=
  fun _ _ _ hyields => h.begins (hyields.mapNotes Walk.preceding)

theorem refused_goBack (w s : PrecedingWalk) (t : Snapshot) (here : Nat) :
    ((w.goBack t here).refused s here).Stops 1 := by
  have hback := refused_stepBack t w.skips s here
  show ((stepBack t w.skips here >>= _).refused s here).Stops 1
  rw [refused_bind]
  generalize (stepBack t w.skips here).refused s here = e at hback
  obtain ⟨outcome, state, place, cost⟩ := e
  obtain ⟨rfl, hcost⟩ := hback
  exact ⟨rfl, hcost⟩

theorem stuck_of_started (hstarted : w.started = true) (hdone : w.done = false) (here : Nat) :
    (Walk.preceding w).Stuck t here := by
  have hback := w.refused_goBack w t here
  show (((w.advance t here).mapNotes Walk.preceding).refused (.preceding w) here).Stops 1
  rw [refused_mapNotes, advance, if_neg (by simp [hdone]), if_pos hstarted]
  exact hback

namespace OnCourse

/-- The route of a walk backward has all structural nodes in front of the cursor but those that are
skipped. -/
theorem mem_of_goBack (h : t.IsTree) (hw : w.OnCourse t here) (hstarted : w.started = true)
    (hleads : Leads t (w.goBack t here) w here ks) {j : Nat} (hj : j < here)
    (hjs : (t.kind j).isStructural = true) (hskip : w.skips j = false) : j ∈ ks := by
  obtain ⟨found, hfound, hyields⟩ :=
    yields_goBack h hw.lt_size (hw.structural hstarted) hw.noted
  have hbegins := hleads _ _ _ hyields
  cases found with
  | none =>
    rw [hfound j hj hjs] at hskip
    cases hskip
  | some m =>
    obtain ⟨hm, hms, -, hlast⟩ := hfound
    obtain ⟨rest, rfl, hrest⟩ := hbegins
    rcases Nat.lt_trichotomy j m with hjm | rfl | hmj
    · -- The walk goes on from `m`.
      have hw' : OnCourse { w with done := false } t m := .of_started hstarted
        (Nat.lt_trans hm hw.lt_size) hms (noted_of_lt h hw.lt_size hm hw.noted)
      exact List.mem_cons_of_mem m ((hw'.mem_route_iff h hstarted rfl hrest j).2 ⟨hjm, hjs, hskip⟩)
    · exact List.mem_cons_self
    · rw [hlast j hmj hj hjs] at hskip
      cases hskip

theorem whenRefused_goBack (h : t.IsTree) (hw : w.OnCourse t here) (hstarted : w.started = true)
    (hleads : Leads t (w.goBack t here) w here ks) :
    (w.goBack t here).WhenRefused (Balked t ks) w here := by
  have hback := whenRefused_stepBack h w w.skips hw.lt_size (hw.structural hstarted)
    (fun j hj hskips => hw.noted j (by simpa using (Bool.and_eq_true_iff.1 hskips).2) hj)
  refine hback.bind ?_ fun _ _ _ _ => trivial
  rintro ⟨outcome, state, place, cost⟩ (⟨rfl, hcost⟩ | ⟨rfl, hcost, hlt, hms, hskip⟩)
  · exact .stops ⟨rfl, Nat.le_succ_of_le hcost⟩
  · have hstuck := stuck_of_started (w := { w with done := false }) (t := t) hstarted rfl place
    exact .astray rfl rfl hcost (hw.mem_of_goBack h hstarted hleads hlt hms hskip) hstuck

end OnCourse

/-- Refused a move, a climb ends where it is. -/
theorem whenRefused_climb (w : PrecedingWalk) (t : Snapshot) (here : Nat) :
    (w.climb t here).WhenRefused (fun e => (∃ w', e.outcome = .ok w') ∧ e.cost ≤ 1) w here := by
  induction here using Nat.strongRecOn generalizing w with
  | ind here ih =>
    rw [climb]
    split
    · rename_i p hp
      exact ⟨⟨⟨w, rfl⟩, Nat.le_refl 1⟩, .note (ih p (parent?_lt hp) _)⟩
    · trivial

/-- The first visit fails if the walk does not come back to where it has climbed from. -/
theorem OnCourse.whenRefused_startAt (h : t.IsTree) (hw : w.OnCourse t here)
    (hstarted : w.started = true) (hleads : Leads t (w.startAt t here) w here ks) :
    (w.startAt t here).WhenRefused (Balked t ks) w here := by
  obtain ⟨noted, top, hclimb, hclimbed⟩ := w.yields_climb t here
  refine (w.whenRefused_climb t here).bind ?stop ?next
  case stop =>
    rintro ⟨outcome, state, place, cost⟩ ⟨⟨w', rfl⟩, hcost⟩
    exact .fails rfl (Nat.succ_le_succ hcost)
  case next =>
    intro w' s' m hyields
    obtain ⟨rfl, rfl, rfl⟩ := hclimb.unique hyields
    have hback := (hleads.of_bind hclimb).of_bind (.ask (some here) _ top)
    refine ⟨.fails rfl (Nat.le_succ 1), ?_⟩
    show WhenRefused (Balked t ks) (if w.fromOwned && w.withAncestors then .done true
      else goBack t here { w with ancestors := noted }) { w with ancestors := noted } here
    cases howner : w.fromOwned && w.withAncestors with
    | true => trivial
    | false =>
      have hcourse : OnCourse { w with ancestors := noted } t here :=
        .of_started hstarted hw.lt_size (hw.structural hstarted)
          fun j hj hlt => ((hclimbed j).1 hj).elim (hw.noted j · hlt) And.left
      exact hcourse.whenRefused_goBack h hstarted (by simpa [howner] using hback)

/-- The first visit. The owner of an attribute or a declaration counts as an ancestor. -/
theorem whenRefused_start (h : t.IsTree) (hstarted : w.started = true) (hk : here < t.size)
    (howned : w.fromOwned = !(t.kind here).isStructural)
    (hnoted : ∀ j ∈ w.ancestors, j < here → t.Contains j here)
    (hleads : Leads t (w.start t here) w here ks) :
    (w.start t here).WhenRefused (Balked t ks) w here := by
  unfold start at hleads ⊢
  cases hs : (t.kind here).isStructural with
  | true =>
    have hnot : ¬w.fromOwned = true := by simp [howned, hs]
    rw [if_neg hnot] at hleads ⊢
    exact (OnCourse.of_started hstarted hk hs hnoted).whenRefused_startAt h hstarted hleads
  | false =>
    have hyes : w.fromOwned = true := by simp [howned, hs]
    obtain ⟨p, hp, -⟩ := h.home_of_owned hs hk
    have hpk := parent?_lt hp
    rw [if_pos hyes] at hleads ⊢
    simp only [hp] at hleads ⊢
    refine ⟨?refused, ?arrived⟩
    case refused =>
      -- Refused the owner, the walk goes back from the origin itself, and is refused that, too.
      have hback := w.refused_goBack w t here
      exact .stops ⟨hback.1, Nat.succ_le_succ hback.2⟩
    case arrived =>
      have hnotedp : ∀ j ∈ p :: w.ancestors, j < p → t.Contains j p := by
        intro j hj hjp
        rcases List.mem_cons.1 hj with rfl | hj
        · exact .refl
        · exact IsTree.contains_parent (hnoted j hj (by omega)) (by omega) hp
      have hcourse : OnCourse { w with ancestors := p :: w.ancestors } t p :=
        .of_started hstarted (by omega) (h.structural_parent hp) hnotedp
      exact .note (hcourse.whenRefused_startAt h hstarted
        ((hleads.of_bind (.step (some p) w here)).of_bind (.keep _ _ p)))

theorem OnCourse.whenRefused_advance (h : t.IsTree) (hw : w.OnCourse t here)
    (hdone : w.done = false) (hroute : Route t (.preceding w) here ks) :
    (w.advance t here).WhenRefused (Balked t ks) w here := by
  have hleads := leads_advance hroute
  rw [advance, if_neg (by simp [hdone])] at hleads ⊢
  by_cases hstarted : w.started = true
  · rw [if_pos hstarted] at hleads ⊢
    exact hw.whenRefused_goBack h hstarted hleads
  · rw [if_neg hstarted] at hleads ⊢
    have howned := hw.fromOwned_eq (by simpa using hstarted)
    exact .note (whenRefused_start (w := { w with started := true }) h rfl hw.lt_size howned
      hw.noted (hleads.of_bind (.keep w _ here)))

end PrecedingWalk

namespace Walk

variable {w w' : Walk} {ks : List Nat}

/-- Whether refusals may take the walk to a node other than the next one. -/
def strays : Walk → Bool
  | preceding _ => true
  | _ => false

theorem strays_of_yields {moved : Bool} {m : Nat}
    (h : (w.advance t here).Yields w here moved w' m) : w'.strays = w.strays := by
  cases w <;> obtain ⟨_, rfl, -⟩ := Yields.of_mapNotes h <;> rfl

/-- A walk that is refused moves stops; one backward may also fail or go astray. -/
theorem Within.whenRefused_advance (h : t.IsTree) {left : Nat} (hw : w.Within t here left)
    (hroute : Route t w here ks) :
    (w.advance t here).WhenRefused (Balked t w.strays ks) w here := by
  have hstops : ∀ {τ : Type} {r : Reading τ Bool} {s : τ} {strays : Bool} (f : τ → Walk),
      r.WhenRefused (Ending.Stops 1) s here →
        (r.mapNotes f).WhenRefused (Balked t strays ks) (f s) here :=
    fun f hr => hr.mapNotes f fun e he => .stops (he.mono (Nat.le_succ 1))
  cases w with
  | self w => exact hstops self (w.whenRefused_stay here)
  | parent w => exact hstops parent (w.whenRefused_toParent t here)
  | ancestors w => exact hstops ancestors (w.whenRefused_advance t here)
  | children w => exact hstops children (w.whenRefused_advance t here)
  | descendants w => exact hstops descendants (w.whenRefused_advance t here)
  | siblings side => exact hstops siblings (side.whenRefused_advance t here)
  | attributes w => exact hstops attributes (w.whenRefused_advance t here)
  | following w => exact hstops following (w.whenRefused_advance t here)
  | namespaces w =>
    exact (w.whenRefused_advance t here).mapNotes namespaces fun e he => .stops he
  | preceding w =>
    cases hdone : w.done with
    | true =>
      show ((w.advance t here).mapNotes preceding).WhenRefused _ _ here
      rw [PrecedingWalk.advance, if_pos hdone]
      trivial
    | false =>
      obtain ⟨hcourse, -⟩ := hw hdone
      exact (hcourse.whenRefused_advance h hdone hroute).mapNotes preceding fun e he => he

end Walk

end DocTree
