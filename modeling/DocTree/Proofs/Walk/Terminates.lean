import DocTree.Proofs.Reading.Asked
import DocTree.Proofs.Store.Granted
import DocTree.Proofs.Walk.Rounds

/-!
# Walks come to an answer

A call that advances a walk comes to its answer after so many rounds of its loops, whatever the storage
answers, whatever the walk has noted before, and wherever the cursor has been brought since. Every round
leaves less to do: on the way up the place of the cursor falls, on the way down it rises, and the search
for a declaration goes on in the list of an element or to the parent, which is stored before it with all
that it declares.

## Main definitions

- `Walk.Point.measure` — what there is left to do at the beginning of a round

## Main statements

- `Walk.Point.asksAtMost_round` — every round leaves less to do
- `Walk.Stage.proceed_eq` — after so many rounds the call is over
- `Walk.advance_terminates` — from every place a call comes to its answer
-/

namespace DocTree

open Reading Snapshot

namespace Walk

variable {t : Snapshot} {here : Nat}

/-- What there is left to do at the beginning of a round with the cursor at `here`. -/
def Point.measure (t : Snapshot) (here : Nat) : Point → Nat
  | skipping _ => here + 1
  -- The steps that follow a climb, and the way down that follows a step, are counted in advance.
  | climbing _ start => here + 1 + (2 * t.size + start + 1)
  | stepping _ => 2 * t.size + here + 1
  | sinking _ sideways => 2 * (t.size - here) + sideways.toNat + 1
  | scanning w =>
    match w.element?.bind t.find? with
    | some e => e + ((t.namespaces e).length - w.index) + 2
    | none => 1

/-- What there is left to do after a round. -/
def Stage.measure (t : Snapshot) : Stage → Nat
  | settled _ => 0
  | going p here => p.measure t here

theorem Point.measure_pos (t : Snapshot) (here : Nat) (p : Point) : 0 < p.measure t here := by
  cases p with
  | scanning w =>
    simp only [measure]
    split <;> omega
  | _ => simp only [measure]; omega

/-- The walk upward goes on from a parent only. -/
theorem asksAtMost_skip (t : Snapshot) (here : Nat) (w : FollowingWalk) :
    (w.skip t here).AsksAtMost (fun stage => stage.measure t < here + 1) 1 := by
  unfold FollowingWalk.skip
  cases t.right? here with
  | some s => exact fun _ => Nat.succ_pos here
  | none =>
    cases hp : t.parent? here with
    | some p =>
      rintro (_ | _)
      · exact Nat.succ_pos here
      · exact Nat.succ_lt_succ (parent?_lt hp)
    | none => exact Nat.succ_pos here

/-- After the climb there is a step backward to be made from where it began. -/
theorem asksAtMost_climbOnce (t : Snapshot) (here start : Nat) (w : PrecedingWalk) :
    (w.climbOnce t here start).AsksAtMost
      (fun stage => stage.measure t < here + 1 + (2 * t.size + start + 1)) 2 := by
  have hback : (w.backTo start).AsksAtMost
      (fun stage => stage.measure t < here + 1 + (2 * t.size + start + 1)) 1 := by
    rintro (_ | _)
    · trivial
    · show AsksAtMost _ (if w.fromOwned && w.withAncestors then _ else _) 0
      split
      · exact Nat.add_pos_left (Nat.succ_pos here) _
      · exact Nat.lt_add_of_pos_left (Nat.succ_pos here)
  unfold PrecedingWalk.climbOnce
  cases hp : t.parent? here with
  | some p =>
    have hpk := parent?_lt hp
    rintro (_ | _)
    · exact hback
    · exact Nat.add_lt_add_right (Nat.succ_lt_succ hpk) _
  | none => exact hback.mono (Nat.le_succ 1)

/-- A step to the left goes on downward, once; all others go on from a parent. -/
theorem asksAtMost_stepOnce (t : Snapshot) (here : Nat) (w : PrecedingWalk) :
    (w.stepOnce t here).AsksAtMost (fun stage => stage.measure t < 2 * t.size + here + 1) 1 := by
  have hsettle : ∀ moved, (w.settle moved).AsksAtMost
      (fun stage => stage.measure t < 2 * t.size + here + 1) 0 := fun _ => Nat.succ_pos _
  unfold PrecedingWalk.stepOnce
  cases hl : t.left? here with
  | some l =>
    have hlk := left?_lt hl
    rintro (_ | _)
    · exact hsettle false
    · show 2 * (t.size - l) + 0 + 1 < 2 * t.size + here + 1
      omega
  | none =>
    cases hp : t.parent? here with
    | some p =>
      have hpk := parent?_lt hp
      rintro (_ | _)
      · exact hsettle false
      · show AsksAtMost _ (if w.skips p then _ else _) 0
        split
        · show 2 * t.size + p + 1 < 2 * t.size + here + 1
          omega
        · exact hsettle true
    | none => exact (hsettle false).mono (Nat.zero_le 1)

/-- Downward the place rises, or the way is not sideways any more. -/
theorem asksAtMost_sinkOnce (t : Snapshot) (here : Nat) (sideways : Bool) (w : PrecedingWalk) :
    (w.sinkOnce t here sideways).AsksAtMost
      (fun stage => stage.measure t < 2 * (t.size - here) + sideways.toNat + 1) 1 := by
  unfold PrecedingWalk.sinkOnce
  cases sideways with
  | true =>
    cases hr : t.right? here with
    | some s =>
      have hgt := right?_gt hr
      rintro (_ | _)
      · exact Nat.lt_succ_self _
      · show 2 * (t.size - s) + 1 + 1 < 2 * (t.size - here) + 1 + 1
        omega
    | none => exact Nat.lt_succ_self _
  | false =>
    cases hc : t.firstChild? here with
    | some c =>
      have hgt := firstChild?_gt hc
      rintro (_ | _)
      · exact Nat.succ_pos _
      · show 2 * (t.size - c) + 1 + 1 < 2 * (t.size - here) + 0 + 1
        omega
    | none => exact Nat.succ_pos _

theorem measure_scanning {e : Nat} (he : e < t.size) (here index : Nat) (seen : List String) :
    (Point.scanning ⟨some (e : Int), index, seen⟩).measure t here =
      e + ((t.namespaces e).length - index) + 2 := by
  simp only [Point.measure, Option.bind_some, find?_natCast he]

/-- Outside the table there is no element. -/
theorem lt_size_of_element {e : Nat} (hkind : t.kind e = .element) : e < t.size := by
  by_contra hle
  have hroot : t.kind e = .root := by rw [kind, node_of_le (Nat.le_of_not_lt hle)]
  cases hkind.symm.trans hroot

/-- The search goes on in the list, or with a parent, which is stored with its declarations before the
element. -/
theorem asksAtMost_scanOnce (h : t.IsTree) (e index : Nat) (seen : List String) {n : Nat} (hpos : 0 < n)
    (hn : t.kind e = .element → e + ((t.namespaces e).length - index) + 2 ≤ n) :
    (NamespaceWalk.scanOnce t e index seen).AsksAtMost (fun stage => stage.measure t < n) 1 := by
  unfold NamespaceWalk.scanOnce
  split
  · exact hpos
  · rename_i hkind
    replace hkind := not_not.1 hkind
    have he := lt_size_of_element hkind
    have hle := hn hkind
    have hleave : (NamespaceWalk.leave t e seen).AsksAtMost (fun stage => stage.measure t < n) 0 := by
      unfold NamespaceWalk.leave
      cases hp : t.parent? e with
      | some p =>
        have hpe := parent?_lt hp
        -- The list of the parent begins anew, but as far as the element there is room for all of it.
        have hbody := h.bodyStart_le_of_child hp (by simp [hkind, Kind.isStructural])
        show (Point.scanning ⟨some (p : Int), 0, seen⟩).measure t e < n
        rw [measure_scanning (Nat.lt_trans hpe he)]
        unfold bodyStart at hbody
        omega
      | none =>
        show 1 < n
        omega
    rintro (_ | _)
    · exact hleave
    · cases hd : (t.namespaces e)[index]? with
      | none => exact hleave
      | some d =>
        have hindex := (List.getElem?_eq_some_iff.1 hd).1
        show AsksAtMost _ (if (NamespaceWalk.judge (t.name? d) seen).1 then _ else _) 0
        split
        · exact hpos
        · show (Point.scanning ⟨some (e : Int), index + 1, _⟩).measure t d < n
          rw [measure_scanning he]
          omega

theorem asksAtMost_lookOnce (h : t.IsTree) (here : Nat) (w : NamespaceWalk) :
    (w.lookOnce t here).AsksAtMost
      (fun stage => stage.measure t < (Point.scanning w).measure t here) 2 := by
  have hpos := (Point.scanning w).measure_pos t here
  obtain ⟨element?, index, seen⟩ := w
  unfold NamespaceWalk.lookOnce
  cases element? with
  | none => exact hpos
  | some key =>
    dsimp only
    split
    · rename_i hhere
      subst hhere
      refine (asksAtMost_scanOnce h here index seen hpos ?_).mono (Nat.le_succ 1)
      intro hkind
      exact Nat.le_of_eq (measure_scanning (lt_size_of_element hkind) here index seen).symm
    · rintro (_ | _)
      · exact hpos
      · refine asksAtMost_scanOnce h key.toNat index seen hpos ?_
        intro hkind
        have hk := lt_size_of_element hkind
        -- No element has a negative key: at place 0 there is the document node.
        have hnot : key.toNat ≠ 0 := by
          intro hzero
          cases hkind.symm.trans ((h.kind_eq_root_iff hk).2 hzero)
        have hkey : key = (key.toNat : Int) := by omega
        have hmeasure := measure_scanning hk here index seen
        rw [← hkey] at hmeasure
        exact Nat.le_of_eq hmeasure.symm

/-- Every round leaves less to do and asks for two operations at most. -/
theorem Point.asksAtMost_round (h : t.IsTree) (here : Nat) (p : Point) :
    (p.round t here).AsksAtMost (fun stage => stage.measure t < p.measure t here) 2 := by
  cases p with
  | skipping w => exact (asksAtMost_skip t here w).mono (Nat.le_succ 1)
  | climbing w start => exact asksAtMost_climbOnce t here start w
  | stepping w => exact (asksAtMost_stepOnce t here w).mono (Nat.le_succ 1)
  | sinking w sideways =>
    exact (asksAtMost_sinkOnce t here sideways w).mono (Nat.le_succ 1)
  | scanning w => exact asksAtMost_lookOnce h here w

/-- After as many rounds as there is left to do, the call is over. -/
theorem Stage.proceed_eq (h : t.IsTree) {rounds : Nat} {stage : Stage}
    (hle : stage.measure t ≤ rounds) : stage.proceed t rounds = some <$> stage.rest t := by
  induction rounds generalizing stage with
  | zero =>
    cases stage with
    | settled moved => rfl
    | going p here => exact absurd (p.measure_pos t here) (Nat.not_lt.2 hle)
  | succ rounds ih =>
    cases stage with
    | settled moved => rfl
    | going p here =>
      show (p.round t here >>= Stage.proceed t rounds) = some <$> p.rest t here
      rw [p.rest_eq, map_bind]
      -- Only of the stages that the round may end in is it known that they fit into what is left.
      refine (p.asksAtMost_round h here).bind_congr ?_
      intro stage hless
      exact ih (Nat.le_of_lt_succ (Nat.lt_of_lt_of_le hless hle))

/-- In so many rounds a call asks for twice as many operations at most. -/
theorem Stage.asksAtMost_proceed (h : t.IsTree) (rounds : Nat) (stage : Stage) :
    (stage.proceed t rounds).AsksAtMost (fun _ => True) (2 * rounds) := by
  induction rounds generalizing stage with
  | zero => cases stage <;> trivial
  | succ rounds ih =>
    cases stage with
    | settled moved => trivial
    | going p here =>
      show (p.round t here >>= Stage.proceed t rounds).AsksAtMost _ (2 * rounds + 2)
      rw [Nat.add_comm]
      exact (p.asksAtMost_round h here).bind fun stage _ => ih stage

section Enter

theorem asksAtMost_descend (hk : here < t.size) (w : FollowingWalk) :
    (w.descend t here).AsksAtMost (fun stage => stage.measure t ≤ 4 * t.size) 1 := by
  unfold FollowingWalk.descend
  cases t.firstChild? here with
  | some c => exact fun _ => Nat.zero_le _
  | none =>
    show here + 1 ≤ 4 * t.size
    omega

theorem asksAtMost_enter_following (hk : here < t.size) (w : FollowingWalk) :
    (w.enter t here).AsksAtMost (fun stage => stage.measure t ≤ 4 * t.size) 2 := by
  have hsettle : ∀ moved n, (w.settle moved).AsksAtMost
      (fun stage => stage.measure t ≤ 4 * t.size) n := fun _ _ => Nat.zero_le _
  unfold FollowingWalk.enter
  split
  · exact Nat.zero_le _
  · show AsksAtMost _ (if w.started then _ else _) 2
    split
    · exact (asksAtMost_descend hk w).mono (Nat.le_succ 1)
    · split
      · cases hp : t.parent? here with
        | some p =>
          have hpk := parent?_lt hp
          rintro (_ | _)
          · exact hsettle false 1
          · exact asksAtMost_descend (Nat.lt_trans hpk hk) w
        | none => exact hsettle false 2
      · show here + 1 ≤ 4 * t.size
        omega

theorem asksAtMost_enter_preceding (hk : here < t.size) (w : PrecedingWalk) :
    (w.enter t here).AsksAtMost (fun stage => stage.measure t ≤ 4 * t.size) 2 := by
  have hclimb : ∀ k < t.size, k + 1 + (2 * t.size + k + 1) ≤ 4 * t.size := by omega
  have hstep : 2 * t.size + here + 1 ≤ 4 * t.size := by omega
  unfold PrecedingWalk.enter
  split
  · exact Nat.zero_le _
  · split
    · exact hstep
    · show AsksAtMost _ (if w.fromOwned then _ else _) 2
      split
      · cases hp : t.parent? here with
        | some p =>
          have hpk := parent?_lt hp
          rintro (_ | _)
          · exact hstep
          · exact hclimb p (Nat.lt_trans hpk hk)
        | none => exact hstep
      · exact hclimb here hk

/-- A walk without a loop is settled before the first round. -/
theorem asksAtMost_map_settled {r : Reading Walk Bool} {n k : Nat}
    (h : r.AsksAtMost (fun _ => True) n) (hn : n ≤ k) (bound : Nat) :
    (Stage.settled <$> r).AsksAtMost (fun stage => stage.measure t ≤ bound) k := by
  rw [map_eq_pure_bind]
  refine (h.bind (k := 0) ?_).mono hn
  exact fun _ _ => Nat.zero_le bound

theorem asksAtMost_attributes (t : Snapshot) (here : Nat) (w : AttributeWalk) :
    (w.advance t here).AsksAtMost (fun _ => True) 2 := by
  have hattribute : ∀ place, (do
      if ← .ask (t.attributes place)[w.index]? then
        .keep { w with index := w.index + 1 }
        pure true
      else pure false : Reading AttributeWalk Bool).AsksAtMost (fun _ => True) 1 := by
    rintro place (_ | _) <;> trivial
  unfold AttributeWalk.advance
  dsimp only
  split
  · exact (hattribute _).mono (Nat.le_succ 1)
  · rintro (_ | _)
    · trivial
    · exact hattribute _

theorem asksAtMost_descendants (t : Snapshot) (here : Nat) (w : DescendantWalk) :
    (w.advance t here).AsksAtMost (fun _ => True) 1 := by
  unfold DescendantWalk.advance
  split
  · trivial
  · split
    · trivial
    · rcases w.plan t here with ⟨w, _ | k⟩
      · trivial
      · exact fun _ => trivial

/-- Before the first round two operations are asked for at most. -/
theorem asksAtMost_enter (h : t.IsTree) (hk : here < t.size) (w : Walk) :
    (w.enter t here).AsksAtMost (fun stage => stage.measure t ≤ 4 * t.size) 2 := by
  have hlink : ∀ {τ : Type} {r : Reading τ Bool} (f : τ → Walk), r.AsksAtMost (fun _ => True) 1 →
      (Stage.settled <$> r.mapNotes f).AsksAtMost (fun stage => stage.measure t ≤ 4 * t.size) 2 :=
    fun f hr => asksAtMost_map_settled (hr.mapNotes f) (Nat.le_succ 1) _
  cases w with
  | namespaces w =>
    show (Point.scanning w).measure t here ≤ 4 * t.size
    simp only [Point.measure]
    split
    · rename_i e he
      obtain ⟨key, -, hkey⟩ := Option.bind_eq_some_iff.1 he
      have hsize := (find?_lt hkey).1
      have hbody := h.bodyStart_le_endOf hsize
      have hend := h.endOf_le_size hsize
      unfold bodyStart at hbody
      omega
    · omega
  | following w => exact asksAtMost_enter_following hk w
  | preceding w => exact asksAtMost_enter_preceding hk w
  | self w =>
    refine hlink self ?_
    unfold OneStepWalk.stay
    split <;> trivial
  | parent w =>
    refine hlink parent ?_
    unfold OneStepWalk.toParent
    split
    · trivial
    · exact .step _
  | ancestors w =>
    refine hlink ancestors ?_
    unfold AncestorWalk.advance
    split
    · trivial
    · exact .step _
  | children w =>
    refine hlink children ?_
    unfold ChildWalk.advance
    split
    · exact .step _
    · exact .step _
  | siblings side =>
    refine hlink siblings ?_
    cases side <;> exact .step _
  | descendants w => exact hlink descendants (asksAtMost_descendants t here w)
  | attributes w =>
    exact asksAtMost_map_settled ((asksAtMost_attributes t here w).mapNotes attributes) (Nat.le_refl 2) _

end Enter

/-- Advancing a walk comes to an answer. The revision has been committed and the cursor is on some node
of it, to which it need not have come by the walk; the walk has noted anything, and the storage refuses
whatever it likes. Every round of a loop leaves less to do, whatever its moves answer. So the call is over
after four rounds for each node at most, and it pays for no more than two operations in each of them and
two before. -/
theorem advance_terminates (c : Content) (s : Store) (cursor : Cursor) (w : Walk)
    (hc : s.snapshot? cursor.revision = some (.ofContent c))
    (hview : s.view? cursor.revision = some cursor.snapshot)
    (hplace : cursor.place < cursor.snapshot.size) :
    (∀ (p : Point) (here : Nat), (p.round cursor.snapshot here).AsksAtMost
      (fun stage => stage.measure cursor.snapshot < p.measure cursor.snapshot here) 2) ∧
    w.attempt cursor.snapshot cursor.place (4 * cursor.snapshot.size) =
      some <$> w.advance cursor.snapshot cursor.place ∧
    (Store.perform cursor (w.advance cursor.snapshot cursor.place) w s).2.meter.used ≤
      s.meter.used + (8 * cursor.snapshot.size + 2) := by
  have htree : cursor.snapshot.IsTree := by
    have hseen := hview.symm.trans (Store.view?_of_committed hc)
    rw [Option.some.inj hseen]
    exact c.isTree_seen s.hidesNames
  have henter := w.asksAtMost_enter htree hplace
  have hattempt : w.attempt cursor.snapshot cursor.place (4 * cursor.snapshot.size) =
      some <$> w.advance cursor.snapshot cursor.place := by
    rw [advance_eq, map_bind]
    exact henter.bind_congr fun stage hle => stage.proceed_eq htree hle
  refine ⟨fun p here => p.asksAtMost_round htree here, hattempt, ?_⟩
  have hasks : (w.attempt cursor.snapshot cursor.place (4 * cursor.snapshot.size)).AsksAtMost
      (fun _ => True) (8 * cursor.snapshot.size + 2) :=
    (henter.bind fun stage _ => stage.asksAtMost_proceed htree _).mono (by omega)
  rw [hattempt, map_eq_pure_bind] at hasks
  exact hasks.of_bind.used_run w cursor s.meter

/-- An element with an element in it that has a text, and after that a comment. The keys are 1 to 4. -/
def noteContent : Content :=
  .element { name := .ofLocal "a" } (.element { name := .ofLocal "b" } (.leaf (.text "t") .nil)
    (.leaf (.comment "c") .nil)) .nil

/-- A store with that as its only revision, which grants one more operation. -/
def scarceStore : Store :=
  { revisions := #[.ofContent noteContent], meter := { budget? := some 1, fault := .missing } }

/-- A cursor that has been brought to the comment. -/
def onComment : Cursor := { revision := 0, snapshot := .ofContent noteContent, place := 4 }

/-- A walk backward that set out from the text. -/
def backFromText : Walk :=
  .preceding { fromOwned := false, withAncestors := false, started := true, ancestors := [0, 1, 2] }

/-- Far from its origin and with an operation refused on the way down, that walk comes to an answer, and
even to one of the nodes that it would leave out. -/
theorem advance_terminates_astray :
    scarceStore.snapshot? 0 = some (.ofContent noteContent) ∧
      scarceStore.view? 0 = some onComment.snapshot ∧ onComment.place < onComment.snapshot.size ∧
      backFromText.attempt onComment.snapshot 4 20 =
        some <$> backFromText.advance onComment.snapshot 4 ∧
      ∃ run s', Store.perform onComment (backFromText.advance onComment.snapshot 4) backFromText
          scarceStore = (run, s') ∧
        run.outcome = .ok true ∧ run.cursor.place = 2 ∧ s'.meter.used = 2 ∧ s'.meter.used ≤ 42 := by
  obtain ⟨-, hattempt, hused⟩ :=
    advance_terminates noteContent scarceStore onComment backFromText rfl rfl (by decide)
  have hrun : (backFromText.advance onComment.snapshot onComment.place).run backFromText onComment
      scarceStore.meter = ⟨.ok true, _, _, _⟩ := run_advance 20 rfl
  rw [Store.perform_of_run hrun] at hused
  exact ⟨rfl, rfl, by decide, hattempt, _, _, Store.perform_of_run hrun, rfl, rfl, rfl, hused⟩

end Walk

end DocTree
