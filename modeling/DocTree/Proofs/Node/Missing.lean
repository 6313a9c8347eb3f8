import DocTree.Proofs.Client.Budget
import DocTree.Proofs.Node.CutPath
import DocTree.Proofs.Node.Text
import DocTree.Proofs.Store.Refused

/-!
# Values of nodes when nodes are missing

Beyond its budget a store may say of every node that it is missing. If the node itself is missing, or
the one that it is compared with, the operation fails. If a node on the way is missing, the way ends
there, and no error is told: the string value is that of the descendants that were reached, and the
comparison is with a part of the path of the other node.

## Main statements

- `Node.values_with_missing_nodes` — string values and comparisons with missing nodes
- `Node.values_are_cut_off` — a text that is lost, and a comparison that comes out the wrong way
-/

namespace DocTree

open Reading Snapshot

namespace Node

variable {α : Type} {x y : Node} {r : Registry} {mount : Mount} {revision i j k n : Nat} {c : Content}
  {m : Meter}

theorem At.lt_stores (h : x.At r mount revision c k) : mount.store < r.stores.size :=
  Registry.lt_size_of_snapshot? h.committed

/-- A node stands for its place whatever has been metered. -/
theorem At.remeter (h : x.At r mount revision c k) (id : Nat) (m : Meter) :
    x.At (r.remeter id m) mount revision c k where
  document := h.document
  committed := by
    rw [Store.snapshot?, Registry.revisions_remeter]
    exact h.committed
  handle_eq := h.handle_eq
  lt_size := h.lt_size

section Read

/-- A reading at a node, with the store under some meter. -/
theorem At.run_read (h : x.At r mount revision c k) (m : Meter)
    (reading : Snapshot → Nat → Reading Unit α) :
    let consulted := Store.consult revision k () reading (fun _ => false)
      { r.store mount.store with meter := m }
    (x.read reading).run (r.remeter mount.store m) =
      (consulted.1.1, r.setStore mount.store consulted.2) := by
  have hstore := Registry.store_remeter h.lt_stores m
  obtain ⟨d, hd, rfl, rfl⟩ := h.document
  have hd' : (r.remeter d.mount.store m).document? x.document = some d := hd
  rw [Node.run_read hd', h.key_eq, Document.read, Document.run_consult, hstore, Registry.remeter,
    Registry.setStore_setStore]

variable (reading : Snapshot → Nat → Reading Unit α)

/-- If the node is missing, there is nothing to read. -/
theorem At.answer_read_of_refused (h : x.At r mount revision c k) (hm : (m.after 1).RefusesNext 1) :
    (x.read reading).answer (r.remeter mount.store m) = .error (.noSuchNode k) := by
  have hv := Store.view?_of_committed h.committed
  rw [Access.answer, h.run_read]
  exact congrArg Prod.fst
    (Store.consult_of_refused (s := { r.store mount.store with meter := m }) hv hm)

/-- Otherwise the outcome is that of the reading with a cursor at the node. -/
theorem At.outcome_read (h : x.At r mount revision c k) (hm : m.GrantsNext 2) :
    (x.read reading).answer (r.remeter mount.store m) =
      ((reading (c.seen (r.store mount.store).hidesNames) k).run ()
        ⟨revision, c.seen (r.store mount.store).hidesNames, k, true⟩ (m.after 2)).outcome := by
  have hv := Store.view?_of_committed h.committed
  rw [Access.answer, h.run_read]
  exact Store.outcome_consult (s := { r.store mount.store with meter := m }) hv
    (by simpa using h.lt_size) hm

/-- What a reading asks for that is refused nothing. -/
theorem At.used_read (h : x.At r mount revision c k) (hm : m.budget? = none) :
    (((x.read reading).run (r.remeter mount.store m)).2.store mount.store).meter.used =
      m.used + (2 + (reading (c.seen (r.store mount.store).hidesNames) k).cost () k) := by
  have hv := Store.view?_of_committed h.committed
  rw [h.run_read, Registry.store_setStore h.lt_stores,
    Store.consult_of_grantsNext (s := { r.store mount.store with meter := m }) hv
      (by simpa using h.lt_size) (fun _ _ => rfl) (Meter.grantsNext_of_unlimited hm _)]
  rfl

end Read

section StringValue

variable {b : Int64}

/-- The string value as far as a cursor gets that is granted `n` moves. -/
theorem At.answer_stringValue (h : x.At r mount revision c k) (hgrants : m.GrantsNext (2 + n))
    (hrefuses : n < ((c.seen (r.store mount.store).hidesNames).descendants k).length →
      (m.after (2 + n)).RefusesNext 1) :
    x.stringValue.answer (r.remeter mount.store m) =
      .ok ((c.seen (r.store mount.store).hidesNames).valueWithin k n) := by
  rw [Meter.grantsNext_add] at hgrants
  rw [Node.stringValue, h.outcome_read _ hgrants.1]
  refine Handle.outcome_stringValue (c.isTree_seen _) (by simpa using h.lt_size) (h.kind_eq _)
    h.key_eq () rfl hgrants.2 ?_
  rwa [Meter.after_after]

theorem At.answer_stringValue_unlimited (h : x.At r mount revision c k) :
    x.stringValue.answer (r.unlimited mount.store) =
      .ok ((c.seen (r.store mount.store).hidesNames).valueWithin k
        ((c.seen (r.store mount.store).hidesNames).descendants k).length) :=
  h.answer_stringValue (Meter.grantsNext_of_unlimited rfl _)
    fun hless => absurd hless (Nat.lt_irrefl _)

theorem At.answer_stringValue_refill (h : x.At r mount revision c k)
    (hfault : (r.store mount.store).meter.fault = .missing) (hb : 0 ≤ b) :
    x.stringValue.answer (r.refill mount.store b) =
      if b.toInt < 2 then .error (.noSuchNode k)
      else .ok ((c.seen (r.store mount.store).hidesNames).valueWithin k (b.toInt.toNat - 2)) := by
  have hm := (r.store mount.store).meter.runsOut_refill (k := 3) hb hfault (by decide)
  split
  · exact h.answer_read_of_refused _ (hm.refuses_second (by omega))
  · obtain ⟨n, hn⟩ : ∃ n, b.toInt.toNat = 2 + n := ⟨b.toInt.toNat - 2, by omega⟩
    rw [hn] at hm
    rw [hn, Nat.add_sub_cancel_left]
    exact h.answer_stringValue hm.grants fun _ => hm.refuses.mono (by decide)

end StringValue

section CompareOrder

variable {b : Int64}

theorem At.compareOrder_self (hx : x.At r mount revision c i) (hy : y.At r mount revision c i)
    (m : Meter) : (x.compareOrder y).run (r.remeter mount.store m) =
      (.ok .eq, r.remeter mount.store m) :=
  (hx.remeter _ m).run_compareOrder_self (hy.remeter _ m)

theorem At.compareOrder_of_ne (hx : x.At r mount revision c i) (hy : y.At r mount revision c j)
    (hij : i ≠ j) (m : Meter) : (x.compareOrder y).run (r.remeter mount.store m) =
      (x.read y.handle.orderFrom).run (r.remeter mount.store m) :=
  (hx.remeter _ m).run_compareOrder_of_ne (hy.remeter _ m) hij

/-- A comparison asks for what it takes to open a cursor and to compare the paths. -/
theorem At.demand_compareOrder (hx : x.At r mount revision c i) (hy : y.At r mount revision c j)
    (hij : i ≠ j) :
    (Operation.compareOrder x y).demand mount.store r =
      2 + (y.handle.orderFrom (c.seen (r.store mount.store).hidesNames) i).cost () i := by
  have hused := hx.used_read (m := (r.store mount.store).unlimited.meter) y.handle.orderFrom rfl
  rw [← hx.compareOrder_of_ne hy hij] at hused
  exact hused.trans (Nat.zero_add _)

theorem At.demand_compareOrder_self (hx : x.At r mount revision c i)
    (hy : y.At r mount revision c i) : (Operation.compareOrder x y).demand mount.store r = 0 := by
  have hrun := hx.compareOrder_self hy (r.store mount.store).unlimited.meter
  have hused := congrArg (fun answer => (answer.2.store mount.store).meter.used) hrun
  refine hused.trans ?_
  rw [Registry.store_remeter hx.lt_stores]
  rfl

/-- Two nodes compare as their keys do, if all is granted that the comparison asks for. -/
theorem At.answer_compareOrder_of_grantsNext (hx : x.At r mount revision c i)
    (hy : y.At r mount revision c j)
    (hm : m.GrantsNext ((Operation.compareOrder x y).demand mount.store r)) :
    (x.compareOrder y).answer (r.remeter mount.store m) = .ok (compare i j) := by
  by_cases hij : i = j
  · subst hij
    rw [Access.answer, hx.compareOrder_self hy, Nat.compare_eq_eq.2 rfl]
  · rw [hx.demand_compareOrder hy hij, Meter.grantsNext_add] at hm
    have hyields := Handle.yields_orderFrom (c.isTree_seen (r.store mount.store).hidesNames) ()
      (by simpa using hx.lt_size) hy.key_eq (by simpa using hy.lt_size)
    have hread := hx.outcome_read y.handle.orderFrom hm.1
    rw [Access.answer] at hread
    rw [Access.answer, hx.compareOrder_of_ne hy hij, hread, hyields.run rfl hm.2]

/-- A comparison that is refused moves from some point on. -/
theorem At.answer_compareOrder_of_runsOut (hx : x.At r mount revision c i)
    (hy : y.At r mount revision c j)
    (hm : m.RunsOut n (2 * (c.seen (r.store mount.store).hidesNames).size + 5))
    (hless : n < (Operation.compareOrder x y).demand mount.store r) :
    (∃ key, (x.compareOrder y).answer (r.remeter mount.store m) = .error (.noSuchNode key)) ∨
      2 + ((c.seen (r.store mount.store).hidesNames).pathOf i : Reading Unit _).cost () i < n ∧
        ∃ cut, CutPath ((c.seen (r.store mount.store).hidesNames).trail j) cut ∧
          (x.compareOrder y).answer (r.remeter mount.store m) =
            .ok (comparePaths ((c.seen (r.store mount.store).hidesNames).trail i) cut) := by
  have hij : i ≠ j := by
    rintro rfl
    rw [hx.demand_compareOrder_self hy] at hless
    omega
  rw [hx.demand_compareOrder hy hij] at hless
  rw [Access.answer, hx.compareOrder_of_ne hy hij]
  by_cases hn : n < 2
  · exact .inl ⟨i, hx.answer_read_of_refused _ (hm.refuses_second hn)⟩
  · obtain ⟨n, rfl⟩ := Nat.exists_eq_add_of_le (Nat.le_of_not_lt hn)
    have hread := hx.outcome_read y.handle.orderFrom (Meter.grantsNext_add.1 hm.grants).1
    rw [Access.answer] at hread
    rw [hread]
    have horder := y.handle.outcome_orderFrom (c.isTree_seen (r.store mount.store).hidesNames)
      (by simpa using hx.lt_size) hy.key_eq (by simpa using hy.lt_size)
      (c := ⟨revision, c.seen (r.store mount.store).hidesNames, i, true⟩) rfl rfl
      ⟨hm.after.grants, hm.after.refuses.mono (by omega)⟩ (Nat.lt_of_add_lt_add_left hless)
    exact horder.imp_right fun hcut => ⟨Nat.add_lt_add_left hcut.1 2, hcut.2⟩

end CompareOrder

/-- Let the store of a committed revision have a budget that has just been set and beyond which nodes
seem to be missing. The string value of a node is an error if the node is out of reach, and otherwise
what it is without the budget, but for a document or an element only as far as the budget goes: it is
the text of the descendants that are reached. Two nodes compare as without the budget if it is not
less than what that takes. If it is less, the comparison fails, or else the budget has ended on the way
up from the other node, and then it comes to the comparison with a part of the path of that node. Left
out are comparisons in revisions with so many nodes that as many refusals could overdraw the budget
beyond the range of words. -/
theorem values_with_missing_nodes (r : Registry) (mount : Mount) (revision : Nat) (c : Content)
    (hfault : (r.store mount.store).meter.fault = .missing) (b : Int64) (hb : 0 ≤ b) :
    let t := c.seen (r.store mount.store).hidesNames
    (∀ (x : Node) (k : Nat), x.At r mount revision c k →
      x.stringValue.answer (r.unlimited mount.store) =
          .ok (t.valueWithin k (t.descendants k).length) ∧
        x.stringValue.answer (r.refill mount.store b) =
          (if b.toInt < 2 then .error (.noSuchNode k)
            else .ok (t.valueWithin k (b.toInt.toNat - 2))) ∧
        (x.handle.kind.isParental = false ∨ 2 + (t.descendants k).length ≤ b.toInt →
          2 ≤ b.toInt → x.stringValue.answer (r.refill mount.store b) =
            x.stringValue.answer (r.unlimited mount.store))) ∧
    (∀ (x y : Node) (i j : Nat), x.At r mount revision c i → y.At r mount revision c j →
      (x.compareOrder y).answer (r.unlimited mount.store) = .ok (compare i j) ∧
        (((Operation.compareOrder x y).demand mount.store r : Int) ≤ b.toInt →
          (x.compareOrder y).answer (r.refill mount.store b) = .ok (compare i j)) ∧
        (b.toInt < (Operation.compareOrder x y).demand mount.store r → t.size ≤ 2 ^ 61 →
          (∃ key, (x.compareOrder y).answer (r.refill mount.store b) = .error (.noSuchNode key)) ∨
            2 + (t.pathOf i : Reading Unit _).cost () i < b.toInt ∧
              ∃ cut, CutPath (t.trail j) cut ∧
                (x.compareOrder y).answer (r.refill mount.store b) =
                  .ok (comparePaths (t.trail i) cut))) := by
  dsimp only
  refine ⟨?values, ?comparisons⟩
  case values =>
    intro x k hx
    have hfree := hx.answer_stringValue_unlimited
    have hcut := hx.answer_stringValue_refill hfault hb
    refine ⟨hfree, hcut, ?_⟩
    intro hwhole htwo
    rw [hfree, hcut, if_neg (Int.not_lt.2 htwo)]
    rcases hwhole with hstored | hle
    · rw [hx.kind_eq (r.store mount.store).hidesNames] at hstored
      rw [valueWithin_of_stored hstored]
    · rw [valueWithin_of_le (by omega)]
  case comparisons =>
    intro x y i j hx hy
    refine ⟨?free, ?enough, ?less⟩
    case free =>
      exact hx.answer_compareOrder_of_grantsNext hy (Meter.grantsNext_of_unlimited rfl _)
    case enough =>
      intro hle
      have hm := (r.store mount.store).meter.runsOut_refill (k := 0) hb hfault (by decide)
      exact hx.answer_compareOrder_of_grantsNext hy (hm.grants.mono (by omega))
    case less =>
      intro hless hsize
      have hzero : 0 ≤ b.toInt := by simpa using Int64.le_iff_toInt_le.1 hb
      have hm := (r.store mount.store).meter.runsOut_refill
        (k := 2 * (c.seen (r.store mount.store).hidesNames).size + 5) hb hfault (by omega)
      exact (hx.answer_compareOrder_of_runsOut hy hm (by omega)).imp_right fun hcut =>
        ⟨by omega, hcut.2⟩

/-- The small document in a store in which nodes can be missing. -/
def smallRegistryMissing : Registry := smallRegistry.remeter 0 { fault := .missing }

/-- A budget of six is enough to go from the element to its text, but not to find the path of the
attribute and then go to the text. -/
theorem values_with_missing_nodes_six :
    (smallNode 0 1).stringValue.answer (smallRegistryMissing.refill 0 6) = .ok "t" ∧
      ∃ key, ((smallNode 0 2).compareOrder (smallNode 0 3)).answer (smallRegistryMissing.refill 0 6) =
        .error (.noSuchNode key) := by
  have hat : ∀ key < 4, (smallNode 0 key).At smallRegistryMissing ⟨0, 0⟩ 0 smallContent key :=
    fun key hkey => (smallNode_at (by decide) hkey).remeter 0 _
  obtain ⟨hvalues, hcomparisons⟩ :=
    values_with_missing_nodes smallRegistryMissing ⟨0, 0⟩ 0 smallContent rfl 6 (by decide)
  constructor
  · obtain ⟨-, -, hwhole⟩ := hvalues (smallNode 0 1) 1 (hat 1 (by decide))
    have hlength : ((smallContent.seen false).descendants 1).length = 1 := by decide +kernel
    have henough : 2 + (((smallContent.seen false).descendants 1).length : Int) ≤ (6 : Int64).toInt := by
      rw [hlength]
      decide
    refine (hwhole (.inr henough) (by decide)).trans ?_
    decide +kernel
  · obtain ⟨-, -, hless⟩ := hcomparisons (smallNode 0 2) (smallNode 0 3) 2 3 (hat 2 (by decide))
      (hat 3 (by decide))
    have hdemand : (Operation.compareOrder (smallNode 0 2) (smallNode 0 3)).demand 0
        smallRegistryMissing = 9 := by decide +kernel
    have hcost : ((smallContent.seen false).pathOf 2 : Reading Unit _).cost () 2 = 4 := by decide +kernel
    refine (hless ?_ (by decide)).elim id fun hcut => ?_
    · rw [hdemand]
      decide
    · have hreached : 2 + ((smallContent.seen false).pathOf 2 : Reading Unit _).cost () 2 <
          (6 : Int64).toInt := hcut.1
      rw [hcost] at hreached
      exact absurd hreached (by decide)

/-- With a budget of two the cursor gets to the element, but not to its text: the string value is told
to be empty. With a budget of seven it gets from the attribute to the text, and then the element seems
to be missing. What is left of the path of the text looks like the path of the element, which is before
the attribute. -/
theorem values_are_cut_off :
    ((smallNode 0 1).stringValue.answer (smallRegistryMissing.unlimited 0) = .ok "t" ∧
      (smallNode 0 1).stringValue.answer (smallRegistryMissing.refill 0 2) = .ok "") ∧
    (((smallNode 0 2).compareOrder (smallNode 0 3)).answer (smallRegistryMissing.unlimited 0) =
        .ok .lt ∧
      ((smallNode 0 2).compareOrder (smallNode 0 3)).answer (smallRegistryMissing.refill 0 7) =
        .ok .gt) := by
  refine ⟨⟨?_, ?_⟩, ?_, ?_⟩
  · decide +kernel
  · decide +kernel
  · decide +kernel
  · decide +kernel

end Node

end DocTree
