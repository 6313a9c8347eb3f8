import DocTree.Node.Lenient
import DocTree.Proofs.NamePool.Growth
import DocTree.Proofs.Registry.Undisturbed

/-!
# Operations put together from few pieces

Every operation on documents and nodes is put together from readings in a document and work beside
the stores, in which name pools only grow. What holds of these pieces, and of two operations one
after the other if it holds of both, holds of all of them.

## Main definitions

- `Registry.remeter` — another meter for one store
- `Access.Compositional` — a property that passes from the pieces to the whole

## Main statements

- `Access.Compositional.compareOrder`, … — the questions to nodes, one by one
-/

namespace DocTree

variable {α β : Type}

namespace Registry

variable {r : Registry} {id other : Nat} {s : Store}

@[simp] theorem size_setStore (r : Registry) (id : Nat) (s : Store) :
    (r.setStore id s).stores.size = r.stores.size := by
  simp [setStore]

theorem store_setStore_of_ne (hne : other ≠ id) (s : Store) :
    (r.setStore other s).store id = r.store id := by
  simp [store, setStore, Array.getElem?_setIfInBounds_ne hne]

/-- The registry with another meter for one of the stores. -/
def remeter (r : Registry) (id : Nat) (m : Meter) : Registry :=
  r.setStore id { r.store id with meter := m }

theorem store_remeter (hid : id < r.stores.size) (m : Meter) :
    (r.remeter id m).store id = { r.store id with meter := m } :=
  store_setStore hid _

theorem revisions_remeter (r : Registry) (id : Nat) (m : Meter) (other : Nat) :
    ((r.remeter id m).store other).revisions = (r.store other).revisions := by
  by_cases hother : id = other
  · subst hother
    by_cases hid : id < r.stores.size
    · rw [store_remeter hid]
    · have hnone : r.stores.setIfInBounds id { r.store id with meter := m } = r.stores :=
        Array.setIfInBounds_eq_of_size_le (Nat.le_of_not_lt hid)
      rw [remeter, setStore, hnone]
  · rw [remeter, store_setStore_of_ne hother]

theorem pools_onPool (r : Registry) (id : Nat) (work : StateM NamePool α) :
    (onPool id work r).2.pools = r.pools.setIfInBounds id (work (r.pool id)).2 := by
  show (r.pools.setIfInBounds id .empty).setIfInBounds id _ = _
  simp

theorem pool_onPool {work : StateM NamePool α} (hid : id < r.pools.size) :
    (onPool id work r).2.pool id = (work (r.pool id)).2 := by
  rw [pool, pools_onPool, Array.getElem?_setIfInBounds_self_of_lt hid]
  rfl

theorem pool_onPool_of_ne {work : StateM NamePool α} (hne : id ≠ other) :
    (onPool id work r).2.pool other = r.pool other := by
  rw [pool, pools_onPool, Array.getElem?_setIfInBounds_ne hne]
  rfl

/-- There is no work on a pool that there is not. -/
theorem pool_onPool_of_size_le {work : StateM NamePool α} (hid : r.pools.size ≤ id) :
    (onPool id work r).2.pool other = r.pool other := by
  rw [pool, pools_onPool, Array.setIfInBounds_eq_of_size_le hid]
  rfl

/-- Where one pool grows, all do. -/
theorem extends_onPool {work : StateM NamePool α} (r : Registry)
    (h : (r.pool id).Extends (work (r.pool id)).2) (other : Nat) :
    (r.pool other).Extends ((onPool id work r).2.pool other) := by
  by_cases hother : id = other
  · subst hother
    by_cases hid : id < r.pools.size
    · rwa [pool_onPool hid]
    · rw [pool_onPool_of_size_le (Nat.le_of_not_lt hid)]
      exact .refl _
  · rw [pool_onPool_of_ne hother]
    exact .refl _

end Registry

/-- A property of operations that passes from the pieces to the whole. The pieces are readings in a
document and work that has nothing to do with the stores. What an operation makes of the registry may
depend on all of it but the meters, and no piece takes a code away from a pool. -/
structure Access.Compositional (P : ∀ {α : Type}, Access α → Prop) : Prop where
  bind {α β : Type} {a : Access α} {f : α → Access β} (h : P a) (hf : ∀ x, P (f x)) : P (a >>= f)
  inspect {α : Type} {f : Registry → Access α} (hmeter : ∀ r id m, f (r.remeter id m) = f r)
    (hf : ∀ r, P (f r)) : P (get >>= f)
  aside {α : Type} {work : StateM Registry (Except AccessError α)}
    (h : ∀ r stores, work { r with stores } = ((work r).1, { (work r).2 with stores }))
    (hpools : ∀ (r : Registry) id, (r.pool id).Extends ((work r).2.pool id)) : P (ExceptT.mk work)
  consult {α : Type} (store revision : Nat) (key : Int) (reading : Snapshot → Nat → Reading Unit α)
    (reports : α → Bool) :
    P (Registry.access store do
      return (← Store.consult revision key () reading reports).1)
  readNaming {α : Type} (d : Document) (key : Int)
    (reading : NamePool → Snapshot → Nat → Reading NamePool α)
    (hnotes : ∀ pool t here, (reading pool t here).Notes pool.Extends) : P (d.readNaming key reading)

namespace Access.Compositional

variable {P : ∀ {α : Type}, Access α → Prop} (h : Compositional P)

include h

theorem pure (a : α) : P (Pure.pure a : Access α) := by
  have haside : P (ExceptT.mk (Pure.pure (Except.ok a))) :=
    h.aside (fun _ _ => rfl) fun _ _ => .refl _
  exact haside

theorem throw (e : AccessError) : P (throw e : Access α) := by
  have haside : P (ExceptT.mk (Pure.pure (Except.error e)) : Access α) :=
    h.aside (fun _ _ => rfl) fun _ _ => .refl _
  exact haside

theorem lift {work : StateM Registry α}
    (hwork : ∀ r stores, work { r with stores } = ((work r).1, { (work r).2 with stores }))
    (hpools : ∀ r, (work r).2.pools = r.pools) : P (monadLift work : Access α) := by
  have haside : P (ExceptT.mk (Except.ok <$> work)) := by
    refine h.aside (fun r stores => ?_) fun r id => ?pools
    case pools =>
      show (r.pool id).Extends ((work r).2.pool id)
      rw [Registry.pool, Registry.pool, hpools]
      exact .refl _
    show (Except.ok (work { r with stores }).1, (work { r with stores }).2) = _
    rw [hwork]
    rfl
  exact haside

theorem onPool (pool : Nat) {work : StateM NamePool (Except AccessError α)}
    (hwork : ∀ p : NamePool, p.Extends (work p).2) : P (ExceptT.mk (Registry.onPool pool work)) :=
  h.aside (fun _ _ => rfl) fun r => Registry.extends_onPool r (hwork _)

theorem modifyDocument (number : Nat) (f : Document → Document) :
    P (monadLift (Registry.modifyDocument number f) : Access Unit) :=
  h.lift (fun _ _ => rfl) fun _ => rfl

theorem openDocument (mount : Mount) (revision pool : Nat) (config : Config) :
    P (Registry.openDocument mount revision pool config) := by
  refine h.bind (h.consult mount.store revision 0 _ _) ?_
  intro _
  refine h.bind (h.lift ?number ?pools) ?_
  case number =>
    intro r stores
    unfold Registry.takeNumber
    cases config.documentNumber? <;> rfl
  case pools =>
    intro r
    unfold Registry.takeNumber
    cases config.documentNumber? <;> rfl
  intro number
  exact h.lift (fun _ _ => rfl) fun _ => rfl

theorem openLatest (mount : Mount) (pool : Nat) (config : Config) :
    P (Registry.openLatest mount pool config) := by
  refine h.inspect ?_ ?_
  · intro r id m
    simp only [Store.latest?, Registry.revisions_remeter]
  · intro r
    cases (r.store mount.store).latest? with
    | some revision => exact h.openDocument mount revision pool config
    | none => exact h.throw _

theorem node (d : Document) (number : Nat) (key : Int) : P (d.node number key) := by
  have hvalid : P (monadLift (validateNode key) : Access Unit) := by
    cases validateNode key with
    | error e => exact h.throw e
    | ok _ => exact h.pure ()
  exact h.bind hvalid fun _ => h.bind (h.consult _ _ key _ _) fun _ => h.pure _

variable (n : Node)

theorem getDocument : P n.getDocument := by
  refine h.inspect (fun _ _ _ => rfl) ?_
  intro r
  cases r.document? n.document with
  | none => exact h.throw _
  | some d => exact h.pure d

theorem read (reading : Snapshot → Nat → Reading Unit α) : P (n.read reading) :=
  h.bind (h.getDocument n) fun _ => h.consult _ _ _ _ _

theorem follow (link : Snapshot → Nat → Option Nat) : P (n.follow link) :=
  h.bind (h.getDocument n) fun _ => h.bind (h.consult _ _ _ _ _) fun _ => h.pure _

theorem compareOrder (other : Node) : P (n.compareOrder other) := by
  refine h.inspect (fun _ _ _ => rfl) ?_
  intro r
  by_cases htree : n.sameTree other r
  · by_cases hkey : n.handle.key == other.handle.key
    · simpa [htree, hkey] using h.pure Ordering.eq
    · simpa [htree, hkey] using h.read n _
  · simpa [htree] using h.throw AccessError.foreignTree

theorem atomize : P n.atomize :=
  h.bind (h.read n _) fun _ => h.pure _

theorem nameCode : P n.nameCode := by
  unfold Node.nameCode
  split
  · exact h.bind (h.getDocument n) fun d =>
      h.bind (h.onPool d.pool fun p => p.extends_allocate _ _ _) fun _ => h.pure _
  · exact h.pure none

theorem parent : P n.parent := by
  unfold Node.parent
  split
  · exact h.pure none
  · exact h.follow n _

theorem sibling (link : Snapshot → Nat → Option Nat) :
    P (if n.hasSiblings then n.follow link else return none : Access (Option Node)) := by
  split
  · exact h.follow n link
  · exact h.pure none

theorem firstChild : P n.firstChild := by
  unfold Node.firstChild
  split
  · exact h.follow n _
  · exact h.pure none

theorem hasChildren : P n.hasChildren := by
  unfold Node.hasChildren
  split
  · exact h.read n _
  · exact h.pure false

theorem siblingPosition : P n.siblingPosition := by
  unfold Node.siblingPosition
  split
  · exact h.pure 0
  · exact h.read n _

theorem attributeValue (uri localPart : String) : P (n.attributeValue uri localPart) := by
  unfold Node.attributeValue
  split
  · exact h.read n _
  · exact h.pure none

theorem attributeByFingerprint (code : Int) : P (n.attributeByFingerprint code) := by
  refine h.bind (h.getDocument n) ?_
  intro d
  refine h.inspect (fun _ _ _ => rfl) ?_
  intro r
  cases (r.pool d.pool).expandedName? code with
  | some name => exact h.attributeValue n name.uri name.localPart
  | none => exact h.pure none

theorem baseUri : P n.baseUri := by
  refine h.bind (h.getDocument n) ?_
  intro d
  refine h.bind (h.consult _ _ _ _ _) ?_
  intro found
  cases found with
  | some uri => exact h.pure (some uri)
  | none => exact h.pure d.baseUri?

theorem setSystemId (uri : String) : P (n.setSystemId uri) :=
  h.bind (h.getDocument n) fun _ => h.modifyDocument n.document _

theorem declaredNamespaces (lent? : Option (List Int)) : P (n.declaredNamespaces lent?) := by
  unfold Node.declaredNamespaces
  split
  · refine h.bind (h.getDocument n) fun d => h.bind (h.readNaming d _ _ ?_) fun _ => h.pure _
    exact fun pool t here => t.notes_declaredCodes lent? pool here
  · exact h.pure none

end Access.Compositional

end DocTree
