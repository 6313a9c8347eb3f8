import DocTree.Proofs.Registry.Later

/-!
# What a reading leaves behind

Where requests may be refused in any way, there is still something to say of a reading that ends well:
whatever its moves answered, it came to one of its results. So it is enough to go through the reading
once, with both answers to each move, to know what holds of its result and its last note.

## Main definitions

- `Reading.Leaves` — what holds if a reading ends well

## Main statements

- `Store.ifOk_consult` — a reading with a cursor of its own
- `Document.leaves_readNaming`, `Document.answer_readNaming` — a reading that gives codes to names,
  with requests that may be refused, and undisturbed
-/

namespace DocTree

namespace Reading

variable {σ α β : Type} {Q : α → σ → Prop} {s : σ}

/-- However its moves end, the reading fails, or it has `Q` of its result and its last note. -/
def Leaves (Q : α → σ → Prop) : Reading σ α → σ → Prop
  | done a, s => Q a s
  | fail _, _ => True
  | note s rest, _ => rest.Leaves Q s
  | move _ next, s => ∀ moved, (next moved).Leaves Q s

theorem Leaves.run {r : Reading σ α} (h : r.Leaves Q s) (c : Cursor) (m : Meter) :
    ifOk (Q · (r.run s c m).state) (r.run s c m).outcome := by
  induction r generalizing s c m with
  | done a => exact h
  | fail e => trivial
  | note s' rest ih => exact ih h c m
  | move target next ih =>
    unfold Reading.run
    split
    · trivial
    · exact ih false (h false) _ _
    · exact ih true (h true) _ _

theorem Leaves.bind {r : Reading σ α} {f : α → Reading σ β} {Q : β → σ → Prop}
    (h : r.Leaves (fun a s => (f a).Leaves Q s) s) : (r >>= f).Leaves Q s := by
  induction r generalizing s with
  | done a => exact h
  | fail e => trivial
  | note s' rest ih => exact ih h
  | move target next ih => exact fun moved => ih moved (h moved)

theorem Leaves.mono {r : Reading σ α} {Q' : α → σ → Prop} (h : r.Leaves Q s)
    (hQ : ∀ a s, Q a s → Q' a s) : r.Leaves Q' s := by
  induction r generalizing s with
  | done a => exact hQ a s h
  | fail e => trivial
  | note s' rest ih => exact ih h
  | move target next ih => exact fun moved => ih moved (h moved)

end Reading

namespace Store

variable {σ α : Type} {s : Store} {t : Snapshot} {revision k : Nat}

theorem ifOk_openCursor (hv : s.view? revision = some t) :
    ifOk (· = { revision, snapshot := t }) (openCursor revision s).1 := by
  simp only [openCursor_apply, hv]
  rcases s.meter.spend with ⟨e | _, m⟩
  · trivial
  · rfl

/-- If a cursor is opened at a node, it stands there. -/
theorem ensures_arrive {c : Cursor} (hk : k < c.snapshot.size) :
    Ensures (arrive k (.ok c)) (ifOk (· = { c with place := k })) := by
  have hrun : Ensures (perform c (.ask (c.snapshot.find? k)) ()) fun run =>
      run.outcome = .ok true → run.cursor = { c with place := k } := by
    intro s
    simp only [perform_apply, Snapshot.find?_natCast hk, Reading.ask, Reading.run, Cursor.request]
    rcases s.meter.spend with ⟨e | _ | _, m⟩
    · simp
    · simp
    · cases c.isOpen <;> simp
  refine hrun.bind ?_
  intro run hcursor
  unfold settle
  rcases houtcome : run.outcome with e | _ | _
  · exact (ensures_true _).bind fun _ _ => ensures_pure trivial
  · exact (ensures_true _).bind fun _ _ => ensures_pure trivial
  · exact ensures_pure (hcursor houtcome)

theorem ifOk_openAt (hv : s.view? revision = some t) (hk : k < t.size) :
    ifOk (· = { revision, snapshot := t, place := k }) (openAt revision k s).1 := by
  have hlent := ifOk_openCursor hv
  rw [openAt_eq]
  change ifOk _ (arrive k (openCursor revision s).1 (openCursor revision s).2).1
  generalize (openCursor revision s).1 = lent at hlent ⊢
  cases lent with
  | error e => trivial
  | ok c =>
    obtain rfl : c = { revision, snapshot := t } := hlent
    exact ensures_arrive hk _

/-- A reading with a cursor of its own leaves behind what it does, whatever the store refuses. -/
theorem ifOk_consult {Q : α → σ → Prop} {init : σ} {reading : Snapshot → Nat → Reading σ α}
    (reports : α → Bool) (hv : s.view? revision = some t) (hk : k < t.size)
    (hreading : (reading t k).Leaves Q init) :
    ifOk (Q · (consult revision k init reading reports s).1.2)
      (consult revision k init reading reports s).1.1 := by
  let c : Cursor := { revision, snapshot := t, place := k }
  have hread : Ensures (readAndClose init reading reports (.ok c))
      fun answer => ifOk (Q · answer.2) answer.1 := by
    have hrun : Ensures (perform c (reading t k) init)
        fun run => ifOk (Q · run.state) run.outcome := fun s => hreading.run _ s.meter
    refine hrun.bind fun run hleft => (ensures_true _).bind fun closed _ => ?_
    rcases houtcome : run.outcome with e | a
    · rcases closed with ⟨_ | _, _⟩ <;> exact ensures_pure trivial
    · rw [houtcome] at hleft
      rcases closed with ⟨_ | _, _⟩
      · refine ensures_pure ?_
        cases reports a
        · exact hleft
        · trivial
      · exact ensures_pure hleft
  have hopened := ifOk_openAt hv hk
  rw [consult_eq]
  show ifOk (Q · (readAndClose _ _ _ (openAt revision k s).1 _).1.2)
    (readAndClose _ _ _ (openAt revision k s).1 _).1.1
  generalize (openAt revision k s).1 = opened at hopened ⊢
  cases opened with
  | error e => trivial
  | ok c' =>
    obtain rfl : c' = c := hopened
    exact hread _

end Store

namespace Document

variable {α : Type} {d : Document} {r : Registry} {t : Snapshot} {k : Nat}
  {reading : NamePool → Snapshot → Nat → Reading NamePool α}

/-- The document's pool is put back as the reading left it. -/
theorem run_readNaming (d : Document) (key : Int)
    (reading : NamePool → Snapshot → Nat → Reading NamePool α) (r : Registry) :
    (d.readNaming key reading).run r =
      let pool := r.pool d.pool
      let read := Store.consult d.revision key pool (reading pool) (fun _ => false)
        (r.store d.mount.store)
      (read.1.1, (Registry.onPool d.pool (set read.1.2) (r.setStore d.mount.store read.2)).2) :=
  rfl

/-- Whatever the store refuses, a reading that ends well leaves behind what it does. -/
theorem leaves_readNaming {Q : α → NamePool → Prop} {a : α} {r' : Registry}
    (hv : (r.store d.mount.store).view? d.revision = some t) (hk : k < t.size)
    (hreading : (reading (r.pool d.pool) t k).Leaves Q (r.pool d.pool))
    (hrun : (d.readNaming k reading).run r = (.ok a, r')) :
    ∃ pool, Q a pool ∧ (d.pool < r.pools.size → r'.pool d.pool = pool) := by
  rw [run_readNaming] at hrun
  obtain ⟨ha, rfl⟩ := Prod.mk.inj hrun
  have hleft := Store.ifOk_consult (fun _ => false) hv hk hreading
  rw [ha] at hleft
  exact ⟨_, hleft, fun hpool => Registry.pool_onPool hpool⟩

/-- An undisturbed reading ends as it does when nothing is refused. -/
theorem answer_readNaming {a : α} {pool : NamePool} {place : Nat}
    (hv : (r.store d.mount.store).view? d.revision = some t) (hk : k < t.size)
    (hreading : (reading (r.pool d.pool) t k).Yields (r.pool d.pool) k a pool place)
    (h : (d.readNaming k reading).Undisturbed r) : (d.readNaming k reading).answer r = .ok a := by
  have hid := Registry.lt_size_of_view? hv
  have hstore := h d.mount.store
  rw [run_readNaming] at hstore
  change (r.store d.mount.store).meter.GrantsNext
    (((r.setStore d.mount.store _).store d.mount.store).meter.used - _) at hstore
  rw [Registry.store_setStore hid] at hstore
  have hgrants := Store.grantsNext_of_undisturbed_consult hv hk hstore
  obtain ⟨n, hending⟩ := hreading
  rw [Access.answer, run_readNaming]
  dsimp only
  rw [Store.consult_of_grantsNext hv hk (fun _ _ => rfl) hgrants, hending]

end Document

end DocTree
