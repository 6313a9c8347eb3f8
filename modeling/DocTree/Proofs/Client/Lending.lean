import DocTree.Proofs.Registry.Compositional
import DocTree.Proofs.Store.Kept

/-!
# What cursors read

A store without a budget is used through any number of copies: revisions are committed, and cursors
are lent, moved and closed, in any order. A cursor stays on nodes of the revision that it was lent for,
and tells of them what was committed, whatever is committed later.

## Main definitions

- `Lending`, `Lending.Request`, `Lending.run` — a store with its copies and cursors, request by request
- `Lending.commits`, `Lending.lent`, `Lending.Closes` — what has been asked so far
- `Lending.Sound` — what is always true of the store and the cursors

## Main statements

- `Lending.Sound.serve`, `Lending.Sound.run` — a request, and any number of requests
- `Lending.cursors_read_what_was_committed` — revisions, cursors and moves in any state
-/

namespace DocTree

open Snapshot

/-- A store that is known by any number of copies, and the cursors that it has lent. -/
structure Lending where
  registry : Registry
  /-- The mounts under which the store is known. -/
  copies : List Mount := []
  /-- The cursors in the order in which they were lent, each with the number of its store. They are
  kept after they were closed. -/
  cursors : List (Nat × Cursor) := []

namespace Lending

/-- What a user can ask for, of one of the copies or of one of the cursors. -/
inductive Request where
  | copy (copy : Nat)
  | commit (copy : Nat) (c : Content)
  | openCursor (copy revision : Nat)
  | move (cursor : Nat) (m : Move)
  | close (cursor : Nat)

/-- What is answered. -/
inductive Answer where
  /-- There is no such copy or cursor. -/
  | unknown
  | copied
  | committed (revision : Nat)
  | opened (outcome : Except StoreError Unit)
  | moved (outcome : Except AccessError Bool)
  | closed (outcome : Except StoreError Unit)

/-- The requests so far, with their answers. -/
abbrev Log := List (Request × Answer)

/-- A new store, with others around it. -/
def start (r : Registry) : Lending :=
  let (mount, registry) := Registry.addStore {} r
  { registry, copies := [mount] }

/-- Answer a request. -/
def serve (l : Lending) : Request → Answer × Lending
  | .copy i =>
    match l.copies[i]? with
    | none => (.unknown, l)
    | some m =>
      let (copy, registry) := Registry.remount m l.registry
      (.copied, { l with registry, copies := l.copies ++ [copy] })
  | .commit i c =>
    match l.copies[i]? with
    | none => (.unknown, l)
    | some m =>
      let (revision, registry) := Registry.onStore m.store (Store.commit c) l.registry
      (.committed revision, { l with registry })
  | .openCursor i revision =>
    match l.copies[i]? with
    | none => (.unknown, l)
    | some m =>
      match Registry.onStore m.store (Store.openCursor revision) l.registry with
      | (.error e, registry) => (.opened (.error e), { l with registry })
      | (.ok c, registry) =>
        (.opened (.ok ()), { l with registry, cursors := l.cursors ++ [(m.store, c)] })
  | .move j m =>
    match l.cursors[j]? with
    | none => (.unknown, l)
    | some (id, c) =>
      let (run, registry) := Registry.onStore id
        (Store.perform c (m.reading c.snapshot c.place) ()) l.registry
      (.moved run.outcome, { l with registry, cursors := l.cursors.set j (id, run.cursor) })
  | .close j =>
    match l.cursors[j]? with
    | none => (.unknown, l)
    | some (id, c) =>
      let ((outcome, c), registry) := Registry.onStore id (Store.close c) l.registry
      (.closed outcome, { l with registry, cursors := l.cursors.set j (id, c) })

/-- Answer one request after the other. -/
def run : List Request → Lending → Log × Lending
  | [], l => ([], l)
  | q :: qs, l =>
    let (answer, l) := l.serve q
    let (log, l) := run qs l
    ((q, answer) :: log, l)

/-- The revisions that were committed, with the numbers that were answered. -/
def commits (log : Log) : List (Nat × Content) :=
  log.filterMap fun
    | (.commit _ c, .committed revision) => some (revision, c)
    | _ => none

/-- The revisions for which cursors were lent. -/
def lent (log : Log) : List Nat :=
  log.filterMap fun
    | (.openCursor _ revision, .opened (.ok ())) => some revision
    | _ => none

/-- The cursor was asked to close. -/
def Closes (log : Log) (j : Nat) : Prop :=
  ∃ outcome, (Request.close j, Answer.closed outcome) ∈ log

/-- What is always true after some requests. -/
structure Sound (id : Nat) (log : Log) (l : Lending) : Prop where
  lt_size : id < l.registry.stores.size
  keeps : (l.registry.store id).Keeps ((commits log).map (·.2))
  numbers : (commits log).map (·.1) = List.range (commits log).length
  copies : ∀ m ∈ l.copies, m.store = id
  revisions : l.cursors.map (·.2.revision) = lent log
  reads : ∀ x ∈ l.cursors, x.1 = id ∧ x.2.Reads ((commits log).map (·.2))
  closed : ∀ j, Closes log j ↔ ∃ x, l.cursors[j]? = some x ∧ x.2.isOpen = false

variable {id : Nat} {log : Log} {l : Lending}

theorem start_eq (r : Registry) :
    start r =
      { registry := { r with stores := r.stores.push {}, trees := r.trees + 1 },
        copies := [⟨r.trees, r.stores.size⟩] } :=
  rfl

theorem commits_append (log later : Log) : commits (log ++ later) = commits log ++ commits later :=
  List.filterMap_append

theorem lent_append (log later : Log) : lent (log ++ later) = lent log ++ lent later :=
  List.filterMap_append

theorem closes_append {later : Log} {j : Nat} :
    Closes (log ++ later) j ↔ Closes log j ∨ Closes later j := by
  simp [Closes, exists_or]

/-- Nothing has been asked of a new store, and nothing lent. -/
theorem sound_start (r : Registry) : Sound r.stores.size [] (start r) := by
  rw [start_eq]
  refine ⟨by simp, ?keeps, rfl, by simp, rfl, by simp, by simp [Closes]⟩
  case keeps =>
    have hstore : (r.stores.push ({} : Store))[r.stores.size]? = some {} := by simp
    simp only [Registry.store, hstore]
    exact ⟨rfl, rfl, rfl⟩

section Replace

variable {cursors : List (Nat × Cursor)} {i j : Nat} {c c' : Cursor}

/-- Another cursor of the same revision in the place of one. -/
theorem map_revision_set (hj : cursors[j]? = some (id, c)) (hrevision : c'.revision = c.revision) :
    (cursors.set j (id, c')).map (·.2.revision) = cursors.map (·.2.revision) := by
  ext1 i
  rw [List.getElem?_map, List.getElem?_map, List.getElem?_set]
  by_cases hij : j = i
  · subst hij
    obtain ⟨hlength, heq⟩ := List.getElem?_eq_some_iff.1 hj
    simp [hlength, heq, hrevision]
  · simp [hij]

/-- Which cursors are closed after one of them was replaced. -/
theorem exists_closed_set (hj : cursors[j]? = some (id, c)) :
    (∃ x, (cursors.set j (id, c'))[i]? = some x ∧ x.2.isOpen = false) ↔
      if i = j then c'.isOpen = false else ∃ x, cursors[i]? = some x ∧ x.2.isOpen = false := by
  have hlength := (List.getElem?_eq_some_iff.1 hj).1
  rw [List.getElem?_set]
  by_cases hij : i = j
  · subst hij
    simp [hlength]
  · simp [hij, Ne.symm hij]

end Replace

namespace Sound

/-- An answer that commits nothing, with what has become of the cursors. -/
theorem withCursors (h : Sound id log l) {x : Request × Answer} {cursors : List (Nat × Cursor)}
    (hcommits : commits [x] = [])
    (hrevisions : cursors.map (·.2.revision) = lent log ++ lent [x])
    (hreads : ∀ y ∈ cursors, y.1 = id ∧ y.2.Reads ((commits log).map (·.2)))
    (hclosed : ∀ j, Closes log j ∨ Closes [x] j ↔ ∃ y, cursors[j]? = some y ∧ y.2.isOpen = false) :
    Sound id (log ++ [x]) { l with cursors } := by
  have heq : commits (log ++ [x]) = commits log := by
    rw [commits_append, hcommits, List.append_nil]
  exact { h with
    keeps := by rw [heq]; exact h.keeps
    numbers := by rw [heq]; exact h.numbers
    revisions := by rw [lent_append]; exact hrevisions
    reads := by rw [heq]; exact hreads
    closed := fun j => closes_append.trans (hclosed j) }

/-- An answer that commits, lends and closes nothing. -/
theorem note (h : Sound id log l) {x : Request × Answer} (hcommits : commits [x] = [])
    (hlent : lent [x] = []) (hclosed : ∀ j, ¬Closes [x] j) : Sound id (log ++ [x]) l := by
  refine h.withCursors hcommits ?_ h.reads fun j => ?_
  · rw [hlent, List.append_nil, h.revisions]
  · rw [← h.closed]
    simp [hclosed]

theorem unknown (h : Sound id log l) (q : Request) : Sound id (log ++ [(q, .unknown)]) l := by
  refine h.note ?_ ?_ (by simp [Closes])
  · cases q <;> rfl
  · cases q <;> rfl

/-- Work that leaves the revisions of the store as they are. -/
theorem onStore (h : Sound id log l) {α : Type} {work : StateM Store α}
    (hwork : (work (l.registry.store id)).2.Keeps ((commits log).map (·.2))) :
    Sound id log { l with registry := (Registry.onStore id work l.registry).2 } := by
  rw [Registry.onStore_eq]
  refine { h with lt_size := ?_, keeps := ?_ }
  · rw [Registry.size_setStore]
    exact h.lt_size
  · rw [Registry.store_setStore h.lt_size]
    exact hwork

section Cursors

variable {j : Nat} {c c' : Cursor}

theorem reads_set (h : Sound id log l) (hreads : c'.Reads ((commits log).map (·.2))) :
    ∀ x ∈ l.cursors.set j (id, c'), x.1 = id ∧ x.2.Reads ((commits log).map (·.2)) := by
  intro x hx
  rcases List.mem_or_eq_of_mem_set hx with hx | rfl
  · exact h.reads x hx
  · exact ⟨rfl, hreads⟩

/-- A cursor that has moved. -/
theorem moveCursor (h : Sound id log l) (hj : l.cursors[j]? = some (id, c)) {m : Move}
    {outcome : Except AccessError Bool}
    (hmoves : c.Moves (m.target c.snapshot c.place) outcome c') :
    Sound id (log ++ [(.move j m, .moved outcome)])
      { l with cursors := l.cursors.set j (id, c') } := by
  have hreads := (h.reads _ (List.mem_of_getElem? hj)).2
  refine h.withCursors rfl ?_ (h.reads_set (hmoves.reads hreads)) fun i => ?_
  · exact (map_revision_set hj hmoves.revision_eq).trans (h.revisions.trans (List.append_nil _).symm)
  · rw [exists_closed_set hj, h.closed]
    by_cases hij : i = j
    · simp [hij, hj, hmoves.isOpen_eq, Closes]
    · simp [hij, Closes]

/-- A cursor that has been closed. -/
theorem closeCursor (h : Sound id log l) (hj : l.cursors[j]? = some (id, c))
    (outcome : Except StoreError Unit) :
    Sound id (log ++ [(.close j, .closed outcome)])
      { l with cursors := l.cursors.set j (id, { c with isOpen := false }) } := by
  have hreads := (h.reads _ (List.mem_of_getElem? hj)).2
  refine h.withCursors rfl ?_ (h.reads_set hreads) fun i => ?_
  · exact (map_revision_set hj (by rfl)).trans (h.revisions.trans (List.append_nil _).symm)
  · rw [exists_closed_set hj]
    by_cases hij : i = j
    · simp [hij, Closes]
    · rw [if_neg hij, ← h.closed]
      simp [hij, Closes]

end Cursors

/-- A revision that has been committed. -/
theorem commit (h : Sound id log l) (copy : Nat) (c : Content) :
    Sound id
      (log ++ [(.commit copy c, .committed (Store.commit c (l.registry.store id)).1)])
      { l with registry := (Registry.onStore id (Store.commit c) l.registry).2 } := by
  obtain ⟨hanswer, hkeeps⟩ := h.keeps.commit c
  rw [List.length_map] at hanswer
  have heq : commits (log ++ [(.commit copy c, .committed (Store.commit c (l.registry.store id)).1)])
      = commits log ++ [((commits log).length, c)] := by
    rw [commits_append, hanswer]
    rfl
  have hmap : (commits log ++ [((commits log).length, c)]).map (·.2) =
      (commits log).map (·.2) ++ [c] := List.map_append
  rw [Registry.onStore_eq]
  refine ⟨?lt_size, ?keeps, ?numbers, h.copies, ?revisions, ?reads, ?closed⟩
  case lt_size =>
    rw [Registry.size_setStore]
    exact h.lt_size
  case keeps =>
    rw [heq, hmap, Registry.store_setStore h.lt_size]
    exact hkeeps
  case numbers =>
    rw [heq, List.map_append, h.numbers, List.length_append, List.length_singleton,
      List.range_succ]
    rfl
  case revisions =>
    rw [lent_append, h.revisions]
    exact (List.append_nil _).symm
  case reads =>
    rw [heq, hmap]
    exact fun x hx => ⟨(h.reads x hx).1, (h.reads x hx).2.append [c]⟩
  case closed =>
    intro j
    rw [← h.closed, closes_append]
    simp [Closes]

/-- A cursor that has been lent. -/
theorem lend (h : Sound id log l) (copy : Nat) {c : Cursor} (hopen : c.isOpen = true)
    (hreads : c.Reads ((commits log).map (·.2))) :
    Sound id (log ++ [(.openCursor copy c.revision, .opened (.ok ()))])
      { l with cursors := l.cursors ++ [(id, c)] } := by
  refine h.withCursors rfl ?_ ?_ fun j => ?_
  · rw [List.map_append, h.revisions]
    rfl
  · intro x hx
    rcases List.mem_append.1 hx with hx | hx
    · exact h.reads x hx
    · obtain rfl := List.mem_singleton.1 hx
      exact ⟨rfl, hreads⟩
  · rw [h.closed, List.getElem?_append]
    by_cases hj : j < l.cursors.length
    · simp [hj, Closes]
    · -- The new cursor is open, and nothing was closed under a number beyond it.
      have hnew : ∀ y, [(id, c)][j - l.cursors.length]? = some y → y.2.isOpen = true := by
        intro y hy
        obtain rfl := List.mem_singleton.1 (List.mem_of_getElem? hy)
        exact hopen
      rw [List.getElem?_eq_none (Nat.le_of_not_lt hj), if_neg hj]
      refine iff_of_false (by simp [Closes]) ?_
      rintro ⟨y, hy, hclosed⟩
      rw [hnew y hy] at hclosed
      cases hclosed

/-- What a move of a cursor comes to. -/
theorem serve_move (h : Sound id log l) {j : Nat} {c : Cursor} (hj : l.cursors[j]? = some (id, c))
    (m : Move) :
    ∃ outcome c', c.Moves (m.target c.snapshot c.place) outcome c' ∧
      l.serve (.move j m) = (.moved outcome,
        { l with
          registry := (Registry.onStore id
            (Store.perform c (m.reading c.snapshot c.place) ()) l.registry).2
          cursors := l.cursors.set j (id, c') }) := by
  refine ⟨_, _, c.moves_run m (h.keeps.grantsNext 1), ?_⟩
  simp only [Lending.serve, hj]
  rfl

/-- A request keeps all of it true. -/
theorem serve (h : Sound id log l) (q : Request) :
    Sound id (log ++ [(q, (l.serve q).1)]) (l.serve q).2 := by
  cases q with
  | copy i =>
    cases hi : l.copies[i]? with
    | none =>
      simp only [Lending.serve, hi]
      exact h.unknown _
    | some m =>
      have hm := h.copies m (List.mem_of_getElem? hi)
      simp only [Lending.serve, hi]
      show Sound id (log ++ [(.copy i, .copied)]) _
      have hcopied : Sound id log
          { l with
            registry := (Registry.remount m l.registry).2
            copies := l.copies ++ [(Registry.remount m l.registry).1] } := by
        refine { h with lt_size := h.lt_size, keeps := h.keeps, copies := ?_ }
        intro m' hm'
        rcases List.mem_append.1 hm' with hm' | hm'
        · exact h.copies m' hm'
        · obtain rfl := List.mem_singleton.1 hm'
          exact hm
      exact hcopied.note rfl rfl (by simp [Closes])
  | commit i c =>
    cases hi : l.copies[i]? with
    | none =>
      simp only [Lending.serve, hi]
      exact h.unknown _
    | some m =>
      obtain rfl := h.copies m (List.mem_of_getElem? hi)
      simp only [Lending.serve, hi]
      exact h.commit i c
  | openCursor i revision =>
    cases hi : l.copies[i]? with
    | none =>
      simp only [Lending.serve, hi]
      exact h.unknown _
    | some m =>
      obtain rfl := h.copies m (List.mem_of_getElem? hi)
      obtain ⟨hkeeps, hlent⟩ := h.keeps.openCursor revision
      have hafter := h.onStore hkeeps
      rcases hopened : Registry.onStore m.store (Store.openCursor revision) l.registry with
        ⟨e | c, registry⟩
      · rw [hopened] at hafter
        simp only [Lending.serve, hi, hopened]
        exact hafter.note rfl rfl (by simp [Closes])
      · obtain ⟨rfl, hopen, hreads⟩ := hlent c (congrArg Prod.fst hopened)
        rw [hopened] at hafter
        simp only [Lending.serve, hi, hopened]
        exact hafter.lend i hopen hreads
  | move j m =>
    cases hj : l.cursors[j]? with
    | none =>
      simp only [Lending.serve, hj]
      exact h.unknown _
    | some x =>
      obtain ⟨store, c⟩ := x
      obtain ⟨rfl, -⟩ := h.reads _ (List.mem_of_getElem? hj)
      obtain ⟨outcome, c', hmoves, hserve⟩ := h.serve_move hj m
      rw [hserve]
      have hafter := h.onStore (h.keeps.perform c (m.reading c.snapshot c.place) ())
      exact hafter.moveCursor hj hmoves
  | close j =>
    cases hj : l.cursors[j]? with
    | none =>
      simp only [Lending.serve, hj]
      exact h.unknown _
    | some x =>
      obtain ⟨store, c⟩ := x
      obtain ⟨rfl, -⟩ := h.reads _ (List.mem_of_getElem? hj)
      have hafter := h.onStore (h.keeps.close c)
      have hclosed := hafter.closeCursor hj (Store.close c (l.registry.store store)).1.1
      rw [← Store.close_snd c (l.registry.store store)] at hclosed
      simp only [Lending.serve, hj]
      exact hclosed

/-- Any number of requests keep all of it true. -/
theorem run (h : Sound id log l) (requests : List Request) :
    Sound id (log ++ (Lending.run requests l).1) (Lending.run requests l).2 := by
  induction requests generalizing log l with
  | nil =>
    rw [Lending.run, List.append_nil]
    exact h
  | cons q qs ih =>
    have hrest := ih (h.serve q)
    rw [List.append_assoc] at hrest
    exact hrest

/-- The commits are numbered, and the store has what was committed. -/
theorem snapshot?_eq (h : Sound id log l) {i revision : Nat} {c : Content}
    (hi : (commits log)[i]? = some (revision, c)) :
    revision = i ∧ (l.registry.store id).snapshot? i = some (.ofContent c) := by
  have hlt := (List.getElem?_eq_some_iff.1 hi).1
  constructor
  · have hnumber : ((commits log).map (·.1))[i]? = some revision := by
      rw [List.getElem?_map, hi]
      rfl
    rw [h.numbers, List.getElem?_range hlt] at hnumber
    exact (Option.some.inj hnumber).symm
  · rw [h.keeps.snapshot?_eq, List.getElem?_map, hi]
    rfl

/-- The revision of a cursor was committed, under that number. -/
theorem exists_commit (h : Sound id log l) {x : Nat × Cursor} (hx : x ∈ l.cursors) :
    ∃ c, (commits log)[x.2.revision]? = some (x.2.revision, c) := by
  obtain ⟨c, hcontent, -, -⟩ := (h.reads x hx).2
  rw [List.getElem?_map] at hcontent
  obtain ⟨⟨revision, c'⟩, hcommit, rfl⟩ := Option.map_eq_some_iff.1 hcontent
  obtain ⟨rfl, -⟩ := h.snapshot?_eq hcommit
  exact ⟨c', hcommit⟩

/-- A cursor is still there after further requests, with its revision. -/
theorem exists_cursor_run (h : Sound id log l) (requests : List Request) {j : Nat} {c : Cursor}
    (hj : l.cursors[j]? = some (id, c)) :
    ∃ c', (Lending.run requests l).2.cursors[j]? = some (id, c') ∧ c'.revision = c.revision := by
  have hafter := h.run requests
  have hlent : (lent log)[j]? = some c.revision := by
    rw [← h.revisions, List.getElem?_map, hj]
    rfl
  have hlater : ((Lending.run requests l).2.cursors.map (·.2.revision))[j]? = _ :=
    congrArg (·[j]?) hafter.revisions
  rw [lent_append, List.getElem?_append_left (List.getElem?_eq_some_iff.1 hlent).1, hlent,
    List.getElem?_map] at hlater
  obtain ⟨⟨store, c'⟩, hc', hrevision⟩ := Option.map_eq_some_iff.1 hlater
  obtain ⟨rfl, -⟩ := hafter.reads _ (List.mem_of_getElem? hc')
  exact ⟨c', hc', hrevision⟩

end Sound

/-- Whatever has been asked of a store and its copies, and whatever is asked after that:

* The commits were numbered from 0 on, and from then on the store has under each number what was
  committed.
* Each cursor is there for the revision that it was lent for. From then on it is on a node of that
  revision, and what it tells is a record of what was committed under that number.
* A cursor is closed if it was asked to close, and not otherwise.
* A move touches no other cursor. If it does not succeed, the cursor stays where it is, and if it
  succeeds, the cursor is on the node with the key that was announced. It succeeds if there is such a
  node, unless the cursor is closed, which is the error then. What a record announces is always
  there. -/
theorem cursors_read_what_was_committed (r : Registry) (before after : List Request) :
    let log := (run before (start r)).1
    let l := (run before (start r)).2
    let later := (run after l).2
    (∀ m ∈ later.copies, m.store = r.stores.size) ∧
    (∀ i revision c, (commits log)[i]? = some (revision, c) →
      revision = i ∧ (later.registry.store r.stores.size).snapshot? i = some (.ofContent c)) ∧
    l.cursors.map (·.2.revision) = lent log ∧
    ∀ j id cursor, l.cursors[j]? = some (id, cursor) →
      (∃ c cursor', (commits log)[cursor.revision]? = some (cursor.revision, c) ∧
        later.cursors[j]? = some (id, cursor') ∧ cursor'.revision = cursor.revision ∧
        cursor'.snapshot = .ofContent c ∧ cursor'.place < cursor'.snapshot.size ∧
        (documentRecords c)[cursor'.place]? = some cursor'.record ∧
        cursor'.record.key = cursor'.place) ∧
      (cursor.isOpen = false ↔ Closes log j) ∧
      ∀ m : Move, ∃ outcome cursor' registry,
        l.serve (.move j m) = (.moved outcome,
          { l with registry, cursors := l.cursors.set j (id, cursor') }) ∧
        (outcome ≠ .ok true → cursor' = cursor) ∧
        (outcome = .ok true →
          m.announced cursor.record = some (cursor'.place : Int) ∧
          cursor' = { cursor with place := cursor'.place }) ∧
        (∀ key, m.announced cursor.record = some key → (cursor.snapshot.get? key).isSome = true →
          outcome = if cursor.isOpen then .ok true else .error (.storage .cursorClosed)) ∧
        ((∀ key, m ≠ .key key) → ∀ key, m.announced cursor.record = some key →
          (cursor.snapshot.get? key).isSome = true) := by
  intro log l later
  have hsound : Sound r.stores.size log l := (sound_start r).run before
  have hlater : Sound r.stores.size (log ++ (run after l).1) later := hsound.run after
  refine ⟨hlater.copies, ?commits, hsound.revisions, ?cursors⟩
  case commits =>
    intro i revision c hi
    apply hlater.snapshot?_eq
    rw [commits_append, List.getElem?_append_left (List.getElem?_eq_some_iff.1 hi).1, hi]
  case cursors =>
    intro j id cursor hj
    have hmem := List.mem_of_getElem? hj
    obtain ⟨rfl, -⟩ := hsound.reads _ hmem
    refine ⟨?reads, ?closed, ?moves⟩
    case reads =>
      obtain ⟨c, hcommit⟩ := hsound.exists_commit hmem
      obtain ⟨cursor', hj', hrevision⟩ := hsound.exists_cursor_run after hj
      refine ⟨c, cursor', hcommit, hj', hrevision, ?_⟩
      apply (hlater.reads _ (List.mem_of_getElem? hj')).2.record_eq
      rw [List.getElem?_map, commits_append, hrevision,
        List.getElem?_append_left (List.getElem?_eq_some_iff.1 hcommit).1, hcommit]
      rfl
    case closed =>
      rw [hsound.closed]
      simp [hj]
    case moves =>
      intro m
      obtain ⟨outcome, cursor', hmoves, hserve⟩ := hsound.serve_move hj m
      refine ⟨outcome, cursor', _, hserve, hmoves.eq_of_ne, ?_, ?_, ?_⟩
      · rintro rfl
        obtain ⟨htarget, hplace⟩ := hmoves.of_ok
        exact ⟨Move.announced_of_target htarget, hplace⟩
      · intro key hkey hthere
        rw [isSome_get?] at hthere
        obtain ⟨k, hk⟩ := Option.isSome_iff_exists.1 hthere
        have htarget : m.target cursor.snapshot cursor.place = some k :=
          Option.bind_eq_some_iff.2 ⟨key, hkey, hk⟩
        rw [htarget] at hmoves
        exact hmoves.outcome_eq
      · intro hm key hkey
        rw [isSome_get?]
        exact Move.isSome_find?_of_announced hm hkey

end Lending

end DocTree
