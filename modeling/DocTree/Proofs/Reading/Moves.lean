import DocTree.Move
import DocTree.Proofs.Layout.Tree
import DocTree.Proofs.Reading.Granted

/-!
# Moves by hand

A record announces the keys of the nodes that it is linked to, and these are always there, since the
links of a snapshot stay in its table. Only a move to a key of choice may go astray. So a move that is
granted takes the cursor to the node that is announced, or leaves it where it is.

## Main definitions

- `Move.announced` — the key to which a move leads, as the current record tells it
- `Cursor.Moves` — what a move can come to

## Main statements

- `Move.isSome_find?_of_announced` — what a record announces is there
- `Cursor.moves_run` — a move goes to its target, or the cursor stays
-/

namespace DocTree

open Snapshot

variable {t : Snapshot} {here : Nat}

theorem Snapshot.isSome_get? (t : Snapshot) (key : Int) :
    (t.get? key).isSome = (t.find? key).isSome := by
  rw [get?]
  cases hfind : t.find? key with
  | none => rfl
  | some k => simp [(find?_lt hfind).1]

namespace Move

/-- The key to which a move leads from a record, if the record has such a link. -/
def announced (r : Record) : Move → Option Int
  | parent => r.parent?.map Nat.cast
  | firstChild => r.firstChild?.map Nat.cast
  | left => r.left?.map Nat.cast
  | right => r.right?.map Nat.cast
  | key k => some k
  | .attribute i => r.attributes[i]?.map Nat.cast
  | namespaceDecl i => r.namespaces[i]?.map Nat.cast

/-- The node to which a move leads, if there is one. -/
def target (t : Snapshot) (here : Nat) (m : Move) : Option Nat :=
  (m.announced (t.node here)).bind t.find?

/-- A link of the current record that stays in the table. -/
structure Follows (t : Snapshot) (here : Nat) (m : Move) (link : Option Nat) : Prop where
  announced_eq : m.announced (t.node here) = link.map Nat.cast
  lt_size : ∀ k ∈ link, k < t.size
  reading_eq : m.reading t here = (.step link : Reading Unit Bool) ∨
    m.reading t here = (.ask link : Reading Unit Bool)

/-- Every move but that to a key of choice follows a link. -/
theorem exists_follows {m : Move} (hm : ∀ key, m ≠ .key key) (t : Snapshot) (here : Nat) :
    ∃ link, m.Follows t here link := by
  have hlinked := t.node_linked here
  cases m with
  | parent =>
    exact ⟨_, rfl, fun p hp => Nat.lt_trans (parent?_lt hp) (lt_size_of_parent? hp), .inl rfl⟩
  | firstChild => exact ⟨_, rfl, fun c hc => (firstChild?_gt hc).2, .inl rfl⟩
  | left => exact ⟨_, rfl, fun l hl => Nat.lt_trans (left?_lt hl) (lt_size_of_left? hl), .inl rfl⟩
  | right => exact ⟨_, rfl, fun s hs => (right?_gt hs).2, .inl rfl⟩
  | key k => exact absurd rfl (hm k)
  | «attribute» i =>
    exact ⟨_, rfl, fun a ha => (hlinked.attributes_gt a (List.mem_of_getElem? ha)).2, .inr rfl⟩
  | namespaceDecl i =>
    exact ⟨_, rfl, fun a ha => (hlinked.namespaces_gt a (List.mem_of_getElem? ha)).2, .inr rfl⟩

/-- A link leads to a node that there is. -/
theorem Follows.target_eq {m : Move} {link : Option Nat} (h : m.Follows t here link) :
    m.target t here = link := by
  rw [target, h.announced_eq]
  cases link with
  | none => rfl
  | some k => exact find?_natCast (h.lt_size k rfl)

/-- The target is the node with the key that is announced. -/
theorem announced_of_target {m : Move} {k : Nat} (h : m.target t here = some k) :
    m.announced (t.node here) = some (k : Int) := by
  obtain ⟨key, hkey, hfind⟩ := Option.bind_eq_some_iff.1 h
  rw [hkey, (find?_lt hfind).2]

/-- What a record announces is there, but for a key of choice. -/
theorem isSome_find?_of_announced {m : Move} (hm : ∀ key, m ≠ .key key) {key : Int}
    (h : m.announced (t.node here) = some key) : (t.find? key).isSome = true := by
  obtain ⟨link, hfollows⟩ := exists_follows hm t here
  rw [hfollows.announced_eq] at h
  obtain ⟨k, hk, rfl⟩ := Option.map_eq_some_iff.1 h
  rw [find?_natCast (hfollows.lt_size k hk)]
  rfl

/-- A move asks for its target; without one it may also be over at once. -/
theorem reading_eq (m : Move) (t : Snapshot) (here : Nat) :
    m.reading t here = (.ask (m.target t here) : Reading Unit Bool) ∨
      (m.target t here = none ∧ m.reading t here = (.done false : Reading Unit Bool)) := by
  by_cases hm : ∃ key, m = .key key
  · obtain ⟨key, rfl⟩ := hm
    exact .inl rfl
  · obtain ⟨link, h⟩ := exists_follows (m := m) (fun key hkey => hm ⟨key, hkey⟩) t here
    rw [h.target_eq]
    rcases h.reading_eq with hstep | hask
    · rw [hstep]
      cases link with
      | none => exact .inr ⟨rfl, rfl⟩
      | some k => exact .inl rfl
    · exact .inl hask

end Move

namespace Cursor

/-- What a move with a given target can come to: the answer, and the cursor afterwards. -/
inductive Moves (c : Cursor) (target : Option Nat) : Except AccessError Bool → Cursor → Prop where
  | arrives {k : Nat} (htarget : target = some k) (hopen : c.isOpen = true) :
      Moves c target (.ok true) { c with place := k }
  | stays (htarget : target = none) : Moves c target (.ok false) c
  | fails (hclosed : c.isOpen = false) : Moves c target (.error (.storage .cursorClosed)) c

variable {c c' : Cursor} {target : Option Nat} {outcome : Except AccessError Bool}

/-- A move that is granted goes to its target, unless the cursor is closed. -/
theorem moves_run (c : Cursor) (m : Move) {meter : Meter} (hm : meter.GrantsNext 1) :
    c.Moves (m.target c.snapshot c.place)
      ((m.reading c.snapshot c.place).run () c meter).outcome
      ((m.reading c.snapshot c.place).run () c meter).cursor := by
  rcases m.reading_eq c.snapshot c.place with hask | ⟨hnone, hdone⟩
  · rw [hask]
    cases hopen : c.isOpen with
    | false =>
      have hrequest := Cursor.request_of_grantsNext hm c (m.target c.snapshot c.place)
      rw [hopen] at hrequest
      simp only [Reading.ask, Reading.run, hrequest]
      exact .fails hopen
    | true =>
      rw [Reading.ask, Reading.run_move _ _ hopen hm]
      cases htarget : m.target c.snapshot c.place with
      | none => exact .stays rfl
      | some k => exact .arrives rfl hopen
  · rw [hnone, hdone]
    exact .stays rfl

/-- A move that does not succeed leaves the cursor where it is. -/
theorem Moves.eq_of_ne (h : c.Moves target outcome c') (hne : outcome ≠ .ok true) : c' = c := by
  cases h with
  | arrives htarget hopen => exact absurd rfl hne
  | stays htarget => rfl
  | fails hclosed => rfl

/-- A move that succeeds takes the cursor to the target. -/
theorem Moves.of_ok (h : c.Moves target (.ok true) c') :
    target = some c'.place ∧ c' = { c with place := c'.place } := by
  cases h with
  | arrives htarget hopen => exact ⟨htarget, rfl⟩

/-- To a target that there is only a closed cursor does not move. -/
theorem Moves.outcome_eq {k : Nat} (h : c.Moves (some k) outcome c') :
    outcome = if c.isOpen then .ok true else .error (.storage .cursorClosed) := by
  cases h with
  | arrives htarget hopen => rw [if_pos hopen]
  | stays htarget => cases htarget
  | fails hclosed => simp [hclosed]

theorem Moves.revision_eq (h : c.Moves target outcome c') : c'.revision = c.revision := by
  cases h <;> rfl

theorem Moves.isOpen_eq (h : c.Moves target outcome c') : c'.isOpen = c.isOpen := by
  cases h <;> rfl

end Cursor

end DocTree
