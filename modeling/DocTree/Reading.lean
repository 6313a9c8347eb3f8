import DocTree.Cursor

/-!
# Readings

What a walk or a node operation does with a cursor is a *reading*: a tree of moves, where the rest
of the reading depends on whether the cursor arrived. Being a value of an inductive type, a reading
makes finitely many moves whatever the storage answers. Along the way it may leave notes, of which
the last one survives when a move fails.

## Main definitions

- `Reading` — moves and notes, with a result or an error at the end
- `Reading.ask`, `Reading.step` — a single move
- `Reading.run` — a reading carried out by a cursor under a meter
- `Reading.observe` — a reading with its notes and its position as part of the result

## Main statements

- `Reading.run_bind` — a sequence of readings runs one after the other
- `Reading.run_observe` — an observed reading runs as the reading does
-/

namespace DocTree

/-- A program of cursor moves with notes of type `σ` and a result of type `α`. -/
inductive Reading (σ α : Type) where
  | done (result : α)
  | fail (error : AccessError)
  /-- Leave a note, in place of the one before. -/
  | note (state : σ) (rest : Reading σ α)
  /-- Ask for a place and go on according to whether the cursor arrived there. -/
  | move (target : Option Nat) (next : Bool → Reading σ α)

namespace Reading

variable {σ τ α β : Type}

/-- One reading followed by another that depends on its result. -/
def bind : Reading σ α → (α → Reading σ β) → Reading σ β
  | done a, f => f a
  | fail e, _ => fail e
  | note s rest, f => note s (rest.bind f)
  | move target next, f => move target fun moved => (next moved).bind f

instance : Monad (Reading σ) where
  pure := done
  bind := bind

@[simp] theorem pure_def (a : α) : (pure a : Reading σ α) = done a := rfl

@[simp] theorem done_bind (a : α) (f : α → Reading σ β) : (done a >>= f) = f a := rfl

@[simp] theorem fail_bind (e : AccessError) (f : α → Reading σ β) : (fail e >>= f) = fail e := rfl

@[simp] theorem note_bind (s : σ) (r : Reading σ α) (f : α → Reading σ β) :
    (note s r >>= f) = note s (r >>= f) := rfl

@[simp] theorem move_bind (t : Option Nat) (n : Bool → Reading σ α) (f : α → Reading σ β) :
    (move t n >>= f) = move t fun moved => n moved >>= f := rfl

theorem bind_done (r : Reading σ α) : (r >>= done) = r := by
  induction r with
  | done => rfl
  | fail => rfl
  | note s rest ih => simp [ih]
  | move t next ih => simp [ih]

theorem bind_assoc (r : Reading σ α) (f : α → Reading σ β) {γ : Type} (g : β → Reading σ γ) :
    (r >>= f >>= g) = r >>= fun a => f a >>= g := by
  induction r with
  | done => rfl
  | fail => rfl
  | note s rest ih => simp [ih]
  | move t next ih => simp [ih]

instance : LawfulMonad (Reading σ) :=
  LawfulMonad.mk' (Reading σ) bind_done (fun _ _ => rfl) (fun r f g => bind_assoc r f g)

/-- Leave a note and go on. -/
def keep (s : σ) : Reading σ Unit := note s (done ())

/-- Ask for a place, which may be known not to exist. -/
def ask (target : Option Nat) : Reading σ Bool := move target done

/-- Follow a link, if there is one; without a link nothing is asked of the storage. -/
def step : Option Nat → Reading σ Bool
  | none => done false
  | some k => move (some k) done

/-- The same reading with a function applied to each of its notes. -/
def mapNotes (f : σ → τ) : Reading σ α → Reading τ α
  | done a => done a
  | fail e => fail e
  | note s rest => note (f s) (rest.mapNotes f)
  | move target next => move target fun moved => (next moved).mapNotes f

/-- How a reading ended. -/
structure Run (σ α : Type) where
  outcome : Except AccessError α
  /-- The last note. -/
  state : σ
  cursor : Cursor
  meter : Meter

/-- Carry out a reading. -/
def run : Reading σ α → σ → Cursor → Meter → Run σ α
  | done a, s, c, m => ⟨.ok a, s, c, m⟩
  | fail e, s, c, m => ⟨.error e, s, c, m⟩
  | note s rest, _, c, m => rest.run s c m
  | move target next, s, c, m =>
    match c.request target m with
    | (.error e, m) => ⟨.error (.storage e), s, c, m⟩
    | (.ok none, m) => (next false).run s c m
    | (.ok (some c), m) => (next true).run s c m

/-- Go on after a reading that ended well. -/
def Run.andThen (r : Run σ α) (f : α → Reading σ β) : Run σ β :=
  match r.outcome with
  | .ok a => (f a).run r.state r.cursor r.meter
  | .error e => ⟨.error e, r.state, r.cursor, r.meter⟩

/-- A sequence of readings runs one after the other. -/
theorem run_bind (r : Reading σ α) (f : α → Reading σ β) (s : σ) (c : Cursor) (m : Meter) :
    (r >>= f).run s c m = (r.run s c m).andThen f := by
  induction r generalizing s c m with
  | done => rfl
  | fail => rfl
  | note s' rest ih => simpa [run] using ih s' c m
  | move t next ih =>
    simp only [move_bind, run]
    split
    · rfl
    · exact ih _ _ _ _
    · exact ih _ _ _ _

/-- A reading that starts at place `here`, with its last note and the place where it ends as part of
the result. Its notes do not show otherwise. -/
def observe : Reading τ α → τ → (here : Nat) → Reading σ (α × τ × Nat)
  | done a, s, here => done (a, s, here)
  | fail e, _, _ => fail e
  | note s rest, _, here => rest.observe s here
  | move target next, s, here =>
    move target fun moved =>
      (next moved).observe s (if moved then target.getD here else here)

/-- Observed, a reading makes the same moves, and its last note is part of the result. -/
theorem run_observe (r : Reading τ α) (s : τ) (u : σ) (c : Cursor) (m : Meter) :
    (r.observe s c.place).run u c m =
      let run := r.run s c m
      ⟨run.outcome.map fun a => (a, run.state, run.cursor.place), u, run.cursor, run.meter⟩ := by
  induction r generalizing s c m with
  | done => rfl
  | fail => rfl
  | note s' rest ih => exact ih s' c m
  | move target next ih =>
    simp only [observe, run]
    split
    case h_1 => rfl
    case h_2 => exact ih false s c _
    case h_3 c' m' hrequest =>
      obtain ⟨k, rfl, rfl⟩ := Cursor.request_arrived hrequest
      simp only [if_true, Option.getD_some]
      exact ih true s { c with place := k } m'

end Reading

end DocTree
