import DocTree.Proofs.Node.DocumentOrder

/-!
# Which nodes are the same

Two nodes are the same if they have the same key in the same revision and their documents read the
same store. A document that has been released can no longer tell which store it read, so its nodes
are the same as each other and as no others. What is the same may thus change when a document is
released, but at all times it is an equivalence relation, and it agrees with the hashes and the
texts by which nodes are identified.

A world is a registry together with the stores that have been handed out: each store that was made,
and each copy of one that was given out under a tree of its own. Nobody else can make a mount, so
the documents of a world read mounts that were handed out, and these are told apart by their trees.

## Main definitions

- `World`, `World.Event`, `World.run` — what can happen to stores, pools and documents
- `World.Proper` — what is always true of mounts and documents

## Main statements

- `Node.isSame_equivalence` — being the same is an equivalence relation
- `World.identity_of_nodes` — which nodes are the same, and what releasing a document changes
-/

namespace DocTree

namespace Registry

variable {r : Registry} {id : Nat}

theorem document?_releaseDocument (id other : Nat) (r : Registry) :
    (releaseDocument id r).2.document? other
      = if other = id then none else r.document? other := by
  change (r.documents.setIfInBounds id none)[other]?.join = _
  rw [Array.getElem?_setIfInBounds]
  split
  · next h =>
    subst h
    split <;> simp
  · next h =>
    rw [if_neg (Ne.symm h)]
    rfl

theorem document?_modifyDocument (id other : Nat) (f : Document → Document) (r : Registry) :
    (modifyDocument id f r).2.document? other
      = if other = id then (r.document? other).map f else r.document? other := by
  change (r.documents.modify id (·.map f))[other]?.join = _
  rw [Array.getElem?_modify]
  split
  · next h =>
    subst h
    rw [if_pos rfl, document?]
    rcases r.documents[id]? with _ | _ | _ <;> rfl
  · next h =>
    rw [if_neg (Ne.symm h)]
    rfl

/-- An operation that takes no document away and opens documents of one mount only. -/
def OpensOnly {α : Type} (mount : Mount) (work : Access α) : Prop :=
  ∀ r, (work.run r).2.trees = r.trees ∧
    ∀ id d, (work.run r).2.document? id = some d → r.document? id = some d ∨ d.mount = mount

/-- An operation that opens documents of one mount beside those that there are, and changes none. -/
def Opens {α : Type} (mount : Mount) (work : Access α) : Prop :=
  ∀ r, (work.run r).2.trees = r.trees ∧ ∃ opened : Array (Option Document),
    (work.run r).2.documents = r.documents ++ opened ∧ ∀ d, some d ∈ opened → d.mount = mount

section Opens

variable {α β : Type} {mount : Mount}

theorem Opens.bind {work : Access α} {next : α → Access β} (hwork : Opens mount work)
    (hnext : ∀ a, Opens mount (next a)) : Opens mount (work >>= next) := by
  intro r
  obtain ⟨htrees, opened, hopened, hmount⟩ := hwork r
  rcases hrun : work.run r with ⟨_ | a, r₁⟩
  · rw [hrun] at htrees hopened
    rw [Access.run_bind_of_error hrun]
    exact ⟨htrees, opened, hopened, hmount⟩
  · rw [hrun] at htrees hopened
    rw [Access.run_bind_of_ok hrun]
    obtain ⟨htrees', opened', hopened', hmount'⟩ := hnext a r₁
    refine ⟨htrees'.trans htrees, opened ++ opened', ?_, fun d hd => ?_⟩
    · rw [hopened', hopened, Array.append_assoc]
    · exact (Array.mem_append.1 hd).elim (hmount d) (hmount' d)

theorem opens_of_eq {work : Access α}
    (h : ∀ r, (work.run r).2.trees = r.trees ∧ (work.run r).2.documents = r.documents) :
    Opens mount work :=
  fun r => ⟨(h r).1, #[], by rw [(h r).2, Array.append_empty], by simp⟩

theorem opens_openDocument (mount : Mount) (revision pool : Nat) (config : Config) :
    Opens mount (openDocument mount revision pool config) := by
  refine (opens_of_eq fun _ => ⟨rfl, rfl⟩).bind fun _ => ?_
  refine (opens_of_eq fun r => ?_).bind fun number r => ⟨rfl, #[some _], rfl, fun d hd => ?_⟩
  · change (takeNumber config r).2.trees = _ ∧ (takeNumber config r).2.documents = _
    unfold takeNumber
    cases config.documentNumber? <;> exact ⟨rfl, rfl⟩
  · obtain rfl := Option.some.inj (Array.mem_singleton.1 hd)
    rfl

theorem opens_openLatest (mount : Mount) (pool : Nat) (config : Config) :
    Opens mount (openLatest mount pool config) := by
  have hget : Opens mount (get : Access Registry) := opens_of_eq fun _ => ⟨rfl, rfl⟩
  refine hget.bind fun r => ?_
  cases (r.store mount.store).latest? with
  | some revision => exact opens_openDocument mount revision pool config
  | none => exact opens_of_eq fun _ => ⟨rfl, rfl⟩

/-- What is opened does not take the place of a document. -/
theorem Opens.document? {work : Access α} (h : Opens mount work) {r : Registry} {id : Nat}
    (hid : id < r.documents.size) :
    (work.run r).2.document? id = r.document? id ∧ id < (work.run r).2.documents.size := by
  obtain ⟨-, opened, hopened, -⟩ := h r
  rw [Registry.document?, hopened, Array.getElem?_append_left hid, Array.size_append]
  exact ⟨rfl, by omega⟩

theorem Opens.opensOnly {work : Access α} (h : Opens mount work) : OpensOnly mount work := by
  intro r
  obtain ⟨htrees, opened, hopened, hmount⟩ := h r
  refine ⟨htrees, fun id d hd => ?_⟩
  by_cases hid : id < r.documents.size
  · rw [(h.document? hid).1] at hd
    exact .inl hd
  · rw [Registry.document?, hopened, Array.getElem?_append_right (Nat.le_of_not_lt hid)] at hd
    exact .inr (hmount d (Array.mem_of_getElem? (Option.join_eq_some_iff.1 hd)))

end Opens

end Registry

namespace Node

variable {a b : Node} {r : Registry}

theorem isSame_iff_keys :
    a.isSame b r = true ↔ a.handle.key = b.handle.key ∧ a.handle.revision = b.handle.revision ∧
      (a.document = b.document ∨ ∃ d e, r.document? a.document = some d ∧
        r.document? b.document = some e ∧ d.mount.tree = e.mount.tree) := by
  rw [isSame, sameTree, Bool.and_eq_true, Bool.and_eq_true, Bool.or_eq_true, beq_iff_eq, beq_iff_eq,
    beq_iff_eq]
  refine and_congr_right fun _ => and_congr_right fun _ => or_congr_right ?_
  cases r.document? a.document <;> cases r.document? b.document <;> simp

/-- In every registry, being the same is an equivalence relation. -/
theorem isSame_equivalence (r : Registry) : Equivalence fun a b : Node => a.isSame b r = true where
  refl a := isSame_iff_keys.2 ⟨rfl, rfl, .inl rfl⟩
  symm {a b} h := by
    obtain ⟨hkey, hrevision, hdocument⟩ := isSame_iff_keys.1 h
    refine isSame_iff_keys.2 ⟨hkey.symm, hrevision.symm, ?_⟩
    rcases hdocument with hsame | ⟨d, e, hd, he, htree⟩
    · exact .inl hsame.symm
    · exact .inr ⟨e, d, he, hd, htree.symm⟩
  trans {a b c} h h' := by
    obtain ⟨hkey, hrevision, hdocument⟩ := isSame_iff_keys.1 h
    obtain ⟨hkey', hrevision', hdocument'⟩ := isSame_iff_keys.1 h'
    refine isSame_iff_keys.2 ⟨hkey.trans hkey', hrevision.trans hrevision', ?_⟩
    rcases hdocument with hsame | ⟨d, e, hd, he, htree⟩
    · rwa [hsame]
    · rcases hdocument' with hsame' | ⟨e', f, he', hf, htree'⟩
      · exact .inr ⟨d, e, hd, hsame' ▸ he, htree⟩
      · obtain rfl : e = e' := Option.some.inj (he.symm.trans he')
        exact .inr ⟨d, f, hd, hf, htree.trans htree'⟩

/-- The same nodes have the same hash and are identified by the same text. -/
theorem hash_eq_of_isSame (h : a.isSame b r = true) :
    hash a = hash b ∧ a.generatedId = b.generatedId := by
  obtain ⟨hkey, -, -⟩ := isSame_iff_keys.1 h
  exact ⟨congrArg (fun key : Int => hash key) hkey, congrArg (fun key : Int => toString key) hkey⟩

/-- Releasing a document separates its nodes from those of other documents, and no others. -/
theorem isSame_releaseDocument (a b : Node) (r : Registry) (id : Nat) :
    a.isSame b (Registry.releaseDocument id r).2 = true ↔ a.isSame b r = true ∧
      (a.document = b.document ∨ (a.document ≠ id ∧ b.document ≠ id)) := by
  rw [isSame_iff_keys, isSame_iff_keys]
  simp only [Registry.document?_releaseDocument]
  by_cases ha : a.document = id
  · by_cases hb : b.document = id
    · simp [ha, hb]
    · simp [ha, Ne.symm hb]
  · by_cases hb : b.document = id
    · simp [ha, hb]
    · simp [ha, hb]

end Node

/-- What is shared, and the mounts that have been handed out, in the order in which that was. -/
structure World where
  registry : Registry := {}
  mounts : List Mount := []

/-- What can happen to stores, pools and documents. A store goes by its position among the mounts
that were handed out. -/
inductive World.Event where
  /-- A store is made. -/
  | addStore (s : Store)
  /-- A copy of a store is handed out, which shares all that is stored. -/
  | clone (i : Nat)
  | addPool
  | openDocument (i revision pool : Nat) (config : Config)
  | openLatest (i pool : Nat) (config : Config)
  | setBaseUri (id : Nat) (uri : String)
  | releaseDocument (id : Nat)
  /-- Revisions are committed, and cursors opened, moved and closed, by whomever. -/
  | onStore (id : Nat) (work : StateM Store Unit)
  /-- Names are allocated and looked up. -/
  | onPool (id : Nat) (work : StateM NamePool Unit)

namespace World

/-- What an event makes of a world. -/
def step (w : World) : Event → World
  | .addStore s =>
    let (mount, registry) := Registry.addStore s w.registry
    ⟨registry, w.mounts ++ [mount]⟩
  | .clone i =>
    match w.mounts[i]? with
    | some m =>
      let (mount, registry) := Registry.remount m w.registry
      ⟨registry, w.mounts ++ [mount]⟩
    | none => w
  | .addPool => { w with registry := (Registry.addPool w.registry).2 }
  | .openDocument i revision pool config =>
    match w.mounts[i]? with
    | some m =>
      { w with registry := ((Registry.openDocument m revision pool config).run w.registry).2 }
    | none => w
  | .openLatest i pool config =>
    match w.mounts[i]? with
    | some m => { w with registry := ((Registry.openLatest m pool config).run w.registry).2 }
    | none => w
  | .setBaseUri id uri =>
    { w with
      registry := (Registry.modifyDocument id (fun d => { d with baseUri? := some uri })
        w.registry).2 }
  | .releaseDocument id => { w with registry := (Registry.releaseDocument id w.registry).2 }
  | .onStore id work => { w with registry := (Registry.onStore id work w.registry).2 }
  | .onPool id work => { w with registry := (Registry.onPool id work w.registry).2 }

/-- What a sequence of events makes of a world. -/
def run (w : World) (events : List Event) : World := events.foldl step w

/-- Mounts are told apart by their trees, and documents read mounts that were handed out. -/
structure Proper (w : World) : Prop where
  nodup : (w.mounts.map Mount.tree).Nodup
  tree_lt : ∀ m ∈ w.mounts, m.tree < w.registry.trees
  mount_mem : ∀ id d, w.registry.document? id = some d → d.mount ∈ w.mounts

variable {w : World}

theorem proper_empty : ({} : World).Proper where
  nodup := .nil
  tree_lt := nofun
  mount_mem id d h := by
    change (#[] : Array (Option Document))[id]?.join = some d at h
    simp at h

/-- A mount that is handed out is a new tree. -/
theorem Proper.hand_out (h : w.Proper) {registry : Registry} {mount : Mount}
    (htree : mount.tree = w.registry.trees) (htrees : registry.trees = w.registry.trees + 1)
    (hdocuments : registry.documents = w.registry.documents) :
    Proper ⟨registry, w.mounts ++ [mount]⟩ where
  nodup := by
    rw [List.map_append, List.map_singleton, List.nodup_append]
    refine ⟨h.nodup, List.pairwise_singleton _ _, fun tree hmem tree' hmem' heq => ?_⟩
    obtain ⟨m, hm, rfl⟩ := List.mem_map.1 hmem
    have hlt := h.tree_lt m hm
    rw [List.mem_singleton.1 hmem'] at heq
    omega
  tree_lt m hm := by
    change m.tree < registry.trees
    rcases List.mem_append.1 hm with hm | hm
    · have := h.tree_lt m hm
      omega
    · rw [List.mem_singleton.1 hm]
      omega
  mount_mem id d hd := by
    rw [Registry.document?, hdocuments] at hd
    exact List.mem_append_left _ (h.mount_mem id d hd)

/-- Without a new mount, nothing has to be shown but where documents come from. -/
theorem Proper.of_documents (h : w.Proper) {registry : Registry}
    (htrees : registry.trees = w.registry.trees)
    (hdocuments : ∀ id d, registry.document? id = some d → d.mount ∈ w.mounts) :
    Proper { w with registry } where
  nodup := h.nodup
  tree_lt m hm := htrees ▸ h.tree_lt m hm
  mount_mem := hdocuments

theorem Proper.opensOnly (h : w.Proper) {α : Type} {mount : Mount} {work : Access α}
    (hwork : Registry.OpensOnly mount work) (hmount : mount ∈ w.mounts) :
    Proper { w with registry := (work.run w.registry).2 } := by
  obtain ⟨htrees, hdocuments⟩ := hwork w.registry
  refine h.of_documents htrees fun id d hd => ?_
  rcases hdocuments id d hd with hd | rfl
  · exact h.mount_mem id d hd
  · exact hmount

theorem Proper.step (h : w.Proper) (event : Event) : (w.step event).Proper := by
  cases event with
  | addStore s => exact h.hand_out rfl rfl rfl
  | clone i =>
    cases hm : w.mounts[i]? with
    | some m =>
      simp only [World.step, hm]
      exact h.hand_out rfl rfl rfl
    | none =>
      simp only [World.step, hm]
      exact h
  | addPool => exact h.of_documents rfl h.mount_mem
  | openDocument i revision pool config =>
    cases hm : w.mounts[i]? with
    | some m =>
      simp only [World.step, hm]
      exact h.opensOnly (Registry.opens_openDocument m revision pool config).opensOnly
        (List.mem_of_getElem? hm)
    | none =>
      simp only [World.step, hm]
      exact h
  | openLatest i pool config =>
    cases hm : w.mounts[i]? with
    | some m =>
      simp only [World.step, hm]
      exact h.opensOnly (Registry.opens_openLatest m pool config).opensOnly
        (List.mem_of_getElem? hm)
    | none =>
      simp only [World.step, hm]
      exact h
  | setBaseUri id uri =>
    refine h.of_documents rfl fun other d hd => ?_
    rw [Registry.document?_modifyDocument] at hd
    split at hd
    · obtain ⟨d', hd', rfl⟩ := Option.map_eq_some_iff.1 hd
      exact h.mount_mem other d' hd'
    · exact h.mount_mem other d hd
  | releaseDocument id =>
    refine h.of_documents rfl fun other d hd => ?_
    rw [Registry.document?_releaseDocument] at hd
    split at hd
    · cases hd
    · exact h.mount_mem other d hd
  | onStore id work => exact h.of_documents rfl h.mount_mem
  | onPool id work => exact h.of_documents rfl h.mount_mem

theorem Proper.run (h : w.Proper) (events : List Event) : (w.run events).Proper := by
  induction events generalizing w with
  | nil => exact h
  | cons event events ih => exact ih (h.step event)

/-- A tree is handed out only once. -/
theorem Proper.tree_eq_iff (h : w.Proper) {i j : Nat} {m m' : Mount} (hi : w.mounts[i]? = some m)
    (hj : w.mounts[j]? = some m') : m.tree = m'.tree ↔ i = j := by
  have hi' : (w.mounts.map Mount.tree)[i]? = some m.tree := by rw [List.getElem?_map, hi]; rfl
  have hj' : (w.mounts.map Mount.tree)[j]? = some m'.tree := by rw [List.getElem?_map, hj]; rfl
  constructor
  · intro htree
    have hlt : i < (w.mounts.map Mount.tree).length := (List.getElem?_eq_some_iff.1 hi').1
    exact (List.getElem?_inj hlt h.nodup).1 (by rw [hi', hj', htree])
  · rintro rfl
    exact congrArg Mount.tree (Option.some.inj (hi.symm.trans hj))

/-- Nodes of documents that are open are the same if their keys and revisions agree, and their
documents read the same one of the stores that were handed out. -/
theorem Proper.isSame_iff (h : w.Proper) {a b : Node} {d e : Document}
    (hd : w.registry.document? a.document = some d)
    (he : w.registry.document? b.document = some e) {i j : Nat}
    (hi : w.mounts[i]? = some d.mount) (hj : w.mounts[j]? = some e.mount) :
    a.isSame b w.registry = true ↔
      a.handle.key = b.handle.key ∧ a.handle.revision = b.handle.revision ∧ i = j := by
  rw [Node.isSame_iff_keys, ← h.tree_eq_iff hi hj]
  refine and_congr_right fun _ => and_congr_right fun _ => ⟨?_, ?_⟩
  · rintro (hsame | ⟨d', e', hd', he', htree⟩)
    · rw [hsame] at hd
      rw [Option.some.inj (hd.symm.trans he)]
    · rwa [Option.some.inj (hd.symm.trans hd'), Option.some.inj (he.symm.trans he')]
  · intro htree
    exact .inr ⟨d, e, hd, he, htree⟩

/-- At all times, being the same is an equivalence relation on nodes, and the same nodes have the
same hash and are identified by the same text. Nodes of documents that are open are the same if
their keys and revisions agree and their documents read the same one of the stores that were handed
out. Releasing a document separates its nodes from those of other documents, and changes nothing
else. -/
theorem identity_of_nodes (events : List Event) :
    let w := run {} events
    (Equivalence fun a b : Node => a.isSame b w.registry = true) ∧
    (∀ a b : Node, a.isSame b w.registry = true →
      hash a = hash b ∧ a.generatedId = b.generatedId) ∧
    (∀ (a b : Node) (d e : Document), w.registry.document? a.document = some d →
      w.registry.document? b.document = some e →
      d.mount ∈ w.mounts ∧ e.mount ∈ w.mounts ∧
      ∀ i j : Nat, w.mounts[i]? = some d.mount → w.mounts[j]? = some e.mount →
        (a.isSame b w.registry = true ↔
          a.handle.key = b.handle.key ∧ a.handle.revision = b.handle.revision ∧ i = j)) ∧
    ∀ (id : Nat) (a b : Node), a.isSame b (w.step (.releaseDocument id)).registry = true ↔
      a.isSame b w.registry = true ∧
        (a.document = b.document ∨ (a.document ≠ id ∧ b.document ≠ id)) := by
  intro w
  have hw : w.Proper := proper_empty.run events
  refine ⟨Node.isSame_equivalence _, fun _ _ => Node.hash_eq_of_isSame, ?_,
    fun id a b => Node.isSame_releaseDocument a b w.registry id⟩
  intro a b d e hd he
  exact ⟨hw.mount_mem _ d hd, hw.mount_mem _ e he, fun i j => hw.isSame_iff hd he⟩

/-- A store with the small document and a copy of it, and three documents: two read the store and one
the copy. -/
def smallEvents : List Event :=
  [.addStore { revisions := #[.ofContent Node.smallContent] }, .clone 0, .addPool,
    .openDocument 0 0 0 {}, .openDocument 0 0 0 {}, .openLatest 1 0 {}]

/-- The element of the one document is that of the other as long as both are open. It is another one
than that of the copy. -/
theorem identity_of_nodes_copied :
    let w := run {} smallEvents
    (Node.smallNode 0 1).isSame (Node.smallNode 1 1) w.registry = true ∧
      (Node.smallNode 0 1).isSame (Node.smallNode 2 1) w.registry = false ∧
      (Node.smallNode 0 1).isSame (Node.smallNode 1 1)
        (w.step (.releaseDocument 1)).registry = false ∧
      (Node.smallNode 1 1).isSame (Node.smallNode 1 1)
        (w.step (.releaseDocument 1)).registry = true := by
  intro w
  obtain ⟨hequivalence, hhash, hsame, hrelease⟩ := identity_of_nodes smallEvents
  let d (tree number : Nat) : Document := ⟨⟨tree, 0⟩, 0, 0, none, number, {}⟩
  have h₀ : w.registry.document? 0 = some (d 0 0) := rfl
  have h₁ : w.registry.document? 1 = some (d 0 1) := rfl
  have h₂ : w.registry.document? 2 = some (d 1 2) := rfl
  have hfirst : w.mounts[0]? = some ⟨0, 0⟩ := rfl
  have hsecond : w.mounts[1]? = some ⟨1, 0⟩ := rfl
  obtain ⟨-, -, hone⟩ := hsame (Node.smallNode 0 1) (Node.smallNode 1 1) _ _ h₀ h₁
  obtain ⟨-, -, htwo⟩ := hsame (Node.smallNode 0 1) (Node.smallNode 2 1) _ _ h₀ h₂
  refine ⟨(hone 0 0 hfirst hfirst).2 ⟨rfl, rfl, rfl⟩, ?_, ?_, ?_⟩
  · rw [Bool.eq_false_iff]
    intro h
    exact absurd ((htwo 0 1 hfirst hsecond).1 h).2.2 (by decide)
  · rw [Bool.eq_false_iff]
    intro h
    rcases ((hrelease 1 _ _).1 h).2 with h | ⟨-, h⟩
    · exact absurd h (by decide)
    · exact h rfl
  · exact (hrelease 1 _ _).2 ⟨hequivalence.refl _, .inl rfl⟩

end World

end DocTree
