import DocTree.Proofs.NamePool.Parts
import DocTree.Proofs.Node.DocumentOrder
import DocTree.Proofs.Registry.Leaves

/-!
# Declared namespaces as they are delivered

The codes of the declarations of an element are written into a list from left to right. For each of
them the cursor leaves the element and returns. If it does not return, it stands on a declaration,
which has no declarations of its own; then the reading fails, unless all codes have been written.

A list that was lent may be longer than needed and keeps what it holds. A reader finds the end of the
codes all the same: after them comes a number that is no code.

## Main definitions

- `NamePool.allocateEach` — codes for declarations, one after the other
- `delivered` — codes in a list that was lent, or in a new one

## Main statements

- `Snapshot.IsTree.leaves_declaredCodes`, `Snapshot.yields_declaredCodes` — the codes of an element, with
  requests that may be refused, and with none that is
- `Node.declaredNamespaces_delivers` — what a node delivers
-/

namespace DocTree

namespace NamePool

variable {p p' p₁ : NamePool} {bindings : List (String × String)} {codes : List Nat}

/-- Codes for declarations, one after the other, as long as there are any. -/
def allocateEach : NamePool → List (String × String) → Except AccessError (List Nat) × NamePool
  | p, [] => (.ok [], p)
  | p, (qualifier, uri) :: bindings =>
    match p.allocateNamespace qualifier uri with
    | (.error e, p) => (.error e, p)
    | (.ok code, p) =>
      let (codes, p) := p.allocateEach bindings
      (codes.map (code :: ·), p)

theorem allocateEach_cons_of_ok {binding : String × String} {code : Nat}
    (h : p.allocateNamespace binding.1 binding.2 = (.ok code, p₁)) :
    p.allocateEach (binding :: bindings) =
      ((p₁.allocateEach bindings).1.map (code :: ·), (p₁.allocateEach bindings).2) := by
  simp only [allocateEach, h]

theorem allocateEach_cons_of_error {binding : String × String} {e : AccessError}
    (h : p.allocateNamespace binding.1 binding.2 = (.error e, p₁)) :
    p.allocateEach (binding :: bindings) = (.error e, p₁) := by
  simp only [allocateEach, h]

/-- If each declaration got a code, the first one did, and then the others. -/
theorem allocateEach_cons_eq_ok {binding : String × String}
    (h : p.allocateEach (binding :: bindings) = (.ok codes, p')) :
    ∃ code p₁ codes', p.allocateNamespace binding.1 binding.2 = (.ok code, p₁) ∧
      p₁.allocateEach bindings = (.ok codes', p') ∧ codes = code :: codes' := by
  rcases hfirst : p.allocateNamespace binding.1 binding.2 with ⟨e | code, p₁⟩
  · rw [allocateEach_cons_of_error hfirst] at h
    cases h
  · rw [allocateEach_cons_of_ok hfirst] at h
    rcases hrest : p₁.allocateEach bindings with ⟨e | codes', p₂⟩
    · rw [hrest] at h
      cases h
    · rw [hrest] at h
      cases h
      exact ⟨code, p₁, codes', rfl, hrest, rfl⟩

/-- The codes that were given one after the other are all there at the end. -/
theorem codes_of_allocateEach (h : p.allocateEach bindings = (.ok codes, p')) :
    p.Extends p' ∧
      List.Forall₂ (fun b code => p'.Codes code (.namespaceDecl b.1 b.2)) bindings codes := by
  induction bindings generalizing p codes with
  | nil =>
    cases h
    exact ⟨.refl _, .nil⟩
  | cons binding bindings ih =>
    obtain ⟨code, p₁, codes, hfirst, hrest, rfl⟩ := allocateEach_cons_eq_ok h
    have hgrows := p.extends_allocateNamespace binding.1 binding.2
    rw [hfirst] at hgrows
    obtain ⟨hgrows', hcodes⟩ := ih hrest
    have hcode := (codes_of_allocateNamespace hfirst).of_extends hgrows'
    exact ⟨hgrows.trans hgrows', .cons hcode hcodes⟩

theorem length_of_allocateEach (h : p.allocateEach bindings = (.ok codes, p')) :
    codes.length = bindings.length :=
  (codes_of_allocateEach h).2.length_eq.symm

/-- What has a code gets it whenever it asks. -/
theorem allocateNamespace_of_codes {qualifier uri : String} {code : Nat}
    (h : p.Codes code (.namespaceDecl qualifier uri)) :
    p.allocateNamespace qualifier uri = (.ok code, p) := by
  have hreply := reply_of_codes h
  simp only [reply, Prod.mk.injEq, Reply.code.injEq] at hreply
  exact Prod.ext hreply.1 hreply.2

/-- However a pool grows afterwards, the codes are given again. -/
theorem again_of_allocateEach (h : p.allocateEach bindings = (.ok codes, p')) {later : NamePool}
    (hlater : p'.Extends later) :
    List.Forall₂ (fun b code => later.allocateNamespace b.1 b.2 = (.ok code, later)) bindings codes :=
  (codes_of_allocateEach h).2.imp fun _ _ hcode =>
    allocateNamespace_of_codes (hcode.of_extends hlater)

end NamePool

section Delivered

variable {lent? : Option (List Int)} {lent : List Int} {codes : List Nat} {n : Nat}

theorem codeBuffer_of_room (h : n ≤ lent.length) : codeBuffer (some lent) n = lent := by
  simp [codeBuffer, h]

theorem codeBuffer_of_no_room (h : ∀ lent, lent? = some lent → lent.length < n) :
    codeBuffer lent? n = List.replicate n 0 := by
  cases lent? with
  | none => rfl
  | some lent => simp [codeBuffer, h lent rfl]

/-- Lent or new, the list has room. -/
theorem le_length_codeBuffer (lent? : Option (List Int)) (n : Nat) :
    n ≤ (codeBuffer lent? n).length := by
  by_cases hroom : ∃ lent, lent? = some lent ∧ n ≤ lent.length
  · obtain ⟨lent, rfl, hn⟩ := hroom
    rwa [codeBuffer_of_room hn]
  · have hshort : ∀ lent, lent? = some lent → lent.length < n := fun lent hlent =>
      Nat.lt_of_not_le fun hn => hroom ⟨lent, hlent, hn⟩
    rw [codeBuffer_of_no_room hshort, List.length_replicate]

/-- Codes at the beginning of the list that was lent, or of a new one, with the end after them if there
is room for it. Without codes there is no need for a list. -/
def delivered (lent? : Option (List Int)) (codes : List Nat) : List Int :=
  if codes = [] then []
  else codes.map (↑) ++
    ((codeBuffer lent? codes.length).drop codes.length).modifyHead fun _ => NamePool.listEnd

/-- Up to the end there are just the codes, as no code ends a list. -/
theorem takeWhile_delivered (lent? : Option (List Int)) (codes : List Nat) :
    (delivered lent? codes).takeWhile (· ≠ NamePool.listEnd) = codes.map (↑) := by
  have hcodes : ∀ code ∈ codes.map ((↑) : Nat → Int), decide (code ≠ NamePool.listEnd) = true := by
    intro code hcode
    obtain ⟨n, -, rfl⟩ := List.mem_map.1 hcode
    simp [NamePool.listEnd]
  unfold delivered
  split
  · next hnil => simp [hnil]
  · rw [List.takeWhile_append_of_pos hcodes]
    cases (codeBuffer lent? codes.length).drop codes.length <;> simp

/-- A list that was lent keeps its length, and what it holds behind the end. -/
theorem delivered_of_room (hcodes : codes ≠ []) (hroom : codes.length ≤ lent.length) :
    (delivered (some lent) codes).length = lent.length ∧
      (delivered (some lent) codes).drop (codes.length + 1) = lent.drop (codes.length + 1) := by
  rw [delivered, if_neg hcodes, codeBuffer_of_room hroom]
  constructor
  · simp only [List.length_append, List.length_map, List.length_modifyHead, List.length_drop]
    omega
  · simp [List.drop_append, List.drop_modifyHead_of_pos]

/-- What a list is made into that begins with the codes. -/
theorem ended_eq_delivered (lent? : Option (List Int)) (hcodes : codes.length ≠ 0) :
    let list := [] ++ codes.map (↑) ++ (codeBuffer lent? codes.length).drop codes.length
    (if codes.length < list.length then list.set codes.length NamePool.listEnd else list) =
      delivered lent? codes := by
  have hnil : codes ≠ [] := by simpa using hcodes
  rw [delivered, if_neg hnil]
  cases (codeBuffer lent? codes.length).drop codes.length <;> simp

theorem length_delivered_of_no_room
    (hshort : ∀ lent, lent? = some lent → lent.length < codes.length) :
    (delivered lent? codes).length = codes.length := by
  unfold delivered
  split
  · next hnil => simp [hnil]
  · simp [codeBuffer_of_no_room hshort]

end Delivered

namespace Snapshot

open Reading

variable {t : Snapshot} {owner here k : Nat} {bindings : List (String × String)}
  {pool pool' : NamePool} {given : List Nat}

/-- The node at `n` tells a declaration. -/
def Declares (t : Snapshot) (n : Nat) (binding : String × String) : Prop :=
  t.name? n = some ⟨"", binding.1, binding.2⟩

theorem IsTree.namespaces_of_mem (h : t.IsTree) {j : Nat} (hj : j ∈ t.namespaces k) :
    t.namespaces j = [] := by
  refine h.namespaces_of_not_element ?_
  simp [(h.mem_namespaces_iff.1 hj).1]

theorem set_written (written free kept : List Int) (place code : Int) :
    (written ++ place :: free ++ kept).set written.length code =
      written ++ [code] ++ free ++ kept := by
  simp

/-- The next declaration that is told is the next one of the owner. -/
theorem getElem?_of_declares {index : Nat} {binding : String × String} {keys : List Nat}
    (h : List.Forall₂ t.Declares (keys.drop index) (binding :: bindings)) :
    ∃ n, keys[index]? = some n ∧ t.name? n = some ⟨"", binding.1, binding.2⟩ ∧
      List.Forall₂ t.Declares (keys.drop (index + 1)) bindings := by
  obtain ⟨n, ns, hname, hrest, hdrop⟩ := List.forall₂_cons_right_iff.1 h
  refine ⟨n, ?_, hname, ?_⟩
  · rw [← List.head?_drop, hdrop]
    rfl
  · rwa [← List.tail_drop, hdrop, List.tail_cons]

/-- Codes are written from left to right. If the cursor does not return to the owner, it stands on a
declaration, where there is nothing more to write. -/
theorem IsTree.leaves_writeCodes (h : t.IsTree) (written : List Int) {free kept : List Int}
    (htold : List.Forall₂ t.Declares ((t.namespaces owner).drop written.length) bindings)
    (hfree : free.length = bindings.length) (hhere : here = owner ∨ t.namespaces here = []) :
    (t.writeCodes owner bindings.length written.length here pool (written ++ free ++ kept)).Leaves
      (fun codes pool' => ∃ given, pool.allocateEach bindings = (.ok given, pool') ∧
        codes = written ++ given.map (↑) ++ kept) pool := by
  induction bindings generalizing written free here pool with
  | nil =>
    obtain rfl := List.length_eq_zero_iff.1 hfree
    exact ⟨[], rfl, by simp⟩
  | cons binding bindings ih =>
    obtain ⟨place, free, rfl⟩ := List.exists_cons_of_length_eq_add_one hfree
    obtain ⟨n, hn, hname, hrest⟩ := getElem?_of_declares htold
    rw [List.length_cons, writeCodes]
    rcases hhere with rfl | hnone
    · simp only [hn]
      rintro (_ | _)
      · trivial
      · simp only [hname]
        rcases hcode : pool.allocateNamespace binding.1 binding.2 with ⟨e | code, p₁⟩
        · trivial
        · intro returned
          have hlength : written.length + 1 = (written ++ [(code : Int)]).length := by simp
          show (t.writeCodes here bindings.length (written.length + 1) (if returned then here else n)
            p₁ ((written ++ place :: free ++ kept).set written.length code)).Leaves _ p₁
          rw [set_written, hlength]
          rw [hlength] at hrest
          refine (ih _ hrest (Nat.succ.inj hfree) ?_).mono ?_
          · cases returned
            · exact .inr (h.namespaces_of_mem (List.mem_of_getElem? hn))
            · exact .inl rfl
          · rintro codes pool' ⟨given, hgiven, rfl⟩
            refine ⟨code :: given, ?_, by simp⟩
            rw [NamePool.allocateEach_cons_of_ok hcode, hgiven]
            rfl
    · simp only [hnone, List.getElem?_nil]
      exact fun _ => trivial

/-- A cursor that is refused nothing writes all codes, and is back at the owner then. -/
theorem yields_writeCodes (written : List Int) {free kept : List Int}
    (htold : List.Forall₂ t.Declares ((t.namespaces owner).drop written.length) bindings)
    (hfree : free.length = bindings.length)
    (h : pool.allocateEach bindings = (.ok given, pool')) :
    (t.writeCodes owner bindings.length written.length owner pool (written ++ free ++ kept)).Yields
      pool owner (written ++ given.map (↑) ++ kept) pool' owner := by
  induction bindings generalizing written free pool given with
  | nil =>
    cases h
    obtain rfl := List.length_eq_zero_iff.1 hfree
    rw [List.length_nil, writeCodes]
    simpa using Yields.done (written ++ kept) pool' owner
  | cons binding bindings ih =>
    obtain ⟨place, free, rfl⟩ := List.exists_cons_of_length_eq_add_one hfree
    obtain ⟨n, hn, hname, hrest⟩ := getElem?_of_declares htold
    obtain ⟨code, p₁, given, hcode, hgiven, rfl⟩ := NamePool.allocateEach_cons_eq_ok h
    have hlength : written.length + 1 = (written ++ [(code : Int)]).length := by simp
    rw [hlength] at hrest
    have hwritten := ih _ hrest (Nat.succ.inj hfree) hgiven
    rw [List.length_cons, writeCodes]
    simp only [hn]
    refine (Yields.ask (some n) pool owner).bind ?_
    simp only [Option.isSome_some, if_true, hname, hcode]
    refine (Yields.keep pool p₁ n).bind ?_
    refine (Yields.ask (some owner) p₁ n).bind ?_
    simp only [Option.isSome_some, if_true]
    rw [set_written, hlength]
    simpa using hwritten

theorem IsTree.leaves_declaredCodes (h : t.IsTree)
    (htold : List.Forall₂ t.Declares (t.namespaces k) bindings) (lent? : Option (List Int)) :
    (t.declaredCodes lent? pool k).Leaves (fun codes pool' => ∃ given,
      pool.allocateEach bindings = (.ok given, pool') ∧ codes = delivered lent? given) pool := by
  unfold declaredCodes
  dsimp only
  rw [htold.length_eq]
  split
  · next hnone =>
    obtain rfl := List.length_eq_zero_iff.1 hnone
    exact ⟨[], rfl, rfl⟩
  · next hsome =>
    let buffer := codeBuffer lent? bindings.length
    have hwritten : (t.writeCodes k bindings.length 0 k pool
        ([] ++ buffer.take bindings.length ++ buffer.drop bindings.length)).Leaves
          (fun codes pool' => ∃ given, pool.allocateEach bindings = (.ok given, pool') ∧
            codes = [] ++ given.map (↑) ++ buffer.drop bindings.length) pool :=
      h.leaves_writeCodes [] htold
        (List.length_take_of_le (le_length_codeBuffer lent? bindings.length)) (.inl rfl)
    rw [List.nil_append, List.take_append_drop] at hwritten
    refine (hwritten.mono ?_).bind
    rintro codes pool' ⟨given, hgiven, rfl⟩
    refine ⟨given, hgiven, ?_⟩
    simp only [buffer]
    have hlength := NamePool.length_of_allocateEach hgiven
    rw [← hlength] at hsome ⊢
    exact ended_eq_delivered lent? hsome

theorem yields_declaredCodes (htold : List.Forall₂ t.Declares (t.namespaces k) bindings)
    (lent? : Option (List Int)) (h : pool.allocateEach bindings = (.ok given, pool')) :
    (t.declaredCodes lent? pool k).Yields pool k (delivered lent? given) pool' k := by
  have hlength := NamePool.length_of_allocateEach h
  unfold declaredCodes
  dsimp only
  rw [htold.length_eq]
  split
  · next hnone =>
    obtain rfl := List.length_eq_zero_iff.1 hnone
    cases h
    exact .done [] _ k
  · next hsome =>
    let buffer := codeBuffer lent? bindings.length
    have hwritten : (t.writeCodes k bindings.length 0 k pool
        ([] ++ buffer.take bindings.length ++ buffer.drop bindings.length)).Yields pool k
          ([] ++ given.map (↑) ++ buffer.drop bindings.length) pool' k :=
      yields_writeCodes [] htold
        (List.length_take_of_le (le_length_codeBuffer lent? bindings.length)) h
    rw [List.nil_append, List.take_append_drop] at hwritten
    refine hwritten.bind ?_
    simp only [buffer]
    rw [← hlength] at hsome ⊢
    rw [← ended_eq_delivered lent? hsome]
    exact .done _ pool' k

end Snapshot

namespace Node

variable {x : Node} {r : Registry} {mount : Mount} {revision k : Nat} {c : Content} {d : Document}
  {lent? : Option (List Int)}

/-- What a cursor on the node sees. -/
theorem At.view (hx : x.At r mount revision c k) (hd : r.document? x.document = some d)
    (htells : (r.store mount.store).hidesNames = false) :
    (r.store d.mount.store).view? d.revision = some (Snapshot.ofContent c) ∧
      k < (Snapshot.ofContent c).size := by
  obtain ⟨d', hd', rfl, rfl⟩ := hx.document
  obtain rfl : d = d' := Option.some.inj (hd.symm.trans hd')
  refine ⟨?_, hx.lt_size⟩
  rw [Store.view?_of_committed hx.committed, htells]
  rfl

theorem At.kind_eq_element (hx : x.At r mount revision c k) {head : ElementHead}
    {body next : Content} {parent : Nat} {left : Option Nat}
    (hplaces : c.Places (.element head body next) parent k left) : x.handle.kind = .element := by
  rw [hx.kind_eq false, c.kind_seen, Snapshot.kind, hplaces.node_element]

theorem run_declaredNamespaces (hd : r.document? x.document = some d)
    (hkind : x.handle.kind = .element) (lent? : Option (List Int)) :
    (x.declaredNamespaces lent?).run r =
      let read := (d.readNaming x.handle.key fun pool t here =>
        t.declaredCodes lent? pool here).run r
      (read.1.map some, read.2) := by
  rw [declaredNamespaces, if_pos hkind, Access.run_bind_of_ok (run_getDocument hd)]
  exact Access.run_bind_pure _ some r

theorem run_declaredNamespaces_of_not_element (hkind : x.handle.kind ≠ .element)
    (lent? : Option (List Int)) : (x.declaredNamespaces lent?).run r = (.ok none, r) := by
  rw [declaredNamespaces, if_neg hkind]
  rfl

section Element

variable {head : ElementHead} {body next : Content} {parent : Nat} {left : Option Nat}
  {given : List Nat} {pool : NamePool}

/-- If an element delivers anything, then a list with the codes of its declarations. -/
theorem At.delivered_of_ok (hx : x.At r mount revision c k)
    (hd : r.document? x.document = some d) (htells : (r.store mount.store).hidesNames = false)
    (hplaces : c.Places (.element head body next) parent k left) {answer : Option (List Int)}
    {r' : Registry} (hrun : (x.declaredNamespaces lent?).run r = (.ok answer, r')) :
    ∃ given pool, answer = some (delivered lent? given) ∧
      (r.pool d.pool).allocateEach head.namespaces = (.ok given, pool) ∧
      (d.pool < r.pools.size → r'.pool d.pool = pool) := by
  obtain ⟨hview, hk⟩ := hx.view hd htells
  rw [run_declaredNamespaces hd (hx.kind_eq_element hplaces), hx.key_eq] at hrun
  rcases hread : (d.readNaming k fun pool t here => t.declaredCodes lent? pool here).run r with
    ⟨e | codes, r₁⟩
  · rw [hread] at hrun
    cases hrun
  · rw [hread] at hrun
    cases hrun
    obtain ⟨pool, ⟨given, hgiven, rfl⟩, hpool⟩ := Document.leaves_readNaming hview hk
      ((Snapshot.isTree_ofContent c).leaves_declaredCodes hplaces.forall₂_namespaces lent?) hread
    exact ⟨given, pool, rfl, hgiven, hpool⟩

/-- An undisturbed element delivers the codes of its declarations if the pool has them. -/
theorem At.answer_declaredNamespaces (hx : x.At r mount revision c k)
    (hd : r.document? x.document = some d) (htells : (r.store mount.store).hidesNames = false)
    (hplaces : c.Places (.element head body next) parent k left)
    (hgiven : (r.pool d.pool).allocateEach head.namespaces = (.ok given, pool))
    (h : (x.declaredNamespaces lent?).Undisturbed r) :
    (x.declaredNamespaces lent?).answer r = .ok (some (delivered lent? given)) := by
  obtain ⟨hview, hk⟩ := hx.view hd htells
  have helement := hx.kind_eq_element hplaces
  have hread : (d.readNaming k fun pool t here => t.declaredCodes lent? pool here).Undisturbed r := by
    intro id
    have hid := h id
    rwa [run_declaredNamespaces hd helement, hx.key_eq] at hid
  have hanswer := Document.answer_readNaming hview hk
    (Snapshot.yields_declaredCodes hplaces.forall₂_namespaces lent? hgiven) hread
  rw [Access.answer, run_declaredNamespaces hd helement, hx.key_eq]
  exact congrArg (Except.map some) hanswer

end Element

/-- A node that is no element delivers no list, and nobody looks whether its document is still open. Of
an open document in a store that tells names, the nodes that are no elements deliver no list. If an
element delivers one, then up to its end it has the codes that the pool gives to the declarations of the
element one after the other, and to each of them ever after. A list that was lent is used if it has room
for them, and keeps what it holds behind the end; else the list is a new one, with no more than the
codes. An element does deliver a list if nothing is refused and the pool has the codes. -/
theorem declaredNamespaces_delivers (x : Node) (lent? : Option (List Int)) :
    (x.handle.kind ≠ .element → ∀ r, (x.declaredNamespaces lent?).run r = (.ok none, r)) ∧
    ∀ {r : Registry} {mount : Mount} {revision : Nat} {c : Content} {k : Nat} {d : Document},
    x.At r mount revision c k → r.document? x.document = some d →
    (r.store mount.store).hidesNames = false →
    ((Snapshot.ofContent c).kind k ≠ .element →
      (x.declaredNamespaces lent?).run r = (.ok none, r)) ∧
    ∀ head body next parent left, c.Places (.element head body next) parent k left →
      let n := head.namespaces.length
      (∀ answer r', (x.declaredNamespaces lent?).run r = (.ok answer, r') →
        ∃ codes given pool, answer = some codes ∧
          (r.pool d.pool).allocateEach head.namespaces = (.ok given, pool) ∧
          codes.takeWhile (· ≠ NamePool.listEnd) = given.map (↑) ∧
          (∀ lent, lent? = some lent → 0 < n → n ≤ lent.length →
            codes.length = lent.length ∧ codes.drop (n + 1) = lent.drop (n + 1)) ∧
          ((∀ lent, lent? = some lent → lent.length < n) → codes.length = n) ∧
          (n = 0 → codes = []) ∧
          (d.pool < r.pools.size → r'.pool d.pool = pool) ∧
          ∀ later, pool.Extends later → List.Forall₂
            (fun b code => later.allocateNamespace b.1 b.2 = (.ok code, later))
            head.namespaces given) ∧
      ((x.declaredNamespaces lent?).Undisturbed r → ∀ given pool,
        (r.pool d.pool).allocateEach head.namespaces = (.ok given, pool) →
          ∃ codes, (x.declaredNamespaces lent?).answer r = .ok (some codes)) := by
  refine ⟨fun hother r => run_declaredNamespaces_of_not_element hother lent?, ?opened⟩
  intro r mount revision c k d hx hd htells
  refine ⟨?others, ?elements⟩
  case others =>
    intro hother
    rw [← c.kind_seen false, ← hx.kind_eq] at hother
    exact run_declaredNamespaces_of_not_element hother lent?
  case elements =>
    intro head body next parent left hplaces n
    refine ⟨?codes, ?answers⟩
    case codes =>
      intro answer r' hrun
      obtain ⟨given, pool, rfl, hgiven, hpool⟩ := hx.delivered_of_ok hd htells hplaces hrun
      have hlength : given.length = n := NamePool.length_of_allocateEach hgiven
      rw [← hlength]
      refine ⟨_, given, pool, rfl, hgiven, takeWhile_delivered lent? given, ?room, ?noRoom, ?none,
        hpool, fun later => NamePool.again_of_allocateEach hgiven⟩
      case room =>
        rintro lent rfl hpos hroom
        exact delivered_of_room (List.length_pos_iff.1 hpos) hroom
      case noRoom => exact length_delivered_of_no_room
      case none =>
        intro hnone
        rw [List.length_eq_zero_iff.1 hnone]
        rfl
    case answers =>
      intro h given pool hgiven
      exact ⟨_, hx.answer_declaredNamespaces hd htells hplaces hgiven h⟩

/-- An element that declares one thing twice. -/
def declaringContent : Content :=
  .element { name := .ofLocal "a", namespaces := [("p", "u"), ("p", "u")] } .nil .nil

/-- In a new pool, each part of the declaration gets the number one. -/
theorem allocateNamespace_empty :
    ∃ pool, NamePool.empty.allocateNamespace "p" "u" = (.ok 65537, pool) := by
  have hsizes : NamePool.empty.qualifiers.size = 1 ∧ NamePool.empty.uris.size = 1 := by
    simp only [NamePool.empty, Interner.size_add]
    exact ⟨rfl, rfl⟩
  have hp : NamePool.empty.qualifiers.find? "p" = none := by
    simp [NamePool.empty, Interner.find?_add]
  have hu : NamePool.empty.uris.find? "u" = none := by simp [NamePool.empty, Interner.find?_add]
  have hlimits : 1 < NamePool.qualifierLimit ∧ 1 < NamePool.uriLimit := by decide
  simp [NamePool.allocateNamespace, NamePool.internQualifier, NamePool.internUri,
    Interner.intern_of_room, hp, hu, NamePool.codeOr, hsizes, hlimits, NamePool.uriLimit]

/-- The code is delivered twice, and the list keeps its last two entries. -/
theorem declaredNamespaces_delivers_twice :
    let r : Registry :=
      { smallRegistry with
        stores := #[{ revisions := #[.ofContent declaringContent] }]
        pools := #[.empty] }
    let node : Node := ⟨(declaringContent.seen false).handle 0 1, 0⟩
    ∃ codes, (node.declaredNamespaces (some [7, 7, 7, 8, 9])).answer r = .ok (some codes) ∧
      codes.takeWhile (· ≠ NamePool.listEnd) = [65537, 65537] ∧ codes.drop 3 = [8, 9] := by
  intro r node
  have hat : node.At r ⟨0, 0⟩ 0 declaringContent 1 :=
    ⟨⟨_, rfl, rfl, rfl⟩, rfl, ⟨false, rfl⟩, by decide⟩
  obtain ⟨pool, hfirst⟩ := allocateNamespace_empty
  have hgiven : (r.pool 0).allocateEach [("p", "u"), ("p", "u")] =
      (.ok [65537, 65537], pool) := by
    have hsecond := NamePool.allocateNamespace_of_codes (NamePool.codes_of_allocateNamespace hfirst)
    show NamePool.empty.allocateEach _ = _
    rw [NamePool.allocateEach_cons_of_ok hfirst, NamePool.allocateEach_cons_of_ok hsecond]
    rfl
  obtain ⟨-, hopened⟩ := declaredNamespaces_delivers node (some [7, 7, 7, 8, 9])
  obtain ⟨-, helements⟩ := hopened hat (d := smallDocument ⟨0, 0⟩) rfl rfl
  obtain ⟨hcodes, hanswers⟩ := helements _ _ _ _ _ .document
  obtain ⟨codes, hanswer⟩ := hanswers (Access.undisturbed_of_single _ rfl rfl) _ _ hgiven
  obtain ⟨codes', given, pool', hsome, hgiven', hread, hroom, -⟩ :=
    hcodes _ _ (Access.run_of_answer hanswer)
  obtain rfl := Option.some.inj hsome
  have hequal : (.ok given : Except AccessError (List Nat)) = .ok [65537, 65537] :=
    congrArg Prod.fst (hgiven'.symm.trans hgiven)
  rw [Except.ok.inj hequal] at hread
  obtain ⟨-, hkept⟩ := hroom _ rfl (by decide) (by decide)
  exact ⟨codes, hanswer, hread, hkept⟩

end Node

end DocTree
