import DocTree.Proofs.NamePool.Growth
import Mathlib.Algebra.Group.Nat.Defs

/-!
# Codes that stand for names

A pool only grows: what has a number keeps it. So whatever happened to a pool in between, two codes
that it gave to names are equal exactly if the names are, and asking again gives the same code. The
parts of a code are small enough to lie side by side in a word of 32 bits with the sign bit free.

## Main definitions

- `NamePool.Call`, `NamePool.Reply` — what a pool is asked, and what it answers
- `NamePool.transcript` — a run of calls with their replies, failed ones included
- `NamePool.Codes` — a call for a code has it in a pool

## Main statements

- `NamePool.reply_spec` — what one call does
- `NamePool.codes_of_mem_transcript` — the codes of a run are those of the pool at its end
- `NamePool.transcript_codes_faithful` — codes stand for names
-/

namespace DocTree

namespace Interner

variable {α : Type} [BEq α] [Hashable α] {s s' s'' : Interner α} {a b : α} {i j limit : Nat}

/-- Numbers are equal exactly if what they are the numbers of is. -/
theorem eq_iff_of_find? (ha : s.find? a = some i) (hb : s.find? b = some j) : i = j ↔ a = b := by
  constructor
  · rintro rfl
    exact find?_injective ha hb
  · rintro rfl
    exact Option.some.inj (ha.symm.trans hb)

variable [LawfulBEq α] [LawfulHashable α]

theorem intern_of_room (h : s.find? a = none) (hroom : s.size < limit) :
    s.intern limit a = (some s.size, s.add a h) := by
  unfold intern
  split
  · next i hi => rw [h] at hi; cases hi
  · exact if_pos hroom

theorem intern_of_find? (h : s.find? a = some i) : s.intern limit a = (some i, s) := by
  unfold intern
  split
  · next j hj => rw [h] at hj; rw [Option.some.inj hj]
  · next hnone => rw [h] at hnone; cases hnone

/-- The interner only grows, not beyond the limit, and has the number that it gave. -/
theorem intern_spec (limit : Nat) (a : α) (hs : s.size ≤ limit) :
    s.Extends (s.intern limit a).2 ∧ (s.intern limit a).2.size ≤ limit ∧
      ∀ i, (s.intern limit a).1 = some i → (s.intern limit a).2.find? a = some i := by
  refine ⟨s.extends_intern limit a, ?_⟩
  unfold intern
  split
  · next i hi => exact ⟨hs, fun j hj => by rw [hi]; exact hj⟩
  · next hnone =>
    by_cases hroom : s.size < limit
    · rw [if_pos hroom]
      refine ⟨?_, ?_⟩
      · rw [size_add]
        exact hroom
      · intro i hi
        classical
        rw [find?_add, if_pos rfl, ← hi]
    · rw [if_neg hroom]
      refine ⟨hs, fun i hi => ?_⟩
      cases hi

end Interner

namespace NamePool

variable {p p' p'' : NamePool} {qualifier uri localPart : String}

/-- There are no more numbers than fit into their fields. -/
structure Bounded (p : NamePool) : Prop where
  names : p.names.size ≤ fingerprintLimit
  qualifiers : p.qualifiers.size ≤ qualifierLimit
  uris : p.uris.size ≤ uriLimit

theorem bounded_empty : Bounded empty := by
  have hnone : (Interner.empty : Interner String).find? "" = none := Interner.find?_empty ""
  refine ⟨Nat.zero_le _, ?_, ?_⟩
  · rw [show empty.qualifiers = Interner.empty.add "" hnone from rfl, Interner.size_add]
    decide
  · rw [show empty.uris = Interner.empty.add "" hnone from rfl, Interner.size_add]
    decide

/-- What a pool is asked. -/
inductive Call where
  /-- The name code of a name. -/
  | name (qualifier uri localPart : String)
  /-- The code of a namespace declaration. -/
  | namespaceDecl (qualifier uri : String)
  /-- The fingerprint of a name, if it has one. -/
  | fingerprint (uri localPart : String)
  /-- The name of a fingerprint. -/
  | expandedName (fingerprint : Int)

/-- What a pool answers. -/
inductive Reply where
  | code (code : Except AccessError Nat)
  | fingerprint (fingerprint? : Option Nat)
  | expandedName (name? : Option QName)

/-- The reply to a call, and the pool after it. -/
def reply (p : NamePool) : Call → Reply × NamePool
  | .name qualifier uri localPart =>
    let (code, p) := p.allocate qualifier uri localPart
    (.code code, p)
  | .namespaceDecl qualifier uri =>
    let (code, p) := p.allocateNamespace qualifier uri
    (.code code, p)
  | .fingerprint uri localPart => (.fingerprint (p.fingerprint? uri localPart), p)
  | .expandedName fingerprint => (.expandedName (p.expandedName? fingerprint), p)

/-- Whatever is asked, a pool only grows. -/
theorem extends_reply (p : NamePool) (call : Call) : p.Extends (p.reply call).2 := by
  cases call with
  | name qualifier uri localPart => exact p.extends_allocate qualifier uri localPart
  | namespaceDecl qualifier uri => exact p.extends_allocateNamespace qualifier uri
  | fingerprint uri localPart => exact .refl p
  | expandedName fingerprint => exact .refl p

/-- A run of calls: each call with its reply, and the pool at the end. -/
def transcript : List Call → NamePool → List (Call × Reply) × NamePool
  | [], p => ([], p)
  | call :: calls, p =>
    let (reply, p) := p.reply call
    let (log, p) := transcript calls p
    ((call, reply) :: log, p)

/-- The call is for a code, and in this pool that is `code`. -/
def Codes (p : NamePool) (code : Nat) : Call → Prop
  | .name qualifier uri localPart => ∃ k f, p.qualifiers.find? qualifier = some k ∧
      p.names.find? (uri, localPart) = some f ∧ code = k * fingerprintLimit + f
  | .namespaceDecl qualifier uri => ∃ k u, p.qualifiers.find? qualifier = some k ∧
      p.uris.find? uri = some u ∧ code = k * uriLimit + u
  | _ => False

theorem Codes.of_extends {code : Nat} {call : Call} (h : p.Codes code call) (hp : p.Extends p') :
    p'.Codes code call := by
  cases call with
  | name qualifier uri localPart =>
    obtain ⟨k, f, hk, hf, rfl⟩ := h
    exact ⟨k, f, hp.qualifiers _ _ hk, hp.names _ _ hf, rfl⟩
  | namespaceDecl qualifier uri =>
    obtain ⟨k, u, hk, hu, rfl⟩ := h
    exact ⟨k, u, hp.qualifiers _ _ hk, hp.uris _ _ hu, rfl⟩
  | fingerprint uri localPart => exact h
  | expandedName fingerprint => exact h

/-- What comes of asking for a code: the pool only grows, within its bounds, and a code that is given
is there afterwards. -/
structure Gives (p : NamePool) (answer : Except AccessError Nat × NamePool)
    (has : NamePool → Nat → Prop) : Prop where
  grows : p.Extends answer.2
  bounded : answer.2.Bounded
  has_code : ∀ code, answer.1 = .ok code → has answer.2 code

theorem codeOr_eq_ok_iff {field : String} {code? : Option Nat} {code : Nat} :
    codeOr field code? = .ok code ↔ code? = some code := by
  cases code? <;> simp [codeOr]

theorem gives_internName (h : p.Bounded) (uri localPart : String) :
    p.Gives (p.internName uri localPart) fun p f => p.names.find? (uri, localPart) = some f := by
  obtain ⟨hgrows, hsize, hfind⟩ := Interner.intern_spec fingerprintLimit (uri, localPart) h.names
  exact ⟨⟨hgrows, .refl _, .refl _⟩, ⟨hsize, h.qualifiers, h.uris⟩,
    fun f hf => hfind f (codeOr_eq_ok_iff.1 hf)⟩

theorem gives_internQualifier (h : p.Bounded) (qualifier : String) :
    p.Gives (p.internQualifier qualifier) fun p k => p.qualifiers.find? qualifier = some k := by
  obtain ⟨hgrows, hsize, hfind⟩ := Interner.intern_spec qualifierLimit qualifier h.qualifiers
  exact ⟨⟨.refl _, hgrows, .refl _⟩, ⟨h.names, hsize, h.uris⟩,
    fun k hk => hfind k (codeOr_eq_ok_iff.1 hk)⟩

theorem gives_internUri (h : p.Bounded) (uri : String) :
    p.Gives (p.internUri uri) fun p u => p.uris.find? uri = some u := by
  obtain ⟨hgrows, hsize, hfind⟩ := Interner.intern_spec uriLimit uri h.uris
  exact ⟨⟨.refl _, .refl _, hgrows⟩, ⟨h.names, h.qualifiers, hsize⟩,
    fun u hu => hfind u (codeOr_eq_ok_iff.1 hu)⟩

theorem Gives.fillBoth {first : Except AccessError Nat × NamePool}
    {second : NamePool → Except AccessError Nat × NamePool} (combine : Nat → Nat → Nat)
    {has has' : NamePool → Nat → Prop} (h : p.Gives first has)
    (h' : ∀ p : NamePool, p.Bounded → p.Gives (second p) has')
    (hstays : ∀ p p' : NamePool, p.Extends p' → ∀ a, has p a → has p' a) :
    p.Gives (fillBoth first second combine)
      fun p code => ∃ a b, has p a ∧ has' p b ∧ code = combine a b := by
  obtain ⟨e | a, p₁⟩ := first
  · exact ⟨h.grows, h.bounded, fun code hcode => nomatch hcode⟩
  · obtain ⟨hgrows, hbounded, hcode⟩ := h' p₁ h.bounded
    unfold NamePool.fillBoth
    dsimp only
    generalize second p₁ = answer at hgrows hbounded hcode
    obtain ⟨e | b, p₂⟩ := answer
    · exact ⟨h.grows.trans hgrows, hbounded, fun code hcode => nomatch hcode⟩
    · refine ⟨h.grows.trans hgrows, hbounded, ?_⟩
      intro code hok
      exact ⟨a, b, hstays _ _ hgrows a (h.has_code a rfl), hcode b rfl, (Except.ok.inj hok).symm⟩

theorem gives_allocate (h : p.Bounded) (qualifier uri localPart : String) :
    p.Gives (p.allocate qualifier uri localPart) fun p code =>
      p.Codes code (.name qualifier uri localPart) := by
  rw [allocate_eq]
  obtain ⟨hgrows, hbounded, hcode⟩ := (gives_internName h uri localPart).fillBoth
    (fun f k => k * fingerprintLimit + f) (fun p hp => gives_internQualifier hp qualifier)
    fun p p' hp f => hp.names _ f
  refine ⟨hgrows, hbounded, ?_⟩
  intro code hok
  obtain ⟨f, k, hf, hk, rfl⟩ := hcode code hok
  exact ⟨k, f, hk, hf, rfl⟩

theorem gives_allocateNamespace (h : p.Bounded) (qualifier uri : String) :
    p.Gives (p.allocateNamespace qualifier uri) fun p code =>
      p.Codes code (.namespaceDecl qualifier uri) := by
  rw [allocateNamespace_eq]
  exact (gives_internQualifier h qualifier).fillBoth (fun k u => k * uriLimit + u)
    (fun p hp => gives_internUri hp uri) fun p p' hp k => hp.qualifiers _ k

/-- One call: the pool only grows, within its bounds, and has the code that it gave. -/
theorem reply_spec (h : p.Bounded) (call : Call) :
    p.Extends (p.reply call).2 ∧ (p.reply call).2.Bounded ∧
      ∀ code, (p.reply call).1 = .code (.ok code) → (p.reply call).2.Codes code call := by
  cases call with
  | name qualifier uri localPart =>
    obtain ⟨hgrows, hbounded, hcodes⟩ := gives_allocate h qualifier uri localPart
    exact ⟨hgrows, hbounded, fun code hcode => hcodes code (Reply.code.inj hcode)⟩
  | namespaceDecl qualifier uri =>
    obtain ⟨hgrows, hbounded, hcodes⟩ := gives_allocateNamespace h qualifier uri
    exact ⟨hgrows, hbounded, fun code hcode => hcodes code (Reply.code.inj hcode)⟩
  | fingerprint uri localPart => exact ⟨.refl p, h, fun code hcode => nomatch hcode⟩
  | expandedName fingerprint => exact ⟨.refl p, h, fun code hcode => nomatch hcode⟩

/-- A code that a pool has is given again, and nothing else happens. -/
theorem reply_of_codes {code : Nat} {call : Call} (h : p.Codes code call) :
    p.reply call = (.code (.ok code), p) := by
  cases call with
  | name qualifier uri localPart =>
    obtain ⟨k, f, hk, hf, rfl⟩ := h
    simp [reply, allocate, internName, internQualifier, Interner.intern_of_find? hf,
      Interner.intern_of_find? hk, codeOr]
  | namespaceDecl qualifier uri =>
    obtain ⟨k, u, hk, hu, rfl⟩ := h
    simp [reply, allocateNamespace, internQualifier, internUri, Interner.intern_of_find? hk,
      Interner.intern_of_find? hu, codeOr]
  | fingerprint uri localPart => exact h.elim
  | expandedName fingerprint => exact h.elim

/-- A run: the pool only grows, within its bounds, and at the end it has all codes that were given on
the way. -/
theorem codes_of_mem_transcript (calls : List Call) (h : p.Bounded) :
    p.Extends (transcript calls p).2 ∧ (transcript calls p).2.Bounded ∧
      ∀ call code, (call, .code (.ok code)) ∈ (transcript calls p).1 →
        (transcript calls p).2.Codes code call := by
  induction calls generalizing p with
  | nil => exact ⟨.refl p, h, fun call code hmem => nomatch hmem⟩
  | cons first calls ih =>
    obtain ⟨hext, hbound, hcodes⟩ := reply_spec h first
    obtain ⟨hext', hbound', hcodes'⟩ := ih hbound
    refine ⟨hext.trans hext', hbound', ?_⟩
    intro call code hmem
    rcases List.mem_cons.1 hmem with heq | hmem
    · obtain ⟨rfl, hreply⟩ := Prod.mk.inj heq
      exact (hcodes code hreply.symm).of_extends hext'
    · exact hcodes' call code hmem

section Fields

variable {k k' f f' u u' code code' limit : Nat}

/-- Two fields side by side are equal exactly if each of them is. -/
theorem field_eq_iff (hf : f < limit) (hf' : f' < limit) :
    k * limit + f = k' * limit + f' ↔ k = k' ∧ f = f' := by
  constructor
  · intro h
    have hdiv := congrArg (· / limit) h
    have hmod := congrArg (· % limit) h
    have hpos : 0 < limit := by omega
    simp only [Nat.mul_comm _ limit, Nat.mul_add_div hpos, Nat.mul_add_mod, Nat.div_eq_of_lt hf,
      Nat.div_eq_of_lt hf', Nat.mod_eq_of_lt hf, Nat.mod_eq_of_lt hf', Nat.add_zero] at hdiv hmod
    exact ⟨hdiv, hmod⟩
  · rintro ⟨rfl, rfl⟩
    rfl

theorem and_fingerprintMask (hf : f < fingerprintLimit) :
    (k * fingerprintLimit + f) &&& fingerprintMask = f := by
  rw [show fingerprintMask = 2 ^ 20 - 1 from rfl, Nat.and_two_pow_sub_one_eq_mod,
    show fingerprintLimit = 2 ^ 20 from rfl, Nat.mul_comm, Nat.mul_add_mod]
  exact Nat.mod_eq_of_lt hf

theorem field_lt {m n : Nat} (hk : k < n) (hf : f < m) : k * m + f < n * m := by
  calc
    k * m + f < k * m + m := Nat.add_lt_add_left hf _
    _ = (k + 1) * m := (Nat.succ_mul k m).symm
    _ ≤ n * m := Nat.mul_le_mul_right m hk

/-- The sign bit of a word stays free: the code of a prefix has ten bits, and what stands below it
twenty at most. -/
theorem Codes.lt_two_pow {call : Call} (h : p.Codes code call) (hp : p.Bounded) :
    code < 2 ^ 31 := by
  cases call with
  | name qualifier uri localPart =>
    obtain ⟨k, f, hk, hf, rfl⟩ := h
    have hcode := field_lt (Nat.lt_of_lt_of_le (Interner.find?_lt hk) hp.qualifiers)
      (Nat.lt_of_lt_of_le (Interner.find?_lt hf) hp.names)
    exact Nat.lt_trans hcode (by decide)
  | namespaceDecl qualifier uri =>
    obtain ⟨k, u, hk, hu, rfl⟩ := h
    have hcode := field_lt (Nat.lt_of_lt_of_le (Interner.find?_lt hk) hp.qualifiers)
      (Nat.lt_of_lt_of_le (Interner.find?_lt hu) hp.uris)
    exact Nat.lt_trans hcode (by decide)
  | fingerprint uri localPart => exact h.elim
  | expandedName fingerprint => exact h.elim

end Fields

theorem map_fingerprint?_eq_some_iff (p : NamePool) (uri localPart : String) (f : Int) :
    (p.fingerprint? uri localPart).map Int.ofNat = some f ↔
      p.expandedName? f = some ⟨"", localPart, uri⟩ := by
  by_cases hf : 0 ≤ f
  · obtain ⟨k, rfl⟩ := Int.eq_ofNat_of_zero_le hf
    have hname : p.expandedName? k = some ⟨"", localPart, uri⟩ ↔
        p.names.value? k = some (uri, localPart) := by
      rcases hvalue : p.names.value? k with _ | ⟨uri', localPart'⟩
      · simp [expandedName?, hvalue]
      · simp [expandedName?, hvalue, and_comm]
    rw [hname, ← Interner.find?_eq_some_iff]
    constructor
    · intro h
      obtain ⟨j, hj, hjk⟩ := Option.map_eq_some_iff.1 h
      obtain rfl : j = k := Int.ofNat.inj hjk
      exact hj
    · intro h
      rw [fingerprint?, h]
      rfl
  · -- No fingerprint is negative, and a negative one has no name.
    constructor
    · intro h
      obtain ⟨j, -, rfl⟩ := Option.map_eq_some_iff.1 h
      exact absurd (Int.natCast_nonneg j) hf
    · intro h
      rw [expandedName?, if_neg hf] at h
      cases h

/-- After any run of calls, also of some that failed, name codes that were given are equal exactly if
qualifier, URI and local part are, and under the mask exactly if URI and local part are; namespace
codes are equal exactly if qualifier and URI are; every code fits into a signed word of 32 bits, where
it is not negative and does not end a list of codes; a call that got a code gets it again, and changes
nothing; and fingerprints and expanded names are inverse to each other. -/
theorem transcript_codes_faithful (calls : List Call) (log : List (Call × Reply)) (p : NamePool)
    (hlog : transcript calls empty = (log, p)) :
    (∀ q u l code q' u' l' code', (.name q u l, .code (.ok code)) ∈ log →
      (.name q' u' l', .code (.ok code')) ∈ log →
        (code = code' ↔ q = q' ∧ u = u' ∧ l = l') ∧
        (code &&& fingerprintMask = code' &&& fingerprintMask ↔ u = u' ∧ l = l')) ∧
    (∀ q u code q' u' code', (.namespaceDecl q u, .code (.ok code)) ∈ log →
      (.namespaceDecl q' u', .code (.ok code')) ∈ log → (code = code' ↔ q = q' ∧ u = u')) ∧
    (∀ call code, (call, .code (.ok code)) ∈ log →
      (Int32.ofNat code).toInt = code ∧ (code : Int) ≠ listEnd ∧
        p.reply call = (.code (.ok code), p)) ∧
    ∀ u l (f : Int), (p.fingerprint? u l).map Int.ofNat = some f ↔
      p.expandedName? f = some ⟨"", l, u⟩ := by
  obtain ⟨-, hbounded, hcodes⟩ := codes_of_mem_transcript calls bounded_empty
  rw [hlog] at hbounded hcodes
  refine ⟨?names, ?declarations, ?again, p.map_fingerprint?_eq_some_iff⟩
  case names =>
    intro q u l code q' u' l' code' h h'
    obtain ⟨k, f, hk, hf, rfl⟩ := hcodes _ code h
    obtain ⟨k', f', hk', hf', rfl⟩ := hcodes _ code' h'
    have hlt := Nat.lt_of_lt_of_le (Interner.find?_lt hf) hbounded.names
    have hlt' := Nat.lt_of_lt_of_le (Interner.find?_lt hf') hbounded.names
    rw [field_eq_iff hlt hlt', and_fingerprintMask hlt, and_fingerprintMask hlt',
      Interner.eq_iff_of_find? hk hk', Interner.eq_iff_of_find? hf hf', Prod.mk.injEq]
    exact ⟨Iff.rfl, Iff.rfl⟩
  case declarations =>
    intro q u code q' u' code' h h'
    obtain ⟨k, f, hk, hf, rfl⟩ := hcodes _ code h
    obtain ⟨k', f', hk', hf', rfl⟩ := hcodes _ code' h'
    have hlt := Nat.lt_of_lt_of_le (Interner.find?_lt hf) hbounded.uris
    have hlt' := Nat.lt_of_lt_of_le (Interner.find?_lt hf') hbounded.uris
    rw [field_eq_iff hlt hlt', Interner.eq_iff_of_find? hk hk', Interner.eq_iff_of_find? hf hf']
  case again =>
    intro call code h
    have hlt := (hcodes call code h).lt_two_pow hbounded
    refine ⟨Int32.toInt_ofNat_of_lt hlt, ?_, reply_of_codes (hcodes call code h)⟩
    show (code : Int) ≠ -1
    omega

/-- Two names that differ in their qualifiers only. -/
def sampleCalls : List Call := [.name "p" "u" "a", .name "q" "u" "a"]

/-- The two names have different codes with the same fingerprint, and the first code is given
again. -/
theorem transcript_codes_of_two_qualifiers :
    ∃ log p, transcript sampleCalls empty = (log, p) ∧
      (.name "p" "u" "a", .code (.ok (1 <<< 20))) ∈ log ∧
      (.name "q" "u" "a", .code (.ok (2 <<< 20))) ∈ log ∧
      1 <<< 20 &&& fingerprintMask = 2 <<< 20 &&& fingerprintMask ∧
      p.reply (.name "p" "u" "a") = (.code (.ok (1 <<< 20)), p) := by
  have hnames : empty.names.size = 0 := rfl
  have hqualifiers : empty.qualifiers.size = 1 := by
    simp only [empty, Interner.size_add]
    rfl
  have hname : empty.names.find? ("u", "a") = none := Interner.find?_empty _
  have hp : empty.qualifiers.find? "p" = none := by simp [empty, Interner.find?_add]
  have hq : (empty.qualifiers.add "p" hp).find? "q" = none := by
    simp [empty, Interner.find?_add]
  -- The first call numbers the name and its qualifier, the second one the other qualifier only.
  have hfirst : empty.reply (.name "p" "u" "a") = (.code (.ok (1 <<< 20)),
      ⟨empty.names.add _ hname, empty.qualifiers.add _ hp, empty.uris⟩) := by
    have hlimit : 0 < fingerprintLimit ∧ 1 < qualifierLimit := by decide
    simp [reply, allocate, internName, internQualifier, Interner.intern_of_room, hname, hp, codeOr,
      hnames, hqualifiers, hlimit]
    rfl
  have hsecond : reply ⟨empty.names.add _ hname, empty.qualifiers.add _ hp, empty.uris⟩
      (.name "q" "u" "a") = (.code (.ok (2 <<< 20)),
        ⟨empty.names.add _ hname, (empty.qualifiers.add _ hp).add _ hq, empty.uris⟩) := by
    have hfound : (empty.names.add _ hname).find? ("u", "a") = some 0 := by
      rw [Interner.find?_add, if_pos rfl, hnames]
    have hlimit : 2 < qualifierLimit := by decide
    simp [reply, allocate, internName, internQualifier, Interner.intern_of_room,
      Interner.intern_of_find? hfound, hq, codeOr, Interner.size_add, hqualifiers, hlimit]
    rfl
  have hlog : transcript sampleCalls empty =
      ([(.name "p" "u" "a", .code (.ok (1 <<< 20))), (.name "q" "u" "a", .code (.ok (2 <<< 20)))],
        ⟨empty.names.add _ hname, (empty.qualifiers.add _ hp).add _ hq, empty.uris⟩) := by
    simp only [transcript, sampleCalls, hfirst, hsecond]
  obtain ⟨hcodes, -, hagain, -⟩ := transcript_codes_faithful sampleCalls _ _ hlog
  refine ⟨_, _, hlog, by simp, by simp, ?_, ?_⟩
  · exact (hcodes "p" "u" "a" _ "q" "u" "a" _ (by simp) (by simp)).2.2 ⟨rfl, rfl⟩
  · exact (hagain _ _ (by simp)).2.2

end NamePool

end DocTree
