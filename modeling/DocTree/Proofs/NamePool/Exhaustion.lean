import DocTree.Proofs.NamePool.Parts

/-!
# Pools that run out of codes

The log of a run tells which parts have been interned: what a call asked for first, unless there was
no code left for that, and what it asked for second, if it got its code. A call for a code is refused
exactly if one of its parts is not interned and its field is full, and no number of a field is left out
before that.

A refused call may have had its first part numbered. It goes unnoticed unless it has.

## Main definitions

- `NamePool.Interned`, `NamePool.Exhausted` — what the log of a run tells
- `NamePool.AnswersAlike` — two pools between which no further call makes a difference

## Main statements

- `NamePool.Records.transcript` — a pool after a run knows what the log of the run tells
- `NamePool.allocation_refused_iff` — when there is no code
- `NamePool.refused_call_unnoticed_iff` — what a refused call leaves behind
-/

namespace DocTree

namespace NamePool

variable {p p' : NamePool} {x first second : Part} {call : Call} {log : List (Call × Reply)}

/-- A call with this reply has had the part interned: the part that it asks for first, unless the
reply is that there is no code left for that, or the second one, if the reply is a code. -/
def Call.Interns (call : Call) (reply : Reply) (x : Part) : Prop :=
  ∃ first second answer, call.parts? = some (first, second) ∧ reply = .code answer ∧
    (x = first ∧ answer ≠ .error (.namePoolExhausted first.field) ∨
      x = second ∧ ∃ code, answer = .ok code)

/-- The part has been interned in a run with this log, or was so from the start. -/
def Interned (log : List (Call × Reply)) (x : Part) : Prop :=
  x = .qualifier "" ∨ x = .uri "" ∨ ∃ entry ∈ log, entry.1.Interns entry.2 x

/-- After a run with this log the part is not interned, and as many parts of its kind are as there are
codes for them. -/
def Exhausted (log : List (Call × Reply)) (x : Part) : Prop :=
  ¬Interned log x ∧ {y | Interned log y ∧ y.field = x.field}.ncard = x.limit

theorem interned_append (log : List (Call × Reply)) (call : Call) (reply : Reply) (x : Part) :
    Interned (log ++ [(call, reply)]) x ↔ Interned log x ∨ call.Interns reply x := by
  simp only [Interned, List.mem_append, List.mem_singleton, or_and_right, exists_or, exists_eq_left,
    or_assoc]

section Interns

theorem interns_code (hparts : call.parts? = some (first, second)) (code : Nat) :
    call.Interns (.code (.ok code)) x ↔ x = first ∨ x = second := by
  simp [Call.Interns, hparts]

theorem not_interns_of_first (hparts : call.parts? = some (first, second)) :
    ¬call.Interns (.code (.error (.namePoolExhausted first.field))) x := by
  simp [Call.Interns, hparts]

theorem interns_of_second (hparts : call.parts? = some (first, second)) :
    call.Interns (.code (.error (.namePoolExhausted second.field))) x ↔ x = first := by
  simp [Call.Interns, hparts, field_ne_of_parts? hparts]

end Interns

/-- The pool has numbers for what the log tells, and for nothing else. -/
def Records (log : List (Call × Reply)) (p : NamePool) : Prop :=
  ∀ x, Interned log x ↔ (p.number? x).isSome

theorem number?_empty (x : Part) :
    empty.number? x = if x = .qualifier "" ∨ x = .uri "" then some 0 else none := by
  have hadd (a : String) : (Interner.empty.add "" (Interner.find?_empty "")).find? a =
      if "" = a then some 0 else none := by
    rw [Interner.find?_add, Interner.find?_empty]
    rfl
  cases x with
  | name uri localPart => simp [number?, empty]
  | qualifier qualifier => exact (hadd qualifier).trans (by simp [eq_comm])
  | uri uri => exact (hadd uri).trans (by simp [eq_comm])

theorem records_empty : Records [] empty := by
  intro x
  rw [number?_empty]
  simp [Interned]

theorem Records.reply (h : Records log p) (call : Call) :
    Records (log ++ [(call, (p.reply call).1)]) (p.reply call).2 := by
  intro x
  rw [interned_append, h x]
  cases hparts : call.parts? with
  | none =>
    obtain ⟨hreply, hpool⟩ := reply_of_partless (p := p) hparts
    rw [hpool]
    simp [Call.Interns, hparts]
  | some parts =>
    obtain ⟨first, second⟩ := parts
    by_cases hfirst : p.Denies first
    · rw [reply_of_denies_first hparts hfirst, or_iff_left (not_interns_of_first hparts)]
    · by_cases hsecond : p.Denies second
      · rw [reply_of_denies_second hparts hfirst hsecond, interns_of_second hparts,
          isSome_number?_internPart hfirst, or_comm]
      · rw [isSome_number?_reply hparts hfirst hsecond]
        obtain ⟨code, hreply⟩ := reply_of_not_denies hparts hfirst hsecond
        rw [hreply, interns_code hparts]
        tauto

/-- A run: what the pool knows at the end is told by the log. -/
theorem Records.transcript (h : Records log p) (calls : List Call) :
    Records (log ++ (transcript calls p).1) (transcript calls p).2 := by
  induction calls generalizing log p with
  | nil => simpa [NamePool.transcript] using h
  | cons call calls ih =>
    have hrest := ih (h.reply call)
    rwa [List.append_assoc, List.singleton_append] at hrest

theorem Records.exhausted_iff (h : Records log p) (hp : p.Bounded) :
    Exhausted log x ↔ p.Denies x := by
  have hset : {y | Interned log y ∧ y.field = x.field} =
      {y | (p.number? y).isSome ∧ y.field = x.field} := by
    ext y
    exact and_congr_left fun _ => h y
  rw [Exhausted, hset, ← count_eq_ncard, h x, Denies, Option.not_isSome_iff_eq_none]
  exact and_congr_right fun _ => ⟨fun heq => heq.ge, fun hle => (hp.count_le x).antisymm hle⟩

/-- When a call for a code is refused, and how. -/
theorem reply_eq_error_iff (hparts : call.parts? = some (first, second)) (e : AccessError) :
    (p.reply call).1 = .code (.error e) ↔
      (p.Denies first ∧ e = .namePoolExhausted first.field) ∨
      (¬p.Denies first ∧ p.Denies second ∧ e = .namePoolExhausted second.field) := by
  by_cases hfirst : p.Denies first
  · simp [reply_of_denies_first hparts hfirst, hfirst, eq_comm]
  · by_cases hsecond : p.Denies second
    · simp [reply_of_denies_second hparts hfirst hsecond, hfirst, hsecond, eq_comm]
    · obtain ⟨code, hreply⟩ := reply_of_not_denies hparts hfirst hsecond
      simp [hreply, hfirst, hsecond]

/-- A part that is interned has its number, and a call for a code whose parts are interned gets it. -/
theorem Records.codes (h : Records log p) (hparts : call.parts? = some (first, second))
    (hfirst : Interned log first) (hsecond : Interned log second) : ∃ code, p.Codes code call := by
  obtain ⟨i, hi⟩ := Option.isSome_iff_exists.1 ((h first).1 hfirst)
  obtain ⟨j, hj⟩ := Option.isSome_iff_exists.1 ((h second).1 hsecond)
  cases call with
  | name qualifier uri localPart =>
    obtain ⟨rfl, rfl⟩ := Prod.mk.inj (Option.some.inj hparts)
    exact ⟨_, j, i, hj, hi, rfl⟩
  | namespaceDecl qualifier uri =>
    obtain ⟨rfl, rfl⟩ := Prod.mk.inj (Option.some.inj hparts)
    exact ⟨_, i, j, hi, hj, rfl⟩
  | fingerprint | expandedName => cases hparts

/-- After any run of calls, a name code is refused exactly if the name is not interned and all
fingerprints are taken, or else if the prefix is not interned and all codes of prefixes are taken; a
namespace code is refused exactly if there is none for the prefix or else none for the URI; and the
error says for what there is none. The numbers that are taken in a field are the first ones, as many as
parts are interned there, and never too many. A call whose parts are interned gets its code now and
after any further calls, and a name that is interned has its fingerprint and is found by it. -/
theorem allocation_refused_iff (calls : List Call) (log : List (Call × Reply)) (p : NamePool)
    (hlog : transcript calls empty = (log, p)) :
    (∀ q u l e, (p.allocate q u l).1 = .error e ↔
      (Exhausted log (.name u l) ∧ e = .namePoolExhausted "fingerprint") ∨
      (¬Exhausted log (.name u l) ∧ Exhausted log (.qualifier q) ∧
        e = .namePoolExhausted "prefix")) ∧
    (∀ q u e, (p.allocateNamespace q u).1 = .error e ↔
      (Exhausted log (.qualifier q) ∧ e = .namePoolExhausted "prefix") ∨
      (¬Exhausted log (.qualifier q) ∧ Exhausted log (.uri u) ∧
        e = .namePoolExhausted "namespace URI")) ∧
    (∀ x : Part, {y | Interned log y ∧ y.field = x.field}.ncard ≤ x.limit ∧
      ∀ i, (∃ y, y.field = x.field ∧ p.number? y = some i) ↔
        i < {y | Interned log y ∧ y.field = x.field}.ncard) ∧
    (∀ call first second, call.parts? = some (first, second) → Interned log first →
      Interned log second → ∃ code, ∀ more,
        (transcript more p).2.reply call = (.code (.ok code), (transcript more p).2)) ∧
    ∀ u l, Interned log (.name u l) → ∃ f : Nat, ∀ more,
      (transcript more p).2.fingerprint? u l = some f ∧
        (transcript more p).2.expandedName? f = some ⟨"", l, u⟩ := by
  obtain ⟨-, hbounded, -⟩ := codes_of_mem_transcript calls bounded_empty
  have hrecords := records_empty.transcript calls
  rw [List.nil_append, hlog] at hrecords
  rw [hlog] at hbounded
  have hcount (x : Part) : p.count x = {y | Interned log y ∧ y.field = x.field}.ncard := by
    rw [count_eq_ncard]
    congr 1
    ext y
    exact and_congr_left fun _ => (hrecords y).symm
  refine ⟨?names, ?declarations, ?numbers, ?codes, ?fingerprints⟩
  case names =>
    intro q u l e
    have hparts : (Call.name q u l).parts? = some (.name u l, .qualifier q) := rfl
    have hreply := reply_eq_error_iff (p := p) hparts e
    rw [← hrecords.exhausted_iff hbounded, ← hrecords.exhausted_iff hbounded] at hreply
    exact (Iff.intro (congrArg Reply.code) Reply.code.inj).trans hreply
  case declarations =>
    intro q u e
    have hparts : (Call.namespaceDecl q u).parts? = some (.qualifier q, .uri u) := rfl
    have hreply := reply_eq_error_iff (p := p) hparts e
    rw [← hrecords.exhausted_iff hbounded, ← hrecords.exhausted_iff hbounded] at hreply
    exact (Iff.intro (congrArg Reply.code) Reply.code.inj).trans hreply
  case numbers =>
    intro x
    rw [← hcount]
    exact ⟨hbounded.count_le x, p.exists_number?_iff x⟩
  case codes =>
    intro call first second hparts hfirst hsecond
    obtain ⟨code, hcode⟩ := hrecords.codes hparts hfirst hsecond
    refine ⟨code, fun more => ?_⟩
    exact reply_of_codes (hcode.of_extends (codes_of_mem_transcript more hbounded).1)
  case fingerprints =>
    intro u l hname
    obtain ⟨f, hf⟩ := Option.isSome_iff_exists.1 ((hrecords _).1 hname)
    refine ⟨f, fun more => ?_⟩
    have hf' := (codes_of_mem_transcript more hbounded).1.names _ _ hf
    exact ⟨hf', (map_fingerprint?_eq_some_iff _ u l f).1 (congrArg (Option.map Int.ofNat) hf')⟩

/-- A number can be read off its digits. -/
theorem toString_injective {m n : Nat} (h : toString m = toString n) : m = n := by
  have hdigits : Nat.toDigits 10 m = Nat.toDigits 10 n := by
    rw [← Nat.toList_repr, ← Nat.toList_repr]
    exact congrArg String.toList h
  rw [← Nat.ofDigitChars_ten_toDigits (n := m), hdigits, Nat.ofDigitChars_ten_toDigits]

/-- Names that differ in their prefixes only, of which there are so many. -/
def crowd (n : Nat) : List Call :=
  (List.range n).map fun i => .name ("p" ++ toString i) "" "filler"

/-- The pool has met a name with so many prefixes, and nothing else. -/
structure Crowded (n : Nat) (p : NamePool) : Prop where
  count : ∀ q, p.count (.qualifier q) = n + 1
  known : ∀ x, (p.number? x).isSome → x = .qualifier "" ∨ x = .uri "" ∨ x = .name "" "filler" ∨
    ∃ i < n, x = .qualifier ("p" ++ toString i)

theorem crowded_empty : Crowded 0 empty := by
  refine ⟨fun q => rfl, fun x hx => ?_⟩
  rw [number?_empty] at hx
  simp at hx
  tauto

/-- There is at most one name, so that it has room. -/
theorem Crowded.not_denies_name {n : Nat} (h : Crowded n p) (uri localPart : String) :
    ¬p.Denies (.name uri localPart) := by
  have hle : p.count (.name uri localPart) ≤ 1 := by
    rw [count_eq_ncard, ← Set.ncard_singleton (Part.name "" "filler")]
    refine Set.ncard_le_ncard ?_
    rintro y ⟨hy, hfield⟩
    rcases h.known y hy with rfl | rfl | rfl | ⟨i, -, rfl⟩
    · simp [Part.field] at hfield
    · simp [Part.field] at hfield
    · rfl
    · simp [Part.field] at hfield
  have hlimit : 1 < fingerprintLimit := by decide
  rintro ⟨-, hfull⟩
  exact Nat.not_lt.2 (hfull.trans hle) hlimit

/-- What is not one of the prefixes is not known. -/
theorem Crowded.number?_qualifier {n : Nat} (h : Crowded n p) {q : String} (hempty : q ≠ "")
    (hq : ∀ i < n, q ≠ "p" ++ toString i) : p.number? (.qualifier q) = none := by
  rw [← Option.not_isSome_iff_eq_none]
  intro hsome
  rcases h.known _ hsome with hx | hx | hx | ⟨i, hi, hx⟩
  · exact hempty (Part.qualifier.inj hx)
  · cases hx
  · cases hx
  · exact hq i hi (Part.qualifier.inj hx)

theorem Crowded.step {n : Nat} (h : Crowded n p) (hroom : n + 1 < qualifierLimit) :
    Crowded (n + 1) (p.reply (.name ("p" ++ toString n) "" "filler")).2 := by
  have hnew : p.number? (.qualifier ("p" ++ toString n)) = none := by
    refine h.number?_qualifier (by simp) fun i hi heq => ?_
    have hrepr : toString n = toString i := by simpa using heq
    exact Nat.ne_of_gt hi (toString_injective hrepr)
  have hfirst := h.not_denies_name "" "filler"
  have hsecond : ¬p.Denies (.qualifier ("p" ++ toString n)) := by
    rintro ⟨-, hfull⟩
    rw [h.count] at hfull
    exact Nat.not_lt.2 hfull hroom
  have hparts : Call.parts? (.name ("p" ++ toString n) "" "filler") =
      some (.name "" "filler", .qualifier ("p" ++ toString n)) := rfl
  refine ⟨fun q => ?_, fun x hx => ?_⟩
  · obtain ⟨code, hreply⟩ := reply_of_not_denies hparts hfirst hsecond
    have hcount : (p.internPart (.name "" "filler")).2.count (.qualifier ("p" ++ toString n)) =
        n + 1 := by
      rw [count_internPart_of_field_ne (by simp [Part.field]), h.count]
    have hnew' : (p.internPart (.name "" "filler")).2.number? (.qualifier ("p" ++ toString n)) =
        none := by
      rw [number?_internPart_of_ne (by simp), hnew]
    obtain ⟨-, -, hnext⟩ := internPart_of_room hnew' (hcount.trans_lt hroom)
    rw [hcount] at hnext
    rw [hreply]
    exact hnext
  · rw [isSome_number?_reply hparts hfirst hsecond] at hx
    rcases hx with rfl | rfl | hx
    · exact .inr (.inr (.inr ⟨n, Nat.lt_succ_self n, rfl⟩))
    · exact .inr (.inr (.inl rfl))
    · rcases h.known x hx with hx | hx | hx | ⟨i, hi, hx⟩
      · exact .inl hx
      · exact .inr (.inl hx)
      · exact .inr (.inr (.inl hx))
      · exact .inr (.inr (.inr ⟨i, Nat.lt_succ_of_lt hi, hx⟩))

theorem transcript_append (calls more : List Call) (p : NamePool) :
    (transcript (calls ++ more) p).2 = (transcript more (transcript calls p).2).2 := by
  induction calls generalizing p with
  | nil => rfl
  | cons call calls ih => exact ih _

theorem crowded_crowd {n : Nat} (hn : n < qualifierLimit) :
    Crowded n (transcript (crowd n) empty).2 := by
  induction n with
  | zero => exact crowded_empty
  | succ n ih =>
    rw [crowd, List.range_succ, List.map_append, transcript_append]
    exact (ih (by omega)).step hn

/-- The prefix is not one of those. -/
theorem late_ne (i : Nat) : "late" ≠ "p" ++ toString i := by
  intro h
  have hchars := congrArg String.toList h
  simp at hchars

/-- When all codes of prefixes are taken, there is none for another one. -/
theorem Crowded.denies_late (h : Crowded 1023 p) : p.Denies (.qualifier "late") := by
  refine ⟨h.number?_qualifier (by decide) fun i _ => late_ne i, ?_⟩
  rw [h.count]
  decide

/-- After as many prefixes as there are codes for, the empty one included, another one is refused, for
a declaration and for a name that has no fingerprint either; that name with the empty prefix is not. -/
theorem allocation_refused_late :
    ∃ log p, transcript (crowd 1023) empty = (log, p) ∧
      {y | Interned log y ∧ y.field = "prefix"}.ncard = 2 ^ 10 ∧
      (p.allocateNamespace "late" "urn:late").1 = .error (.namePoolExhausted "prefix") ∧
      (p.allocate "late" "" "other").1 = .error (.namePoolExhausted "prefix") ∧
      ∀ e, (p.allocate "" "" "other").1 ≠ .error e := by
  rcases hlog : transcript (crowd 1023) empty with ⟨log, p⟩
  have hcrowded := crowded_crowd (n := 1023) (by decide)
  have hrecords := records_empty.transcript (crowd 1023)
  have hbounded := (codes_of_mem_transcript (crowd 1023) bounded_empty).2.1
  rw [hlog] at hcrowded hrecords hbounded
  obtain ⟨hnames, hdeclarations, -⟩ := allocation_refused_iff (crowd 1023) log p hlog
  have hlate : Exhausted log (.qualifier "late") :=
    (hrecords.exhausted_iff hbounded).2 hcrowded.denies_late
  have hother : ¬Exhausted log (.name "" "other") :=
    (hrecords.exhausted_iff hbounded).not.2 (hcrowded.not_denies_name "" "other")
  refine ⟨log, p, rfl, hlate.2, ?_, ?_, ?_⟩
  · exact (hdeclarations _ _ _).2 (.inl ⟨hlate, rfl⟩)
  · exact (hnames _ _ _ _).2 (.inr ⟨hother, hlate, rfl⟩)
  · intro e he
    rcases (hnames _ _ _ _).1 he with ⟨hname, -⟩ | ⟨-, hempty, -⟩
    · exact hother hname
    · exact hempty.1 (.inl rfl)

/-- Two pools give the same replies, whatever they are asked. -/
def AnswersAlike (p p' : NamePool) : Prop :=
  ∀ calls, (transcript calls p).1 = (transcript calls p').1

theorem AnswersAlike.reply (h : AnswersAlike p p') (call : Call) :
    (p.reply call).1 = (p'.reply call).1 := by
  have hlog : [(call, (p.reply call).1)] = [(call, (p'.reply call).1)] := h [call]
  simpa using hlog

/-- There is always a prefix that has not been met. -/
theorem exists_fresh_qualifier (p : NamePool) (q : String) :
    ∃ q', q' ≠ q ∧ p.number? (.qualifier q') = none := by
  have hinfinite : Infinite String := Infinite.of_injective toString fun _ _ => toString_injective
  obtain ⟨q', hq'⟩ := Infinite.exists_notMem_finset (insert q p.qualifiers.values.toList.toFinset)
  simp only [Finset.mem_insert, List.mem_toFinset, Array.mem_toList_iff, not_or] at hq'
  refine ⟨q', hq'.1, ?_⟩
  cases hnumber : p.number? (.qualifier q') with
  | none => rfl
  | some i => exact absurd (Array.mem_of_getElem? (Interner.find?_eq_some_iff.1 hnumber)) hq'.2

/-- A declaration with a prefix that has not been met has the next number in its code. -/
theorem reply_fresh_qualifier {q u : String} {k : Nat} (hq : p.number? (.qualifier q) = none)
    (hroom : p.count (.qualifier q) < qualifierLimit) (hu : p.number? (.uri u) = some k) :
    (p.reply (.namespaceDecl q u)).1 = .code (.ok (p.count (.qualifier q) * uriLimit + k)) := by
  obtain ⟨hcode, -, -⟩ := internPart_of_room hq hroom
  have hknown : (p.internPart (.qualifier q)).2.number? (.uri u) = some k := by
    rw [number?_internPart_of_ne (by simp), hu]
  have hfill : fillBoth (p.internPart (.qualifier q)) (·.internPart (.uri u))
      (fun k u => k * uriLimit + u) =
        (.ok (p.count (.qualifier q) * uriLimit + k), (p.internPart (.qualifier q)).2) := by
    rw [show p.internPart (.qualifier q) = (.ok _, (p.internPart (.qualifier q)).2) from
      Prod.ext hcode rfl]
    simp [fillBoth, internPart_of_number? hknown]
  exact congrArg (fun answer => Reply.code answer.1) hfill

/-- If one of two pools has one prefix more, a declaration with a prefix that neither has met tells
them apart: it gets another code, or none. -/
theorem not_answersAlike_of_count {q u : String} (hq : p.number? (.qualifier q) = none)
    (hq' : p'.number? (.qualifier q) = none) (hu : p.number? (.uri u) = some 0)
    (hu' : p'.number? (.uri u) = some 0) (hroom : p.count (.qualifier q) < qualifierLimit)
    (hcount : p'.count (.qualifier q) = p.count (.qualifier q) + 1) : ¬AnswersAlike p p' := by
  intro halike
  have hreply := reply_fresh_qualifier hq hroom hu
  rw [halike.reply] at hreply
  by_cases hroom' : p'.count (.qualifier q) < qualifierLimit
  · have hlater := reply_fresh_qualifier hq' hroom' hu'
    rw [hreply] at hlater
    have hcodes := Except.ok.inj (Reply.code.inj hlater)
    have hlimit : 0 < uriLimit := by decide
    rw [hcount, Nat.succ_mul] at hcodes
    omega
  · rw [reply_of_denies_first rfl ⟨hq', Nat.le_of_not_lt hroom'⟩] at hreply
    cases hreply

/-- If a part has got a number and the call was refused then, that shows in a later reply: a name has a
fingerprint, and the next prefix has not the number that it would have had. -/
theorem not_answersAlike_internPart (hparts : call.parts? = some (first, second))
    (hnone : p.number? first = none) (hfirst : ¬p.Denies first) (hsecond : p.Denies second) :
    ¬AnswersAlike p (p.internPart first).2 := by
  have hroom := room_of_not_denies hfirst hnone
  obtain ⟨-, hnumber, hcount⟩ := internPart_of_room hnone hroom
  cases call with
  | name qualifier uri localPart =>
    obtain ⟨rfl, rfl⟩ := Prod.mk.inj (Option.some.inj hparts)
    intro halike
    have hreply := Reply.fingerprint.inj (halike.reply (.fingerprint uri localPart))
    have hsame : p.number? (.name uri localPart) =
        (p.internPart (.name uri localPart)).2.number? (.name uri localPart) := hreply
    rw [hnone, hnumber] at hsame
    cases hsame
  | namespaceDecl qualifier uri =>
    obtain ⟨rfl, rfl⟩ := Prod.mk.inj (Option.some.inj hparts)
    -- The field of URIs is full, so that there is one with a number.
    have hpos : 0 < p.count (.uri uri) :=
      Nat.lt_of_lt_of_le (by decide : 0 < uriLimit) hsecond.2
    obtain ⟨y, hy, hzero⟩ := (p.exists_number?_iff (.uri uri) 0).2 hpos
    obtain ⟨u, rfl⟩ : ∃ u, y = .uri u := by
      cases y with
      | uri u => exact ⟨u, rfl⟩
      | _ => simp [Part.field] at hy
    obtain ⟨q, hne, hfresh⟩ := p.exists_fresh_qualifier qualifier
    refine not_answersAlike_of_count hfresh ?_ hzero ?_ hroom hcount
    · rw [number?_internPart_of_ne (by simpa using hne), hfresh]
    · rw [number?_internPart_of_ne (by simp), hzero]
  | fingerprint | expandedName => cases hparts

/-- Whatever the pool, and whatever the call that is refused: the pool is left as it was, and answers
all that comes as if there had been no call, exactly if there was no code for what the call asks first
or that is interned already. Otherwise that part has got the next number of its field, and no other
part another number than before. -/
theorem refused_call_unnoticed_iff (p : NamePool) (call : Call) (e : AccessError)
    (h : (p.reply call).1 = .code (.error e)) :
    ∃ first second, call.parts? = some (first, second) ∧
      (e = .namePoolExhausted first.field ∨ e = .namePoolExhausted second.field) ∧
      ((p.reply call).2 = p ↔
        e = .namePoolExhausted first.field ∨ (p.number? first).isSome) ∧
      (AnswersAlike p (p.reply call).2 ↔
        e = .namePoolExhausted first.field ∨ (p.number? first).isSome) ∧
      ((p.reply call).2 ≠ p → p.number? first = none ∧
        ∀ x, (p.reply call).2.number? x = if x = first then some (p.count first) else p.number? x) := by
  cases hparts : call.parts? with
  | none => exact absurd h ((reply_of_partless hparts).1 _)
  | some parts =>
    obtain ⟨first, second⟩ := parts
    refine ⟨first, second, rfl, ?_⟩
    rcases (reply_eq_error_iff hparts e).1 h with ⟨hfirst, rfl⟩ | ⟨hfirst, hsecond, rfl⟩
    · -- There is no code for the first part, and nothing has happened.
      rw [reply_of_denies_first hparts hfirst]
      simp [AnswersAlike]
    · rw [reply_of_denies_second hparts hfirst hsecond]
      have hfield : second.field ≠ first.field := field_ne_of_parts? hparts
      cases hnumber : p.number? first with
      | some i => simp [internPart_of_number? hnumber, AnswersAlike]
      | none =>
        have hunlike := not_answersAlike_internPart hparts hnumber hfirst hsecond
        have hne : (p.internPart first).2 ≠ p := by
          intro heq
          rw [heq] at hunlike
          exact hunlike fun _ => rfl
        have hroom := room_of_not_denies hfirst hnumber
        refine ⟨.inr rfl, by simp [hne, hfield], by simp [hunlike, hfield], fun _ => ⟨rfl, fun x => ?_⟩⟩
        by_cases hx : x = first
        · rw [if_pos hx, hx, (internPart_of_room hnumber hroom).2.1]
        · rw [if_neg hx, number?_internPart_of_ne hx]

/-- A declaration that is refused for its prefix goes unnoticed. -/
theorem refused_declaration_unnoticed :
    ∃ p call, (transcript (crowd 1023) empty).2 = p ∧ call = .namespaceDecl "late" "urn:late" ∧
      (p.reply call).1 = .code (.error (.namePoolExhausted "prefix")) ∧
      (p.reply call).2 = p ∧ AnswersAlike p (p.reply call).2 := by
  rcases hp : (transcript (crowd 1023) empty).2 with p
  have hcrowded := crowded_crowd (n := 1023) (by decide)
  rw [hp] at hcrowded
  have hparts : (Call.namespaceDecl "late" "urn:late").parts? =
      some (.qualifier "late", .uri "urn:late") := rfl
  have hreply := reply_of_denies_first hparts hcrowded.denies_late
  obtain ⟨first, second, hparts', -, hsame, halike, -⟩ :=
    refused_call_unnoticed_iff p _ _ (congrArg Prod.fst hreply)
  obtain ⟨rfl, rfl⟩ := Prod.mk.inj (Option.some.inj (hparts.symm.trans hparts'))
  exact ⟨p, _, rfl, rfl, congrArg Prod.fst hreply, hsame.2 (.inl rfl), halike.2 (.inl rfl)⟩

/-- A name that is refused for its prefix has a fingerprint from then on, which it had not before. -/
theorem refused_name_has_fingerprint :
    ∃ p p', (transcript (crowd 1023) empty).2 = p ∧
      p.reply (.name "late" "" "other") = (.code (.error (.namePoolExhausted "prefix")), p') ∧
      p.fingerprint? "" "other" = none ∧ (p'.fingerprint? "" "other").isSome ∧
      ¬AnswersAlike p p' := by
  rcases hp : (transcript (crowd 1023) empty).2 with p
  have hcrowded := crowded_crowd (n := 1023) (by decide)
  rw [hp] at hcrowded
  have hparts : (Call.name "late" "" "other").parts? =
      some (.name "" "other", .qualifier "late") := rfl
  have hfirst := hcrowded.not_denies_name "" "other"
  have hnone : p.number? (.name "" "other") = none := by
    rw [← Option.not_isSome_iff_eq_none]
    intro hsome
    rcases hcrowded.known _ hsome with hx | hx | hx | ⟨i, -, hx⟩
    · cases hx
    · cases hx
    · simp at hx
    · cases hx
  refine ⟨p, _, rfl, reply_of_denies_second hparts hfirst hcrowded.denies_late, hnone, ?_, ?_⟩
  · exact (isSome_number?_internPart hfirst _).2 (.inl rfl)
  · exact not_answersAlike_internPart hparts hnone hfirst hcrowded.denies_late

end NamePool

end DocTree
