/-
  What a lookup writes to the cache.

  One entry at the most: the answer it returns, under the candidate that gave it, or the
  absence it reports, under the name looked up. What is written under a kind is of that
  kind, so every answer a lookup returns is, and the typed lookups drop nothing.
-/
import N0DnsResolver.Model.Session
import N0DnsResolver.Model.Typed
import N0DnsResolver.Theory.Loop
import N0DnsResolver.Theory.NegativeTtl
import N0DnsResolver.Theory.Provenance

namespace N0DnsResolver

section Contents

variable {L : Type} [LruMap L UInt64 CacheEntry] (cacheKey : Str → RecordKind → UInt64)

/-- The same entries, in whatever order of use. -/
def SameContents (cache cache' : L) : Prop := ∀ k, LruMap.peek cache' k = LruMap.peek cache k

/-- The entry was written, and no other changed; some may have been evicted. -/
structure WroteOnly (cache cache' : L) (entry : CacheEntry) : Prop where
  stored : LruMap.peek cache' (cacheKey entry.host entry.kind) = some entry
  others : ∀ k ≠ cacheKey entry.host entry.kind,
    LruMap.peek cache' k = LruMap.peek cache k ∨ LruMap.peek cache' k = none

/-- A write of a positive TTL writes its entry and no other. -/
theorem wroteOnly_insert [LawfulLruMap L] {cache cache₀ : L} (hsame : SameContents cache₀ cache)
    {ttl : Nat} (h : ttl ≠ 0) (now : Instant) (host : Str) (kind : RecordKind)
    (result : CachedResult) :
    WroteOnly cacheKey cache₀ (DnsCache.insert cacheKey cache now host kind result ttl)
      (CacheEntry.make host kind result ttl now) := by
  rw [DnsCache.insert_pos cacheKey h]
  refine ⟨LawfulLruMap.peek_put_self _ _ _, fun k hk => ?_⟩
  rw [← hsame k]
  exact LawfulLruMap.peek_put_ne cache _ k _ hk

end Contents

/-- Negative answers are kept for at most the whole seconds of a setting that has one. -/
theorem negativeMaxTtl_of_cap {builder : Builder} (h : 0 < builder.negativeCap) :
    ∃ max, builder.negativeMaxTtl = some max ∧ 1 ≤ max.asSecs := by
  unfold Builder.negativeCap at h
  cases hmax : builder.negativeMaxTtl with
  | none => simp [hmax] at h
  | some max =>
    rw [hmax] at h
    have hclamp : clampSecs max ≤ max.asSecs := by
      unfold clampSecs
      split <;> omega
    have hmin := Nat.lt_of_lt_of_le h (Nat.min_le_left _ _)
    exact ⟨max, rfl, by omega⟩

/-- Past the cap, the floor of the TTL may as well be the whole seconds of its setting. -/
theorem min_cacheMinTtlSecs (builder : Builder) (ttl : Nat) :
    min (max ttl builder.cacheMinTtlSecs) maxTtlSecs =
      min (max ttl (builder.cacheMinTtl.elim 0 Duration.asSecs)) maxTtlSecs := by
  unfold Builder.cacheMinTtlSecs
  cases builder.cacheMinTtl with
  | none => rfl
  | some d =>
    have hclamp : clampSecs d = d.asSecs ∨
        maxTtlSecs ≤ clampSecs d ∧ maxTtlSecs ≤ d.asSecs := by
      unfold clampSecs maxTtlSecs
      split <;> omega
    rw [Option.elim_some]
    simp only
    omega

theorem transient_of_indeterminate {a : Attempt} {e : Error} (hres : a.res = .error e)
    (he : e.indeterminate = true) : a.transient = true := by
  unfold Attempt.transient Attempt.outcome
  rw [hres]
  cases e <;> simp [Outcome.ofResult, Error.indeterminate] at he ⊢

/-- An absence is reported as no records or as NXDOMAIN. -/
theorem answer_ne_failure {res : CachedResult} (hneg : res.negative = true) {e : Error}
    (he : e ≠ .nxDomain) : res.answer ≠ .error e := by
  cases res with
  | positive records => cases hneg
  | noData => exact fun h => nomatch h
  | nxDomain => exact fun h => he (Except.error.inj h).symm

/-! ## One lookup -/

section Lookup

variable {L : Type} [LruMap L UInt64 CacheEntry] (S : SimpleDns) (net : Network)
variable (cacheKey : Str → RecordKind → UInt64) (builder : Builder) (config : Config)
variable (name : Str) (kind : RecordKind) (w : World (List Exchange) L)
variable (r : Except Error (List Record)) (w' : World (List Exchange) L)

/-- The answer returned was written, under the candidate that gave it. -/
structure AnswerWritten (candidate : Str) (records : List Record) (ttl : Nat) (entry : CacheEntry) :
    Prop where
  answered : ∃ pre post, searchNames S config name = pre ++ candidate :: post ∧
    (resolveCandidate S net candidate kind
      (netAfter (resolveCandidate S net) kind pre w.net)).1.res = .ok (records, ttl)
  returned : r = .ok records
  ne_nil : records ≠ []
  of_kind : ∀ record ∈ records, record.kind = kind
  host_eq : entry.host = normalize candidate
  kind_eq : entry.kind = kind
  result_eq : entry.result = .positive records
  ttl_eq : entry.ttl.nanos =
    min (max ttl (builder.cacheMinTtl.elim 0 Duration.asSecs)) maxTtlSecs * 1000000000
  ttl_pos : 0 < entry.ttl.nanos
  wrote : WroteOnly cacheKey w.cache w'.cache entry

/-- The absence reported was written, under the name looked up. -/
structure AbsenceWritten (absence : CachedResult) (limit : Duration) (entry : CacheEntry) :
    Prop where
  negative : absence.negative = true
  reported : r = absence.answer
  limit_eq : builder.negativeMaxTtl = some limit
  limit_le : 1 ≤ limit.asSecs
  no_failure : ∀ a ∈ attempts (resolveCandidate S net) kind (searchNames S config name) w.net,
    ∀ e, a.res = .error e → e.indeterminate = false
  host_eq : entry.host = normalize name
  kind_eq : entry.kind = kind
  result_eq : entry.result = absence
  ttl_ge : 1000000000 ≤ entry.ttl.nanos
  ttl_le : entry.ttl.nanos ≤ min limit.nanos (negativeTtlMaxSecs * 1000000000)
  wrote : WroteOnly cacheKey w.cache w'.cache entry

/-- What a call of `lookup_record` may write. -/
structure Disciplined : Prop where
  one_entry : SameContents w.cache w'.cache ∨
    (∃ candidate records ttl entry, AnswerWritten S net cacheKey builder config name kind w r w'
      candidate records ttl entry) ∨
    ∃ absence limit entry, AbsenceWritten S net cacheKey builder config name kind w r w'
      absence limit entry
  cached : ∀ res, (DnsCache.get cacheKey w.cache w.now name kind).1 = some res →
    SameContents w.cache w'.cache
  stale : (∀ a ∈ attempts (resolveCandidate S net) kind (searchNames S config name) w.net,
    ∃ e, a.outcome = .indeterminate e) → SameContents w.cache w'.cache
  failed : ∀ e, r = .error e → e ≠ .nxDomain → SameContents w.cache w'.cache

variable {name kind w r w'}

/-- The records a candidate is answered with are of the kind asked for. -/
theorem resolveCandidate_kind {candidate : Str} {log : List Exchange} {records : List Record}
    {ttl : Nat} (h : (resolveCandidate S net candidate kind log).1.res = .ok (records, ttl)) :
    ∀ record ∈ records, record.kind = kind := by
  intro record hrecord
  obtain ⟨response, -, hparsed, -⟩ := readAttempt_ok S h
  rw [parsedRecords_eq] at hparsed
  cases hpacket : parsedPacket S response with
  | error e =>
    rw [hpacket] at hparsed
    simp [Except.map] at hparsed
  | ok packet =>
    rw [hpacket] at hparsed
    have hall : (extractAll (extractor S kind) packet).1 = records :=
      congrArg Prod.fst (Except.ok.inj hparsed)
    rw [← hall] at hrecord
    obtain ⟨rr, -, -, -, hextract⟩ := mem_extractAll hrecord
    exact (extractor_kind S hextract).1

/-- A lookup that changes nothing keeps to the discipline. -/
theorem disciplined_of_same (hsame : SameContents w.cache w'.cache) :
    Disciplined S net cacheKey builder config name kind w r w' :=
  ⟨.inl hsame, fun _ _ => hsame, fun _ => hsame, fun _ _ _ => hsame⟩

/-- The write of an answer, for the floored TTL of its candidate. -/
theorem answerWritten [LawfulLruMap L] {pre post : List Str} {c : Str} {rs : List Record}
    {ttl : Nat} {cache : L} (hn : searchNames S config name = pre ++ c :: post)
    (hres : (resolveCandidate S net c kind
      (netAfter (resolveCandidate S net) kind pre w.net)).1.res = .ok (rs, ttl))
    (hrs : rs ≠ []) (hcache : SameContents w.cache cache)
    (ht : max ttl builder.cacheMinTtlSecs ≠ 0) :
    AnswerWritten S net cacheKey builder config name kind w (.ok rs)
      (World.insert cacheKey
        { w.resolveAll (resolveCandidate S net) kind (pre ++ [c]) with cache := cache } c kind
        (.positive rs) (max ttl builder.cacheMinTtlSecs)) c rs ttl
      (CacheEntry.make c kind (.positive rs) (max ttl builder.cacheMinTtlSecs)
        (w.resolveAll (resolveCandidate S net) kind (pre ++ [c])).now) where
  answered := ⟨pre, post, hn, hres⟩
  returned := rfl
  ne_nil := hrs
  of_kind := resolveCandidate_kind S net hres
  host_eq := rfl
  kind_eq := rfl
  result_eq := rfl
  ttl_eq := by
    rw [← min_cacheMinTtlSecs]
    rfl
  ttl_pos := by
    show 0 < min (max ttl builder.cacheMinTtlSecs) maxTtlSecs * 1000000000
    have hmax : 0 < maxTtlSecs := by decide
    omega
  wrote := wroteOnly_insert cacheKey hcache ht _ c kind _

/-- The write of an absence, for the capped TTL of the SOA that came with it. -/
theorem absenceWritten [LawfulLruMap L] {res : CachedResult} {soa : Option Nat}
    {v : World (List Exchange) L} (hneg : res.negative = true)
    (hclean : (attempts (resolveCandidate S net) kind (searchNames S config name) w.net).any
      Attempt.transient = false)
    (hcache : SameContents w.cache v.cache) (ht : builder.negativeCacheTtlSecs soa ≠ 0) :
    ∃ limit, AbsenceWritten S net cacheKey builder config name kind w res.answer
      (v.insert cacheKey name kind res (builder.negativeCacheTtlSecs soa)) res limit
      (CacheEntry.make name kind res (builder.negativeCacheTtlSecs soa) v.now) := by
  have hle : builder.negativeCacheTtlSecs soa ≤ builder.negativeCap := by
    rw [negativeCacheTtlSecs_eq]
    exact Nat.min_le_right _ _
  have hcap := negativeCap_le builder
  have hfits : builder.negativeCap ≤ maxTtlSecs := Nat.le_trans hcap (by decide)
  obtain ⟨limit, hlimit, hsecs⟩ := negativeMaxTtl_of_cap (show 0 < builder.negativeCap by omega)
  have hlimitCap := negativeCap_le_max hlimit
  have hnanos : (CacheEntry.make name kind res (builder.negativeCacheTtlSecs soa) v.now).ttl.nanos =
      builder.negativeCacheTtlSecs soa * 1000000000 := make_ttl (Nat.le_trans hle hfits)
  refine ⟨limit, ?_⟩
  exact {
    negative := hneg
    reported := rfl
    limit_eq := hlimit
    limit_le := hsecs
    no_failure := fun a ha e he => by
      by_contra hind
      have hany := List.any_eq_false.mp hclean a ha
      rw [Bool.not_eq_false] at hind
      exact hany (transient_of_indeterminate he hind)
    host_eq := rfl
    kind_eq := rfl
    result_eq := rfl
    ttl_ge := by omega
    ttl_le := by omega
    wrote := wroteOnly_insert cacheKey hcache ht v.now name kind res }

/-- A lookup keeps to the discipline, however it ends. -/
theorem lookup_disciplined [LawfulLruMap L]
    (hrun : lookupRecord S net cacheKey builder config name kind w = .ok (r, w')) :
    Disciplined S net cacheKey builder config name kind w r w' := by
  cases hg : (DnsCache.get cacheKey w.cache w.now name kind).1 with
  | some res =>
    have hhit := (lookup_hit (resolveCandidate S net) kind cacheKey builder S config hg).symm.trans
      hrun
    refine disciplined_of_same S net cacheKey builder config fun k => ?_
    rw [← (Prod.mk.inj (Except.ok.inj hhit)).2]
    exact DnsCache.peek_get cacheKey w.cache w.now name kind k
  | none =>
    obtain ⟨cache, hcache, hcases⟩ :=
      lookup_cases (resolveCandidate S net) kind cacheKey builder S config hg
    rcases hcases with
      ⟨pre, c, post, rs, ttl, hn, -, hres, hrs, h⟩ | ⟨_, _, _, _, -, -, -, h⟩ |
        ⟨pre, c, post, res, hn, -, -, hout, h⟩ | ⟨_, _, _, -, -, -, h⟩
    · -- A candidate held records.
      cases h.symm.trans hrun
      by_cases ht : max ttl builder.cacheMinTtlSecs = 0
      · refine disciplined_of_same S net cacheKey builder config fun k => ?_
        rw [← hcache k]
        exact congrArg (LruMap.peek · k) (if_pos ht)
      · have hwritten := answerWritten S net cacheKey builder config hn hres hrs hcache ht
        refine ⟨.inr (.inl ⟨c, rs, ttl, _, hwritten⟩), fun _ hhit => (nomatch hg.symm.trans hhit),
          fun hind => ?_, fun _ he => nomatch he⟩
        obtain ⟨e, he⟩ := hind _ (hn ▸ attempt_mem (resolveCandidate S net) kind pre c post w.net)
        exact nomatch (ofResult_records hres hrs).symm.trans he
    · cases h.symm.trans hrun
      exact disciplined_of_same S net cacheKey builder config hcache
    · -- An absence was found and every candidate was asked.
      cases h.symm.trans hrun
      split
      · exact disciplined_of_same S net cacheKey builder config hcache
      · next hclean =>
        rw [Bool.not_eq_true] at hclean
        by_cases ht : builder.negativeCacheTtlSecs (resolveCandidate S net c kind
          (netAfter (resolveCandidate S net) kind pre w.net)).1.soa = 0
        · refine disciplined_of_same S net cacheKey builder config fun k => ?_
          rw [← hcache k]
          exact congrArg (LruMap.peek · k) (if_pos ht)
        · obtain ⟨limit, hwritten⟩ := absenceWritten S net cacheKey builder config
            (v := { w.resolveAll (resolveCandidate S net) kind (searchNames S config name) with
              cache := cache }) (cached_ne_positive hout) hclean hcache ht
          refine ⟨.inr (.inr ⟨res, limit, _, hwritten⟩),
            fun _ hhit => (nomatch hg.symm.trans hhit), fun hind => ?_, ?_⟩
          · obtain ⟨e, he⟩ := hind _
              (hn ▸ attempt_mem (resolveCandidate S net) kind pre c post w.net)
            rw [he] at hout
            cases hout
          · intro e he hne
            exact absurd he (answer_ne_failure (cached_ne_positive hout) hne)
    · rw [show lookupRecord S net cacheKey builder config name kind w = _ from h] at hrun
      obtain ⟨found, -, hf⟩ := Checked.map_eq_ok hrun
      cases hf
      exact disciplined_of_same S net cacheKey builder config hcache

end Lookup

/-! ## Whole runs -/

section Run

variable {L : Type} [LruMap L UInt64 CacheEntry] (S : SimpleDns) (net : Network)
variable (cacheKey : Str → RecordKind → UInt64) (builder : Builder)

/-- The records of a positive entry are of the kind it is stored under. -/
def CacheEntry.OfKind (entry : CacheEntry) : Prop :=
  ∀ records, entry.result = .positive records → ∀ record ∈ records, record.kind = entry.kind

variable {S net cacheKey builder}

/-- A lookup keeps every entry of its kind. -/
theorem lookup_ofKind [LawfulLruMap L] {config : Config} {name : Str} {kind : RecordKind}
    {r : Except Error (List Record)} {w w' : World (List Exchange) L}
    (hrun : lookupRecord S net cacheKey builder config name kind w = .ok (r, w'))
    (hw : ∀ k entry, LruMap.peek w.cache k = some entry → entry.OfKind) :
    ∀ k entry, LruMap.peek w'.cache k = some entry → entry.OfKind := by
  intro k entry hk
  rcases lookup_entries (resolveCandidate S net) kind cacheKey builder S config hrun hk with
    hbefore | ⟨pre, c, post, rs, ttl, -, hres, -, -, rfl⟩ | ⟨res, ttl, now, hneg, rfl⟩
  · exact hw k entry hbefore
  · intro records hrecords
    cases hrecords
    exact resolveCandidate_kind S net hres
  · intro records hrecords
    rw [show res = .positive records from hrecords] at hneg
    cases hneg

/-- After a run, every entry is of its kind. -/
theorem run_ofKind [LawfulLruMap L] {config : Config} {log : List Exchange} {calls : List Call}
    {t : Session (List Exchange) L}
    (hrun : Machine.run (Session.call cacheKey (resolveCandidate S net) builder S)
      (Session.start config log) calls = some t) :
    ∀ k entry, LruMap.peek t.world.cache k = some entry → entry.OfKind :=
  Session.run_entries (P := fun _ entry => entry.OfKind)
    (fun _ _ _ _ _ hlookup hs => lookup_ofKind hlookup hs) hrun

/-- On such a cache, a lookup returns records of the kind asked for. -/
theorem lookup_kind [LawfulLruMap L] {config : Config} {name : Str} {kind : RecordKind}
    {records : List Record} {w w' : World (List Exchange) L}
    (hw : ∀ k entry, LruMap.peek w.cache k = some entry → entry.OfKind)
    (hrun : lookupRecord S net cacheKey builder config name kind w = .ok (.ok records, w')) :
    ∀ record ∈ records, record.kind = kind := by
  by_cases hrecords : records = []
  · intro record hrecord
    rw [hrecords] at hrecord
    cases hrecord
  · rcases lookup_records (resolveCandidate S net) kind cacheKey builder S config hrun hrecords with
      ⟨entry, hentry, hpositive⟩ | ⟨pre, c, post, ttl, -, hres, -⟩
    · obtain ⟨hpeek, hfor⟩ := (DnsCache.entryOf_eq_some cacheKey).mp hentry
      have hkind : entry.kind = kind := by
        unfold CacheEntry.isFor at hfor
        simp only [Bool.and_eq_true, beq_iff_eq] at hfor
        exact hfor.2
      rw [← hkind]
      exact hw _ entry hpeek records hpositive
    · exact resolveCandidate_kind S net hres

/-- A typed lookup drops no record of its kind. -/
theorem Variant.map_select {T : Type} (variant : Variant T) {records : List Record}
    (h : ∀ record ∈ records, record.kind = variant.kind) :
    (records.filterMap variant.select).map variant.wrap = records := by
  induction records with
  | nil => rfl
  | cons record records ih =>
    obtain ⟨v, hv⟩ := variant.of_kind record (h record List.mem_cons_self)
    have hselect : variant.select record = some v := by rw [hv, variant.select_wrap]
    rw [List.filterMap_cons_some hselect, List.map_cons, ← hv,
      ih fun r hr => h r (List.mem_cons_of_mem record hr)]

/-- Every lookup keeps to the discipline, and after every run the typed lookups return all the
records there are. -/
theorem write_discipline [LawfulLruMap L] :
    (∀ config name kind (w w' : World (List Exchange) L) r,
      lookupRecord S net cacheKey builder config name kind w = .ok (r, w') →
        Disciplined S net cacheKey builder config name kind w r w') ∧
      ∀ config log calls (t : Session (List Exchange) L),
        Machine.run (Session.call cacheKey (resolveCandidate S net) builder S)
          (Session.start config log) calls = some t →
        ∀ (T : Type) (variant : Variant T) name records w',
          lookupRecord S net cacheKey builder t.config name variant.kind t.world =
            .ok (.ok records, w') →
          ∃ values, typedLookup S net cacheKey builder t.config variant name t.world =
            .ok (.ok values, w') ∧ values.map variant.wrap = records := by
  refine ⟨fun config name kind w w' r hrun =>
    lookup_disciplined S net cacheKey builder config hrun, ?_⟩
  intro config log calls t hrun T variant name records w' hlookup
  refine ⟨records.filterMap variant.select, ?_, ?_⟩
  · unfold typedLookup
    rw [hlookup]
    rfl
  · exact variant.map_select (lookup_kind (run_ofKind hrun) hlookup)

end Run

/-- A name that does not exist, and a host looked up again. -/
theorem write_discipline_db :
    Disciplined goneDns goneNetwork sampleKey goneBuilder {} "gone.test.".toList .a goneWorld
        (goneLookup.get ⟨_, rfl⟩).1 (goneLookup.get ⟨_, rfl⟩).2 ∧
      ∃ values w', typedLookup dbDns dbNetwork sampleKey {} (dbSession.get rfl).config .a "db.".toList
        (dbSession.get rfl).world = .ok (.ok values, w') ∧ values.map Record.a = [.a ⟨7⟩] := by
  constructor
  · exact write_discipline.1 {} _ .a goneWorld _ _ (Checked.eq_ok_get goneLookup ⟨_, rfl⟩)
  · obtain ⟨values, hvalues, hwrap⟩ := write_discipline.2 {} [] _ (dbSession.get rfl)
      (Option.some_get (rfl : dbSession.isSome = true)).symm _ Variant.a "db.".toList [.a ⟨7⟩] _ rfl
    exact ⟨values, _, hvalues, hwrap⟩

end N0DnsResolver
