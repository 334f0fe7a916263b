/-
  Whether a stored answer is found again by the name that was asked.

  A positive answer is stored under the candidate that gave it, and read under the
  name that was asked for. The two are one key when the candidate is the name
  itself, and two keys when it is an expansion along the search list.
-/
import N0DnsResolver.Theory.Precedence

namespace N0DnsResolver

section Steady

variable {N L : Type} {kind : RecordKind}

/-- Every candidate comes to the same, at once. -/
def steadyStage (a : Attempt) : Stage N := fun _ _ net => (a, 0, net)

theorem attempts_steady (a : Attempt) (names : List Str) (net : N) :
    ∀ b ∈ attempts (steadyStage a) kind names net, b = a := by
  induction names with
  | nil => exact fun b hb => nomatch hb
  | cons name names ih =>
    intro b hb
    rcases List.mem_cons.mp hb with rfl | hb
    · rfl
    · exact ih b hb

theorem resolveAll_steady (a : Attempt) (w : World N L) (names : List Str) :
    w.resolveAll (steadyStage a) kind names = w := by
  induction names with
  | nil => rfl
  | cons name names ih => exact ih

end Steady

section Repeat

variable {N L : Type} [LruMap L UInt64 CacheEntry] (cacheKey : Str → RecordKind → UInt64)
variable (builder : Builder) (S : SimpleDns) (config : Config) (name : Str) (kind : RecordKind)

/-- The entry that an answer of `c` leaves behind. -/
def answerEntry (c : Str) (rs : List Record) (ttl : Nat) (now : Instant) : CacheEntry :=
  CacheEntry.make c kind (.positive rs) (max ttl builder.cacheMinTtlSecs) now

/-- The lookup went to the network and `c` answered, after nothing but authoritative negatives, with
records that are stored. -/
structure AnsweredBy (stage : Stage N) (w : World N L) (c : Str) (rs : List Record) (ttl : Nat)
    (now : Instant) : Prop where
  miss : (DnsCache.get cacheKey w.cache w.now name kind).1 = none
  found : ∃ pre post, searchNames S config name = pre ++ c :: post ∧
    (∀ a ∈ attempts stage kind pre w.net, a.outcome.negative = true) ∧
    (stage c kind (netAfter stage kind pre w.net)).1.res = .ok (rs, ttl) ∧
    now = (w.resolveAll stage kind (pre ++ [c])).now
  nonempty : rs ≠ []
  stored : max ttl builder.cacheMinTtlSecs ≠ 0

/-- As long as the entry is there, the same lookup returns its records: below its age without asking
anybody, and within the `serve_stale` window when every candidate fails indeterminately. -/
structure FoundAgain (c : Str) (rs : List Record) (entry : CacheEntry) : Prop where
  fresh : ∀ (stage : Stage N) (w : World N L), entry.insertedAt ≤ w.now →
    LruMap.peek w.cache (DnsCache.slot cacheKey c kind) = some entry →
    entry.age w.now < entry.ttl.nanos →
    ∃ cache, lookupRecordImpl cacheKey stage builder S config name kind w =
      .ok (.ok rs, { w with cache := cache })
  stale : ∀ (stage : Stage N) (w : World N L) (maxAge : Duration), entry.insertedAt ≤ w.now →
    LruMap.peek w.cache (DnsCache.slot cacheKey c kind) = some entry →
    builder.serveStale = some maxAge → entry.ttl.nanos < entry.age w.now →
    entry.age (w.resolveAll stage kind (searchNames S config name)).now ≤
      entry.ttl.nanos + maxAge.nanos →
    (∀ a ∈ attempts stage kind (searchNames S config name) w.net, a.transient = true) →
    ∃ w', lookupRecordImpl cacheKey stage builder S config name kind w = .ok (.ok rs, w')

variable {cacheKey builder S config name kind}

theorem answerEntry_ttl_pos {c : Str} {rs : List Record} {ttl : Nat} {now : Instant}
    (h : max ttl builder.cacheMinTtlSecs ≠ 0) :
    0 < (answerEntry builder kind c rs ttl now).ttl.nanos := by
  show 0 < min (max ttl builder.cacheMinTtlSecs) maxTtlSecs * 1000000000
  unfold maxTtlSecs
  omega

theorem answerEntry_age_self {c : Str} {rs : List Record} {ttl : Nat} {now : Instant} :
    (answerEntry builder kind c rs ttl now).age now = 0 := Nat.sub_self now

/-- An answer of the name itself is found by it again. -/
theorem foundAgain_of_same [LawfulLruMap L] {c : Str} {rs : List Record} {ttl : Nat}
    {now : Instant} (hname : normalize c = normalize name)
    (hfit : ∀ maxAge, builder.serveStale = some maxAge →
      (answerEntry builder kind c rs ttl now).ttl.nanos + maxAge.nanos ≤ Duration.maxNanos) :
    FoundAgain (N := N) (L := L) cacheKey builder S config name kind c rs
      (answerEntry builder kind c rs ttl now) := by
  have hentry : ∀ w : World N L, LruMap.peek w.cache (DnsCache.slot cacheKey c kind) =
      some (answerEntry builder kind c rs ttl now) →
      DnsCache.entryOf cacheKey w.cache name kind =
        some (answerEntry builder kind c rs ttl now) := by
    intro w hpeek
    rw [← DnsCache.entryOf_congr cacheKey hname, DnsCache.entryOf_eq_some]
    exact ⟨hpeek, DnsCache.make_isFor ..⟩
  refine ⟨fun stage w _ hpeek hage => ?_, fun stage w maxAge _ hpeek hserve hold hwin hind => ?_⟩
  · have hlive : (answerEntry builder kind c rs ttl now).isExpired w.now = false :=
      decide_eq_false (Nat.not_lt.mpr (Nat.le_of_lt hage))
    have hget := (DnsCache.get_eq_some cacheKey).mpr ⟨_, hentry w hpeek, hlive, rfl⟩
    exact ⟨_, lookup_hit stage kind cacheKey builder S config hget⟩
  · have hexp : (answerEntry builder kind c rs ttl now).isExpired w.now = true :=
      decide_eq_true hold
    have hmiss := DnsCache.get_eq_none_of_expired cacheKey (hentry w hpeek) hexp
    obtain ⟨cache, e, -, hrun⟩ := lookup_indeterminate stage kind cacheKey builder S config hmiss
      fun a ha => indeterminate_of_transient (hind a ha)
    have hage : (answerEntry builder kind c rs ttl now).ttl.nanos <
        (answerEntry builder kind c rs ttl now).age
          (w.resolveAll stage kind (searchNames S config name)).now :=
      Nat.lt_of_lt_of_le hold (Nat.sub_le_sub_right (resolveAll_now_le stage kind w _) _)
    have hread : staleRead builder (DnsCache.entryOf cacheKey w.cache name kind)
        (w.resolveAll stage kind (searchNames S config name)).now = .ok (some rs) := by
      unfold staleRead
      rw [hserve, hentry w hpeek]
      show DnsCache.staleOf _ _ _ = _
      rw [DnsCache.staleOf_eq (hfit maxAge hserve), if_pos ⟨hage, hwin⟩]
      rfl
    rw [hread] at hrun
    exact ⟨_, hrun⟩

/-- A lookup that is answered and stores the answer ends in a world that holds its entry. -/
theorem AnsweredBy.run [LawfulLruMap L] {stage : Stage N} {w : World N L} {c : Str}
    {rs : List Record} {ttl : Nat} {now : Instant}
    (hans : AnsweredBy cacheKey builder S config name kind stage w c rs ttl now) :
    ∃ cache : L, (∀ k, LruMap.peek cache k = LruMap.peek w.cache k) ∧
      ∃ w' : World N L, lookupRecordImpl cacheKey stage builder S config name kind w =
          .ok (.ok rs, w') ∧ w.now ≤ now ∧ w'.now = now ∧
        w'.cache = DnsCache.insert cacheKey cache now c kind (.positive rs)
          (max ttl builder.cacheMinTtlSecs) := by
  obtain ⟨pre, post, hn, hneg, hres, rfl⟩ := hans.found
  have hout := ofResult_records hres hans.nonempty
  have hpre : ∀ a ∈ attempts stage kind pre w.net, a.outcome.decisive = false := by
    intro a ha
    have h := hneg a ha
    cases ho : a.outcome <;> rw [ho] at h <;> first | rfl | cases h
  have hdec : (stage c kind (netAfter stage kind pre w.net)).1.outcome.decisive = true := by
    rw [show Attempt.outcome _ = _ from hout]
    rfl
  have hmem : ∃ a ∈ attempts stage kind (searchNames S config name) w.net,
      a.outcome.decisive = true := ⟨_, hn ▸ attempt_mem stage kind pre c post w.net, hdec⟩
  obtain ⟨a, ha, hda⟩ := hmem
  have hasked := asked_of_decisive stage kind post hpre hdec
  obtain ⟨cache, hcache, hcases⟩ := lookup_cases stage kind cacheKey builder S config hans.miss
  refine ⟨cache, hcache, ?_⟩
  rcases hcases with
    ⟨pre', c', post', rs', ttl', hn', hpre', hres', hrs', hrun⟩ |
      ⟨pre', c', post', e, hn', hpre', hout', -⟩ | ⟨_, _, _, _, -, hall, -⟩ | ⟨as, b, e, has, hind, -⟩
  · have hasked' := asked_of_decisive stage kind post' hpre'
      (by rw [show Attempt.outcome _ = _ from ofResult_records hres' hrs']; rfl)
    rw [← hn'] at hasked'
    rw [← hn] at hasked
    obtain ⟨rfl, hc⟩ := List.append_inj' (hasked'.symm.trans hasked) rfl
    cases hc
    cases hres'.symm.trans hres
    exact ⟨_, hrun, resolveAll_now_le stage kind w _, rfl, rfl⟩
  · have hasked' := asked_of_decisive stage kind post' hpre' (by rw [hout']; rfl)
    rw [← hn'] at hasked'
    rw [← hn] at hasked
    obtain ⟨rfl, hc⟩ := List.append_inj' (hasked'.symm.trans hasked) rfl
    cases hc
    exact nomatch hout'.symm.trans hout
  · exact nomatch hda.symm.trans (hall a ha)
  · obtain ⟨e', he'⟩ := hind a (has ▸ ha)
    rw [he'] at hda
    cases hda

/-- When every candidate fails fatally and nothing is cached, the lookup fails. -/
theorem lookup_refused [LawfulLruMap L] {w : World N L} {rs : List Record} {w' : World N L}
    (hmiss : (DnsCache.get cacheKey w.cache w.now name kind).1 = none) :
    lookupRecordImpl cacheKey (steadyStage ⟨.error .missingTlsConfig, none⟩) builder S config name
      kind w ≠ .ok (.ok rs, w') := by
  intro hok
  have hfollows : FollowsPrecedence (steadyStage ⟨.error .missingTlsConfig, none⟩) kind cacheKey
      builder S config name w := by
    refine follows_of_miss hmiss ?_
    rintro ⟨hind, -⟩
    obtain ⟨c, hc⟩ := List.exists_mem_of_ne_nil _
      (attempts_ne_nil (steadyStage ⟨.error .missingTlsConfig, none⟩) kind
        (searchNames_ne_nil S name config) w.net)
    obtain ⟨e, he⟩ := hind _ (List.mem_map_of_mem hc)
    rw [attempts_steady _ _ _ c hc] at he
    cases he
  obtain ⟨o, w'', hch, hrun, -⟩ := hfollows
  obtain ⟨a, ha, rfl⟩ := List.mem_map.mp (Choice.choose_mem hch)
  rw [attempts_steady _ _ _ a ha] at hrun
  exact nomatch hrun.symm.trans hok

/-- An answer of a name with another normal form leaves the name asked as it was: not there. -/
theorem AnsweredBy.miss_of_ne [LawfulLruMap L] {stage : Stage N} {w : World N L} {c : Str}
    {rs : List Record} {ttl : Nat} {now : Instant}
    (hans : AnsweredBy cacheKey builder S config name kind stage w c rs ttl now)
    (hne : normalize c ≠ normalize name) {cache : L}
    (hcache : ∀ k, LruMap.peek cache k = LruMap.peek w.cache k) (hle : w.now ≤ now) :
    (DnsCache.get cacheKey (DnsCache.insert cacheKey cache now c kind (.positive rs)
      (max ttl builder.cacheMinTtlSecs)) now name kind).1 = none := by
  cases hget : (DnsCache.get cacheKey (DnsCache.insert cacheKey cache now c kind (.positive rs)
      (max ttl builder.cacheMinTtlSecs)) now name kind).1 with
  | none => rfl
  | some r =>
    obtain ⟨e, he, hlive, -⟩ := (DnsCache.get_eq_some cacheKey).mp hget
    rcases DnsCache.entryOf_insert_ne cacheKey (fun h => hne h.symm) cache now kind kind
      (.positive rs) (max ttl builder.cacheMinTtlSecs) with hold | hold
    · have hw : DnsCache.entryOf cacheKey w.cache name kind = some e := by
        rw [← he, hold]
        unfold DnsCache.entryOf
        rw [hcache]
      rw [expired_of_miss hans.miss hw hle] at hlive
      simp at hlive
    · exact nomatch hold.symm.trans he

/-- Found again within the `serve_stale` window, the entry's TTL and the window stay in range: just
past the TTL and with nobody to be reached, the lookup would panic otherwise. -/
theorem FoundAgain.window_le [LawfulLruMap L] {c : Str} {rs : List Record} {ttl : Nat}
    {now : Instant}
    (hagain : FoundAgain (N := N) (L := L) cacheKey builder S config name kind c rs
      (answerEntry builder kind c rs ttl now))
    (hname : normalize c = normalize name) {w : World N L}
    (hpeek : LruMap.peek w.cache (DnsCache.slot cacheKey c kind) =
      some (answerEntry builder kind c rs ttl now))
    {maxAge : Duration} (hserve : builder.serveStale = some maxAge) :
    (answerEntry builder kind c rs ttl now).ttl.nanos + maxAge.nanos ≤ Duration.maxNanos := by
  by_contra hover
  rw [Nat.not_le] at hover
  let late : World N L :=
    { w with now := now + (answerEntry builder kind c rs ttl now).ttl.nanos + 1 }
  have hage : (answerEntry builder kind c rs ttl now).age late.now =
      (answerEntry builder kind c rs ttl now).ttl.nanos + 1 := by
    show now + (answerEntry builder kind c rs ttl now).ttl.nanos + 1 - now = _
    rw [Nat.add_assoc, Nat.add_sub_cancel_left]
  have hold : (answerEntry builder kind c rs ttl now).ttl.nanos <
      (answerEntry builder kind c rs ttl now).age late.now := by
    rw [hage]
    exact Nat.lt_succ_self _
  have hentry : DnsCache.entryOf cacheKey late.cache name kind =
      some (answerEntry builder kind c rs ttl now) := by
    rw [← DnsCache.entryOf_congr cacheKey hname, DnsCache.entryOf_eq_some]
    exact ⟨hpeek, DnsCache.make_isFor ..⟩
  have hmiss := DnsCache.get_eq_none_of_expired cacheKey hentry (decide_eq_true hold)
  have htransient : ∀ a ∈ attempts (steadyStage ⟨.error .noResponse, none⟩) kind
      (searchNames S config name) late.net, a.transient = true := by
    intro a ha
    rw [attempts_steady _ _ _ a ha]
    rfl
  have hwin : (answerEntry builder kind c rs ttl now).age late.now ≤
      (answerEntry builder kind c rs ttl now).ttl.nanos + maxAge.nanos := by
    have hmax := (answerEntry builder kind c rs ttl now).ttl.le_max
    rw [hage]
    omega
  obtain ⟨w', hstale⟩ := hagain.stale (steadyStage ⟨.error .noResponse, none⟩) late maxAge
    (Nat.le_trans (Nat.le_add_right _ _) (Nat.le_succ _)) hpeek hserve hold
    (by rw [resolveAll_steady]; exact hwin) htransient
  have hpanic : lookupRecordImpl cacheKey (steadyStage ⟨.error .noResponse, none⟩) builder S
      config name kind late = .error .overflow := lookup_panics hmiss
    (forall_outcomes _ kind fun a ha => indeterminate_of_transient (htransient a ha))
    ⟨maxAge, _, hserve, hentry, hover⟩
  exact nomatch hpanic.symm.trans hstale

/-- What `c` answered is found again by the name asked exactly when `c` has the name's normal form
and the window stays in range. -/
theorem found_again_iff [LawfulLruMap L] {stage : Stage N} {w : World N L} {c : Str}
    {rs : List Record} {ttl : Nat} {now : Instant}
    (hans : AnsweredBy cacheKey builder S config name kind stage w c rs ttl now) :
    FoundAgain (N := N) (L := L) cacheKey builder S config name kind c rs
        (answerEntry builder kind c rs ttl now) ↔
      normalize c = normalize name ∧ ∀ maxAge, builder.serveStale = some maxAge →
        (answerEntry builder kind c rs ttl now).ttl.nanos + maxAge.nanos ≤ Duration.maxNanos := by
  constructor
  · intro hagain
    obtain ⟨cache, hcache, w', hrun, hle, hnow, hins⟩ := hans.run
    have hpeek : LruMap.peek w'.cache (DnsCache.slot cacheKey c kind) =
        some (answerEntry builder kind c rs ttl now) := by
      rw [hins, DnsCache.insert_pos cacheKey hans.stored, LawfulLruMap.peek_put_self]
      rfl
    have hname : normalize c = normalize name := by
      by_contra hne
      have hmiss : (DnsCache.get cacheKey w'.cache w'.now name kind).1 = none := by
        rw [hins, hnow]
        exact hans.miss_of_ne hne hcache hle
      obtain ⟨_, hfresh⟩ := hagain.fresh (steadyStage ⟨.error .missingTlsConfig, none⟩) w'
        (Nat.le_of_eq hnow.symm) hpeek
        (by rw [hnow, answerEntry_age_self]; exact answerEntry_ttl_pos hans.stored)
      exact lookup_refused hmiss hfresh
    exact ⟨hname, fun maxAge hserve => hagain.window_le hname hpeek hserve⟩
  · rintro ⟨hname, hfit⟩
    exact foundAgain_of_same hname hfit

end Repeat

/-! ## A host of the search domain -/

/-- Only `db.corp` exists. -/
def corpStage : Stage Unit := fun name _ _ =>
  if name = "db.corp".toList then (⟨.ok ([.a ⟨8⟩], 300), none⟩, 1000000, ())
  else (⟨.error .nxDomain, none⟩, 1000000, ())

def corpConfig : Config := { searchDomains := ["corp".toList] }

def corpWorld : World Unit Table := ⟨0, (), LruMap.new, []⟩

/-- Asked for by the name it is stored under, the host is found again. -/
theorem found_again_absolute :
    FoundAgain (N := Unit) (L := Table) sampleKey {} (SimpleDns.ofTable []) corpConfig
        "db.corp".toList .a "db.corp".toList [.a ⟨8⟩]
        (answerEntry {} .a "db.corp".toList [.a ⟨8⟩] 300 1000000) ↔
      normalize "db.corp".toList = normalize "db.corp".toList ∧
        ∀ maxAge, ({} : Builder).serveStale = some maxAge →
          (answerEntry {} .a "db.corp".toList [.a ⟨8⟩] 300 1000000).ttl.nanos + maxAge.nanos ≤
            Duration.maxNanos :=
  found_again_iff (show AnsweredBy sampleKey {} (SimpleDns.ofTable []) corpConfig
      "db.corp".toList .a corpStage corpWorld "db.corp".toList [.a ⟨8⟩] 300 1000000 from
    ⟨rfl, ⟨[], ["db.corp.corp".toList], rfl, fun _ ha => (nomatch ha), rfl, rfl⟩,
      List.cons_ne_nil _ _, by decide⟩)

/-- Asked for as `db`, it is stored as `db.corp` and `db` is asked for again. -/
theorem expansion_not_found_again :
    AnsweredBy sampleKey {} (SimpleDns.ofTable []) corpConfig "db".toList .a corpStage corpWorld
        "db.corp".toList [.a ⟨8⟩] 300 1000000 ∧
      ¬ FoundAgain (N := Unit) (L := Table) sampleKey {} (SimpleDns.ofTable []) corpConfig
        "db".toList .a "db.corp".toList [.a ⟨8⟩]
        (answerEntry {} .a "db.corp".toList [.a ⟨8⟩] 300 1000000) := by
  refine ⟨⟨rfl, ⟨[], ["db".toList], rfl, fun _ ha => (nomatch ha), rfl, rfl⟩,
    List.cons_ne_nil _ _, by decide⟩, fun h => ?_⟩
  obtain ⟨_, hfresh⟩ := h.fresh (steadyStage ⟨.error .noResponse, none⟩)
    { corpWorld with
      now := 1000000
      cache := DnsCache.insert sampleKey LruMap.new 1000000 "db.corp".toList .a
        (.positive [.a ⟨8⟩]) 300 }
    (Nat.le_refl _) rfl (by decide)
  exact nomatch (show Except.ok (Except.error Error.noResponse, _) = _ from hfresh)

end N0DnsResolver
