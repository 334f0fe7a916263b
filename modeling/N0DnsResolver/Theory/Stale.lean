/-
  What is served stale, over a run of lookups of one absolute name.

  `Watched` adds to the world what the code does not keep: the most recent
  authoritative answer any lookup obtained. A write replaces the entry of an older
  answer, but an answer that must not be cached is not written, and the older entry
  stays behind it. `Replaces` is the condition on a lookup that this does no harm;
  `stale_is_latest` is what it gives over every run.
-/
import N0DnsResolver.Lib.Machine
import N0DnsResolver.Theory.Precedence

namespace N0DnsResolver

/-- The authoritative outcomes, as the results they are stored as. -/
def Outcome.toCached : Outcome → Option CachedResult
  | .records rs => some (.positive rs)
  | .noData => some .noData
  | .nxDomain => some .nxDomain
  | .indeterminate _ => none
  | .fatal _ => none

/-- The seconds an authoritative answer is stored for; 0 is not at all. -/
def Builder.storedTtl (builder : Builder) (a : Attempt) : Nat :=
  match a.res with
  | .ok (rs, ttl) =>
    if rs ≠ [] then max ttl builder.cacheMinTtlSecs else builder.negativeCacheTtlSecs a.soa
  | .error _ => builder.negativeCacheTtlSecs a.soa

theorem toCached_of_cached {o : Outcome} {r : CachedResult} (h : o.cached = some r) :
    o.toCached = some r := by
  cases o <;> first | exact h | cases h

theorem storedTtl_records {builder : Builder} {a : Attempt} {rs : List Record} {ttl : Nat}
    (h : a.res = .ok (rs, ttl)) (hrs : rs ≠ []) :
    builder.storedTtl a = max ttl builder.cacheMinTtlSecs := by
  unfold Builder.storedTtl
  rw [h]
  exact if_pos hrs

theorem storedTtl_negative {builder : Builder} {a : Attempt} {r : CachedResult}
    (h : a.outcome.cached = some r) :
    builder.storedTtl a = builder.negativeCacheTtlSecs a.soa := by
  unfold Builder.storedTtl
  cases hres : a.res with
  | error e => rfl
  | ok p =>
    obtain ⟨rs, ttl⟩ := p
    refine if_neg fun hrs => ?_
    rw [show a.outcome = .records rs from ofResult_records hres hrs] at h
    cases h

theorem eq_of_singleton {pre post : List Str} {c n : Str} (h : [n] = pre ++ c :: post) :
    pre = [] ∧ c = n ∧ post = [] := by
  cases pre with
  | nil =>
    obtain ⟨rfl, rfl⟩ := List.cons.inj h
    exact ⟨rfl, rfl, rfl⟩
  | cons a pre => simp at h

section Stale

variable {N L : Type} [LruMap L UInt64 CacheEntry] (cacheKey : Str → RecordKind → UInt64)
variable (stage : Stage N) (builder : Builder) (S : SimpleDns) (config : Config)
variable (kind : RecordKind)

/-- A lookup of a name that is its own only candidate, without a cached answer. -/
theorem lookup_single [LawfulLruMap L] {n : Str} {w : World N L}
    (hn : searchNames S config n = [n])
    (hmiss : (DnsCache.get cacheKey w.cache w.now n kind).1 = none) :
    ∃ cache : L, (∀ k, LruMap.peek cache k = LruMap.peek w.cache k) ∧
      ((∃ r, (stage n kind w.net).1.outcome.toCached = some r ∧
          lookupRecordImpl cacheKey stage builder S config n kind w =
            .ok (r.answer, World.insert cacheKey
              { w.resolve stage n kind with cache := cache } n kind r
              (builder.storedTtl (stage n kind w.net).1))) ∨
        (∃ e, (stage n kind w.net).1.outcome = .fatal e ∧
          lookupRecordImpl cacheKey stage builder S config n kind w =
            .ok (.error e, { w.resolve stage n kind with cache := cache })) ∨
        (∃ e, (stage n kind w.net).1.outcome = .indeterminate e ∧
          lookupRecordImpl cacheKey stage builder S config n kind w =
            (staleRead builder (DnsCache.entryOf cacheKey w.cache n kind)
                (w.resolve stage n kind).now).map
              (fun found => (found.elim (.error e) .ok,
                { w.resolve stage n kind with cache := cache })))) := by
  obtain ⟨cache, hcache, hcases⟩ := lookup_cases stage kind cacheKey builder S config hmiss
  refine ⟨cache, hcache, ?_⟩
  rw [hn] at hcases
  rcases hcases with
    ⟨pre, c, post, rs, ttl, hsplit, -, hres, hrs, hrun⟩ | ⟨pre, c, post, e, hsplit, -, hout, hrun⟩ |
      ⟨pre, c, post, r, hsplit, hall, -, hr, hrun⟩ | ⟨as, a, e, has, -, ha, hrun⟩
  · obtain ⟨rfl, rfl, rfl⟩ := eq_of_singleton hsplit
    have hres' : (stage c kind w.net).1.res = .ok (rs, ttl) := hres
    refine .inl ⟨.positive rs, ?_, ?_⟩
    · rw [show (stage c kind w.net).1.outcome = .records rs from ofResult_records hres' hrs]
      rfl
    · rw [hrun, storedTtl_records hres' hrs]
      rfl
  · obtain ⟨rfl, rfl, rfl⟩ := eq_of_singleton hsplit
    exact .inr (.inl ⟨e, hout, hrun⟩)
  · obtain ⟨rfl, rfl, rfl⟩ := eq_of_singleton hsplit
    have hr' : (stage c kind w.net).1.outcome.cached = some r := hr
    have hsure : (attempts stage kind [c] w.net).any Attempt.transient = false := by
      show ((stage c kind w.net).1.transient || false) = false
      rw [Bool.or_false]
      unfold Attempt.transient
      split
      · next e he =>
        rw [he] at hr'
        cases hr'
      · rfl
    rw [hsure] at hrun
    refine .inl ⟨r, toCached_of_cached hr', ?_⟩
    rw [hrun, storedTtl_negative hr']
    rfl
  · refine .inr (.inr ⟨e, ?_, hrun⟩)
    have hone : attempts stage kind [n] w.net = [(stage n kind w.net).1] := rfl
    rw [hone] at has
    cases as with
    | nil => rw [(List.cons.inj has).1, ha]
    | cons b as => simp at has

/-- A world, and the latest authoritative answer that any lookup in it obtained. -/
structure Watched (N L : Type) where
  world : World N L
  latest : Option CachedResult

/-- A lookup of the name in some spelling, or time that passes. -/
inductive Visit where
  | lookup (spelling : Str)
  | wait (nanos : Nat)

/-- The latest authoritative answer after a lookup. -/
def Watched.observe (s : Watched N L) (n : Str) : Option CachedResult :=
  match (DnsCache.get cacheKey s.world.cache s.world.now n kind).1 with
  | some _ => s.latest
  | none => (stage n kind s.world.net).1.outcome.toCached.or s.latest

def Watched.visit (s : Watched N L) : Visit → Option (Watched N L)
  | .lookup n =>
    match lookupRecordImpl cacheKey stage builder S config n kind s.world with
    | .error _ => none
    | .ok (_, w) => some ⟨w, s.observe cacheKey stage kind n⟩
  | .wait nanos => some { s with world := { s.world with now := s.world.now + nanos } }

/-- A new resolver that nothing was asked of. -/
def Watched.start (net : N) : Watched N L := ⟨⟨0, net, LruMap.new, []⟩, none⟩

/-- The visit spells the name, as an absolute one. -/
def Visit.Spells (name : Str) : Visit → Prop
  | .lookup n => normalize n = normalize name ∧ (n.getLast? = some '.' ∨ config.searchDomains = [])
  | .wait _ => True

/-- An authoritative answer that is not stored leaves no positive entry of other records behind it
that could still be served. -/
def Replaces (s : Watched N L) : Visit → Prop
  | .lookup n => ∀ r entry maxAge rs,
      (DnsCache.get cacheKey s.world.cache s.world.now n kind).1 = none →
      (stage n kind s.world.net).1.outcome.toCached = some r →
      builder.storedTtl (stage n kind s.world.net).1 = 0 →
      DnsCache.entryOf cacheKey s.world.cache n kind = some entry →
      entry.result = .positive rs → builder.serveStale = some maxAge →
      entry.age (s.world.resolve stage n kind).now ≤ entry.ttl.nanos + maxAge.nanos →
      r = .positive rs
  | .wait _ => True

/-- What a lookup that learned nothing returns are the records of the latest authoritative answer. -/
def ServesLatest (s : Watched N L) (n : Str) : Prop :=
  ∀ e rs w, (DnsCache.get cacheKey s.world.cache s.world.now n kind).1 = none →
    (stage n kind s.world.net).1.outcome = .indeterminate e →
    lookupRecordImpl cacheKey stage builder S config n kind s.world = .ok (.ok rs, w) →
    s.latest = some (.positive rs)

/-- Whatever could be served stale is the latest answer. -/
def Current (name : Str) (s : Watched N L) : Prop :=
  ∀ entry rs maxAge, DnsCache.entryOf cacheKey s.world.cache name kind = some entry →
    entry.result = .positive rs → builder.serveStale = some maxAge →
    entry.age s.world.now ≤ entry.ttl.nanos + maxAge.nanos → s.latest = some (.positive rs)

variable {cacheKey stage builder S config kind}

/-- What is current stays so as time passes and while neither the entry nor the answer changes. -/
theorem Current.mono {name : Str} {s s' : Watched N L}
    (h : Current cacheKey builder kind name s)
    (hentry : DnsCache.entryOf cacheKey s'.world.cache name kind =
      DnsCache.entryOf cacheKey s.world.cache name kind)
    (hnow : s.world.now ≤ s'.world.now) (hlatest : s'.latest = s.latest) :
    Current cacheKey builder kind name s' := by
  intro entry rs maxAge he hr hserve hage
  rw [hlatest]
  rw [hentry] at he
  exact h entry rs maxAge he hr hserve
    (Nat.le_trans (Nat.sub_le_sub_right hnow _) hage)

/-- What a lookup writes is the latest answer. -/
theorem current_insert [LawfulLruMap L] {name n : Str} (hname : normalize n = normalize name)
    {w : World N L} {r : CachedResult} {ttl : Nat} (httl : ttl ≠ 0) :
    Current cacheKey builder kind name ⟨w.insert cacheKey n kind r ttl, some r⟩ := by
  intro entry rs maxAge he hr hserve hage
  have hself : DnsCache.entryOf cacheKey (w.insert cacheKey n kind r ttl).cache name kind =
      some (CacheEntry.make n kind r ttl w.now) := by
    rw [← DnsCache.entryOf_congr cacheKey hname]
    exact DnsCache.entryOf_insert_self cacheKey httl w.cache w.now n kind r
  cases hself.symm.trans he
  exact congrArg some hr

/-- A visit that replaces what it supersedes keeps what could be served current. -/
theorem visit_current [LawfulLruMap L] {name : Str} {s s' : Watched N L} {v : Visit}
    (h : Current cacheKey builder kind name s)
    (hv : v.Spells config name ∧ Replaces cacheKey stage builder kind s v)
    (hstep : s.visit cacheKey stage builder S config kind v = some s') :
    Current cacheKey builder kind name s' := by
  cases v with
  | wait nanos =>
    cases hstep
    exact h.mono rfl (Nat.le_add_right _ _) rfl
  | lookup n =>
    obtain ⟨⟨hname, habs⟩, hrep⟩ := hv
    unfold Watched.visit at hstep
    simp only at hstep
    split at hstep
    · simp at hstep
    · next res w hrun =>
      cases hstep
      unfold Watched.observe
      cases hget : (DnsCache.get cacheKey s.world.cache s.world.now n kind).1 with
      | some r =>
        rw [lookup_hit stage kind cacheKey builder S config hget] at hrun
        cases hrun
        exact h.mono (DnsCache.entryOf_get ..) (Nat.le_refl _) rfl
      | none =>
        obtain ⟨cache, hcache, hcases⟩ := lookup_single cacheKey stage builder S config kind
          (searchNames_eq_singleton S n habs) hget
        have hsame : ∀ m, DnsCache.entryOf cacheKey cache m kind =
            DnsCache.entryOf cacheKey s.world.cache m kind := fun m =>
          DnsCache.entryOf_of_peek cacheKey hcache m kind
        have hnow : s.world.now ≤ (s.world.resolve stage n kind).now := Nat.le_add_right _ _
        rcases hcases with ⟨r, hr, h'⟩ | ⟨e, he, h'⟩ | ⟨e, he, h'⟩
        · cases h'.symm.trans hrun
          rw [hr]
          by_cases httl : builder.storedTtl (stage n kind s.world.net).1 = 0
          · -- not written: the condition on the visit speaks of the entry that stays
            intro entry rs maxAge hentry hpos hserve hage
            rw [httl, show (World.insert cacheKey _ n kind r 0).cache = cache from rfl,
              hsame] at hentry
            rw [← DnsCache.entryOf_congr cacheKey hname] at hentry
            have hr' := hrep r entry maxAge rs hget hr httl hentry hpos hserve hage
            rw [hr']
            rfl
          · exact current_insert hname httl
        · cases h'.symm.trans hrun
          rw [he]
          exact h.mono (hsame name) hnow rfl
        · rw [h'] at hrun
          obtain ⟨found, -, hf⟩ := Checked.map_eq_ok hrun
          cases hf
          rw [he]
          exact h.mono (hsame name) hnow rfl

/-- Over every run of lookups of one absolute name in which no answer is dropped in front of a
positive entry that could still be served, what is served stale is the latest answer. -/
theorem stale_is_latest [LawfulLruMap L] {name n : Str} {net : N} {visits : List Visit}
    {s : Watched N L}
    (hrun : Machine.run (Watched.visit cacheKey stage builder S config kind)
      (Watched.start net) visits = some s)
    (hvisits : Machine.Along (Watched.visit cacheKey stage builder S config kind)
      (fun s v => v.Spells config name ∧ Replaces cacheKey stage builder kind s v)
      (Watched.start (L := L) net) visits)
    (hn : (Visit.lookup n).Spells config name) :
    ServesLatest cacheKey stage builder S config kind s n := by
  have hstart : Current cacheKey builder kind name (Watched.start net : Watched N L) := by
    intro entry rs maxAge he
    rw [DnsCache.entryOf_eq_none cacheKey
      (show LruMap.peek (Watched.start net : Watched N L).world.cache _ = none from
        LawfulLruMap.peek_new _)] at he
    simp at he
  have hcurrent : Current cacheKey builder kind name s :=
    Machine.run_invariant_along (fun s v s' hs hv hstep => visit_current hs hv hstep) hstart
      hvisits hrun
  intro e rs w hmiss hind hok
  obtain ⟨cache, hcache, hcases⟩ := lookup_single cacheKey stage builder S config kind
    (searchNames_eq_singleton S n hn.2) hmiss
  rcases hcases with ⟨r, hr, -⟩ | ⟨e', he', -⟩ | ⟨e', he', h'⟩
  · rw [hind] at hr
    cases hr
  · exact nomatch hind.symm.trans he'
  · rw [h'] at hok
    obtain ⟨found, hread, hf⟩ := Checked.map_eq_ok hok
    have hfound : found = some rs := by
      cases found with
      | none => cases (Prod.mk.inj hf).1
      | some rs' => exact congrArg some (Except.ok.inj (Prod.mk.inj hf).1)
    rw [hfound] at hread
    obtain ⟨maxAge, entry, hserve, hentry, hpos, hage⟩ := staleRead_eq_some builder hread
    rw [DnsCache.entryOf_congr cacheKey hn.1] at hentry
    exact hcurrent entry rs maxAge hentry hpos hserve
      (Nat.le_trans (Nat.sub_le_sub_right (Nat.le_add_right _ _) _) hage)

end Stale

/-! ## An absence that is not cached -/

/-- The first query finds the host and the third that it is gone; the others time out. -/
def vanishingStage : Stage Nat := fun _ _ n =>
  match n with
  | 0 => (⟨.ok ([.a ⟨7⟩], 1), none⟩, 0, 1)
  | 2 => (⟨.error .nxDomain, none⟩, 0, 3)
  | n => (⟨.error .timeout, none⟩, 0, n + 1)

/-- Stale answers are served for a hundred seconds. -/
def staleBuilder : Builder := { serveStale := some (Duration.fromSecs 100 (by decide)) }

def vanishingRun (visits : List Visit) : Option (Watched Nat Table) :=
  Machine.run (Watched.visit sampleKey vanishingStage staleBuilder (SimpleDns.ofTable []) {} .a)
    (Watched.start 0) visits

/-- The host was looked up once, and its entry has left its TTL. -/
theorem stale_is_latest_once :
    ServesLatest sampleKey vanishingStage staleBuilder (SimpleDns.ofTable []) {} .a
      ((vanishingRun [.lookup "db.".toList, .wait 2000000000]).get rfl) "db.".toList :=
  @stale_is_latest _ _ _ _ _ _ _ _ _ _ "db.".toList _ _ _ _ (Option.some_get rfl).symm
    ⟨⟨⟨rfl, .inl rfl⟩, fun _ _ _ _ _ _ h => absurd h (by decide)⟩,
      fun _ _ => ⟨⟨trivial, trivial⟩, fun _ _ => trivial⟩⟩
    ⟨rfl, .inl rfl⟩

/-- The host is found, later found to be gone, and then its old records are served. -/
theorem vanished_host_is_served :
    ¬ ServesLatest sampleKey vanishingStage staleBuilder (SimpleDns.ofTable []) {} .a
      ((vanishingRun [.lookup "db.".toList, .wait 2000000000, .lookup "db.".toList,
        .lookup "db.".toList]).get rfl) "db.".toList := by
  intro h
  have hlatest := h .timeout [.a ⟨7⟩] _ rfl rfl rfl
  exact nomatch (show some CachedResult.nxDomain = some (.positive [.a ⟨7⟩]) from hlatest)

end N0DnsResolver
