/-
  The cache against an ideal one.

  The ideal cache is a `TtlMap` from normal forms and kinds to results, which forgets
  nothing and knows of no slots. `CacheRun` is a run of the cache of the code, with
  whatever key function and whatever evictions; its clones share one map, so a run is
  one sequence of calls. Every entry that can be read is the ideal's (`Refines`), and
  where nothing collides with it or was evicted, the ideal's entry can be read
  (`run_exact`).
-/
import N0DnsResolver.Lib.TtlMap
import N0DnsResolver.Model.SharedCache

namespace N0DnsResolver

/-- What a call writes to the ideal cache. -/
def CacheOp.write (now : Instant) :
    CacheOp → Option (TtlMap.Write (Str × RecordKind) CachedResult)
  | .insert host kind result ttl =>
    if ttl = 0 then none
    else some (.put (normalize host, kind) ⟨result, now, min ttl maxTtlSecs * 1000000000⟩)
  | .clear => some .clear
  | _ => none

/-- What a call at its instant writes. -/
def CacheOp.writeAt (e : Instant × CacheOp) : Option (TtlMap.Write (Str × RecordKind) CachedResult) :=
  e.2.write e.1

/-- The ideal cache after these calls. -/
def idealCache (events : List (Instant × CacheOp)) :
    TtlMap (Str × RecordKind) CachedResult :=
  .ofWrites (events.filterMap CacheOp.writeAt)

/-- The call clears the cache, or inserts under the normal form and kind for a positive TTL. -/
def CacheOp.Hides (host : Str) (kind : RecordKind) : CacheOp → Prop
  | .insert host' kind' _ ttl => 0 < ttl ∧ normalize host' = normalize host ∧ kind' = kind
  | .clear => True
  | _ => False

/-- The latest insert of a positive TTL under the normal form and kind, since the last clear. -/
def LatestInsert (events : List (Instant × CacheOp)) (host : Str) (kind : RecordKind)
    (result : CachedResult) (since : Instant) (ttl : Nat) : Prop :=
  ∃ before host' after,
    events = before ++ (since, .insert host' kind result ttl) :: after ∧ 0 < ttl ∧
      normalize host' = normalize host ∧ ∀ e ∈ after, ¬ e.2.Hides host kind

/-- A call hides an entry from the ideal cache by what it writes there. -/
theorem hides_iff {now : Instant} {op : CacheOp} {host : Str} {kind : RecordKind} :
    op.Hides host kind ↔ ∃ w, op.write now = some w ∧ w.Hides (normalize host, kind) := by
  cases op with
  | insert host' kind' result ttl =>
    constructor
    · intro h
      obtain ⟨httl, hname, rfl⟩ := h
      exact ⟨_, if_neg (Nat.pos_iff_ne_zero.mp httl), Prod.ext hname rfl⟩
    · intro h
      obtain ⟨w, hw, hides⟩ := h
      simp only [CacheOp.write] at hw
      split at hw
      · cases hw
      · next httl =>
        cases hw
        obtain ⟨hname, hkind⟩ := Prod.mk.inj hides
        exact ⟨Nat.pos_of_ne_zero httl, hname, hkind⟩
  | get host' kind' => exact ⟨fun h => h.elim, fun ⟨_, hw, _⟩ => nomatch hw⟩
  | getStale host' kind' maxStale => exact ⟨fun h => h.elim, fun ⟨_, hw, _⟩ => nomatch hw⟩
  | clear => exact ⟨fun _ => ⟨_, rfl, trivial⟩, fun _ => trivial⟩

theorem write_eq_put {now : Instant} {op : CacheOp} {key : Str × RecordKind}
    {s : Stamped CachedResult} :
    op.write now = some (.put key s) ↔
      ∃ host ttl, op = .insert host key.2 s.value ttl ∧ 0 < ttl ∧ normalize host = key.1 ∧
        s.since = now ∧ s.ttl = min ttl maxTtlSecs * 1000000000 := by
  constructor
  · intro h
    cases op with
    | insert host kind result ttl =>
      simp only [CacheOp.write] at h
      split at h
      · cases h
      · next httl =>
        cases h
        exact ⟨host, ttl, rfl, Nat.pos_of_ne_zero httl, rfl, rfl, rfl⟩
    | get host kind => cases h
    | getStale host kind maxStale => cases h
    | clear => cases h
  · intro h
    obtain ⟨host, ttl, rfl, httl, hname, hsince, hcap⟩ := h
    simp only [CacheOp.write]
    rw [if_neg (Nat.pos_iff_ne_zero.mp httl), hname, ← hsince, ← hcap]

/-- The ideal cache holds the latest insert. -/
theorem idealCache_eq_some {events : List (Instant × CacheOp)} {host : Str} {kind : RecordKind}
    {s : Stamped CachedResult} :
    idealCache events (normalize host, kind) = some s ↔
      ∃ ttl, LatestInsert events host kind s.value s.since ttl ∧
        s.ttl = min ttl maxTtlSecs * 1000000000 := by
  unfold idealCache LatestInsert
  rw [TtlMap.ofWrites_eq_some]
  constructor
  · intro h
    obtain ⟨before, after, hsplit, hafter⟩ := h
    obtain ⟨evBefore, evRest, rfl, -, hrest⟩ := List.filterMap_eq_append_iff.mp hsplit
    obtain ⟨skipped, e, evAfter, rfl, -, he, rfl⟩ := List.filterMap_eq_cons_iff.mp hrest
    obtain ⟨now, op⟩ := e
    obtain ⟨host', ttl, rfl, httl, hname, rfl, hcap⟩ := write_eq_put.mp he
    refine ⟨ttl, ⟨evBefore ++ skipped, host', evAfter, by simp, httl, hname, ?_⟩, hcap⟩
    intro e hmem hides
    obtain ⟨w, hw, hkey⟩ := hides_iff.mp hides
    exact hafter w (List.mem_filterMap.mpr ⟨e, hmem, hw⟩) hkey
  · intro h
    obtain ⟨ttl, ⟨before, host', after, rfl, httl, hname, hafter⟩, hcap⟩ := h
    have hput : CacheOp.writeAt (s.since, .insert host' kind s.value ttl) =
        some (.put (normalize host, kind) s) :=
      write_eq_put.mpr ⟨host', ttl, rfl, httl, hname, rfl, hcap⟩
    refine ⟨before.filterMap CacheOp.writeAt, after.filterMap CacheOp.writeAt, ?_, ?_⟩
    · rw [List.filterMap_append, List.filterMap_cons_some hput]
    · intro w hw hkey
      obtain ⟨e, hmem, he⟩ := List.mem_filterMap.mp hw
      exact hafter e hmem (hides_iff.mpr ⟨w, he, hkey⟩)

/-! ## The reads in exact arithmetic -/

section Cache

variable {L : Type} [LruMap L UInt64 CacheEntry] (cacheKey : Str → RecordKind → UInt64)

/-- `DnsCache::get_stale`, when the sum of the TTL and the window has no bound. -/
def DnsCache.getStaleExact (cache : L) (now : Instant) (host : Str) (kind : RecordKind)
    (maxStale : Duration) : Option (List Record) × L :=
  match LruMap.get cache (slot cacheKey host kind) with
  | (none, cache) => (none, cache)
  | (some entry, cache) =>
    if entry.isFor host kind = false then (none, cache)
    else if entry.age now ≤ entry.ttl.nanos ∨ entry.ttl.nanos + maxStale.nanos < entry.age now then
      (none, cache)
    else (entry.result.records, cache)

/-- What an entry is in the ideal cache. -/
def CacheEntry.stamped (entry : CacheEntry) : Stamped CachedResult :=
  ⟨entry.result, entry.insertedAt, entry.ttl.nanos⟩

/-- What an entry yields past its TTL, in exact arithmetic. -/
def CacheEntry.staleRecords (entry : CacheEntry) (now : Instant) (maxStale : Duration) :
    Option (List Record) :=
  if entry.ttl.nanos < entry.age now ∧ entry.age now ≤ entry.ttl.nanos + maxStale.nanos
  then entry.result.records else none

theorem DnsCache.staleOf_ok {entry : CacheEntry} {now : Instant} {maxStale : Duration}
    {found : Option (List Record)} (h : staleOf entry now maxStale = .ok found) :
    found = entry.staleRecords now maxStale := by
  by_cases hfit : entry.ttl.nanos + maxStale.nanos ≤ Duration.maxNanos
  · exact (Except.ok.inj ((staleOf_eq hfit now).symm.trans h)).symm
  · by_cases hage : entry.age now ≤ entry.ttl.nanos
    · unfold staleOf at h
      rw [if_pos hage] at h
      rw [← Except.ok.inj h]
      exact (if_neg fun hc => Nat.not_lt.mpr hage hc.1).symm
    · rw [staleOf_overflow (Nat.not_le.mp hage) (Nat.not_le.mp hfit)] at h
      cases h

variable {cacheKey} [LawfulLruMap L]

/-- The exact read looks at the entry of the host and kind and at nothing else. -/
theorem DnsCache.getStaleExact_eq (cache : L) (now : Instant) (host : Str) (kind : RecordKind)
    (maxStale : Duration) :
    getStaleExact cacheKey cache now host kind maxStale =
      ((entryOf cacheKey cache host kind).bind fun entry => entry.staleRecords now maxStale,
        (LruMap.get cache (slot cacheKey host kind)).2) := by
  unfold getStaleExact entryOf
  rw [← LawfulLruMap.get_fst]
  cases hg : LruMap.get cache (slot cacheKey host kind) with
  | mk found cache₁ =>
    cases found with
    | none => rfl
    | some entry =>
      cases hfor : entry.isFor host kind with
      | false => simp [hfor, Option.filter_some]
      | true =>
        simp only [hfor, Option.filter_some, if_true, Bool.true_eq_false, if_false,
          Option.bind_some, CacheEntry.staleRecords]
        split
        · next h => rw [if_neg (by omega)]
        · next h => rw [if_pos (by omega)]

/-- Where `get_stale` returns, the sum was in range and the read is the exact one. -/
theorem DnsCache.getStale_ok {cache : L} {now : Instant} {host : Str} {kind : RecordKind}
    {maxStale : Duration} {p : Option (List Record) × L}
    (h : getStale cacheKey cache now host kind maxStale = .ok p) :
    p = getStaleExact cacheKey cache now host kind maxStale := by
  rw [getStale_eq] at h
  rw [getStaleExact_eq]
  cases he : entryOf cacheKey cache host kind with
  | none =>
    rw [he] at h
    exact (Except.ok.inj h).symm
  | some entry =>
    rw [he] at h
    obtain ⟨found, hfound, rfl⟩ := Checked.map_eq_ok h
    rw [staleOf_ok hfound]
    rfl

/-! ## Runs -/

variable (cacheKey) in
/-- A run of calls at non-decreasing times on a new cache. When it may be `lossy`, the map drops
whatever entries it likes, whenever it likes. -/
inductive CacheRun (lossy : Bool) : List (Instant × CacheOp) → Instant → L → Prop where
  | new (now : Instant) : CacheRun lossy [] now LruMap.new
  | insert {events now cache} (run : CacheRun lossy events now cache) {now' : Instant}
      (later : now ≤ now') (host : Str) (kind : RecordKind) (result : CachedResult) (ttl : Nat)
      (kept : lossy = false → ∀ k ≠ DnsCache.slot cacheKey host kind,
        LruMap.peek (DnsCache.insert cacheKey cache now' host kind result ttl) k =
          LruMap.peek cache k) :
      CacheRun lossy (events ++ [(now', .insert host kind result ttl)]) now'
        (DnsCache.insert cacheKey cache now' host kind result ttl)
  | get {events now cache} (run : CacheRun lossy events now cache) {now' : Instant}
      (later : now ≤ now') (host : Str) (kind : RecordKind) :
      CacheRun lossy (events ++ [(now', .get host kind)]) now'
        (DnsCache.get cacheKey cache now' host kind).2
  | getStale {events now cache} (run : CacheRun lossy events now cache) {now' : Instant}
      (later : now ≤ now') (host : Str) (kind : RecordKind) (maxStale : Duration) :
      CacheRun lossy (events ++ [(now', .getStale host kind maxStale)]) now'
        (DnsCache.getStaleExact cacheKey cache now' host kind maxStale).2
  | clear {events now cache} (run : CacheRun lossy events now cache) {now' : Instant}
      (later : now ≤ now') : CacheRun lossy (events ++ [(now', .clear)]) now' (LruMap.clear cache)
  | evict {events now cache} (run : CacheRun lossy events now cache) (may : lossy = true)
      {cache' : L} (dropped : ∀ k, LruMap.peek cache' k = LruMap.peek cache k ∨
        LruMap.peek cache' k = none) : CacheRun lossy events now cache'

/-- Every entry that can be read is the ideal's. -/
def Refines (cacheKey : Str → RecordKind → UInt64) (cache : L)
    (ideal : TtlMap (Str × RecordKind) CachedResult) : Prop :=
  ∀ host kind entry, DnsCache.entryOf cacheKey cache host kind = some entry →
    ideal (normalize host, kind) = some entry.stamped

theorem idealCache_read {e : Instant × CacheOp} (h : CacheOp.writeAt e = none)
    (events : List (Instant × CacheOp)) : idealCache (events ++ [e]) = idealCache events := by
  unfold idealCache
  rw [List.filterMap_append, List.filterMap_cons_none h, List.filterMap_nil, List.append_nil]

theorem idealCache_write {e : Instant × CacheOp}
    {w : TtlMap.Write (Str × RecordKind) CachedResult} (h : CacheOp.writeAt e = some w)
    (events : List (Instant × CacheOp)) :
    idealCache (events ++ [e]) = (idealCache events).write w := by
  unfold idealCache
  rw [List.filterMap_append, List.filterMap_cons_some h, List.filterMap_nil, TtlMap.ofWrites_concat]

/-- An insert of a positive TTL writes the entry it makes. -/
theorem idealCache_insert {ttl : Nat} (h : ttl ≠ 0) (events : List (Instant × CacheOp))
    (now : Instant) (host : Str) (kind : RecordKind) (result : CachedResult) :
    idealCache (events ++ [(now, .insert host kind result ttl)]) =
      (idealCache events).write
        (.put (normalize host, kind) (CacheEntry.make host kind result ttl now).stamped) := by
  have hwrite : CacheOp.writeAt (now, .insert host kind result ttl) =
      some (.put (normalize host, kind) (CacheEntry.make host kind result ttl now).stamped) :=
    if_neg h
  exact idealCache_write hwrite events

theorem idealCache_insert_zero (events : List (Instant × CacheOp)) (now : Instant) (host : Str)
    (kind : RecordKind) (result : CachedResult) :
    idealCache (events ++ [(now, .insert host kind result 0)]) = idealCache events :=
  idealCache_read rfl events

/-- An insert keeps the refinement, whatever shares the slot. -/
theorem refines_insert {cache : L} {events : List (Instant × CacheOp)}
    (h : Refines cacheKey cache (idealCache events)) (now : Instant) (host : Str)
    (kind : RecordKind) (result : CachedResult) (ttl : Nat) :
    Refines cacheKey (DnsCache.insert cacheKey cache now host kind result ttl)
      (idealCache (events ++ [(now, .insert host kind result ttl)])) := by
  by_cases httl : ttl = 0
  · subst httl
    rw [idealCache_insert_zero]
    exact h
  · rw [idealCache_insert httl]
    intro host' kind' entry hentry
    by_cases hkey : (normalize host', kind') = (normalize host, kind)
    · obtain ⟨hname, rfl⟩ := Prod.mk.inj hkey
      rw [DnsCache.entryOf_congr cacheKey hname, DnsCache.entryOf_insert_self cacheKey httl] at hentry
      cases hentry
      rw [hkey]
      exact TtlMap.write_put_self _ _ _
    · -- An entry of another key was there before: the one written is not for this key.
      obtain ⟨hpeek, hfor⟩ := (DnsCache.entryOf_eq_some cacheKey).mp hentry
      have hbefore : LruMap.peek cache (DnsCache.slot cacheKey host' kind') = some entry := by
        rcases DnsCache.peek_insert cacheKey hpeek with ⟨-, rfl⟩ | hbefore
        · unfold CacheEntry.isFor CacheEntry.make at hfor
          simp only [Bool.and_eq_true, beq_iff_eq] at hfor
          exact absurd (Prod.ext hfor.1.symm hfor.2.symm) hkey
        · exact hbefore
      rw [← h host' kind' entry ((DnsCache.entryOf_eq_some cacheKey).mpr ⟨hbefore, hfor⟩)]
      exact TtlMap.write_of_not_hides (Ne.symm hkey)

omit [LawfulLruMap L] in
/-- A cache of which some entries were dropped still refines what it refined. -/
theorem Refines.dropped {cache cache' : L} {ideal : TtlMap (Str × RecordKind) CachedResult}
    (h : Refines cacheKey cache ideal)
    (hdrop : ∀ k, LruMap.peek cache' k = LruMap.peek cache k ∨ LruMap.peek cache' k = none) :
    Refines cacheKey cache' ideal := by
  intro host kind entry hentry
  obtain ⟨hpeek, hfor⟩ := (DnsCache.entryOf_eq_some cacheKey).mp hentry
  rcases hdrop (DnsCache.slot cacheKey host kind) with hkept | hnone
  · exact h host kind entry ((DnsCache.entryOf_eq_some cacheKey).mpr ⟨hkept ▸ hpeek, hfor⟩)
  · exact nomatch hnone.symm.trans hpeek

/-- After every run, the cache refines the ideal one. -/
theorem run_refines {lossy : Bool} {events : List (Instant × CacheOp)} {now : Instant} {cache : L}
    (hrun : CacheRun cacheKey lossy events now cache) :
    Refines cacheKey cache (idealCache events) := by
  induction hrun with
  | new now =>
    intro host kind entry hentry
    obtain ⟨hpeek, -⟩ := (DnsCache.entryOf_eq_some cacheKey).mp hentry
    rw [LawfulLruMap.peek_new] at hpeek
    cases hpeek
  | insert run later host kind result ttl kept ih => exact refines_insert ih _ host kind result ttl
  | get run later host kind ih =>
    rw [idealCache_read rfl]
    exact ih.dropped fun k => .inl (DnsCache.peek_get cacheKey _ _ host kind k)
  | getStale run later host kind maxStale ih =>
    rw [idealCache_read rfl, DnsCache.getStaleExact_eq]
    exact ih.dropped fun k => .inl (LawfulLruMap.peek_get _ _ k)
  | clear run later ih =>
    intro host kind entry hentry
    obtain ⟨hpeek, -⟩ := (DnsCache.entryOf_eq_some cacheKey).mp hentry
    rw [LawfulLruMap.peek_clear] at hpeek
    cases hpeek
  | evict run may dropped ih => exact ih.dropped dropped

/-- No insert of the run shares the slot of another key with this one. -/
def NoCollision (cacheKey : Str → RecordKind → UInt64) (events : List (Instant × CacheOp))
    (host : Str) (kind : RecordKind) : Prop :=
  ∀ now host' kind' result ttl, (now, CacheOp.insert host' kind' result ttl) ∈ events →
    DnsCache.slot cacheKey host' kind' = DnsCache.slot cacheKey host kind →
      normalize host' = normalize host ∧ kind' = kind

theorem NoCollision.of_concat {events : List (Instant × CacheOp)} {e : Instant × CacheOp}
    {host : Str} {kind : RecordKind} (h : NoCollision cacheKey (events ++ [e]) host kind) :
    NoCollision cacheKey events host kind :=
  fun now host' kind' result ttl hmem =>
    h now host' kind' result ttl (List.mem_append_left _ hmem)

/-- After a run that dropped nothing, the ideal's entry is there, if nothing collided with it. -/
theorem run_exact {events : List (Instant × CacheOp)} {now : Instant} {cache : L}
    (hrun : CacheRun cacheKey false events now cache) {host : Str} {kind : RecordKind}
    (hfree : NoCollision cacheKey events host kind) :
    (DnsCache.entryOf cacheKey cache host kind).map CacheEntry.stamped =
      idealCache events (normalize host, kind) := by
  generalize hlossy : false = lossy at hrun
  induction hrun with
  | new now =>
    have hnone : DnsCache.entryOf cacheKey (LruMap.new : L) host kind = none :=
      DnsCache.entryOf_eq_none cacheKey (LawfulLruMap.peek_new _)
    rw [hnone]
    rfl
  | @insert events now cache run now' later host' kind' result ttl kept ih =>
    have hbefore := ih hfree.of_concat
    have hnew := hfree now' host' kind' result ttl (List.mem_append_right _ List.mem_cons_self)
    by_cases httl : ttl = 0
    · subst httl
      rw [idealCache_insert_zero]
      exact hbefore
    · rw [idealCache_insert httl]
      by_cases hslot : DnsCache.slot cacheKey host' kind' = DnsCache.slot cacheKey host kind
      · obtain ⟨hname, rfl⟩ := hnew hslot
        rw [DnsCache.entryOf_congr cacheKey hname.symm, DnsCache.entryOf_insert_self cacheKey httl,
          hname, TtlMap.write_put_self]
        rfl
      · have hkey : (normalize host', kind') ≠ (normalize host, kind) := by
          intro hkey
          obtain ⟨hname, rfl⟩ := Prod.mk.inj hkey
          unfold DnsCache.slot at hslot
          rw [hname] at hslot
          exact hslot rfl
        rw [TtlMap.write_of_not_hides (w := .put _ _) hkey, ← hbefore]
        unfold DnsCache.entryOf
        rw [kept hlossy.symm _ (Ne.symm hslot)]
  | get run later host' kind' ih =>
    rw [idealCache_read rfl, DnsCache.entryOf_get]
    exact ih hfree.of_concat
  | getStale run later host' kind' maxStale ih =>
    rw [idealCache_read rfl, DnsCache.getStaleExact_eq,
      DnsCache.entryOf_of_peek cacheKey (LawfulLruMap.peek_get _ _)]
    exact ih hfree.of_concat
  | clear run later ih =>
    rw [DnsCache.entryOf_eq_none cacheKey (LawfulLruMap.peek_clear _ _), idealCache_write rfl]
    rfl
  | evict run may dropped ih => exact nomatch hlossy.trans may

omit [LawfulLruMap L] in
/-- The calls of a run are not after its end. -/
theorem run_times {lossy : Bool} {events : List (Instant × CacheOp)} {now : Instant} {cache : L}
    (hrun : CacheRun cacheKey lossy events now cache) : ∀ e ∈ events, e.1 ≤ now := by
  have hconcat : ∀ {events : List (Instant × CacheOp)} {now now' : Instant} {op : CacheOp},
      (∀ e ∈ events, e.1 ≤ now) → now ≤ now' → ∀ e ∈ events ++ [(now', op)], e.1 ≤ now' := by
    intro events now now' op h hle e hmem
    rcases List.mem_append.mp hmem with hmem | hmem
    · exact Nat.le_trans (h e hmem) hle
    · obtain rfl := List.mem_singleton.mp hmem
      exact Nat.le_refl _
  induction hrun with
  | new now => exact fun e hmem => nomatch hmem
  | insert run later host kind result ttl kept ih => exact hconcat ih later
  | get run later host kind ih => exact hconcat ih later
  | getStale run later host kind maxStale ih => exact hconcat ih later
  | clear run later ih => exact hconcat ih later
  | evict run may dropped ih => exact ih

/-! ## The reads -/

/-- The latest insert is of this result, and lives. -/
def LatestFresh (events : List (Instant × CacheOp)) (t : Instant) (host : Str) (kind : RecordKind)
    (result : CachedResult) : Prop :=
  ∃ since ttl, LatestInsert events host kind result since ttl ∧ since ≤ t ∧
    t - since ≤ min ttl maxTtlSecs * 1000000000

/-- The latest insert is of these records, and died within the window. -/
def LatestStale (events : List (Instant × CacheOp)) (t : Instant) (host : Str) (kind : RecordKind)
    (maxStale : Duration) (records : List Record) : Prop :=
  ∃ since ttl, LatestInsert events host kind (.positive records) since ttl ∧ since ≤ t ∧
    min ttl maxTtlSecs * 1000000000 < t - since ∧
    t - since ≤ min ttl maxTtlSecs * 1000000000 + maxStale.nanos

theorem LatestInsert.since_le {events : List (Instant × CacheOp)} {now t since : Instant}
    {host : Str} {kind : RecordKind} {result : CachedResult} {ttl : Nat}
    (h : LatestInsert events host kind result since ttl) (htimes : ∀ e ∈ events, e.1 ≤ now)
    (ht : now ≤ t) : since ≤ t := by
  obtain ⟨before, host', after, rfl, -⟩ := h
  exact Nat.le_trans (htimes _ (List.mem_append_right before List.mem_cons_self)) ht

/-- In the ideal cache, what is fresh is the latest insert while it lives. -/
theorem ideal_fresh {events : List (Instant × CacheOp)} {now t : Instant}
    (htimes : ∀ e ∈ events, e.1 ≤ now) (ht : now ≤ t) {host : Str} {kind : RecordKind}
    {result : CachedResult} :
    (idealCache events).fresh t (normalize host, kind) = some result ↔
      LatestFresh events t host kind result := by
  rw [TtlMap.fresh_eq_some]
  constructor
  · intro h
    obtain ⟨s, hs, rfl, hle⟩ := h
    obtain ⟨ttl, hlatest, hcap⟩ := idealCache_eq_some.mp hs
    exact ⟨s.since, ttl, hlatest, hlatest.since_le htimes ht, hcap ▸ hle⟩
  · intro h
    obtain ⟨since, ttl, hlatest, -, hle⟩ := h
    exact ⟨⟨result, since, _⟩, idealCache_eq_some.mpr ⟨ttl, hlatest, rfl⟩, rfl, hle⟩

/-- In the ideal cache, what is stale is the latest insert within the window. -/
theorem ideal_stale {events : List (Instant × CacheOp)} {now t : Instant}
    (htimes : ∀ e ∈ events, e.1 ≤ now) (ht : now ≤ t) {host : Str} {kind : RecordKind}
    {maxStale : Duration} {records : List Record} :
    (idealCache events).stale t maxStale.nanos (normalize host, kind) = some (.positive records) ↔
      LatestStale events t host kind maxStale records := by
  rw [TtlMap.stale_eq_some]
  constructor
  · intro h
    obtain ⟨s, hs, hvalue, hlt, hle⟩ := h
    obtain ⟨ttl, hlatest, hcap⟩ := idealCache_eq_some.mp hs
    rw [hvalue] at hlatest
    rw [hcap] at hlt hle
    exact ⟨s.since, ttl, hlatest, hlatest.since_le htimes ht, hlt, hle⟩
  · intro h
    obtain ⟨since, ttl, hlatest, -, hlt, hle⟩ := h
    exact ⟨⟨.positive records, since, _⟩, idealCache_eq_some.mpr ⟨ttl, hlatest, rfl⟩, rfl, hlt, hle⟩

/-- `get` reads the entry as the ideal cache reads a fresh one. -/
theorem get_eq_some_iff {cache : L} {t : Instant} {host : Str} {kind : RecordKind}
    {result : CachedResult} :
    (DnsCache.get cacheKey cache t host kind).1 = some result ↔
      ∃ entry, DnsCache.entryOf cacheKey cache host kind = some entry ∧
        entry.stamped.value = result ∧ t - entry.stamped.since ≤ entry.stamped.ttl := by
  rw [DnsCache.get_eq_some]
  refine exists_congr fun entry => and_congr_right fun _ => ?_
  unfold CacheEntry.isExpired CacheEntry.age CacheEntry.stamped
  rw [decide_eq_false_iff_not, Nat.not_lt, and_comm]

/-- `get_stale` reads the entry as the ideal cache reads a stale one. -/
theorem getStaleExact_eq_some_iff {cache : L} {t : Instant} {host : Str} {kind : RecordKind}
    {maxStale : Duration} {records : List Record} :
    (DnsCache.getStaleExact cacheKey cache t host kind maxStale).1 = some records ↔
      ∃ entry, DnsCache.entryOf cacheKey cache host kind = some entry ∧
        entry.stamped.value = .positive records ∧ entry.stamped.ttl < t - entry.stamped.since ∧
        t - entry.stamped.since ≤ entry.stamped.ttl + maxStale.nanos := by
  rw [DnsCache.getStaleExact_eq, Option.bind_eq_some_iff]
  refine exists_congr fun entry => and_congr_right fun _ => ?_
  unfold CacheEntry.staleRecords CacheEntry.stamped CacheEntry.age
  constructor
  · intro h
    split at h
    · next hc =>
      cases hr : entry.result with
      | positive rs =>
        rw [hr] at h
        cases h
        exact ⟨rfl, hc⟩
      | noData =>
        rw [hr] at h
        cases h
      | nxDomain =>
        rw [hr] at h
        cases h
    · cases h
  · intro h
    obtain ⟨hr, hc⟩ := h
    rw [if_pos hc, show entry.result = .positive records from hr]
    rfl

/-- The reads of a cache that refines an ideal one are reads of that. -/
theorem Refines.get {cache : L} {ideal : TtlMap (Str × RecordKind) CachedResult}
    (h : Refines cacheKey cache ideal) {t : Instant} {host : Str} {kind : RecordKind}
    {result : CachedResult} (hget : (DnsCache.get cacheKey cache t host kind).1 = some result) :
    ideal.fresh t (normalize host, kind) = some result := by
  obtain ⟨entry, hentry, hvalue, hle⟩ := get_eq_some_iff.mp hget
  exact TtlMap.fresh_eq_some.mpr ⟨entry.stamped, h host kind entry hentry, hvalue, hle⟩

theorem Refines.getStale {cache : L} {ideal : TtlMap (Str × RecordKind) CachedResult}
    (h : Refines cacheKey cache ideal) {t : Instant} {host : Str} {kind : RecordKind}
    {maxStale : Duration} {records : List Record}
    (hget : (DnsCache.getStaleExact cacheKey cache t host kind maxStale).1 = some records) :
    ideal.stale t maxStale.nanos (normalize host, kind) = some (.positive records) := by
  obtain ⟨entry, hentry, hvalue, hwindow⟩ := getStaleExact_eq_some_iff.mp hget
  exact TtlMap.stale_eq_some.mpr ⟨entry.stamped, h host kind entry hentry, hvalue, hwindow⟩

/-- The cache answers from the latest insert of the name and kind, while it lives or within the
window after that. It answers whenever that insert does, if nothing collided and nothing was
dropped. -/
theorem cache_refines {lossy : Bool} {events : List (Instant × CacheOp)} {now t : Instant}
    {cache : L} (hrun : CacheRun cacheKey lossy events now cache) (ht : now ≤ t) (host : Str)
    (kind : RecordKind) (maxStale : Duration) :
    (∀ result, (DnsCache.get cacheKey cache t host kind).1 = some result →
        LatestFresh events t host kind result) ∧
      (∀ records, (DnsCache.getStaleExact cacheKey cache t host kind maxStale).1 = some records →
        LatestStale events t host kind maxStale records) ∧
      ((DnsCache.get cacheKey cache t host kind).1 = none ∨
        (DnsCache.getStaleExact cacheKey cache t host kind maxStale).1 = none) ∧
      (lossy = false → NoCollision cacheKey events host kind →
        (∀ result, LatestFresh events t host kind result →
          (DnsCache.get cacheKey cache t host kind).1 = some result) ∧
        ∀ records, LatestStale events t host kind maxStale records →
          (DnsCache.getStaleExact cacheKey cache t host kind maxStale).1 = some records) ∧
      ∀ p, DnsCache.getStale cacheKey cache t host kind maxStale = .ok p →
        p = DnsCache.getStaleExact cacheKey cache t host kind maxStale := by
  have hrefines := run_refines hrun
  have htimes := run_times hrun
  refine ⟨?_, ?_, ?_, ?_, fun p hp => DnsCache.getStale_ok hp⟩
  · exact fun result hget => (ideal_fresh htimes ht).mp (hrefines.get hget)
  · exact fun records hget => (ideal_stale htimes ht).mp (hrefines.getStale hget)
  · cases hget : (DnsCache.get cacheKey cache t host kind).1 with
    | none => exact .inl rfl
    | some result =>
      right
      rw [Option.eq_none_iff_forall_ne_some]
      intro records hstale
      have hnone := TtlMap.stale_of_fresh (hrefines.get hget) maxStale.nanos
      exact nomatch hnone.symm.trans (hrefines.getStale hstale)
  · intro hlossy hfree
    subst hlossy
    have hexact := run_exact hrun hfree
    constructor
    · intro result h
      obtain ⟨s, hs, hvalue, hle⟩ := TtlMap.fresh_eq_some.mp ((ideal_fresh htimes ht).mpr h)
      obtain ⟨entry, hentry, rfl⟩ := Option.map_eq_some_iff.mp (hexact.trans hs)
      exact get_eq_some_iff.mpr ⟨entry, hentry, hvalue, hle⟩
    · intro records h
      obtain ⟨s, hs, hvalue, hwindow⟩ := TtlMap.stale_eq_some.mp ((ideal_stale htimes ht).mpr h)
      obtain ⟨entry, hentry, rfl⟩ := Option.map_eq_some_iff.mp (hexact.trans hs)
      exact getStaleExact_eq_some_iff.mpr ⟨entry, hentry, hvalue, hwindow⟩

end Cache

/-! ## One entry, read at the end of its TTL and past it -/

/-- The address is kept for a minute, under the normal form of its name. -/
def minuteCache : Table :=
  DnsCache.insert sampleKey LruMap.new 0 "DB.".toList .a (.positive [.a ⟨7⟩]) 60

def minuteEvents : List (Instant × CacheOp) :=
  [(0, .insert "DB.".toList .a (.positive [.a ⟨7⟩]) 60)]

theorem minute_run : CacheRun sampleKey false minuteEvents 0 minuteCache := by
  refine .insert (.new 0) (Nat.le_refl 0) "DB.".toList .a (.positive [.a ⟨7⟩]) 60 fun _ k hk => ?_
  rcases LawfulLruMap.peek_put_ne (LruMap.new : Table) _ k _ hk with hkept | hnone
  · exact hkept
  · exact hnone.trans (LawfulLruMap.peek_new k).symm

theorem minute_free : NoCollision sampleKey minuteEvents "db".toList .a := by
  intro now host' kind' result ttl hmem hslot
  cases List.mem_singleton.mp hmem
  exact ⟨by decide, rfl⟩

theorem minute_latest :
    LatestInsert minuteEvents "db".toList .a (.positive [.a ⟨7⟩]) 0 60 :=
  ⟨[], "DB.".toList, [], rfl, by decide, by decide, fun e he => nomatch he⟩

/-- At 60 seconds the address is fresh, a nanosecond later it is stale. -/
theorem cache_refines_minute :
    (DnsCache.get sampleKey minuteCache 60000000000 "db".toList .a).1 =
        some (.positive [.a ⟨7⟩]) ∧
      (DnsCache.getStaleExact sampleKey minuteCache 60000000001 "db".toList .a
        (Duration.fromSecs 5 (by decide))).1 = some [.a ⟨7⟩] := by
  constructor
  · exact ((cache_refines minute_run (Nat.zero_le 60000000000) "db".toList .a
      (Duration.fromSecs 5 (by decide))).2.2.2.1 rfl minute_free).1 _
      ⟨0, 60, minute_latest, Nat.zero_le _, by decide⟩
  · exact ((cache_refines minute_run (Nat.zero_le 60000000001) "db".toList .a
      (Duration.fromSecs 5 (by decide))).2.2.2.1 rfl minute_free).2 _
      ⟨0, 60, minute_latest, Nat.zero_le _, by decide, by decide⟩

end N0DnsResolver
