/-
  The TTL cache (`cache.rs`).

  The LRU map is the parameter `L`, and the `u64` hash of a key the parameter
  `cacheKey`; nothing below depends on either beyond `LawfulLruMap`. The clock is
  an argument of every operation that reads it. `getStale` adds two durations and
  panics when the sum is out of range.
-/
import N0DnsResolver.Lib.Duration
import N0DnsResolver.Lib.LruMap
import N0DnsResolver.Model.Records
import Mathlib.Tactic.Common

namespace N0DnsResolver

/-- `MAX_CACHE_ENTRIES`. -/
def maxCacheEntries : Nat := 4096

/-- `MAX_TTL_SECS`. -/
def maxTtlSecs : Nat := 86400

/-- `NEGATIVE_TTL_SECS`. -/
def negativeTtlSecs : Nat := 30

/-- `NEGATIVE_TTL_MAX_SECS`. -/
def negativeTtlMaxSecs : Nat := 3600

/-- `CachedResult`. -/
inductive CachedResult where
  | positive (records : List Record)
  | noData
  | nxDomain
  deriving DecidableEq, Repr

/-- The result is an absence. -/
def CachedResult.negative : CachedResult → Bool
  | .positive _ => false
  | .noData => true
  | .nxDomain => true

/-- The records of a positive result. -/
def CachedResult.records : CachedResult → Option (List Record)
  | .positive records => some records
  | .noData => none
  | .nxDomain => none

/-! ## Names as cache keys -/

/-- `host.strip_suffix('.').unwrap_or(host)`. -/
def stripDot (host : Str) : Str := if host.getLast? = some '.' then host.dropLast else host

/-- `normalize`. -/
def normalize (host : Str) : Str :=
  let host := stripDot host
  match host.any Char.isUpper with
  | true => host.map Char.toLower
  | false => host

theorem toLower_eq_of_not_isUpper {c : Char} (h : c.isUpper = false) : c.toLower = c := by
  unfold Char.isUpper at h
  unfold Char.toLower
  refine dif_neg fun hc => ?_
  simp only [decide_eq_false_iff_not] at h
  exact h ⟨hc.1, hc.2⟩

/-- Borrowed or lowercased, the key is the lowercase form. -/
theorem normalize_eq (host : Str) : normalize host = (stripDot host).map Char.toLower := by
  unfold normalize
  simp only
  split
  · rfl
  · next h =>
    rw [List.any_eq_false] at h
    calc stripDot host = (stripDot host).map id := (List.map_id _).symm
      _ = (stripDot host).map Char.toLower := List.map_congr_left fun c hc =>
          (toLower_eq_of_not_isUpper (by simpa using h c hc)).symm

/-! ## Entries -/

/-- `CacheEntry`. -/
structure CacheEntry where
  host : Str
  kind : RecordKind
  result : CachedResult
  insertedAt : Instant
  ttl : Duration
  deriving DecidableEq

/-- `inserted_at.elapsed()`. -/
def CacheEntry.age (entry : CacheEntry) (now : Instant) : Nat := now - entry.insertedAt

/-- `CacheEntry::is_expired`. -/
def CacheEntry.isExpired (entry : CacheEntry) (now : Instant) : Bool :=
  entry.ttl.nanos < entry.age now

theorem cacheTtl_lt (ttl : Nat) : min ttl maxTtlSecs < 2 ^ 64 := by
  unfold maxTtlSecs
  omega

/-- The entry `DnsCache::insert` stores. -/
def CacheEntry.make (host : Str) (kind : RecordKind) (result : CachedResult) (ttl : Nat)
    (now : Instant) : CacheEntry where
  host := normalize host
  kind := kind
  result := result
  insertedAt := now
  ttl := Duration.fromSecs (min ttl maxTtlSecs) (cacheTtl_lt ttl)

/-- The entry is that of `host` and `kind`; a `u64` key collision is not. -/
def CacheEntry.isFor (entry : CacheEntry) (host : Str) (kind : RecordKind) : Bool :=
  entry.host == normalize host && entry.kind == kind

/-- The map of the source, with its capacity. -/
abbrev Table := Recency UInt64 CacheEntry maxCacheEntries

instance : NeZero maxCacheEntries := ⟨by decide⟩

/-- One key function, for runs on fixed inputs; the source's is SipHash. -/
def sampleKey (host : Str) (kind : RecordKind) : UInt64 :=
  host.foldl (fun h c => h * 31 + UInt64.ofNat c.toNat) (UInt64.ofNat kind.ctorIdx)

namespace DnsCache

variable {L : Type} [LruMap L UInt64 CacheEntry] (cacheKey : Str → RecordKind → UInt64)

/-- The slot of a host and kind. -/
def slot (host : Str) (kind : RecordKind) : UInt64 := cacheKey (normalize host) kind

/-- `DnsCache::get`. -/
def get (cache : L) (now : Instant) (host : Str) (kind : RecordKind) : Option CachedResult × L :=
  match LruMap.get cache (slot cacheKey host kind) with
  | (none, cache) => (none, cache)
  | (some entry, cache) =>
    if entry.isFor host kind = false then (none, cache)
    else if entry.isExpired now then (none, cache)
    else (some entry.result, cache)

/-- `DnsCache::get_stale`. -/
def getStale (cache : L) (now : Instant) (host : Str) (kind : RecordKind) (maxStale : Duration) :
    Checked (Option (List Record) × L) :=
  match LruMap.get cache (slot cacheKey host kind) with
  | (none, cache) => .ok (none, cache)
  | (some entry, cache) =>
    if entry.isFor host kind = false then .ok (none, cache)
    else if entry.age now ≤ entry.ttl.nanos then .ok (none, cache)
    else do
      let window ← entry.ttl.add maxStale
      if window.nanos < entry.age now then .ok (none, cache)
      else
        match entry.result with
        | .positive records => .ok (some records, cache)
        | .noData => .ok (none, cache)
        | .nxDomain => .ok (none, cache)

/-- `DnsCache::insert`. -/
def insert (cache : L) (now : Instant) (host : Str) (kind : RecordKind) (result : CachedResult)
    (ttl : Nat) : L :=
  if ttl = 0 then cache
  else LruMap.put cache (slot cacheKey host kind) (CacheEntry.make host kind result ttl now)

/-- The entry a cache holds for a host and kind, if any. -/
def entryOf (cache : L) (host : Str) (kind : RecordKind) : Option CacheEntry :=
  (LruMap.peek cache (slot cacheKey host kind)).filter (fun entry => entry.isFor host kind)

theorem entryOf_eq_some {cache : L} {host : Str} {kind : RecordKind} {entry : CacheEntry} :
    entryOf cacheKey cache host kind = some entry ↔
      LruMap.peek cache (slot cacheKey host kind) = some entry ∧ entry.isFor host kind = true := by
  unfold entryOf
  rw [Option.filter_eq_some_iff]

/-- Two spellings of a normal form have one entry. -/
theorem entryOf_congr {host host' : Str} (h : normalize host = normalize host') (cache : L)
    (kind : RecordKind) : entryOf cacheKey cache host kind = entryOf cacheKey cache host' kind := by
  unfold entryOf slot CacheEntry.isFor
  rw [h]

theorem entryOf_of_peek {cache cache' : L} (h : ∀ k, LruMap.peek cache k = LruMap.peek cache' k)
    (host : Str) (kind : RecordKind) :
    entryOf cacheKey cache host kind = entryOf cacheKey cache' host kind := by
  unfold entryOf
  rw [h]

theorem entryOf_eq_none {cache : L} {host : Str} {kind : RecordKind}
    (h : LruMap.peek cache (slot cacheKey host kind) = none) :
    entryOf cacheKey cache host kind = none := by
  unfold entryOf
  rw [h]
  rfl

/-! ## Stale data -/

/-- What an entry of the host and kind yields past its TTL. -/
def staleOf (entry : CacheEntry) (now : Instant) (maxStale : Duration) :
    Checked (Option (List Record)) :=
  if entry.age now ≤ entry.ttl.nanos then .ok none
  else do
    let window ← entry.ttl.add maxStale
    if window.nanos < entry.age now then .ok none
    else
      match entry.result with
      | .positive records => .ok (some records)
      | .noData => .ok none
      | .nxDomain => .ok none

/-- While the window is in range, the records of a positive entry are found from the end of its
TTL to the end of the window. -/
theorem staleOf_eq {entry : CacheEntry} {maxStale : Duration}
    (hfit : entry.ttl.nanos + maxStale.nanos ≤ Duration.maxNanos) (now : Instant) :
    staleOf entry now maxStale =
      .ok (if entry.ttl.nanos < entry.age now ∧ entry.age now ≤ entry.ttl.nanos + maxStale.nanos
        then entry.result.records else none) := by
  unfold staleOf
  rw [Duration.add_eq_ok hfit]
  simp only [bind, Except.bind]
  by_cases hold : entry.age now ≤ entry.ttl.nanos
  · rw [if_pos hold, if_neg fun h => Nat.not_lt.mpr hold h.1]
  · rw [if_neg hold]
    by_cases hwin : entry.ttl.nanos + maxStale.nanos < entry.age now
    · rw [if_pos hwin, if_neg fun h => Nat.not_lt.mpr h.2 hwin]
    · rw [if_neg hwin, if_pos ⟨Nat.not_le.mp hold, Nat.not_lt.mp hwin⟩]
      cases entry.result <;> rfl

/-- Only a positive entry is served stale, out of its TTL and within the window. -/
theorem staleOf_eq_some {entry : CacheEntry} {now : Instant} {maxStale : Duration}
    {records : List Record} (h : staleOf entry now maxStale = .ok (some records)) :
    entry.result = .positive records ∧ entry.ttl.nanos < entry.age now ∧
      entry.age now ≤ entry.ttl.nanos + maxStale.nanos := by
  unfold staleOf at h
  split at h
  · simp at h
  · next hold =>
    by_cases hfit : entry.ttl.nanos + maxStale.nanos ≤ Duration.maxNanos
    · rw [Duration.add_eq_ok hfit] at h
      simp only [bind, Except.bind] at h
      split at h
      · simp at h
      · next hwin =>
        split at h
        · next hr =>
          cases h
          exact ⟨hr, Nat.not_le.mp hold, Nat.not_lt.mp hwin⟩
        · cases h
        · cases h
    · rw [Duration.add_eq_overflow (Nat.not_le.mp hfit)] at h
      cases h

/-- Past its TTL, an entry whose window is out of range makes the read panic. -/
theorem staleOf_overflow {entry : CacheEntry} {now : Instant} {maxStale : Duration}
    (hold : entry.ttl.nanos < entry.age now)
    (hfit : Duration.maxNanos < entry.ttl.nanos + maxStale.nanos) :
    staleOf entry now maxStale = .error .overflow := by
  unfold staleOf
  rw [if_neg (Nat.not_le.mpr hold), Duration.add_eq_overflow hfit]
  rfl

theorem insert_pos {ttl : Nat} (h : ttl ≠ 0) (cache : L) (now : Instant) (host : Str)
    (kind : RecordKind) (result : CachedResult) :
    insert cacheKey cache now host kind result ttl =
      LruMap.put cache (slot cacheKey host kind) (CacheEntry.make host kind result ttl now) :=
  if_neg h

theorem make_isFor (host : Str) (kind : RecordKind) (result : CachedResult) (ttl : Nat)
    (now : Instant) : (CacheEntry.make host kind result ttl now).isFor host kind = true := by
  simp [CacheEntry.isFor, CacheEntry.make]

/-! ## Reads and writes of a lawful map -/

section Lawful

variable [LawfulLruMap L]

/-- `get` answers with the entry of the host and kind, while it is fresh. -/
theorem get_fst (cache : L) (now : Instant) (host : Str) (kind : RecordKind) :
    (get cacheKey cache now host kind).1 =
      match entryOf cacheKey cache host kind with
      | none => none
      | some entry => if entry.isExpired now then none else some entry.result := by
  unfold get entryOf
  rw [← LawfulLruMap.get_fst]
  cases hg : LruMap.get cache (slot cacheKey host kind) with
  | mk found cache' =>
    cases found with
    | none => rfl
    | some entry =>
      by_cases hf : entry.isFor host kind = true
      · simp only [hf, Option.filter_some, if_true, Bool.true_eq_false, if_false]
        split <;> rfl
      · rw [Bool.not_eq_true] at hf
        simp [hf, Option.filter_some]

/-- A read finds the entry of the host and kind, unless there is none or it is past its TTL. -/
theorem get_eq_some {cache : L} {now : Instant} {host : Str} {kind : RecordKind}
    {r : CachedResult} :
    (get cacheKey cache now host kind).1 = some r ↔
      ∃ entry, entryOf cacheKey cache host kind = some entry ∧ entry.isExpired now = false ∧
        entry.result = r := by
  rw [get_fst]
  cases entryOf cacheKey cache host kind with
  | none => simp
  | some entry => simp

theorem get_eq_none_of_expired {cache : L} {now : Instant} {host : Str} {kind : RecordKind}
    {entry : CacheEntry} (he : entryOf cacheKey cache host kind = some entry)
    (hexp : entry.isExpired now = true) : (get cacheKey cache now host kind).1 = none := by
  rw [get_fst, he]
  exact if_pos hexp

/-- A read changes no entry. -/
theorem peek_get (cache : L) (now : Instant) (host : Str) (kind : RecordKind) (k : UInt64) :
    LruMap.peek (get cacheKey cache now host kind).2 k = LruMap.peek cache k := by
  have h := LawfulLruMap.peek_get cache (slot cacheKey host kind) k
  unfold get
  cases hg : LruMap.get cache (slot cacheKey host kind) with
  | mk found cache' =>
    rw [hg] at h
    cases found with
    | none => exact h
    | some entry =>
      simp only
      split
      · exact h
      · split <;> exact h

@[simp] theorem entryOf_get (cache : L) (now : Instant) (host host' : Str)
    (kind kind' : RecordKind) :
    entryOf cacheKey (get cacheKey cache now host kind).2 host' kind' =
      entryOf cacheKey cache host' kind' := by
  unfold entryOf
  rw [peek_get]

/-- `get_stale` looks at the entry of the host and kind and at nothing else. -/
theorem getStale_eq (cache : L) (now : Instant) (host : Str) (kind : RecordKind)
    (maxStale : Duration) :
    getStale cacheKey cache now host kind maxStale =
      match entryOf cacheKey cache host kind with
      | none => .ok (none, (LruMap.get cache (slot cacheKey host kind)).2)
      | some entry => (staleOf entry now maxStale).map
          (fun found => (found, (LruMap.get cache (slot cacheKey host kind)).2)) := by
  unfold getStale entryOf
  rw [← LawfulLruMap.get_fst]
  cases hg : LruMap.get cache (slot cacheKey host kind) with
  | mk found cache' =>
    cases found with
    | none => rfl
    | some entry =>
      by_cases hf : entry.isFor host kind = true
      · simp only [hf, Option.filter_some, if_true, Bool.true_eq_false, if_false, staleOf]
        split
        · rfl
        · cases entry.ttl.add maxStale with
          | error p => rfl
          | ok window =>
            simp only [bind, Except.bind]
            split
            · rfl
            · cases entry.result <;> rfl
      · rw [Bool.not_eq_true] at hf
        simp [hf, Option.filter_some]

/-- An entry found after a write is the one written or one that was there. -/
theorem peek_insert {cache : L} {now : Instant} {host : Str} {kind : RecordKind}
    {result : CachedResult} {ttl : Nat} {k : UInt64} {entry : CacheEntry}
    (h : LruMap.peek (insert cacheKey cache now host kind result ttl) k = some entry) :
    (ttl ≠ 0 ∧ entry = CacheEntry.make host kind result ttl now) ∨
      LruMap.peek cache k = some entry := by
  by_cases ht : ttl = 0
  · subst ht
    exact .inr h
  · rw [insert_pos cacheKey ht] at h
    rcases LruMap.peek_put_some h with ⟨-, rfl⟩ | hp
    · exact .inl ⟨ht, rfl⟩
    · exact .inr hp

theorem entryOf_insert_self {ttl : Nat} (h : ttl ≠ 0) (cache : L) (now : Instant) (host : Str)
    (kind : RecordKind) (result : CachedResult) :
    entryOf cacheKey (insert cacheKey cache now host kind result ttl) host kind =
      some (CacheEntry.make host kind result ttl now) := by
  rw [entryOf_eq_some, insert_pos cacheKey h]
  exact ⟨LawfulLruMap.peek_put_self _ _ _, make_isFor host kind result ttl now⟩

/-- A write under another name leaves the entry of this one, or drops it. -/
theorem entryOf_insert_ne {host host' : Str} (hne : normalize host' ≠ normalize host) (cache : L)
    (now : Instant) (kind kind' : RecordKind) (result : CachedResult) (ttl : Nat) :
    entryOf cacheKey (insert cacheKey cache now host kind result ttl) host' kind' =
        entryOf cacheKey cache host' kind' ∨
      entryOf cacheKey (insert cacheKey cache now host kind result ttl) host' kind' = none := by
  by_cases ht : ttl = 0
  · subst ht
    exact .inl rfl
  rw [insert_pos cacheKey ht]
  unfold entryOf
  by_cases hs : slot cacheKey host' kind' = slot cacheKey host kind
  · right
    rw [hs, LawfulLruMap.peek_put_self, Option.filter_some]
    simp [CacheEntry.isFor, CacheEntry.make, hne.symm]
  · rcases LawfulLruMap.peek_put_ne cache _ _
      (CacheEntry.make host kind result ttl now) hs with hp | hp
    · exact .inl (by rw [hp])
    · exact .inr (by rw [hp]; rfl)

end Lawful

end DnsCache

end N0DnsResolver
