/-
  The cache behind its mutex (`cache.rs`).

  `DnsCache` is cloned with its resolver, and the clones share one map. Every method locks
  it, and a panic under the lock poisons it for all of them.
-/
import N0DnsResolver.Model.Cache

namespace N0DnsResolver

/-- A call on the cache or on one of its clones. -/
inductive CacheOp where
  | insert (host : Str) (kind : RecordKind) (result : CachedResult) (ttl : Nat)
  | get (host : Str) (kind : RecordKind)
  | getStale (host : Str) (kind : RecordKind) (maxStale : Duration)
  | clear

/-- What a call comes to. -/
inductive CacheAnswer where
  | panicked
  | found (result : Option CachedResult)
  | stale (records : Option (List Record))
  | done
  deriving DecidableEq

/-- The `Mutex` of a `DnsCache`, which its clones share. -/
structure SharedCache (L : Type) where
  inner : L
  poisoned : Bool

section Shared

variable {L : Type} [LruMap L UInt64 CacheEntry] (cacheKey : Str → RecordKind → UInt64)

/-- The insert of a TTL of 0 returns before it takes the lock. -/
def CacheOp.skipsLock : CacheOp → Bool
  | .insert _ _ _ ttl => ttl = 0
  | _ => false

/-- What a call does under the lock. -/
def CacheOp.underLock (now : Instant) (cache : L) : CacheOp → Checked (CacheAnswer × L)
  | .insert host kind result ttl =>
    .ok (.done, DnsCache.insert cacheKey cache now host kind result ttl)
  | .get host kind =>
    let (result, cache) := DnsCache.get cacheKey cache now host kind
    .ok (.found result, cache)
  | .getStale host kind maxStale =>
    (DnsCache.getStale cacheKey cache now host kind maxStale).map fun (records, cache) =>
      (.stale records, cache)
  | .clear => .ok (.done, LruMap.clear cache)

/-- A call: `self.inner.lock().expect("poisoned")`, and what is done under the lock. The map that a
panic leaves is not read again. -/
def SharedCache.call (shared : SharedCache L) (now : Instant) (op : CacheOp) :
    CacheAnswer × SharedCache L :=
  if op.skipsLock then (.done, shared)
  else if shared.poisoned then (.panicked, shared)
  else
    match op.underLock cacheKey now shared.inner with
    | .ok (answer, inner) => (answer, ⟨inner, false⟩)
    | .error _ => (.panicked, ⟨shared.inner, true⟩)

end Shared

end N0DnsResolver
