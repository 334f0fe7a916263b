/-
  The generic lookup path (`DnsResolver::lookup_record_impl`).

  What happens to one candidate between the cache read and the loop's match is a
  `Stage`: it takes the candidate and the state `N` of the network and gives the
  pair `(res, soa_negative_ttl)`, the time it took and the network's new state. The
  resolver's own stage is `resolveCandidate` in `Follow`; the loop and everything
  about the cache is the same for all of them.
-/
import N0DnsResolver.Model.Config

namespace N0DnsResolver

/-- The pair `(res, soa_negative_ttl)` the loop matches on. -/
structure Attempt where
  res : Except Error (List Record × Nat)
  soa : Option Nat

/-- How one candidate is resolved: its attempt, the nanoseconds it took, the network after it. -/
abbrev Stage (N : Type) := Str → RecordKind → N → Attempt × Nat × N

/-- What a lookup reads and changes. `inserts` lists the entries written to the cache, oldest
first; the code keeps no such list. -/
structure World (N L : Type) where
  now : Instant
  net : N
  cache : L
  inserts : List CacheEntry

/-- The arm of the loop's match for failures that say nothing about the candidate. -/
def Error.indeterminate : Error → Bool
  | .serverError _ => true
  | .timeout => true
  | .noResponse => true
  | .transport _ => true
  | .invalidResponse => true
  | _ => false

/-- The accumulators of the loop. -/
structure LoopState where
  lastErr : Option Error := none
  firstNegative : Option CachedResult := none
  negativeTtl : Nat := negativeTtlSecs
  sawTransient : Bool := false

/-- Records the earliest negative answer and its TTL. -/
def LoopState.noteNegative (st : LoopState) (negative : CachedResult) (ttl : Nat) : LoopState :=
  if st.firstNegative.isNone then { st with firstNegative := some negative, negativeTtl := ttl }
  else st

/-- What the loop body does with an attempt. -/
inductive Verdict where
  | answered (results : List Record) (ttl : Nat)
  | failed (e : Error)
  | next (st : LoopState)

/-- The match of the loop body. -/
def judge (builder : Builder) (st : LoopState) (attempt : Attempt) : Verdict :=
  match attempt.res with
  | .ok (results, ttl) =>
    if results ≠ [] then .answered results (max ttl builder.cacheMinTtlSecs)
    else .next (st.noteNegative .noData (builder.negativeCacheTtlSecs attempt.soa))
  | .error .nxDomain =>
    .next { st.noteNegative .nxDomain (builder.negativeCacheTtlSecs attempt.soa) with
      lastErr := some .nxDomain }
  | .error e =>
    if e.indeterminate then .next { st with sawTransient := true, lastErr := some e }
    else .failed e

/-- How the loop ends: it returned, or ran out of candidates. -/
inductive LoopExit where
  | returned (r : Except Error (List Record))
  | finished (st : LoopState)

section Lookup

variable {N L : Type} [LruMap L UInt64 CacheEntry] (cacheKey : Str → RecordKind → UInt64)
variable (stage : Stage N) (builder : Builder)

/-- A call of `DnsCache::insert` at the current time. -/
def World.insert (w : World N L) (host : Str) (kind : RecordKind) (result : CachedResult)
    (ttl : Nat) : World N L :=
  { w with
    cache := DnsCache.insert cacheKey w.cache w.now host kind result ttl
    inserts := if ttl = 0 then w.inserts
      else w.inserts ++ [CacheEntry.make host kind result ttl w.now] }

/-- The world once a candidate has been resolved. -/
def World.resolve (w : World N L) (name : Str) (kind : RecordKind) : World N L :=
  { w with now := w.now + (stage name kind w.net).2.1, net := (stage name kind w.net).2.2 }

/-- The loop over the candidates. A positive answer is stored under the candidate. -/
def candidateLoop (kind : RecordKind) :
    List Str → LoopState → World N L → LoopExit × World N L
  | [], st, w => (.finished st, w)
  | name :: names, st, w =>
    match judge builder st (stage name kind w.net).1 with
    | .answered results ttl =>
      (.returned (.ok results),
        (w.resolve stage name kind).insert cacheKey name kind (.positive results) ttl)
    | .failed e => (.returned (.error e), w.resolve stage name kind)
    | .next st => candidateLoop kind names st (w.resolve stage name kind)

/-- The match after the loop. Negatives are stored under the queried name. -/
def conclude (name : Str) (kind : RecordKind) (st : LoopState) (w : World N L) :
    Checked (Except Error (List Record) × World N L) :=
  match st.firstNegative with
  | some .noData =>
    .ok (.ok [], if st.sawTransient then w
      else w.insert cacheKey name kind .noData st.negativeTtl)
  | some .nxDomain =>
    .ok (.error .nxDomain, if st.sawTransient then w
      else w.insert cacheKey name kind .nxDomain st.negativeTtl)
  | _ =>
    let err := st.lastErr.getD .noResponse
    match builder.serveStale with
    | none => .ok (.error err, w)
    | some maxAge => do
      let (found, cache) ← DnsCache.getStale cacheKey w.cache w.now name kind maxAge
      match found with
      | some records => .ok (.ok records, { w with cache := cache })
      | none => .ok (.error err, { w with cache := cache })

/-- The walk along the search list, after a cache miss. -/
def walk (names : List Str) (name : Str) (kind : RecordKind) (w : World N L) :
    Checked (Except Error (List Record) × World N L) :=
  match candidateLoop cacheKey stage builder kind names {} w with
  | (.returned r, w) => .ok (r, w)
  | (.finished st, w) => conclude cacheKey builder name kind st w

/-- `lookup_record_impl`. -/
def lookupRecordImpl (S : SimpleDns) (config : Config) (name : Str) (kind : RecordKind)
    (w : World N L) : Checked (Except Error (List Record) × World N L) :=
  match DnsCache.get cacheKey w.cache w.now name kind with
  | (some (.positive records), cache) => .ok (.ok records, { w with cache := cache })
  | (some .noData, cache) => .ok (.ok [], { w with cache := cache })
  | (some .nxDomain, cache) => .ok (.error .nxDomain, { w with cache := cache })
  | (none, cache) =>
    walk cacheKey stage builder (searchNames S config name) name kind { w with cache := cache }

end Lookup

end N0DnsResolver
