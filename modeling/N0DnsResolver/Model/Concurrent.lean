/-
  Lookups under way at the same time (`lookup_record_impl`), on a resolver and on those its
  resets gave.

  They share one cache, and nothing else that decides an answer. A lookup is a task that
  stops where `lookup_record_impl` awaits and before each of its calls on the cache; the
  tasks take their steps in any order. What the query for a candidate comes to is the
  event's, and so is what the system's configuration is when `state` first reads it.
  `reset` gives a resolver that has built no state yet, a number not used before.

  `insert` reads the clock before it takes the lock, so an entry may be older than what was
  written before it. `answered` and `calls` record what happened; the code keeps neither.
-/
import N0DnsResolver.Model.Lookup
import N0DnsResolver.Model.SharedCache

namespace N0DnsResolver

/-- The number of a resolver. -/
abbrev ResolverId := Nat

/-- The number of a lookup. -/
abbrev LookupId := Nat

namespace Inquiries

/-- Where a lookup stands. -/
inductive Phase where
  /-- Before it reads the cache. -/
  | begun
  /-- Awaits the query for the first of these candidates. -/
  | awaiting (name : Str) (names : List Str) (st : LoopState)
  /-- Before it stores the records of a candidate. -/
  | storing (candidate : Str) (records : List Record) (ttl : Nat)
  /-- After the loop. -/
  | concluding (st : LoopState)
  | returned (r : Except Error (List Record))
  | panicked
  /-- Its future was dropped. -/
  | dropped

/-- A lookup. `since` is the instant of its last step. -/
structure Task where
  resolver : ResolverId
  name : Str
  kind : RecordKind
  phase : Phase
  since : Instant
  answered : List (Str × Attempt)

/-- What happens next. -/
inductive Event where
  /-- `lookup_record` is called. -/
  | call (id : LookupId) (resolver : ResolverId) (name : Str) (kind : RecordKind)
  /-- A lookup reads the cache, and the state of its resolver where it goes on. -/
  | look (id : LookupId) (now : Instant) (system : Config)
  /-- The query for a candidate is over. -/
  | answer (id : LookupId) (now : Instant) (attempt : Attempt)
  /-- A lookup makes its last call on the cache, if it has one to make, and returns. -/
  | finish (id : LookupId) (stamp now : Instant)
  | drop (id : LookupId)
  | clearCache (now : Instant)

end Inquiries

/-- A cache, the states of the resolvers that share it, and their lookups. -/
structure Inquiries (L : Type) where
  clock : Instant
  cache : SharedCache L
  states : ResolverId → Option Config
  tasks : LookupId → Option Inquiries.Task
  calls : List (Instant × CacheOp)

namespace Inquiries

section Phases

variable (builder : Builder)

/-- Where the loop goes with these candidates left. -/
def Phase.proceed : List Str → LoopState → Phase
  | [], st => .concluding st
  | name :: names, st => .awaiting name names st

/-- Where a lookup goes from the read of the cache, given the state of its resolver. -/
def Phase.looked (S : SimpleDns) (config : Config) (name : Str) : CacheAnswer → Phase
  | .found (some (.positive records)) => .returned (.ok records)
  | .found (some .noData) => .returned (.ok [])
  | .found (some .nxDomain) => .returned (.error .nxDomain)
  | .found none => .proceed (searchNames S config name) {}
  | _ => .panicked

/-- Where a lookup goes from the query for a candidate. -/
def Phase.queried (candidate : Str) (names : List Str) (st : LoopState) (attempt : Attempt) :
    Phase :=
  match judge builder st attempt with
  | .answered records ttl => .storing candidate records ttl
  | .failed e => .returned (.error e)
  | .next st => .proceed names st

/-- The last call of a lookup after the loop. -/
def concludingCall (name : Str) (kind : RecordKind) (st : LoopState) : Option CacheOp :=
  match st.firstNegative with
  | some .noData =>
    if st.sawTransient then none else some (.insert name kind .noData st.negativeTtl)
  | some .nxDomain =>
    if st.sawTransient then none else some (.insert name kind .nxDomain st.negativeTtl)
  | _ => builder.serveStale.map fun maxAge => .getStale name kind maxAge

/-- What a lookup returns after the loop, given what its last call found. -/
def concludingAnswer (st : LoopState) (stale : Option (List Record)) :
    Except Error (List Record) :=
  match st.firstNegative with
  | some .noData => .ok []
  | some .nxDomain => .error .nxDomain
  | _ =>
    match stale with
    | some records => .ok records
    | none => .error (st.lastErr.getD .noResponse)

/-- The call a lookup ends with, if it makes one; none where it does not end. -/
def Task.lastCall (task : Task) : Option (Option CacheOp) :=
  match task.phase with
  | .storing candidate records ttl =>
    some (some (.insert candidate task.kind (.positive records) ttl))
  | .concluding st => some (concludingCall builder task.name task.kind st)
  | _ => none

/-- What a lookup returns, given what its last call found. -/
def Phase.result (stale : Option (List Record)) : Phase → Except Error (List Record)
  | .storing _ records _ => .ok records
  | .concluding st => concludingAnswer st stale
  | _ => .error .noResponse

/-- Where a lookup goes from its last call. -/
def Phase.finished (phase : Phase) : CacheAnswer → Phase
  | .panicked => .panicked
  | .stale records => .returned (phase.result records)
  | _ => .returned (phase.result none)

end Phases

/-- When a call reads the clock: an insert before it has the lock, a read while it has it. -/
def callTime (stamp now : Instant) : CacheOp → Instant
  | .insert .. => stamp
  | _ => now

section Step

variable {L : Type} [LruMap L UInt64 CacheEntry] (cacheKey : Str → RecordKind → UInt64)
variable (builder : Builder) (S : SimpleDns)

/-- No lookup was made and no state built. -/
def new : Inquiries L := ⟨0, ⟨LruMap.new, false⟩, fun _ => none, fun _ => none, []⟩

/-- The state with one lookup put somewhere. -/
def put (s : Inquiries L) (id : LookupId) (task : Task) : Inquiries L :=
  { s with tasks := Function.update s.tasks id (some task) }

omit [LruMap L UInt64 CacheEntry] in
theorem tasks_put_self (s : Inquiries L) (id : LookupId) (task : Task) :
    (s.put id task).tasks id = some task := by
  show Function.update s.tasks id (some task) id = some task
  rw [Function.update_self]

omit [LruMap L UInt64 CacheEntry] in
theorem tasks_put_of_ne (s : Inquiries L) {id id' : LookupId} (h : id' ≠ id) (task : Task) :
    (s.put id task).tasks id' = s.tasks id' := by
  show Function.update s.tasks id (some task) id' = s.tasks id'
  rw [Function.update_of_ne h]

/-- The state after a call on the cache. -/
def called (s : Inquiries L) (time : Instant) (op : CacheOp) : Inquiries L :=
  { s with
    cache := (s.cache.call cacheKey time op).2
    calls := s.calls ++ [(time, op)] }

/-- `DnsResolver::state`: the state of a resolver, built on first use. -/
def configOf (s : Inquiries L) (resolver : ResolverId) (system : Config) : Config :=
  (s.states resolver).getD system

/-- The state once a resolver has built its own. -/
def built (s : Inquiries L) (resolver : ResolverId) (system : Config) : Inquiries L :=
  { s with states := Function.update s.states resolver (some (s.configOf resolver system)) }

/-- The state after an event, unless it cannot happen. -/
def step (s : Inquiries L) : Event → Option (Inquiries L)
  | .call id resolver name kind => do
    guard (s.tasks id).isNone
    some (s.put id ⟨resolver, name, kind, .begun, s.clock, []⟩)
  | .look id now system => do
    let task ← s.tasks id
    guard (s.clock ≤ now)
    match task.phase with
    | .begun =>
      let op := CacheOp.get task.name task.kind
      let answer := (s.cache.call cacheKey now op).1
      let s' := { s.called cacheKey now op with clock := now }
      let task' := { task with
        phase := .looked S (s.configOf task.resolver system) task.name answer
        since := now }
      some ((if answer = .found none then s'.built task.resolver system else s').put id task')
    | _ => none
  | .answer id now attempt => do
    let task ← s.tasks id
    guard (s.clock ≤ now)
    match task.phase with
    | .awaiting name names st =>
      some ({ s with clock := now }.put id { task with
        phase := .queried builder name names st attempt
        since := now
        answered := task.answered ++ [(name, attempt)] })
    | _ => none
  | .finish id stamp now => do
    let task ← s.tasks id
    guard (s.clock ≤ now ∧ task.since ≤ stamp ∧ stamp ≤ now)
    match task.lastCall builder with
    | none => none
    | some none =>
      some ({ s with clock := now }.put id { task with
        phase := .returned (task.phase.result none), since := now })
    | some (some op) =>
      let time := callTime stamp now op
      some ({ s.called cacheKey time op with clock := now }.put id { task with
        phase := task.phase.finished (s.cache.call cacheKey time op).1, since := now })
  | .drop id => do
    let task ← s.tasks id
    match task.phase with
    | .begun | .awaiting .. => some (s.put id { task with phase := .dropped })
    | _ => none
  | .clearCache now => do
    guard (s.clock ≤ now)
    some { s.called cacheKey now .clear with clock := now }

end Step

end Inquiries

end N0DnsResolver
