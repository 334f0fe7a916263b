/-
  The task that prunes the pool (`ensure_pruner` and `prune_loop` of `pool.rs`).

  The task is spawned by the first check-in and holds the pool only while it sweeps. It
  takes turns with the check-outs and check-ins of queries, and with the resolver, which
  drops the pool once no query runs. A check-in calls `ensure_pruner` after it released its
  lock, so other calls may come in between.

  `dropped` is the instant at which the resolver dropped the pool; the code keeps none.
-/
import N0DnsResolver.Lib.Timely
import N0DnsResolver.Model.Pool

namespace N0DnsResolver

/-- `PRUNE_INTERVAL`. -/
def pruneInterval : Nat := idleTimeout

namespace PruneLoop

/-- Where the task stands. -/
inductive Phase where
  | unspawned
  /-- Before it first sleeps. -/
  | spawned (since : Instant)
  | asleep (due : Instant)
  /-- It holds the pool, and has yet to sweep both maps. -/
  | woken (since : Instant)
  /-- It holds the pool, and has yet to sweep the TLS map. -/
  | swept (since : Instant)
  | exited
  deriving DecidableEq

/-- The task holds the pool. -/
def Phase.holds : Phase → Bool
  | .woken _ | .swept _ => true
  | .unspawned | .spawned _ | .asleep _ | .exited => false

/-- What happens next. -/
inductive Event (C : Type) where
  | checkout (key : PoolKey) (now : Readings C)
  | checkin (key : PoolKey) (now : Instant) (stream : C)
  /-- The check-in made at an instant calls `ensure_pruner`. -/
  | ensure (pushed now : Instant)
  /-- The task runs for the first time. -/
  | first (now : Instant)
  /-- The sleep of the task is over. -/
  | wake (now : Instant)
  | pruneTcp (now : Readings C)
  | pruneTls (now : Readings C)
  /-- The resolver drops the pool. -/
  | drop (now : Instant)

/-- The instant of an event, the last one where it holds a lock. -/
def Event.now {C : Type} : Event C → Instant
  | .checkout _ now => now.ended
  | .checkin _ now _ => now
  | .ensure _ now => now
  | .first now => now
  | .wake now => now
  | .pruneTcp now => now.ended
  | .pruneTls now => now.ended
  | .drop now => now

end PruneLoop

/-- A pool with its task. -/
structure PruneLoop (C : Type) where
  clock : Instant
  pool : ConnPool C
  dropped : Option Instant
  /-- The check-ins that have yet to call `ensure_pruner`. -/
  pushed : List Instant
  phase : PruneLoop.Phase

namespace PruneLoop

variable {C : Type}

/-- A new pool. -/
def new : PruneLoop C := ⟨0, .new, none, [], .unspawned⟩

/-- One event. -/
def step (s : PruneLoop C) : Event C → Option (PruneLoop C)
  | .checkout key now =>
    if s.dropped = none ∧ s.clock ≤ now.began then
      some { s with clock := now.ended, pool := (s.pool.checkout now.read key).2 }
    else none
  | .checkin key now stream =>
    if s.dropped = none ∧ s.clock ≤ now then
      some { s with clock := now, pool := s.pool.checkin now stream key, pushed := s.pushed ++ [now] }
    else none
  | .ensure pushed now =>
    if pushed ∈ s.pushed ∧ s.clock ≤ now then
      some { s with
        clock := now
        pushed := s.pushed.erase pushed
        phase := if s.phase = .unspawned then .spawned now else s.phase }
    else none
  | .first now =>
    match s.phase with
    | .spawned _ =>
      if s.clock ≤ now then some { s with clock := now, phase := .asleep (now + pruneInterval) }
      else none
    | _ => none
  | .wake now =>
    match s.phase with
    | .asleep due =>
      if due ≤ now ∧ s.clock ≤ now then
        some { s with clock := now, phase := if s.dropped = none then .woken now else .exited }
      else none
    | _ => none
  | .pruneTcp now =>
    match s.phase with
    | .woken _ =>
      if s.clock ≤ now.began then
        some { s with
          clock := now.ended
          pool := s.pool.pruneTcp now.read
          phase := .swept now.ended }
      else none
    | _ => none
  | .pruneTls now =>
    match s.phase with
    | .swept _ =>
      if s.clock ≤ now.began then
        some { s with
          clock := now.ended
          -- When the resolver dropped the pool meanwhile, it goes with the task's hold on it.
          pool := if s.dropped = none then s.pool.pruneTls now.read else .new
          phase := .asleep (now.ended + pruneInterval) }
      else none
    | _ => none
  | .drop now =>
    if s.dropped = none ∧ s.pushed = [] ∧ s.clock ≤ now then
      some { s with
        clock := now
        dropped := some now
        pool := if s.phase.holds then s.pool else .new }
    else none

/-- What the task has due. -/
def Phase.due : Phase → Option Instant
  | .unspawned | .exited => none
  | .spawned since => some since
  | .asleep due => some due
  | .woken since => some since
  | .swept since => some since

/-- Due are the calls of `ensure_pruner`, and what the task does next. -/
def timing : Timing (PruneLoop C) (Event C) where
  time := Event.now
  due s := s.pushed ++ s.phase.due.toList

end PruneLoop

end N0DnsResolver
