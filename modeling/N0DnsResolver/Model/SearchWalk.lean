/-
  A lookup with its races (`lookup_record_impl` from a cache miss to the end of its loop,
  with `send_query_following_cnames` and `send_query` inside).

  The state is what the three loops hold while the innermost one waits in `select!`, and the
  events are those of the race in progress. The random source, and what other lookups have
  made of the estimates by the time a query starts, are arguments. `trail` records each
  query, what it came to and how long it took; the code keeps no such list.
-/
import N0DnsResolver.Model.Deadlines
import N0DnsResolver.Model.Follow

namespace N0DnsResolver

/-- Exchanges, with the time each took. -/
abbrev TimedTrail := List (Exchange × Nat)

/-- The exchanges of a trail. -/
def TimedTrail.log (trail : TimedTrail) : List Exchange := trail.map Prod.fst

/-- What a lookup finds when it sends a query. -/
structure Surroundings (K : Type) (n : Nat) where
  randomId : List Exchange → UInt16
  rtt : List Exchange → RttMap K n

/-- Where `send_query_following_cnames` stands: it waits for a query, with the iterations left
after this one, or has returned. -/
inductive Hop (K : Type) (n : Nat) where
  | sending (left : Nat) (query : Query) (send : SendQuery K n)
  | returned (r : Except Error Bytes) (trail : TimedTrail)

/-- How the candidate loop ends: a candidate was answered, or failed for good, or all are
through. -/
inductive WalkEnd where
  | answered (candidate : Str) (records : List Record) (ttl : Nat)
  | failed (e : Error)
  | finished (st : LoopState)

/-- A lookup that waits for a query, sent at an instant on behalf of a candidate. -/
structure Awaiting (K : Type) (n : Nat) where
  candidate : Str
  /-- The candidates after this one. -/
  names : List Str
  st : LoopState
  left : Nat
  query : Query
  since : Instant
  send : SendQuery K n
  trail : TimedTrail

/-- A lookup in its candidate loop. -/
inductive SearchWalk (K : Type) (n : Nat) where
  | waiting (a : Awaiting K n)
  | done (ended : WalkEnd) (now : Instant) (trail : TimedTrail)

namespace SearchWalk

section Loops

variable {K : Type} {n : Nat} [NatCast K] [Add K] [Sub K] [Mul K] [Div K] [Min K] [LE K]
variable [DecidableLE K] (S : SimpleDns) (decay : Nat → K) (primaryCount : Nat)
variable (env : Surroundings K n) (builder : Builder) (kind : RecordKind)

/-- The loop of `send_query_following_cnames` from its head, with the iterations left, up to the
wait for its query. -/
def hop (host : Str) (now : Instant) (trail : TimedTrail) : Nat → Hop K n
  | 0 => .returned (.error .invalidResponse) trail
  | left + 1 =>
    match S.nameNew host with
    | none => .returned (.error (.invalidName host)) trail
    | some name =>
      let id := env.randomId trail.log
      match buildQuery S id host kind.dnsType with
      | .error e => .returned (.error e.toError) trail
      | .ok bytes =>
        let query : Query := ⟨host, name, kind.dnsType, id, bytes⟩
        match SendQuery.start decay primaryCount (env.rtt trail.log) now with
        | .error e => .returned (.error e) (trail ++ [(⟨query, .error e⟩, 0)])
        | .ok send => .sending left query send

/-- The loop over the candidates, from its head. -/
def candidates (now : Instant) : List Str → LoopState → TimedTrail → SearchWalk K n
  | [], st, trail => .done (.finished st) now trail
  | name :: names, st, trail =>
    match hop S decay primaryCount env kind name now trail maxCnameDepth with
    | .sending left query send => .waiting ⟨name, names, st, left, query, now, send, trail⟩
    | .returned r trail =>
      match judge builder st (readAttempt S kind r) with
      | .answered records ttl => .done (.answered name records ttl) now trail
      | .failed e => .done (.failed e) now trail
      | .next st => candidates now names st trail

/-- The loop once `send_query_following_cnames` has come to this for a candidate. -/
def goOn (candidate : Str) (names : List Str) (st : LoopState) (now : Instant)
    (trail : TimedTrail) : Hop K n → SearchWalk K n
  | .sending left query send => .waiting ⟨candidate, names, st, left, query, now, send, trail⟩
  | .returned r trail =>
    match judge builder st (readAttempt S kind r) with
    | .answered records ttl => .done (.answered candidate records ttl) now trail
    | .failed e => .done (.failed e) now trail
    | .next st => candidates S decay primaryCount env builder kind now names st trail

/-- What `send_query_following_cnames` does with what a query came to. -/
def replied (query : Query) (left : Nat) (now : Instant) (trail : TimedTrail)
    (result : Except Error Bytes) : Hop K n :=
  match Exchange.reading S kind.dnsType ⟨query, result⟩ with
  | .inl r => .returned r trail
  | .inr target => hop S decay primaryCount env kind target now trail left

/-- The query came to this, and the loops go on to their next wait. -/
def settle (a : Awaiting K n) (now : Instant) (result : Except Error Bytes) : SearchWalk K n :=
  let trail := a.trail ++ [(⟨a.query, result⟩, now - a.since)]
  goOn S decay primaryCount env builder kind a.candidate a.names a.st now trail
    (replied S decay primaryCount env kind a.query a.left now trail result)

/-- One turn of the race in progress. -/
def step : SearchWalk K n → Wake n → Option (SearchWalk K n)
  | .waiting a, e =>
    match a.send.step S decay primaryCount e with
    | none => none
    | some send =>
      match send.result with
      | none => some (.waiting { a with send := send })
      | some result =>
        some (settle S decay primaryCount env builder kind a send.race.clock result)
  | .done .., _ => none

end Loops

/-- What is due in the race in progress. -/
def timing {K : Type} {n : Nat} (limit : Fin n → Nat) : Timing (SearchWalk K n) (Wake n) where
  time := Wake.now
  due
    | .waiting a => (SendQuery.timing limit).due a.send
    | .done .. => []

end SearchWalk

end N0DnsResolver
