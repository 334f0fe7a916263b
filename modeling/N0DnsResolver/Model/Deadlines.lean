/-
  The time limits of a lookup (`query_nameserver`, `race` and `send_query` of
  `resolver.rs`).

  `query_nameserver_once` puts a limit on every query, and `query_nameserver` sends one
  more query at most. Here `query_nameserver` is a machine whose events are what its
  `timeout` returns with; the content of both queries is with `queryNameserver`. What is
  due in a race is its start timer and, for each attempt in flight, the limit of that.
-/
import N0DnsResolver.Lib.Timely
import N0DnsResolver.Model.Nameserver

namespace N0DnsResolver

/-- `STREAM_TIMEOUT`, in nanoseconds. -/
def streamTimeout : Nat := 5 * 1000000000

/-- The limit `query_nameserver_once` puts on a query. -/
def DnsProtocol.timeLimit : DnsProtocol → Nat
  | .udp => udpNameserverTimeout
  | .tcp | .tls | .https => streamTimeout

/-! ## One attempt -/

/-- `query_nameserver` between two waits: its first query since an instant, its query without EDNS
since an instant, or what it returned and when. -/
inductive NameserverQuery where
  | first (since : Instant)
  | retry (since : Instant)
  | returned (now : Instant) (reply : Reply)

/-- How a `timeout` of `query_nameserver_once` returns. -/
inductive LimitWake where
  | replied (now : Instant) (reply : Reply)
  | expired (now : Instant)

/-- The instant of a wake. -/
def LimitWake.now : LimitWake → Instant
  | .replied now _ => now
  | .expired now => now

namespace NameserverQuery

variable (S : SimpleDns) (limit : Nat) (query : Bytes)

/-- `query_nameserver`, once its first query returned. -/
def afterFirst (now : Instant) : Reply → NameserverQuery
  | .ok (resp, datagramRtt) =>
    if formatError S resp then
      match stripEdns S query with
      | some _ => .retry now
      | none => .returned now (.ok (resp, datagramRtt))
    else .returned now (.ok (resp, datagramRtt))
  | .error e => .returned now (.error e)

/-- One query of `query_nameserver` returns. -/
def step : NameserverQuery → LimitWake → Option NameserverQuery
  | .first since, .replied now reply =>
    if since ≤ now then some (afterFirst S query now reply) else none
  | .first since, .expired now =>
    if since + limit ≤ now then some (.returned now (.error .timeout)) else none
  | .retry since, .replied now reply => if since ≤ now then some (.returned now reply) else none
  | .retry since, .expired now =>
    if since + limit ≤ now then some (.returned now (.error .timeout)) else none
  | .returned _ _, _ => none

/-- The limit of the query under way is due. -/
def timing : Timing NameserverQuery LimitWake where
  time := LimitWake.now
  due
    | .first since => [since + limit]
    | .retry since => [since + limit]
    | .returned _ _ => []

end NameserverQuery

/-- How long an attempt at one nameserver takes when no timer is more than `lag` late, up to one more
`lag`. -/
def attemptLimit (lag : Nat) (protocol : DnsProtocol) : Nat := 2 * protocol.timeLimit + lag

/-! ## Races -/

/-- The instant of a wake. -/
def Wake.now {n : Nat} : Wake n → Instant
  | .completed c => c.now
  | .due now => now

section Races

variable {K : Type} {n : Nat} (limit : Fin n → Nat)

/-- The start timer of a race is due, and the limit of each attempt in flight. -/
def Race.timing : Timing (Race K n) (Wake n) where
  time := Wake.now
  due s := s.nextAttempt.toList ++ s.dials.map fun d => d.start + limit d.idx

/-- What is due in the race in progress. -/
def SendQuery.timing : Timing (SendQuery K n) (Wake n) where
  time := Wake.now
  due q := (Race.timing limit).due q.race

end Races

/-- The limits of the attempts of a resolver. -/
def ResolverState.limits (state : ResolverState) (lag : Nat)
    (idx : Fin state.config.nameservers.length) : Nat :=
  attemptLimit lag state.config.nameservers[idx].protocol

end N0DnsResolver
