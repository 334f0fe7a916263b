/-
  The retransmit interval, and the loop it closes (`RttMap::get_datagram`,
  `DnsResolver::retransmit_interval`, and what `race` does with both).

  The attempts at UDP servers of any number of lookups run at the same time and share the
  RTT map. An attempt reads the interval of its server when `race` dials it, and what it
  returns is recorded when `race` takes it. `Pacing` has the attempts of all these races
  without their order and their limits: any server may be dialled at any time, and any
  attempt may be given up or run out of time. Attempts over the other transports only
  write to the map.

  `answers` records the round trips that reached the map; the code keeps no such list.
-/
import N0DnsResolver.Model.Nameserver
import N0DnsResolver.Model.Ordering

namespace N0DnsResolver

/-- `UDP_RETRANSMIT_MAX`, in nanoseconds. -/
def udpRetransmitMax : Nat := 1000000000

/-- `DnsResolver::retransmit_interval`. `UDP_RETRANSMIT_SRTT_FACTOR` is 1.5, and `mul_f64` rounds to
nanoseconds, which at these sizes is exact. -/
def retransmitInterval (datagramRtt : Nat) : Nat :=
  min (max (datagramRtt * 3 / 2) udpRetransmitMin) udpRetransmitMax

/-- `RttMap::get_datagram`; `asU64` is the conversion of the estimate to whole microseconds. -/
def RttMap.getDatagram {K : Type} {n : Nat} (asU64 : K → Nat) (rtt : RttMap K n) (idx : Fin n) :
    Nat :=
  asU64 (rtt idx).datagramMicros * 1000

/-- An attempt at a UDP server, in the query it is at. -/
structure UdpTry (n : Nat) where
  dial : Dial n
  retransmit : Nat
  query : Bytes
  /-- The query was already sent again without EDNS. -/
  stripped : Bool
  race : UdpRace

/-- What happens next. -/
inductive PacingEvent (n : Nat) where
  /-- A race dials a server. -/
  | launch (idx : Fin n) (query : Bytes) (now : Instant)
  /-- The attempt in this place wakes. -/
  | wake (i : Nat) (e : UdpWake)
  /-- The attempt in this place runs out of time. -/
  | expired (i : Nat) (now : Instant)
  /-- The attempt in this place is dropped with its race. -/
  | dropped (i : Nat)
  /-- An attempt over another transport is recorded. -/
  | other (idx : Fin n) (now : Instant) (attempt : Option Nat)

/-- The attempts under way, and the map they share. -/
structure Pacing (K : Type) (n : Nat) where
  rtt : RttMap K n
  tries : List (UdpTry n)
  answers : List (Fin n × Nat)

namespace Pacing

variable {K : Type} {n : Nat} [NatCast K] [Add K] [Sub K] [Mul K] [Div K] [Min K]
variable (S : SimpleDns) (decay : Nat → K) (asU64 : K → Nat)

/-- No attempt was made yet. -/
def start (born : Fin n → Instant) : Pacing K n where
  rtt := fun idx => .new (born idx)
  tries := []
  answers := []

/-- `race` takes what an attempt returned. -/
def conclude (s : Pacing K n) (i : Nat) (c : Completion n) : Pacing K n where
  rtt := Function.update s.rtt c.dial.idx (c.record S decay (s.rtt c.dial.idx))
  tries := s.tries.eraseIdx i
  answers :=
    if (c.failure S).isSome then s.answers
    else s.answers ++ c.datagramRtt.toList.map fun d => (c.dial.idx, d)

/-- `query_nameserver`, once a query of an attempt returned. -/
def returned (s : Pacing K n) (i : Nat) (a : UdpTry n) (now : Instant) (res : Reply) :
    Pacing K n :=
  let concluded := s.conclude S decay i ⟨a.dial, now, res⟩
  match res with
  | .error _ => concluded
  | .ok (resp, _) =>
    if a.stripped = false ∧ formatError S resp then
      match stripEdns S a.query with
      | some query =>
        { s with
          tries := s.tries.set i
            { a with query, stripped := true, race := .start a.retransmit now } }
      | none => concluded
    else concluded

/-- One event. -/
def step (s : Pacing K n) : PacingEvent n → Option (Pacing K n)
  | .launch idx query now =>
    let retransmit := retransmitInterval (s.rtt.getDatagram asU64 idx)
    some { s with
      tries := s.tries ++ [⟨⟨idx, now⟩, retransmit, query, false, .start retransmit now⟩] }
  | .wake i e => do
    let a ← s.tries[i]?
    let race ← a.race.step S e
    match race.result with
    | none => some { s with tries := s.tries.set i { a with race } }
    | some res => some (s.returned S decay i a race.clock res)
  | .expired i now => do
    let a ← s.tries[i]?
    some (s.conclude S decay i ⟨a.dial, now, .error .timeout⟩)
  | .dropped i => do
    let _ ← s.tries[i]?
    some { s with tries := s.tries.eraseIdx i }
  | .other idx now attempt =>
    some { s with
      rtt := s.rtt.record decay now (attempt.elim (.failure idx) fun d => .success idx d none) }

end Pacing

end N0DnsResolver
