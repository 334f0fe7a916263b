/-
  Smoothed round-trip times, one per nameserver (`rtt_map.rs`), and the order they give
  (`DnsResolver::order_indices`).

  The estimates are numbers of any type `K` with the operations the code uses on `f64`;
  nothing below assumes a law of arithmetic. `decay` stands for the exponential of
  `Srtt::decayed`, as a function of the age in nanoseconds. `RttMap::get_datagram` is
  with the retransmit interval, its only reader.
-/
import N0DnsResolver.Lib.Duration
import Mathlib.Algebra.Group.Defs
import Mathlib.Data.List.FinRange
import Mathlib.Data.Nat.Cast.Defs
import Mathlib.Logic.Function.Basic

namespace N0DnsResolver

section Estimates

variable {K : Type} [NatCast K] [Add K] [Sub K] [Mul K] [Div K] [Min K]

/-- `SRTT_ALPHA`. -/
def srttAlpha : K := (3 : Nat) / (10 : Nat)

/-- `SRTT_BASELINE_MICROS`. -/
def srttBaselineMicros : K := (50000 : Nat)

/-- `SRTT_FAILURE_PENALTY_MICROS`. -/
def srttFailurePenaltyMicros : K := (150000 : Nat)

/-- `SRTT_MAX_MICROS`. -/
def srttMaxMicros : K := (5000000 : Nat)

/-- `Duration::as_micros`, of a time in nanoseconds. -/
def asMicros (nanos : Nat) : Nat := nanos / 1000

/-- `Srtt`. -/
structure Srtt (K : Type) where
  attemptMicros : K
  updated : Instant
  datagramMicros : K

namespace Srtt

/-- `Srtt::new`. -/
def new (now : Instant) : Srtt K where
  attemptMicros := srttBaselineMicros
  updated := now
  datagramMicros := srttBaselineMicros

variable (decay : Nat → K)

/-- `Srtt::decayed`. -/
def decayed (srtt : Srtt K) (now : Instant) : K :=
  srttBaselineMicros + (srtt.attemptMicros - srttBaselineMicros) * decay (now - srtt.updated)

/-- How `record_success` folds a sample into the average it has. -/
def blend (sample : Nat) (base : K) : K :=
  min (srttAlpha * (sample : K) + ((1 : Nat) - srttAlpha) * base) srttMaxMicros

/-- `Srtt::record_success`. -/
def recordSuccess (attempt : Nat) (datagram : Option Nat) (now : Instant) (srtt : Srtt K) :
    Srtt K where
  attemptMicros := blend (asMicros attempt) (srtt.decayed decay now)
  updated := now
  datagramMicros :=
    match datagram with
    | none => srtt.datagramMicros
    | some datagram => blend (asMicros datagram) srtt.datagramMicros

/-- `Srtt::record_failure`. -/
def recordFailure (now : Instant) (srtt : Srtt K) : Srtt K :=
  { srtt with
    attemptMicros := min (srtt.decayed decay now + srttFailurePenaltyMicros) srttMaxMicros
    updated := now }

end Srtt

/-! ## The map -/

/-- `RttMap`, of a resolver with `n` nameservers. -/
abbrev RttMap (K : Type) (n : Nat) := Fin n → Srtt K

namespace RttMap

variable {n : Nat}

/-- `RttMap::new`. -/
def new (now : Instant) : RttMap K n := fun _ => .new now

variable (decay : Nat → K) (rtt : RttMap K n)

/-- `RttMap::get_decayed`. -/
def getDecayed (now : Instant) (idx : Fin n) : K := (rtt idx).decayed decay now

/-- `RttMap::record_success`. -/
def recordSuccess (idx : Fin n) (attempt : Nat) (datagram : Option Nat) (now : Instant) :
    RttMap K n :=
  Function.update rtt idx ((rtt idx).recordSuccess decay attempt datagram now)

/-- `RttMap::record_failure`. -/
def recordFailure (idx : Fin n) (now : Instant) : RttMap K n :=
  Function.update rtt idx ((rtt idx).recordFailure decay now)

end RttMap

section Order

variable {n : Nat} [LE K] [DecidableLE K] (decay : Nat → K) (rtt : RttMap K n) (now : Instant)

/-- `DnsResolver::order_indices`: a stable sort by the decayed estimates of one instant. -/
def orderIndices (indices : List (Fin n)) : List (Fin n) :=
  indices.mergeSort fun a b => decide (rtt.getDecayed decay now a ≤ rtt.getDecayed decay now b)

omit [Div K] [Min K] in
/-- The order is a rearrangement of the indices, whatever the estimates are. -/
theorem orderIndices_perm (indices : List (Fin n)) :
    (orderIndices decay rtt now indices).Perm indices := List.mergeSort_perm indices _

omit [Div K] [Min K] in
theorem orderIndices_nodup {indices : List (Fin n)} (h : indices.Nodup) :
    (orderIndices decay rtt now indices).Nodup :=
  (orderIndices_perm decay rtt now indices).nodup_iff.mpr h

omit [Div K] [Min K] in
@[simp] theorem orderIndices_singleton (idx : Fin n) :
    orderIndices decay rtt now [idx] = [idx] := List.mergeSort_singleton idx

end Order

end Estimates

/-! ## The arithmetic the code uses -/

instance floatNatCast : NatCast Float := ⟨Float.ofNat⟩

/-- The exponential of `Srtt::decayed`; `SRTT_DECAY_SECS` is 180. -/
def floatDecay (dt : Nat) : Float := Float.exp (-(Float.ofNat dt / 1000000000) / 180)

end N0DnsResolver
