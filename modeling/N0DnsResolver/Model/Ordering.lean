/-
  The RTT map under concurrent lookups (`rtt_map.rs`, `order_indices` of `resolver.rs`).

  Each call locks the map once and reads the clock while it holds the lock, so calls are
  atomic and a history of the map is the list of its calls, each with its instant.

  A sort of `order_indices` reads the map twice for each comparison, and other lookups may
  write to it between any two readings. `SortState.step` is the sort with what happens
  around it.
-/
import N0DnsResolver.Lib.Comparing
import N0DnsResolver.Lib.Machine
import N0DnsResolver.Model.Rtt
import Mathlib.Order.Defs.LinearOrder

namespace N0DnsResolver

/-- A call that writes to the map. -/
inductive RttCall (n : Nat) where
  | success (idx : Fin n) (attempt : Nat) (datagram : Option Nat)
  | failure (idx : Fin n)
  deriving DecidableEq

/-- The nameserver a call is about. -/
def RttCall.idx {n : Nat} : RttCall n → Fin n
  | .success idx _ _ => idx
  | .failure idx => idx

section Calls

variable {K : Type} [NatCast K] [Add K] [Sub K] [Mul K] [Div K] [Min K] {n : Nat}
variable (decay : Nat → K)

/-- `RttMap::record_success` and `RttMap::record_failure`, at the instant the call reads. -/
def RttMap.record (rtt : RttMap K n) (now : Instant) : RttCall n → RttMap K n
  | .success idx attempt datagram => rtt.recordSuccess decay idx attempt datagram now
  | .failure idx => rtt.recordFailure decay idx now

/-- The map after its calls, whatever the instants they read. -/
def RttMap.records (rtt : RttMap K n) (calls : List (Instant × RttCall n)) : RttMap K n :=
  calls.foldl (fun rtt call => rtt.record decay call.1 call.2) rtt

/-- A call leaves the estimates of the other nameservers alone. -/
theorem RttMap.record_of_ne (rtt : RttMap K n) (now : Instant) {call : RttCall n} {idx : Fin n}
    (h : call.idx ≠ idx) : rtt.record decay now call idx = rtt idx := by
  cases call with
  | success i attempt datagram => exact Function.update_of_ne (Ne.symm h) _ _
  | failure i => exact Function.update_of_ne (Ne.symm h) _ _

end Calls

/-! ## A sort of `order_indices` -/

/-- A call of `order_indices` under way, with the map and the clock that it reads. -/
structure SortState (K : Type) (n : Nat) where
  rtt : RttMap K n
  now : Instant
  sorting : Sorting (Fin n)
  /-- The first reading of the comparison under way. -/
  first : Option K
  /-- The comparisons made, with their answers. -/
  answers : List (Fin n × Fin n × Ordering)

/-- What happens during a sort: time goes by, another lookup writes to the map, or the comparator
reads it. -/
inductive SortEvent (n : Nat) where
  | tick (dt : Nat)
  | record (call : RttCall n)
  | read

namespace SortState

/-- The sort of `indices` begins: nothing is read. -/
def start {K : Type} {n : Nat} (sort : List (Fin n) → Sorting (Fin n)) (rtt : RttMap K n)
    (now : Instant) (indices : List (Fin n)) : SortState K n where
  rtt := rtt
  now := now
  sorting := sort indices
  first := none
  answers := []

variable {K : Type} [NatCast K] [Add K] [Sub K] [Mul K] [Div K] [LinearOrder K] {n : Nat}
variable (decay : Nat → K)

/-- The estimate of a nameserver, as a reading would give it. -/
def estimate (s : SortState K n) (idx : Fin n) : K := s.rtt.getDecayed decay s.now idx

/-- One event, until the sort is done. The comparator reads the estimate of its first index, then
that of its second, and compares them; `compare` is `total_cmp` on estimates. -/
def step (s : SortState K n) (event : SortEvent n) : Option (SortState K n) :=
  match s.sorting with
  | .done _ => none
  | .compare a b next =>
    match event with
    | .tick dt => some { s with now := s.now + dt }
    | .record call => some { s with rtt := s.rtt.record decay s.now call }
    | .read =>
      match s.first with
      | none => some { s with first := some (s.estimate decay a) }
      | some reading =>
        let answer := compare reading (s.estimate decay b)
        some { s with
          sorting := next answer
          first := none
          answers := s.answers ++ [(a, b, answer)] }

end SortState

end N0DnsResolver
