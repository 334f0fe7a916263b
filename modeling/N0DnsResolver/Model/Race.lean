/-
  The race of one tier (`DnsResolver::race`) and the escalation from the primary tier to
  the fallback tier (`DnsResolver::send_query`).

  A race is a machine. Its state is what the loop holds while it waits in `select!`, and
  its events are the two branches: an attempt completed, with whatever
  `query_nameserver` returned, or the start timer is due. Any attempt in flight may
  complete at any instant and the timer may be served late, so every interleaving is a
  run. `dialled` and `completed` record what the race did; the code reads neither. The
  estimates are those of one lookup: what concurrent lookups record is not interleaved.
-/
import N0DnsResolver.Model.Config
import N0DnsResolver.Model.Query
import N0DnsResolver.Model.Rtt

namespace N0DnsResolver

/-- `MAX_CONCURRENT_QUERIES`. -/
def maxConcurrentQueries : Nat := 3

/-- `QUERY_ATTEMPT_DELAY`, in nanoseconds. -/
def queryAttemptDelay : Nat := 100 * 1000000

/-- `UDP_NAMESERVER_TIMEOUT`, in nanoseconds. -/
def udpNameserverTimeout : Nat := 6 * 1000000000

/-- What `query_nameserver` returns: the response, with the round trip of the datagram that
carried it when one did. -/
abbrev Reply := Except Error (Bytes × Option Nat)

/-- An attempt in flight. -/
structure Dial (n : Nat) where
  idx : Fin n
  start : Instant
  deriving DecidableEq

/-- An attempt that completed. -/
structure Completion (n : Nat) where
  dial : Dial n
  now : Instant
  res : Reply

/-- What wakes the `select!` of `race`. -/
inductive Wake (n : Nat) where
  | completed (c : Completion n)
  | due (now : Instant)

/-- The state of `race` between two waits. -/
structure Race (K : Type) (n : Nat) where
  order : List (Fin n)
  next : Nat
  dials : List (Dial n)
  lastErr : Option Error
  /-- The deadline of the start timer. -/
  nextAttempt : Option Instant
  rtt : RttMap K n
  clock : Instant
  result : Option (Except Error Bytes)
  dialled : List (Fin n)
  completed : List (Completion n)

namespace Race

section Loop

variable {K : Type} {n : Nat}

/-- Starts the next attempt, if the head of the loop finds one due. -/
def launch (now : Instant) (s : Race K n) : Race K n :=
  match s.order[s.next]? with
  | none => s
  | some idx =>
    if s.nextAttempt.isNone ∧ s.dials.length < maxConcurrentQueries then
      { s with
        next := s.next + 1
        dials := s.dials ++ [⟨idx, now⟩]
        dialled := s.dialled ++ [idx]
        nextAttempt :=
          if s.next + 1 < s.order.length then some (now + queryAttemptDelay) else s.nextAttempt }
    else s

/-- The loop of `race`, from its head to the `select!`. -/
def top (now : Instant) (s : Race K n) : Race K n :=
  let s := s.launch now
  if s.dials = [] ∧ s.order.length ≤ s.next then
    { s with result := some (.error (s.lastErr.getD .noResponse)) }
  else s

/-- The state `race` enters its loop with, given the order of its tier. -/
def initial (order : List (Fin n)) (rtt : RttMap K n) (now : Instant) : Race K n where
  order := order
  next := 0
  dials := []
  lastErr := none
  nextAttempt := none
  rtt := rtt
  clock := now
  result := none
  dialled := []
  completed := []

/-- `race`, up to its first wait. -/
def start (order : List (Fin n)) (rtt : RttMap K n) (now : Instant) : Race K n :=
  top now (initial order rtt now)

variable [NatCast K] [Add K] [Sub K] [Mul K] [Div K] [Min K]
variable (S : SimpleDns) (decay : Nat → K)

/-- The branch of the `select!` for an attempt that completed. -/
def complete (s : Race K n) (c : Completion n) : Race K n :=
  let idx := c.dial.idx
  let s :=
    { s with dials := s.dials.erase c.dial, completed := s.completed ++ [c], clock := c.now }
  match c.res with
  | .ok (resp, datagramRtt) =>
    match retryable S resp with
    | some rcode =>
      { s with
        rtt := s.rtt.recordFailure decay idx c.now
        lastErr := some (.serverError (responseCode rcode))
        nextAttempt := none }
    | none =>
      { s with
        rtt := s.rtt.recordSuccess decay idx (c.now - c.dial.start) datagramRtt c.now
        result := some (.ok resp) }
  | .error e =>
    { s with rtt := s.rtt.recordFailure decay idx c.now, lastErr := some e, nextAttempt := none }

/-- One turn of the loop of `race`: a branch of the `select!`, then on to the next wait. -/
def step (s : Race K n) : Wake n → Option (Race K n)
  | .completed c =>
    if s.result.isNone ∧ c.dial ∈ s.dials ∧ s.clock ≤ c.now then
      let s := s.complete S decay c
      if s.result.isSome then some s else some (s.top c.now)
    else none
  | .due now =>
    match s.nextAttempt with
    | none => none
    | some deadline =>
      if s.result.isNone ∧ deadline ≤ now ∧ s.clock ≤ now then
        some (top now { s with nextAttempt := none, clock := now })
      else none

end Loop

end Race

/-! ## One turn of the loop -/

section Turn

variable {K : Type} {n : Nat} [NatCast K] [Add K] [Sub K] [Mul K] [Div K] [Min K]
variable (S : SimpleDns) (decay : Nat → K)

namespace Completion

/-- The error the race files an attempt under, when it counts it as failed. -/
def failure (c : Completion n) : Option Error :=
  match c.res with
  | .error e => some e
  | .ok (resp, _) => (retryable S resp).map (fun rcode => .serverError (responseCode rcode))

/-- The attempt won the race with this response. -/
def Won (c : Completion n) (resp : Bytes) : Prop :=
  (∃ datagramRtt, c.res = .ok (resp, datagramRtt)) ∧ retryable S resp = none

/-- The round trip of the datagram that carried the response, when one did. -/
def datagramRtt (c : Completion n) : Option Nat :=
  match c.res with
  | .error _ => none
  | .ok (_, datagramRtt) => datagramRtt

/-- One failure or one success, on the estimates of the server the attempt was made to. -/
def record (c : Completion n) (srtt : Srtt K) : Srtt K :=
  if (c.failure S).isSome then srtt.recordFailure decay c.now
  else srtt.recordSuccess decay (c.now - c.dial.start) c.datagramRtt c.now

/-- An attempt that completed failed or won. -/
theorem failed_or_won (c : Completion n) :
    (∃ e, c.failure S = some e) ∨ ∃ resp, c.Won S resp := by
  unfold failure Won
  cases hres : c.res with
  | error e => exact .inl ⟨e, rfl⟩
  | ok reply =>
    obtain ⟨resp, d⟩ := reply
    cases hr : retryable S resp with
    | none => exact .inr ⟨resp, ⟨d, rfl⟩, hr⟩
    | some rcode => exact .inl ⟨.serverError (responseCode rcode), congrArg (Option.map _) hr⟩

theorem Won.failure {c : Completion n} {resp : Bytes} (h : c.Won S resp) :
    c.failure S = none := by
  obtain ⟨⟨d, hres⟩, hr⟩ := h
  unfold Completion.failure
  simp only [hres, hr, Option.map_none]

end Completion

namespace Race

/-- The state after an attempt that failed. -/
theorem complete_failed {s : Race K n} {c : Completion n} {e : Error}
    (h : c.failure S = some e) :
    s.complete S decay c =
      { s with
        dials := s.dials.erase c.dial
        completed := s.completed ++ [c]
        clock := c.now
        rtt := Function.update s.rtt c.dial.idx (c.record S decay (s.rtt c.dial.idx))
        lastErr := some e
        nextAttempt := none } := by
  have hrec : c.record S decay (s.rtt c.dial.idx) = (s.rtt c.dial.idx).recordFailure decay c.now :=
    if_pos (by rw [h]; rfl)
  rw [hrec]
  unfold Completion.failure at h
  unfold complete
  cases hres : c.res with
  | error e' =>
    rw [hres] at h
    cases h
    rfl
  | ok reply =>
    rw [hres] at h
    obtain ⟨rcode, hr, rfl⟩ := Option.map_eq_some_iff.mp h
    simp only [hr]
    rfl

/-- The state after the attempt that won. -/
theorem complete_won {s : Race K n} {c : Completion n} {resp : Bytes} (h : c.Won S resp) :
    s.complete S decay c =
      { s with
        dials := s.dials.erase c.dial
        completed := s.completed ++ [c]
        clock := c.now
        rtt := Function.update s.rtt c.dial.idx (c.record S decay (s.rtt c.dial.idx))
        result := some (.ok resp) } := by
  have hrec : c.record S decay (s.rtt c.dial.idx) =
      (s.rtt c.dial.idx).recordSuccess decay (c.now - c.dial.start) c.datagramRtt c.now :=
    if_neg (by rw [h.failure]; exact Bool.false_ne_true)
  rw [hrec]
  obtain ⟨⟨d, hres⟩, hr⟩ := h
  unfold complete Completion.datagramRtt
  simp only [hres, hr]
  rfl

/-- The state once the next server in order has been dialled. -/
def dial (now : Instant) (idx : Fin n) (s : Race K n) : Race K n :=
  { s with
    next := s.next + 1
    dials := s.dials ++ [⟨idx, now⟩]
    dialled := s.dialled ++ [idx]
    nextAttempt :=
      if s.next + 1 < s.order.length then some (now + queryAttemptDelay) else s.nextAttempt }

omit [NatCast K] [Add K] [Sub K] [Mul K] [Div K] [Min K] in
/-- The head of the loop dials the next server in order, or finds none due. -/
theorem launch_cases (now : Instant) (s : Race K n) :
    (∃ idx, s.order[s.next]? = some idx ∧ s.dials.length < maxConcurrentQueries ∧
      s.launch now = s.dial now idx) ∨
    ((s.order.length ≤ s.next ∨ s.nextAttempt.isSome ∨ maxConcurrentQueries ≤ s.dials.length) ∧
      s.launch now = s) := by
  unfold launch
  cases hidx : s.order[s.next]? with
  | none => exact .inr ⟨.inl (List.getElem?_eq_none_iff.mp hidx), rfl⟩
  | some idx =>
    by_cases hc : s.nextAttempt.isNone ∧ s.dials.length < maxConcurrentQueries
    · exact .inl ⟨idx, rfl, hc.2, if_pos hc⟩
    · refine .inr ⟨.inr ?_, if_neg hc⟩
      by_cases hn : s.nextAttempt.isNone
      · exact .inr (Nat.not_lt.mp fun h => hc ⟨hn, h⟩)
      · exact .inl (Option.isSome_iff_ne_none.mpr (by simpa using hn))

omit [NatCast K] [Add K] [Sub K] [Mul K] [Div K] [Min K] in
/-- With nothing in flight and no timer pending, the next server in order is dialled. -/
theorem top_dial {s : Race K n} {idx : Fin n} (now : Instant) (hdials : s.dials = [])
    (htimer : s.nextAttempt = none) (hidx : s.order[s.next]? = some idx) :
    s.top now = s.dial now idx := by
  have hlaunch : s.launch now = s.dial now idx := by
    unfold launch
    rw [hidx]
    exact if_pos ⟨by rw [htimer]; rfl, by rw [hdials]; exact Nat.succ_pos 2⟩
  unfold top
  rw [hlaunch]
  exact if_neg fun h => List.append_ne_nil_of_right_ne_nil _ (List.cons_ne_nil _ _) h.1

omit [NatCast K] [Add K] [Sub K] [Mul K] [Div K] [Min K] in
/-- The head of the loop returns no response. -/
theorem top_ok {s : Race K n} {now : Instant} {resp : Bytes}
    (h : (s.top now).result = some (.ok resp)) : s.result = some (.ok resp) := by
  have hlaunch : (s.launch now).result = s.result := by
    rcases launch_cases now s with ⟨idx, -, -, heq⟩ | ⟨-, heq⟩
    · rw [heq]
      rfl
    · rw [heq]
  unfold top at h
  simp only at h
  split at h
  · simp at h
  · rw [← hlaunch]
    exact h

/-- The turn for the attempt that wins. -/
theorem step_won {s : Race K n} {c : Completion n} {resp : Bytes} (hrun : s.result = none)
    (hmem : c.dial ∈ s.dials) (hclock : s.clock ≤ c.now) (hw : c.Won S resp) :
    s.step S decay (.completed c) = some (s.complete S decay c) := by
  have hres : (s.complete S decay c).result.isSome = true := by
    rw [complete_won S decay hw]
    rfl
  simp only [step]
  rw [if_pos ⟨by rw [hrun]; rfl, hmem, hclock⟩, if_pos hres]

/-- The turn for the start timer. -/
theorem step_due {s : Race K n} {now deadline : Instant} (hrun : s.result = none)
    (ht : s.nextAttempt = some deadline) (hdue : deadline ≤ now) (hclock : s.clock ≤ now) :
    s.step S decay (.due now) = some (top now { s with nextAttempt := none, clock := now }) := by
  simp only [step, ht]
  rw [if_pos ⟨by rw [hrun]; rfl, hdue, hclock⟩]

/-- What a turn of the loop can be. -/
theorem step_cases {s s' : Race K n} {e : Wake n} (h : s.step S decay e = some s') :
    s.result = none ∧
    ((∃ c err, e = .completed c ∧ c.dial ∈ s.dials ∧ s.clock ≤ c.now ∧ c.failure S = some err ∧
        s' = (s.complete S decay c).top c.now) ∨
      (∃ c resp, e = .completed c ∧ c.dial ∈ s.dials ∧ s.clock ≤ c.now ∧ c.Won S resp ∧
        s' = s.complete S decay c) ∨
      ∃ now deadline, e = .due now ∧ s.nextAttempt = some deadline ∧ deadline ≤ now ∧
        s.clock ≤ now ∧ s' = top now { s with nextAttempt := none, clock := now }) := by
  cases e with
  | completed c =>
    simp only [step] at h
    split at h
    · next hg =>
      obtain ⟨hnone, hmem, hclock⟩ := hg
      have hrun : s.result = none := Option.isNone_iff_eq_none.mp hnone
      refine ⟨hrun, ?_⟩
      rcases c.failed_or_won S with ⟨err, he⟩ | ⟨resp, hw⟩
      · have hres : (s.complete S decay c).result = none := by
          rw [complete_failed S decay he]
          exact hrun
        rw [hres] at h
        cases h
        exact .inl ⟨c, err, rfl, hmem, hclock, he, rfl⟩
      · have hres : (s.complete S decay c).result = some (.ok resp) := by
          rw [complete_won S decay hw]
        rw [hres] at h
        cases h
        exact .inr (.inl ⟨c, resp, rfl, hmem, hclock, hw, rfl⟩)
    · simp at h
  | due now =>
    simp only [step] at h
    split at h
    · simp at h
    · next deadline hd =>
      split at h
      · next hg =>
        cases h
        exact ⟨Option.isNone_iff_eq_none.mp hg.1,
          .inr (.inr ⟨now, deadline, rfl, hd, hg.2.1, hg.2.2, rfl⟩)⟩
      · simp at h

end Race

end Turn

/-! ## Escalation -/

/-- `send_query`: the race of the primary tier, or of the fallback tier once that is over. -/
inductive SendQuery (K : Type) (n : Nat) where
  | primary (race : Race K n)
  | fallback (primary race : Race K n)

namespace SendQuery

section Escalation

variable {K : Type} {n : Nat}

/-- The indices `0..primary_count`. -/
def primaryIndices (n primaryCount : Nat) : List (Fin n) := (List.finRange n).take primaryCount

/-- The indices `primary_count..nameservers.len()`. -/
def fallbackIndices (n primaryCount : Nat) : List (Fin n) := (List.finRange n).drop primaryCount

/-- The race in progress. -/
def race : SendQuery K n → Race K n
  | .primary race => race
  | .fallback _ race => race

/-- The race of the primary tier. -/
def first : SendQuery K n → Race K n
  | .primary race => race
  | .fallback lost _ => lost

/-- The race of the fallback tier, once it started. -/
def second : SendQuery K n → Option (Race K n)
  | .primary _ => none
  | .fallback _ race => some race

/-- The servers dialled so far. -/
def dialled (q : SendQuery K n) : List (Fin n) :=
  q.first.dialled ++ (q.second.elim [] Race.dialled)

/-- What `send_query` returned, once it did. -/
def result (q : SendQuery K n) : Option (Except Error Bytes) := q.race.result

variable [NatCast K] [Add K] [Sub K] [Mul K] [Div K] [Min K] [LE K] [DecidableLE K]
variable (S : SimpleDns) (decay : Nat → K) (primaryCount : Nat)

/-- What `send_query` does with the outcome of the primary race. -/
def escalate (race : Race K n) : SendQuery K n :=
  match race.result with
  | some (.error _) =>
    if primaryCount = n then .primary race
    else
      let fallback := fallbackIndices n primaryCount
      .fallback race
        (.start (orderIndices decay race.rtt race.clock fallback) race.rtt race.clock)
  | _ => .primary race

/-- `send_query`, up to its first wait. -/
def start (rtt : RttMap K n) (now : Instant) : Except Error (SendQuery K n) :=
  if n = 0 then .error .noNameservers
  else
    .ok (escalate decay primaryCount
      (.start (orderIndices decay rtt now (primaryIndices n primaryCount)) rtt now))

/-- One turn of the race in progress. -/
def step : SendQuery K n → Wake n → Option (SendQuery K n)
  | .primary race, e => (race.step S decay e).map (escalate decay primaryCount)
  | .fallback first race, e => (race.step S decay e).map (.fallback first)

end Escalation

end SendQuery

end N0DnsResolver
