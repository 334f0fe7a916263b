/-
  How long a lookup takes.

  A candidate is good for `maxCnameDepth` queries, and each query keeps to the schedule of its
  races (`Theory/Deadlines`). `Reached` says of a state that the loops come to what has been
  sent by then and what may still be sent; the turns, the queries and the time of a lookup
  are all counted from it.
-/
import N0DnsResolver.Theory.SearchWalk

namespace N0DnsResolver

/-- The queries a lookup may still send, the one it waits for included. -/
def Awaiting.queriesLeft {K : Type} {n : Nat} (a : Awaiting K n) : Nat :=
  a.left + 1 + a.names.length * maxCnameDepth

namespace SearchWalk

/-! ## What the loops come to -/

section Reached

variable {K : Type} {n : Nat} [NatCast K] [Add K] [Sub K] [Mul K] [LE K] [DecidableLE K]
variable (decay : Nat → K) (primaryCount : Nat) (env : Surroundings K n)

/-- Following comes to this at an instant, when so many queries are left from a trail on. -/
def ReachedHop (now : Instant) (trail : TimedTrail) (left : Nat) : Hop K n → Prop
  | .sending left' _ send => left' + 1 ≤ left ∧
      SendQuery.start decay primaryCount (env.rtt trail.log) now = .ok send
  | .returned _ trail' => trail.length ≤ trail'.length ∧ trail'.length ≤ trail.length + left

/-- The loops come to this at an instant, when so many queries were sent and are left. -/
def Reached (now : Instant) (sent left : Nat) : SearchWalk K n → Prop
  | .waiting a => a.since = now ∧
      SendQuery.start decay primaryCount (env.rtt a.trail.log) now = .ok a.send ∧
      sent ≤ a.trail.length ∧ a.trail.length + a.queriesLeft ≤ sent + left
  | .done _ now' trail => now' = now ∧ sent ≤ trail.length ∧ trail.length ≤ sent + left

variable {decay primaryCount env}

theorem Reached.of_le {now : Instant} {sent left sent' left' : Nat} {s : SearchWalk K n}
    (h : Reached decay primaryCount env now sent' left' s) (hsent : sent ≤ sent')
    (hleft : sent' + left' ≤ sent + left) : Reached decay primaryCount env now sent left s := by
  cases s with
  | waiting a =>
    obtain ⟨hsince, hstart, hlow, hhigh⟩ := h
    exact ⟨hsince, hstart, hsent.trans hlow, hhigh.trans hleft⟩
  | done ended now' trail =>
    obtain ⟨hnow, hlow, hhigh⟩ := h
    exact ⟨hnow, hsent.trans hlow, hhigh.trans hleft⟩

variable (S : SimpleDns) (builder : Builder) (kind : RecordKind)

theorem reached_hop (host : Str) (now : Instant) (trail : TimedTrail) (left : Nat) :
    ReachedHop decay primaryCount env now trail left
      (hop S decay primaryCount env kind host now trail left) := by
  have hnone : trail.length ≤ trail.length ∧ trail.length ≤ trail.length + left := by omega
  cases left with
  | zero => exact hnone
  | succ left =>
    unfold hop
    cases S.nameNew host with
    | none => exact hnone
    | some name =>
      simp only
      cases buildQuery S (env.randomId trail.log) host kind.dnsType with
      | error e => exact hnone
      | ok bytes =>
        simp only
        cases hstart : SendQuery.start decay primaryCount (env.rtt trail.log) now with
        | error e =>
          have hone : ∀ x : Exchange × Nat, (trail ++ [x]).length = trail.length + 1 :=
            fun _ => List.length_append
          exact ⟨(hone _).symm ▸ Nat.le_succ _, (hone _).symm ▸ (by omega)⟩
        | ok send => exact ⟨Nat.le_refl _, hstart⟩

theorem reached_goOn {now : Instant} {names : List Str}
    (hnext : ∀ st (trail : TimedTrail),
      Reached decay primaryCount env now trail.length (names.length * maxCnameDepth)
        (candidates S decay primaryCount env builder kind now names st trail))
    (candidate : Str) (st : LoopState) {trail : TimedTrail} {left : Nat} {h : Hop K n}
    (hreached : ReachedHop decay primaryCount env now trail left h) :
    Reached decay primaryCount env now trail.length (left + names.length * maxCnameDepth)
      (goOn S decay primaryCount env builder kind candidate names st now trail h) := by
  cases h with
  | sending left' query send =>
    refine ⟨rfl, hreached.2, Nat.le_refl _, Nat.add_le_add_left ?_ _⟩
    exact Nat.add_le_add_right hreached.1 _
  | returned r trail' =>
    obtain ⟨hlow, hhigh⟩ := hreached
    have hover : trail.length ≤ trail'.length ∧
        trail'.length ≤ trail.length + (left + names.length * maxCnameDepth) := by omega
    unfold goOn
    simp only
    cases judge builder st (readAttempt S kind r) with
    | answered records ttl => exact ⟨rfl, hover⟩
    | failed e => exact ⟨rfl, hover⟩
    | next st' => exact (hnext st' trail').of_le hlow (by omega)

theorem reached_candidates (now : Instant) (names : List Str) (st : LoopState)
    (trail : TimedTrail) :
    Reached decay primaryCount env now trail.length (names.length * maxCnameDepth)
      (candidates S decay primaryCount env builder kind now names st trail) := by
  induction names generalizing st trail with
  | nil => exact ⟨rfl, Nat.le_refl _, Nat.le_add_right _ _⟩
  | cons name names ih =>
    rw [candidates_cons, List.length_cons, Nat.succ_mul, Nat.add_comm _ maxCnameDepth]
    exact reached_goOn S builder kind ih name st
      (reached_hop S kind name now trail maxCnameDepth)

theorem reached_settle (a : Awaiting K n) (now : Instant) (result : Except Error Bytes) :
    Reached decay primaryCount env now (a.trail.length + 1)
      (a.left + a.names.length * maxCnameDepth)
      (settle S decay primaryCount env builder kind a now result) := by
  have hlength : (a.trail ++ [(⟨a.query, result⟩, now - a.since)] : TimedTrail).length =
      a.trail.length + 1 := by simp
  rw [← hlength]
  refine reached_goOn S builder kind (reached_candidates S builder kind now a.names) a.candidate
    a.st ?_
  unfold replied
  cases Exchange.reading S kind.dnsType ⟨a.query, result⟩ with
  | inl r => exact ⟨Nat.le_refl _, Nat.le_add_right _ _⟩
  | inr target => exact reached_hop S kind target now _ a.left

end Reached

/-! ## Turns -/

section Turns

variable {K : Type} {n : Nat} [NatCast K] [Add K] [Sub K] [Mul K] [Div K] [Min K]
variable [LE K] [DecidableLE K] {S : SimpleDns} {decay : Nat → K} {primaryCount : Nat}
variable {env : Surroundings K n} {builder : Builder} {kind : RecordKind}

/-- The turns a lookup can still take. -/
def turnsLeft (primaryCount : Nat) : SearchWalk K n → Nat
  | .waiting a =>
    a.send.turnsLeft primaryCount + (a.left + a.names.length * maxCnameDepth) * (2 * n)
  | .done .. => 0

omit [Div K] [Min K] in
theorem Reached.turnsLeft_le {now : Instant} {sent left : Nat} {s : SearchWalk K n}
    (h : Reached decay primaryCount env now sent left s) :
    s.turnsLeft primaryCount ≤ left * (2 * n) := by
  cases s with
  | done ended now' trail => exact Nat.zero_le _
  | waiting a =>
    obtain ⟨-, hstart, hlow, hhigh⟩ := h
    obtain ⟨-, hsend⟩ : a.send.Paced decay primaryCount 0 0 (env.rtt a.trail.log) now ∧
        a.send.turnsLeft primaryCount ≤ 2 * n := SendQuery.start_paced decay primaryCount hstart
    have hleft : a.left + a.names.length * maxCnameDepth + 1 ≤ left := by
      unfold Awaiting.queriesLeft at hhigh
      omega
    calc a.send.turnsLeft primaryCount + (a.left + a.names.length * maxCnameDepth) * (2 * n)
        ≤ 2 * n + (a.left + a.names.length * maxCnameDepth) * (2 * n) :=
          Nat.add_le_add_right hsend _
      _ = (a.left + a.names.length * maxCnameDepth + 1) * (2 * n) :=
          (Nat.add_comm _ _).trans (Nat.succ_mul _ _).symm
      _ ≤ left * (2 * n) := Nat.mul_le_mul_right _ hleft

/-- Every turn of the races is a turn of the lookup. -/
theorem turnsLeft_step {s s' : SearchWalk K n} {e : Wake n}
    (h : s.step S decay primaryCount env builder kind e = some s') :
    s'.turnsLeft primaryCount < s.turnsLeft primaryCount := by
  obtain ⟨a, send, rfl, hsend, ⟨-, rfl⟩ | ⟨result, -, rfl⟩⟩ := step_cases h
  · have hturns := SendQuery.turnsLeft_step S decay primaryCount hsend
    exact Nat.add_lt_add_right hturns _
  · have hturns := SendQuery.turnsLeft_step S decay primaryCount hsend
    have hreached : Reached decay primaryCount env send.race.clock (a.trail.length + 1)
        (a.left + a.names.length * maxCnameDepth)
        (settle S decay primaryCount env builder kind a send.race.clock result) :=
      reached_settle S builder kind a send.race.clock result
    have hsettled := hreached.turnsLeft_le
    exact Nat.lt_of_le_of_lt hsettled (Nat.lt_add_of_pos_left (Nat.zero_lt_of_lt hturns))

end Turns

/-! ## Deadlines -/

section Deadlines

variable {K : Type} {n : Nat} [NatCast K] [Add K] [Sub K] [Mul K] [Div K] [Min K]
variable [LE K] [DecidableLE K] {S : SimpleDns} (decay : Nat → K) (primaryCount : Nat)
variable (env : Surroundings K n) {builder : Builder} {kind : RecordKind}
variable (lag length : Nat) (start : Instant) (budget : Nat)

/-- A lookup begun at `start` that may send `budget` queries, each on its schedule. -/
def Scheduled : SearchWalk K n → Prop
  | .waiting a => a.send.result = none ∧
      a.send.Paced decay primaryCount lag length (env.rtt a.trail.log) a.since ∧
      a.trail.length + a.queriesLeft ≤ budget ∧
      a.since ≤ start + a.trail.length * SendQuery.tiersEndBy n primaryCount lag length
  | .done _ now trail => trail.length ≤ budget ∧
      now ≤ start + trail.length * SendQuery.tiersEndBy n primaryCount lag length

variable {decay primaryCount env lag length start budget}

omit [Div K] [Min K] in
theorem Reached.scheduled {now : Instant} {sent left : Nat} {s : SearchWalk K n}
    (h : Reached decay primaryCount env now sent left s) (hbudget : sent + left ≤ budget)
    (hnow : now ≤ start + sent * SendQuery.tiersEndBy n primaryCount lag length) :
    Scheduled decay primaryCount env lag length start budget s := by
  have hlater : ∀ {sent' : Nat}, sent ≤ sent' →
      now ≤ start + sent' * SendQuery.tiersEndBy n primaryCount lag length := fun hle =>
    hnow.trans (Nat.add_le_add_left (Nat.mul_le_mul_right _ hle) start)
  cases s with
  | waiting a =>
    obtain ⟨rfl, hstart, hlow, hhigh⟩ := h
    exact ⟨SendQuery.start_waits decay primaryCount hstart,
      (SendQuery.start_paced decay primaryCount hstart).1, hhigh.trans hbudget, hlater hlow⟩
  | done ended now' trail =>
    obtain ⟨rfl, hlow, hhigh⟩ := h
    exact ⟨hhigh.trans hbudget, hlater hlow⟩

theorem scheduled_step {limit : Fin n → Nat} (hlimit : ∀ idx, limit idx + lag ≤ length)
    {s s' : SearchWalk K n} {e : Wake n}
    (h : Scheduled decay primaryCount env lag length start budget s)
    (hon : (timing limit).OnTime lag s e)
    (hs : s.step S decay primaryCount env builder kind e = some s') :
    Scheduled decay primaryCount env lag length start budget s' := by
  obtain ⟨a, send, rfl, hsend, hcases⟩ := step_cases hs
  obtain ⟨-, hpaced, hbudget, hsince⟩ := h
  have hpaced' := hpaced.step S decay primaryCount hlimit hon hsend
  rcases hcases with ⟨hresult, rfl⟩ | ⟨result, -, rfl⟩
  · exact ⟨hresult, hpaced', hbudget, hsince⟩
  · refine (reached_settle S builder kind a send.race.clock result).scheduled ?_ ?_
    · unfold Awaiting.queriesLeft at hbudget
      omega
    · have hclock := (hpaced'.inTime decay primaryCount hlimit).clock_le
      rw [Nat.succ_mul, ← Nat.add_assoc]
      exact hclock.trans (Nat.add_le_add_right hsince _)

/-- The latest instant a lookup knows of. -/
def clock : SearchWalk K n → Instant
  | .waiting a => a.send.race.clock
  | .done _ now _ => now

variable (primaryCount lag length start budget) in
/-- What is asked of the queries a lookup sends and of the time it takes: both are within the bound,
and while it waits something is due by then. -/
structure InTime (limit : Fin n → Nat) (s : SearchWalk K n) : Prop where
  queries_le : s.trail.length ≤ budget
  clock_le : s.clock ≤ start + budget * SendQuery.tiersEndBy n primaryCount lag length
  due : ∀ a, s = .waiting a → ∃ d ∈ (timing limit).due s,
    d + lag ≤ start + budget * SendQuery.tiersEndBy n primaryCount lag length

omit [Div K] [Min K] in
theorem Scheduled.inTime {limit : Fin n → Nat} (hlimit : ∀ idx, limit idx + lag ≤ length)
    {s : SearchWalk K n} (h : Scheduled decay primaryCount env lag length start budget s) :
    InTime primaryCount lag length start budget limit s := by
  cases s with
  | done ended now trail =>
    refine ⟨h.1, h.2.trans (Nat.add_le_add_left (Nat.mul_le_mul_right _ h.1) start), ?_⟩
    intro a ha
    cases ha
  | waiting a =>
    obtain ⟨hresult, hpaced, hbudget, hsince⟩ := h
    have hqueries : a.trail.length + 1 ≤ budget := by
      unfold Awaiting.queriesLeft at hbudget
      omega
    have hbound : a.since + SendQuery.tiersEndBy n primaryCount lag length ≤
        start + budget * SendQuery.tiersEndBy n primaryCount lag length := by
      refine Nat.le_trans (Nat.add_le_add_right hsince _) ?_
      rw [Nat.add_assoc, ← Nat.succ_mul]
      exact Nat.add_le_add_left (Nat.mul_le_mul_right _ hqueries) start
    have htime := hpaced.inTime decay primaryCount hlimit
    refine ⟨(Nat.le_succ _).trans hqueries, htime.clock_le.trans hbound, fun _ _ => ?_⟩
    obtain ⟨d, hd, hdue⟩ := htime.due hresult
    exact ⟨d, hd, hdue.trans hbound⟩

end Deadlines

end SearchWalk

/-! ## Lookups -/

theorem length_pushName_le (names : List Str) (name : Str) :
    (pushName names name).length ≤ names.length + 1 := by
  unfold pushName
  split
  · exact Nat.le_succ _
  · exact Nat.le_of_eq List.length_append

/-- The candidates of a name are no more than the search domains and the name itself. -/
theorem length_searchNames_le (S : SimpleDns) (config : Config) (host : Str) :
    (searchNames S config host).length ≤ config.searchDomains.length + 1 := by
  have hfold : ∀ (domains : List Str) (names : List Str),
      (domains.foldl (fun names domain =>
        if (S.nameNew (expand host domain)).isSome then pushName names (expand host domain)
        else names) names).length ≤ names.length + domains.length := by
    intro domains
    induction domains with
    | nil => exact fun names => Nat.le_refl _
    | cons domain domains ih =>
      intro names
      have hpush := length_pushName_le names (expand host domain)
      rw [List.foldl_cons, List.length_cons]
      split
      · exact (ih _).trans (by omega)
      · exact (ih _).trans (by omega)
  unfold searchNames
  split
  · exact Nat.le_add_left _ _
  · simp only
    split
    · refine (hfold _ _).trans ?_
      rw [Nat.add_comm]
      exact Nat.add_le_add_left (length_pushName_le [] host) _
    · refine (length_pushName_le _ _).trans (Nat.add_le_add_right ((hfold _ _).trans ?_) 1)
      exact Nat.le_of_eq (Nat.zero_add _)

/-- The queries a lookup may send: `maxCnameDepth` for each search domain and for the name
itself. -/
def Config.queryBudget (config : Config) : Nat := (config.searchDomains.length + 1) * maxCnameDepth

/-- Whatever the nameservers do, a lookup sends no more queries than its budget, in two turns for
each nameserver at most, always waits for something that is due, and is over by a bound that the
lengths of the tiers give. -/
theorem lookup_ends_in_time {K : Type} [NatCast K] [Add K] [Sub K] [Mul K] [Div K] [Min K] [LE K]
    [DecidableLE K] (S : SimpleDns) (decay : Nat → K) (state : ResolverState) (lag : Nat)
    (env : Surroundings K state.config.nameservers.length) (builder : Builder) (name : Str)
    (kind : RecordKind) (start : Instant) (events : List (Wake state.config.nameservers.length))
    (s₀ s : SearchWalk K state.config.nameservers.length)
    (hstart : SearchWalk.candidates S decay state.primaryCount env builder kind start
      (searchNames S state.config name) {} [] = s₀)
    (hrun : Machine.run (SearchWalk.step S decay state.primaryCount env builder kind) s₀ events =
      some s)
    (htimely : (SearchWalk.timing (state.limits lag)).Timely lag
      (SearchWalk.step S decay state.primaryCount env builder kind) s₀ events) :
    events.length ≤ state.config.queryBudget * (2 * state.config.nameservers.length) ∧
      SearchWalk.InTime state.primaryCount lag (attemptLength lag) start state.config.queryBudget
        (state.limits lag) s := by
  have hlimit := state.limits_add_le lag
  have hbudget : (searchNames S state.config name).length * maxCnameDepth ≤
      state.config.queryBudget :=
    Nat.mul_le_mul_right _ (length_searchNames_le S state.config name)
  have hreached : SearchWalk.Reached decay state.primaryCount env start 0
      ((searchNames S state.config name).length * maxCnameDepth) s₀ :=
    hstart ▸ SearchWalk.reached_candidates S builder kind start (searchNames S state.config name)
      {} []
  have hlen := Machine.run_length_le (P := fun _ => True)
    (fun s e s' _ hs => ⟨trivial, SearchWalk.turnsLeft_step hs⟩) trivial hrun
  have hturns := hreached.turnsLeft_le.trans (Nat.mul_le_mul_right _ hbudget)
  refine ⟨(Nat.le_add_right _ _).trans (hlen.trans hturns), ?_⟩
  have hscheduled₀ : SearchWalk.Scheduled decay state.primaryCount env lag (attemptLength lag) start
      state.config.queryBudget s₀ :=
    hreached.scheduled ((Nat.le_of_eq (Nat.zero_add _)).trans hbudget) (Nat.le_add_right _ _)
  have hscheduled := Machine.run_invariant_along
    (fun s e s' hs hon h => SearchWalk.scheduled_step hlimit hs hon h) hscheduled₀ htimely hrun
  exact hscheduled.inTime hlimit

/-- The lookup that escalates is on time. -/
theorem dbWalk_timely : (SearchWalk.timing (twoTiers.limits 0)).Timely 0
    (SearchWalk.step dbDns floatDecay twoTiers.primaryCount dbSurroundings {} .a)
    (.waiting dbAwaiting) [primaryTimeout, dbWake] := by
  have hdue : (SearchWalk.timing (twoTiers.limits 0)).due (.waiting dbAwaiting) =
      [12000000000] := rfl
  have hdue' : (SearchWalk.timing (twoTiers.limits 0)).due
      (.waiting { dbAwaiting with send := .fallback lostRace escalatedRace }) =
        [18000000000] := rfl
  refine Timing.timely_cons dbWalk_escalates hdue (by decide) ?_
  exact Timing.timely_singleton hdue' (by decide)

/-- The lookup that escalates takes its two turns, one query and six seconds and a millisecond. -/
theorem lookup_ends_in_time_db : [primaryTimeout, dbWake].length ≤ 8 * 4 ∧
    SearchWalk.InTime twoTiers.primaryCount 0 (attemptLength 0) 0 8 (twoTiers.limits 0)
      (.done (.answered "db.".toList [.a ⟨7⟩] 60) 6001000000 dbTrail :
        SearchWalk Float twoTiers.config.nameservers.length) :=
  lookup_ends_in_time dbDns floatDecay twoTiers 0 dbSurroundings {} "db.".toList .a 0
    [primaryTimeout, dbWake] _ _ dbWalk_start dbWalk_run dbWalk_timely

end N0DnsResolver
