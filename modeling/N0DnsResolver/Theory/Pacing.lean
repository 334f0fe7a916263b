/-
  What the retransmit intervals come from.

  The map closes a loop: an attempt is paced by the estimate of its server, and may write a
  sample to it. The sample is the flight time of one datagram, so the estimate is the
  average of the flight times of that server's answers and of nothing else, in whatever
  order attempts of any lookups come and go (`pacing_from_flights`). From this alone the
  intervals settle: an attempt that is dialled is paced within what the flight times give,
  and after three answers repeats no datagram before one of them would have come back
  (`pacing_settles`).
-/
import N0DnsResolver.Lib.Average
import N0DnsResolver.Model.Pacing
import N0DnsResolver.Theory.Escalation
import N0DnsResolver.Theory.Healing
import N0DnsResolver.Theory.Retransmits

namespace N0DnsResolver

/-- The round trips among the answers of a server. -/
def samplesOf {n : Nat} (answers : List (Fin n × Nat)) (idx : Fin n) : List Nat :=
  (answers.filter (fun p => p.1 = idx)).map Prod.snd

/-- The estimate that a server's round trips give. -/
def pacingEstimate {K : Type} {n : Nat} [NatCast K] [Add K] [Sub K] [Mul K] [Div K] [Min K]
    (answers : List (Fin n × Nat)) (idx : Fin n) : K :=
  (samplesOf answers idx).foldl (fun base d => Srtt.blend (asMicros d) base) srttBaselineMicros

namespace Pacing

section Loop

variable {K : Type} {n : Nat} [NatCast K] [Add K] [Sub K] [Mul K] [Div K] [Min K]
variable {S : SimpleDns} {decay : Nat → K} {asU64 : K → Nat} {born : Fin n → Instant}

theorem samplesOf_append (answers more : List (Fin n × Nat)) (idx : Fin n) :
    samplesOf (answers ++ more) idx = samplesOf answers idx ++ samplesOf more idx := by
  unfold samplesOf
  rw [List.filter_append, List.map_append]

theorem pacingEstimate_append (answers more : List (Fin n × Nat)) (idx : Fin n) :
    (pacingEstimate (answers ++ more) idx : K) =
      (samplesOf more idx).foldl (fun base d => Srtt.blend (asMicros d) base)
        (pacingEstimate answers idx) := by
  unfold pacingEstimate
  rw [samplesOf_append, List.foldl_append]

/-- What an attempt that completed adds to the round trips. -/
def noted (S : SimpleDns) (c : Completion n) : List (Fin n × Nat) :=
  if (c.failure S).isSome then [] else c.datagramRtt.toList.map fun d => (c.dial.idx, d)

theorem conclude_answers (s : Pacing K n) (i : Nat) (c : Completion n) :
    (s.conclude S decay i c).answers = s.answers ++ noted S c := by
  unfold conclude noted
  simp only
  split
  · exact (List.append_nil _).symm
  · rfl

/-- The datagram estimate takes in the round trip of an attempt that completed, if there is one. -/
theorem record_datagram (c : Completion n) (srtt : Srtt K) :
    (c.record S decay srtt).datagramMicros =
      (samplesOf (noted S c) c.dial.idx).foldl (fun base d => Srtt.blend (asMicros d) base)
        srtt.datagramMicros := by
  unfold Completion.record noted
  split
  · rfl
  · unfold Srtt.recordSuccess samplesOf
    cases c.datagramRtt with
    | none => rfl
    | some d =>
      simp only [Option.toList_some, List.map_cons, List.map_nil]
      rw [List.filter_cons_of_pos (by simp)]
      rfl

/-- An attempt that completed adds nothing to the round trips of other servers. -/
theorem samplesOf_noted_of_ne {c : Completion n} {idx : Fin n} (h : c.dial.idx ≠ idx) :
    samplesOf (noted S c) idx = [] := by
  unfold samplesOf noted
  split
  · rfl
  · cases c.datagramRtt with
    | none => rfl
    | some d =>
      simp only [Option.toList_some, List.map_cons, List.map_nil]
      rw [List.filter_cons_of_neg (by simpa using h)]
      rfl

/-- The datagram estimates are what the answers make them. -/
def Estimates (s : Pacing K n) : Prop :=
  ∀ idx, (s.rtt idx).datagramMicros = pacingEstimate s.answers idx

theorem Estimates.conclude {s : Pacing K n} (h : s.Estimates) (i : Nat) (c : Completion n) :
    (s.conclude S decay i c).Estimates := by
  intro idx
  rw [conclude_answers, pacingEstimate_append]
  show (Function.update s.rtt c.dial.idx _ idx).datagramMicros = _
  by_cases hidx : idx = c.dial.idx
  · rw [hidx, Function.update_self, record_datagram, h]
  · rw [Function.update_of_ne hidx, samplesOf_noted_of_ne (Ne.symm hidx), h]
    rfl

/-! ## One event -/

/-- What an event does, by what it is. -/
inductive Turn (S : SimpleDns) (decay : Nat → K) (asU64 : K → Nat) (s : Pacing K n) :
    PacingEvent n → Pacing K n → Prop where
  | launch (idx : Fin n) (query : Bytes) (now : Instant) :
    Turn S decay asU64 s (.launch idx query now)
      { s with
        tries := s.tries ++ [⟨⟨idx, now⟩, retransmitInterval (s.rtt.getDatagram asU64 idx), query,
          false, .start (retransmitInterval (s.rtt.getDatagram asU64 idx)) now⟩] }
  | woken {i : Nat} {e : UdpWake} {a : UdpTry n} {race : UdpRace} (ha : s.tries[i]? = some a)
    (hrace : a.race.step S e = some race) :
    Turn S decay asU64 s (.wake i e) { s with tries := s.tries.set i { a with race } }
  | stripped {i : Nat} {e : UdpWake} {a : UdpTry n} (ha : s.tries[i]? = some a) (query : Bytes)
    (now : Instant) :
    Turn S decay asU64 s (.wake i e)
      { s with
        tries := s.tries.set i
          { a with query, stripped := true, race := .start a.retransmit now } }
  | answered {i : Nat} {e : UdpWake} {a : UdpTry n} {race : UdpRace} {res : Reply}
    (ha : s.tries[i]? = some a) (hrace : a.race.step S e = some race)
    (hres : race.result = some res) :
    Turn S decay asU64 s (.wake i e) (s.conclude S decay i ⟨a.dial, race.clock, res⟩)
  | expired {i : Nat} {a : UdpTry n} (ha : s.tries[i]? = some a) (now : Instant) :
    Turn S decay asU64 s (.expired i now) (s.conclude S decay i ⟨a.dial, now, .error .timeout⟩)
  | dropped (i : Nat) :
    Turn S decay asU64 s (.dropped i) { s with tries := s.tries.eraseIdx i }
  | other (idx : Fin n) (now : Instant) (attempt : Option Nat) :
    Turn S decay asU64 s (.other idx now attempt)
      { s with
        rtt := s.rtt.record decay now
          (attempt.elim (.failure idx) fun d => .success idx d none) }

variable (S decay) in
/-- A query that returned is sent again without EDNS, or ends the attempt. -/
theorem returned_cases (s : Pacing K n) (i : Nat) (a : UdpTry n) (now : Instant) (res : Reply) :
    s.returned S decay i a now res = s.conclude S decay i ⟨a.dial, now, res⟩ ∨
      ∃ query, s.returned S decay i a now res =
        { s with
          tries := s.tries.set i
            { a with query, stripped := true, race := .start a.retransmit now } } := by
  unfold returned
  cases res with
  | error e => exact .inl rfl
  | ok reply =>
    simp only
    split
    · cases stripEdns S a.query with
      | none => exact .inl rfl
      | some query => exact .inr ⟨query, rfl⟩
    · exact .inl rfl

theorem step_turn {s s' : Pacing K n} {e : PacingEvent n}
    (h : s.step S decay asU64 e = some s') : Turn S decay asU64 s e s' := by
  cases e with
  | launch idx query now =>
    cases h
    exact .launch idx query now
  | wake i e =>
    obtain ⟨a, ha, h⟩ := Option.bind_eq_some_iff.mp h
    obtain ⟨race, hrace, h⟩ := Option.bind_eq_some_iff.mp h
    cases hres : race.result with
    | none =>
      rw [hres] at h
      cases h
      exact .woken ha hrace
    | some res =>
      rw [hres] at h
      cases h
      rcases returned_cases S decay s i a race.clock res with heq | ⟨query, heq⟩
      · rw [heq]
        exact .answered ha hrace hres
      · rw [heq]
        exact .stripped ha query race.clock
  | expired i now =>
    obtain ⟨a, ha, h⟩ := Option.bind_eq_some_iff.mp h
    cases h
    exact .expired ha now
  | dropped i =>
    obtain ⟨a, -, h⟩ := Option.bind_eq_some_iff.mp h
    cases h
    exact .dropped i
  | other idx now attempt =>
    cases h
    exact .other idx now attempt

theorem estimates_step {s s' : Pacing K n} {e : PacingEvent n} (h : s.Estimates)
    (hturn : Turn S decay asU64 s e s') : s'.Estimates := by
  cases hturn with
  | launch idx query now => exact h
  | woken ha hrace => exact h
  | stripped ha query now => exact h
  | answered ha hrace hres => exact h.conclude _ _
  | expired ha now => exact h.conclude _ _
  | dropped i => exact h
  | other idx now attempt =>
    intro idx'
    -- Neither a failure nor an answer over another transport has a round trip.
    have hkept : ((s.rtt.record decay now
        (attempt.elim (.failure idx) fun d => .success idx d none)) idx').datagramMicros =
          (s.rtt idx').datagramMicros := by
      by_cases hidx : idx' = idx
      · subst hidx
        cases attempt <;>
        · show (Function.update s.rtt idx' _ idx').datagramMicros = _
          rw [Function.update_self]
          rfl
      · refine congrArg Srtt.datagramMicros (RttMap.record_of_ne decay s.rtt now ?_)
        cases attempt <;> exact Ne.symm hidx
    exact hkept.trans (h idx')

/-! ## The attempts -/

/-- The attempt was dialled in this run, and its interval is what the answers there were then
give. -/
def Dialled (S : SimpleDns) (decay : Nat → K) (asU64 : K → Nat) (born : Fin n → Instant)
    (events : List (PacingEvent n)) (a : UdpTry n) : Prop :=
  ∃ before idx query now after u, events = before ++ .launch idx query now :: after ∧
    Machine.run (step S decay asU64) (start born) before = some u ∧ a.dial = ⟨idx, now⟩ ∧
      a.retransmit = retransmitInterval (asU64 (pacingEstimate u.answers idx) * 1000)

/-- An attempt has taken turns of its loop, at the interval it was dialled with. -/
structure Follows (S : SimpleDns) (decay : Nat → K) (asU64 : K → Nat) (born : Fin n → Instant)
    (events : List (PacingEvent n)) (a : UdpTry n) : Prop where
  run : ∃ since es t,
    Machine.run (UdpTrace.step S) (.start a.retransmit since) es = some t ∧ t.race = a.race
  dialled : Dialled S decay asU64 born events a

theorem Follows.concat {events : List (PacingEvent n)} {a : UdpTry n}
    (h : Follows S decay asU64 born events a) (e : PacingEvent n) :
    Follows S decay asU64 born (events ++ [e]) a := by
  obtain ⟨before, idx, query, now, after, u, rfl, hrun, hdialled⟩ := h.dialled
  exact ⟨h.run, before, idx, query, now, after ++ [e], u, List.append_assoc _ _ _, hrun, hdialled⟩

theorem Follows.woken {events : List (PacingEvent n)} {a : UdpTry n} {e : UdpWake}
    {race : UdpRace} (h : Follows S decay asU64 born events a)
    (hrace : a.race.step S e = some race) :
    Follows S decay asU64 born events { a with race } ∧ ∃ since es t,
      Machine.run (UdpTrace.step S) (.start a.retransmit since) (es ++ [e]) = some t ∧
        t.race = race := by
  obtain ⟨since, es, t, hrun, ht⟩ := h.run
  have hstep : (t.step S e).map UdpTrace.race = some race := by
    rw [UdpTrace.race_step, ht, hrace]
  obtain ⟨t', ht', hrace'⟩ := Option.map_eq_some_iff.mp hstep
  have hrun' : Machine.run (UdpTrace.step S) (.start a.retransmit since) (es ++ [e]) = some t' := by
    rw [Machine.run_append hrun, Machine.run_cons_some ht']
    rfl
  exact ⟨⟨⟨since, es ++ [e], t', hrun', hrace'⟩, h.dialled⟩, since, es, t', hrun', hrace'⟩

theorem follows_step {events : List (PacingEvent n)} {s s' : Pacing K n} {e : PacingEvent n}
    (hrun : Machine.run (step S decay asU64) (start born) events = some s)
    (hestimates : s.Estimates) (h : ∀ a ∈ s.tries, Follows S decay asU64 born events a)
    (hturn : Turn S decay asU64 s e s') :
    ∀ a ∈ s'.tries, Follows S decay asU64 born (events ++ [e]) a := by
  cases hturn with
  | launch idx query now =>
    intro a ha
    rcases List.mem_append.mp ha with ha | ha
    · exact (h a ha).concat _
    · cases List.mem_singleton.mp ha
      refine ⟨⟨now, [], _, rfl, rfl⟩, events, idx, query, now, [], s, rfl, hrun, rfl, ?_⟩
      rw [← hestimates idx]
      rfl
  | woken ha hrace =>
    intro a' ha'
    rcases List.mem_or_eq_of_mem_set ha' with ha' | rfl
    · exact (h a' ha').concat _
    · exact ((h _ (List.mem_of_getElem? ha)).woken hrace).1.concat _
  | @stripped i e a ha query now =>
    intro a' ha'
    rcases List.mem_or_eq_of_mem_set ha' with ha' | rfl
    · exact (h a' ha').concat _
    · have hkept := (h _ (List.mem_of_getElem? ha)).concat (.wake i e)
      exact ⟨⟨now, [], _, rfl, rfl⟩, hkept.dialled⟩
  | answered ha hrace hres => exact fun a ha => (h a (List.mem_of_mem_eraseIdx ha)).concat _
  | expired ha now => exact fun a ha => (h a (List.mem_of_mem_eraseIdx ha)).concat _
  | dropped i => exact fun a ha => (h a (List.mem_of_mem_eraseIdx ha)).concat _
  | other idx now attempt => exact fun a ha => (h a ha).concat _

/-! ## The answers -/

/-- A round trip is the flight time of a datagram that an attempt at the server got a response in. -/
def Flight (S : SimpleDns) (decay : Nat → K) (asU64 : K → Nat) (born : Fin n → Instant)
    (events : List (PacingEvent n)) (idx : Fin n) (d : Nat) : Prop :=
  ∃ before i sent resp maybeTruncated after u a,
    events = before ++ .wake i (.datagram sent (sent + d) (.ok (resp, maybeTruncated))) :: after ∧
      Machine.run (step S decay asU64) (start born) before = some u ∧ u.tries[i]? = some a ∧
        a.dial.idx = idx

theorem Flight.concat {events : List (PacingEvent n)} {idx : Fin n} {d : Nat}
    (h : Flight S decay asU64 born events idx d) (e : PacingEvent n) :
    Flight S decay asU64 born (events ++ [e]) idx d := by
  obtain ⟨before, i, sent, resp, cut, after, u, a, rfl, hrun⟩ := h
  exact ⟨before, i, sent, resp, cut, after ++ [e], u, a, List.append_assoc _ _ _, hrun⟩

/-- An attempt that reports a round trip was answered in a datagram. -/
theorem mem_noted {c : Completion n} {idx : Fin n} {d : Nat} (h : (idx, d) ∈ noted S c) :
    c.dial.idx = idx ∧ ∃ resp, c.res = .ok (resp, some d) := by
  unfold noted at h
  split at h
  · cases h
  · obtain ⟨d', hd, heq⟩ := List.mem_map.mp h
    cases heq
    refine ⟨rfl, ?_⟩
    unfold Completion.datagramRtt at hd
    cases hres : c.res with
    | error e =>
      rw [hres] at hd
      cases hd
    | ok reply =>
      rw [hres] at hd
      exact ⟨reply.1, by rw [← Option.mem_toList.mp hd]⟩

theorem flights_step {events : List (PacingEvent n)} {s s' : Pacing K n} {e : PacingEvent n}
    (hrun : Machine.run (step S decay asU64) (start born) events = some s)
    (hfollows : ∀ a ∈ s.tries, Follows S decay asU64 born events a)
    (h : ∀ idx d, (idx, d) ∈ s.answers → Flight S decay asU64 born events idx d)
    (hturn : Turn S decay asU64 s e s') :
    ∀ idx d, (idx, d) ∈ s'.answers → Flight S decay asU64 born (events ++ [e]) idx d := by
  cases hturn with
  | launch idx query now => exact fun idx d hd => (h idx d hd).concat _
  | woken ha hrace => exact fun idx d hd => (h idx d hd).concat _
  | stripped ha query now => exact fun idx d hd => (h idx d hd).concat _
  | @answered i e a race res ha hrace hres =>
    intro idx d hd
    rw [conclude_answers] at hd
    rcases List.mem_append.mp hd with hd | hd
    · exact (h idx d hd).concat _
    · obtain ⟨hidx, resp, hresp⟩ := mem_noted hd
      obtain ⟨since, es, t, ht, rfl⟩ := ((hfollows a (List.mem_of_getElem? ha)).woken hrace).2
      have hok : t.race.result = some (.ok (resp, some d)) := by
        rw [hres, ← hresp]
      obtain ⟨sent, cut, -, hflight, hlast⟩ := UdpTrace.roundTrip_run ht resp d hok
      rw [UdpTrace.run_wakes ht, ← List.append_assoc, List.getLast?_concat] at hlast
      rw [← hflight] at hlast
      cases hlast
      exact ⟨events, i, sent, resp, cut, [], s, a, rfl, hrun, ha, hidx⟩
  | expired ha now =>
    intro idx d hd
    rw [conclude_answers] at hd
    rcases List.mem_append.mp hd with hd | hd
    · exact (h idx d hd).concat _
    · obtain ⟨-, resp, hresp⟩ := mem_noted hd
      cases hresp
  | dropped i => exact fun idx d hd => (h idx d hd).concat _
  | other idx now attempt => exact fun idx d hd => (h idx d hd).concat _

/-- In whatever order attempts come and go, the estimate that paces a server's datagrams is the
average of the round trips of its answers, each the flight time of one datagram that an attempt at
that server was answered in; and every attempt under way takes its turns at the interval that the
answers there were when it was dialled give. Nothing else gets into it: no interval waited, no
failure, no answer over another transport, no other server. -/
theorem pacing_from_flights (S : SimpleDns) (decay : Nat → K) (asU64 : K → Nat)
    (born : Fin n → Instant) (events : List (PacingEvent n)) (s : Pacing K n)
    (hrun : Machine.run (step S decay asU64) (start born) events = some s) :
    (∀ idx, (s.rtt idx).datagramMicros = pacingEstimate s.answers idx) ∧
      (∀ idx d, (idx, d) ∈ s.answers → Flight S decay asU64 born events idx d) ∧
      ∀ a ∈ s.tries, Follows S decay asU64 born events a := by
  have h := Machine.run_history
    (P := fun events s => s.Estimates ∧ (∀ a ∈ s.tries, Follows S decay asU64 born events a) ∧
      ∀ idx d, (idx, d) ∈ s.answers → Flight S decay asU64 born events idx d)
    (fun events s e s' hrun h hs =>
      ⟨estimates_step h.1 (step_turn hs), follows_step hrun h.1 h.2.1 (step_turn hs),
        flights_step hrun h.2.1 h.2.2 (step_turn hs)⟩)
    ⟨fun _ => rfl, fun _ ha => absurd ha List.not_mem_nil,
      fun _ _ hd => absurd hd List.not_mem_nil⟩ hrun
  exact ⟨h.1, h.2.2, h.2.1⟩

end Loop

end Pacing

/-! ## Three slow answers -/

/-- A server is dialled by three lookups at once, and answers each after 400 milliseconds. -/
def slowEvents : List (PacingEvent 1) :=
  [.launch 0 [] 0, .launch 0 [] 0, .launch 0 [] 0,
    .wake 0 (.datagram 0 400000000 (.ok (emptyReply, false))),
    .wake 0 (.datagram 0 400000000 (.ok (emptyReply, false))),
    .wake 0 (.datagram 0 400000000 (.ok (emptyReply, false)))]

/-- The interval before anything is known of a server. -/
theorem untried_interval (idx : Fin 1) :
    retransmitInterval (RttMap.getDatagram (fun x => ⌊x⌋₊) (fun _ => Srtt.new 0 : RttMap ℝ 1) idx) =
      udpRetransmitMin := by
  have hbase : ⌊(srttBaselineMicros : ℝ)⌋₊ = 50000 := by
    rw [baseline_eq]
    norm_num
  show retransmitInterval (⌊(srttBaselineMicros : ℝ)⌋₊ * 1000) = udpRetransmitMin
  rw [hbase]
  decide

/-- What is under way once the lookups dialled the server. -/
noncomputable def slowStart (tries : List (UdpTry 1)) : Pacing ℝ 1 :=
  ⟨fun _ => .new 0, tries, []⟩

def slowTry : UdpTry 1 := ⟨⟨0, 0⟩, udpRetransmitMin, [], false, .start udpRetransmitMin 0⟩

theorem slowStart_launch (tries : List (UdpTry 1)) :
    Pacing.step (.ofTable []) expDecay (fun x => ⌊x⌋₊) (slowStart tries) (.launch 0 [] 0) =
      some (slowStart (tries ++ [slowTry])) := by
  unfold slowStart Pacing.step slowTry
  simp only [untried_interval]

noncomputable def slowEnd : Pacing ℝ 1 :=
  Option.get (Machine.run (Pacing.step (.ofTable []) expDecay fun x => ⌊x⌋₊)
    (slowStart [slowTry, slowTry, slowTry]) (slowEvents.drop 3)) rfl

theorem slow_run : Machine.run (Pacing.step (.ofTable []) expDecay fun x => ⌊x⌋₊)
    (.start fun _ => 0) slowEvents = some slowEnd := by
  show Machine.run _ (slowStart []) slowEvents = _
  unfold slowEvents
  rw [Machine.run_cons_some (slowStart_launch []), Machine.run_cons_some (slowStart_launch _),
    Machine.run_cons_some (slowStart_launch _)]
  rfl

def slowFlights : List (Fin 1 × Nat) := [(0, 400000000), (0, 400000000), (0, 400000000)]

theorem slow_answers : slowEnd.answers = slowFlights := rfl

/-- The attempt of a fourth lookup, paced by what the map has of the server. -/
noncomputable def fourthTry : UdpTry 1 :=
  let retransmit := retransmitInterval (slowEnd.rtt.getDatagram (fun x => ⌊x⌋₊) 0)
  ⟨⟨0, 400000000⟩, retransmit, [], false, .start retransmit 400000000⟩

noncomputable def fourthStart : Pacing ℝ 1 := { slowEnd with tries := [fourthTry] }

theorem fourth_launch : slowEnd.step (.ofTable []) expDecay (fun x => ⌊x⌋₊)
    (.launch 0 [] 400000000) = some fourthStart := rfl

theorem fourth_run : Machine.run (Pacing.step (.ofTable []) expDecay fun x => ⌊x⌋₊)
    (.start fun _ => 0) (slowEvents ++ [.launch 0 [] 400000000]) = some fourthStart := by
  rw [Machine.run_append slow_run, Machine.run_cons_some fourth_launch]
  rfl

/-- The estimate of the server is the average of three flights, and the fourth attempt is paced by
it. -/
theorem pacing_from_flights_slow :
    (fourthStart.rtt 0).datagramMicros = pacingEstimate slowFlights 0 ∧
      Pacing.Flight (.ofTable []) expDecay (fun x => ⌊x⌋₊) (fun _ => 0)
        (slowEvents ++ [.launch 0 [] 400000000]) 0 400000000 ∧
      fourthTry ∈ fourthStart.tries ∧ fourthTry.retransmit =
        retransmitInterval (⌊(pacingEstimate slowFlights 0 : ℝ)⌋₊ * 1000) := by
  obtain ⟨hestimate, hflights, hfollows⟩ := Pacing.pacing_from_flights (.ofTable []) expDecay
    (fun x => ⌊x⌋₊) (fun _ => 0) (slowEvents ++ [.launch 0 [] 400000000]) fourthStart fourth_run
  have hanswers : fourthStart.answers = slowEnd.answers := rfl
  rw [hanswers, slow_answers] at hestimate hflights
  have hmem : fourthTry ∈ fourthStart.tries := List.mem_singleton_self fourthTry
  refine ⟨hestimate 0, hflights 0 400000000 List.mem_cons_self, hmem, ?_⟩
  obtain ⟨before, idx, query, now, after, u, hsplit, hrun, hdial, hpaced⟩ :=
    (hfollows fourthTry hmem).dialled
  obtain ⟨hidx, hnow⟩ := Dial.mk.inj hdial
  -- Only the last event dials at the time this attempt was dialled at.
  have hbefore : slowEvents = before := by
    rcases Machine.concat_eq_append_cons.mp hsplit with ⟨heq, -, -⟩ | ⟨rest, -, heq⟩
    · exact heq
    · have hdials : ∀ e ∈ slowEvents, e ≠ .launch idx query now := by
        rw [← hnow]
        intro e he
        simp only [slowEvents, List.mem_cons, List.not_mem_nil, or_false] at he
        rcases he with rfl | rfl | rfl | rfl | rfl | rfl <;> simp
      exact absurd rfl (hdials _ (heq ▸ List.mem_append_right before List.mem_cons_self))
  rw [← hbefore, slow_run] at hrun
  rw [hpaced, ← Option.some.inj hrun, slow_answers, ← hidx]

/-! ## What the intervals settle to -/

section Settled

theorem blend_eq_fold (sample : Nat) (base : ℝ) :
    Srtt.blend sample base = Average.fold (3 / 10) 5000000 base (sample : ℝ) := by
  rw [blend_eq]
  unfold Average.fold
  norm_num

theorem pacingEstimate_eq {n : Nat} (answers : List (Fin n × Nat)) (idx : Fin n) :
    pacingEstimate answers idx = Average.average (3 / 10) 5000000 50000
      ((samplesOf answers idx).map fun d => ((asMicros d : Nat) : ℝ)) := by
  unfold pacingEstimate Average.average
  rw [List.foldl_map, baseline_eq]
  simp only [blend_eq_fold]

theorem mem_samplesOf {n : Nat} {answers : List (Fin n × Nat)} {idx : Fin n} {d : Nat} :
    d ∈ samplesOf answers idx ↔ (idx, d) ∈ answers := by
  unfold samplesOf
  simp

theorem retransmitInterval_bounds (datagramRtt : Nat) :
    udpRetransmitMin ≤ retransmitInterval datagramRtt ∧
      retransmitInterval datagramRtt ≤ udpRetransmitMax := by
  have hmax : udpRetransmitMin ≤ udpRetransmitMax := by decide
  exact ⟨le_min (Nat.le_max_right _ _) hmax, Nat.min_le_right _ _⟩

theorem retransmitInterval_le (datagramRtt : Nat) :
    retransmitInterval datagramRtt ≤ max (datagramRtt * 3 / 2) udpRetransmitMin :=
  Nat.min_le_left _ _

theorem retransmitInterval_mono : Monotone retransmitInterval := by
  intro a b hab
  unfold retransmitInterval
  have hle : a * 3 / 2 ≤ b * 3 / 2 := Nat.div_le_div_right (Nat.mul_le_mul_right 3 hab)
  omega

variable {n : Nat} {answers : List (Fin n × Nat)} {idx : Fin n}

/-- The estimate in whole microseconds is no more than the answers and the baseline. -/
theorem floor_estimate_le {hi : Nat} (h : ∀ d, (idx, d) ∈ answers → d ≤ hi) :
    ⌊(pacingEstimate answers idx : ℝ)⌋₊ * 1000 ≤ max 50000000 hi := by
  have hbound : (pacingEstimate answers idx : ℝ) ≤ ((max 50000 (asMicros hi) : Nat) : ℝ) := by
    rw [pacingEstimate_eq]
    refine Average.average_le (by norm_num) (by norm_num) ?_ ?_
    · have hbase : (50000 : Nat) ≤ max 50000 (asMicros hi) := Nat.le_max_left _ _
      exact_mod_cast hbase
    · intro x hx
      obtain ⟨d, hd, rfl⟩ := List.mem_map.mp hx
      have hle : asMicros d ≤ max 50000 (asMicros hi) :=
        Nat.le_trans (Nat.div_le_div_right (h d (mem_samplesOf.mp hd))) (Nat.le_max_right _ _)
      exact_mod_cast hle
  have hfloor := Nat.floor_le_of_le hbound
  have hmicros : asMicros hi * 1000 ≤ hi := Nat.div_mul_le_self hi 1000
  rcases Nat.le_total 50000 (asMicros hi) with hle | hle
  · rw [Nat.max_eq_right hle] at hfloor
    exact Nat.le_trans (Nat.le_trans (Nat.mul_le_mul_right 1000 hfloor) hmicros)
      (Nat.le_max_right _ _)
  · rw [Nat.max_eq_left hle] at hfloor
    exact Nat.le_trans (Nat.mul_le_mul_right 1000 hfloor) (Nat.le_max_left _ _)

/-- Three answers bring the estimate two thirds of the way up to what they are not below. -/
theorem le_estimate {micros : Nat} (hcap : micros ≤ 5000000) (hbase : 50000 ≤ micros)
    (h : ∀ d, (idx, d) ∈ answers → micros ≤ asMicros d)
    (hthree : 3 ≤ (samplesOf answers idx).length) :
    (micros : ℝ) - 343 / 1000 * (micros - 50000) ≤ pacingEstimate answers idx := by
  have hgap : (0 : ℝ) ≤ micros - 50000 := by
    rw [sub_nonneg]
    exact_mod_cast hbase
  have haverage : (micros : ℝ) - (1 - 3 / 10) ^ (samplesOf answers idx).length * (micros - 50000) ≤
      pacingEstimate answers idx := by
    have hlen : (samplesOf answers idx).length =
        ((samplesOf answers idx).map fun d => ((asMicros d : Nat) : ℝ)).length :=
      (List.length_map ..).symm
    rw [pacingEstimate_eq, hlen]
    refine Average.le_average (by norm_num) (by norm_num) (by exact_mod_cast hcap) hgap
      (by linarith) fun x hx => ?_
    obtain ⟨d, hd, rfl⟩ := List.mem_map.mp hx
    have hmicros := h d (mem_samplesOf.mp hd)
    exact_mod_cast hmicros
  have hpow : ((1 : ℝ) - 3 / 10) ^ (samplesOf answers idx).length ≤ 343 / 1000 := by
    calc ((1 : ℝ) - 3 / 10) ^ (samplesOf answers idx).length ≤ (1 - 3 / 10) ^ 3 :=
        pow_le_pow_of_le_one (by norm_num) (by norm_num) hthree
      _ = 343 / 1000 := by norm_num
  have hmul := mul_le_mul_of_nonneg_right hpow hgap
  linarith

/-- After three answers that took `lo` or longer, no datagram is repeated within `lo`. -/
theorem le_retransmitInterval {lo : Nat} (hmax : lo ≤ udpRetransmitMax)
    (h : ∀ d, (idx, d) ∈ answers → lo ≤ d) (hthree : 3 ≤ (samplesOf answers idx).length) :
    lo ≤ retransmitInterval (⌊(pacingEstimate answers idx : ℝ)⌋₊ * 1000) := by
  have hbounds := retransmitInterval_bounds (⌊(pacingEstimate answers idx : ℝ)⌋₊ * 1000)
  by_cases hsmall : lo ≤ udpRetransmitMin
  · exact Nat.le_trans hsmall hbounds.1
  · have hmin : 300000000 < lo := Nat.not_le.mp hsmall
    have hmax' : lo ≤ 1000000000 := hmax
    have hlow : ((asMicros lo : Nat) : ℝ) - 343 / 1000 * (((asMicros lo : Nat) : ℝ) - 50000) ≤
        pacingEstimate answers idx := by
      refine le_estimate ?_ ?_ (fun d hd => Nat.div_le_div_right (h d hd)) hthree
      · unfold asMicros
        omega
      · unfold asMicros
        omega
    have hfloor : asMicros lo * 657 / 1000 + 17150 ≤ ⌊(pacingEstimate answers idx : ℝ)⌋₊ := by
      refine Nat.le_floor (le_trans ?_ hlow)
      have hdiv : ((asMicros lo * 657 / 1000 : Nat) : ℝ) ≤ (asMicros lo * 657 : Nat) / (1000 : Nat) :=
        Nat.cast_div_le
      push_cast at hdiv ⊢
      linarith
    have hmono := retransmitInterval_mono (Nat.mul_le_mul_right 1000 hfloor)
    refine Nat.le_trans ?_ hmono
    unfold retransmitInterval
    refine le_min (Nat.le_trans ?_ (Nat.le_max_left _ _)) hmax
    unfold asMicros
    omega

end Settled

/-- An attempt at such an interval sends its second datagram that long after the first, unless a
datagram fails. -/
theorem UdpTrace.second_paced {S : SimpleDns} {interval now : Nat} {es : List UdpWake}
    {t : UdpTrace} {b : Instant}
    (h : Machine.run (UdpTrace.step S) (.start interval now) es = some t) (hb : t.sent[1]? = some b) :
    now + interval ≤ b ∨ ∃ sent err, .datagram sent b (.error err) ∈ es := by
  have hsender := UdpTrace.sender_run h
  have hfirst := Backoff.Sender.run_first hsender (by decide)
  have hspaced : Backoff.Sender.Spaced (UdpTrace.gap interval)
      (fun b => ∃ sent err, .datagram sent b (.error err) ∈ es) t.sent :=
    Backoff.Sender.run_spaced hsender fun _ => UdpTrace.mem_pacing_failed
  have hone : UdpTrace.gap interval 1 = interval := Nat.one_mul interval
  have hpaced := hspaced 0 now b hfirst hb
  rwa [hone] at hpaced

/-- The interval of an attempt that is dialled now lies between the least and the most there may be,
and is no more than the flight times of its server's answers give, or the least. After three answers
that took `lo` or longer it is `lo` at least, so that on a link that is merely slow the second
datagram of the attempt does not go out within `lo` of the first, unless a datagram fails. -/
theorem pacing_settles {n : Nat} (S : SimpleDns) (born : Fin n → Instant)
    (events : List (PacingEvent n)) (s s' : Pacing ℝ n) (idx : Fin n) (query : Bytes)
    (now : Instant) (lo hi : Nat)
    (hrun : Machine.run (Pacing.step S expDecay fun x => ⌊x⌋₊) (.start born) events = some s)
    (hlaunch : s.step S expDecay (fun x => ⌊x⌋₊) (.launch idx query now) = some s')
    (hlo : ∀ d, (idx, d) ∈ s.answers → lo ≤ d) (hhi : ∀ d, (idx, d) ∈ s.answers → d ≤ hi) :
    ∃ a, s'.tries = s.tries ++ [a] ∧ a.dial = ⟨idx, now⟩ ∧
      a.race = (UdpTrace.start a.retransmit now).race ∧
      udpRetransmitMin ≤ a.retransmit ∧ a.retransmit ≤ udpRetransmitMax ∧
      a.retransmit ≤ max (max 50000000 hi * 3 / 2) udpRetransmitMin ∧
      (lo ≤ udpRetransmitMax → 3 ≤ (samplesOf s.answers idx).length → lo ≤ a.retransmit ∧
        ∀ es t b, Machine.run (UdpTrace.step S) (.start a.retransmit now) es = some t →
          t.sent[1]? = some b → now + lo ≤ b ∨ ∃ sent err, .datagram sent b (.error err) ∈ es) := by
  have hestimate : (s.rtt idx).datagramMicros = pacingEstimate s.answers idx := by
    have h := Machine.run_invariant (P := Pacing.Estimates) (fun s e s' h hs =>
      Pacing.estimates_step h (Pacing.step_turn hs)) (fun _ => rfl) hrun
    exact h idx
  have hinterval : retransmitInterval (s.rtt.getDatagram (fun x => ⌊x⌋₊) idx) =
      retransmitInterval (⌊(pacingEstimate s.answers idx : ℝ)⌋₊ * 1000) := by
    rw [← hestimate]
    rfl
  have hbounds := retransmitInterval_bounds (s.rtt.getDatagram (fun x => ⌊x⌋₊) idx)
  have hmost : retransmitInterval (s.rtt.getDatagram (fun x => ⌊x⌋₊) idx) ≤
      max (max 50000000 hi * 3 / 2) udpRetransmitMin := by
    calc retransmitInterval (s.rtt.getDatagram (fun x => ⌊x⌋₊) idx)
        = retransmitInterval (⌊(pacingEstimate s.answers idx : ℝ)⌋₊ * 1000) := hinterval
      _ ≤ retransmitInterval (max 50000000 hi) := retransmitInterval_mono (floor_estimate_le hhi)
      _ ≤ max (max 50000000 hi * 3 / 2) udpRetransmitMin := retransmitInterval_le _
  cases hlaunch
  refine ⟨_, rfl, rfl, rfl, hbounds.1, hbounds.2, hmost, fun hmax hthree => ?_⟩
  have hle : lo ≤ retransmitInterval (s.rtt.getDatagram (fun x => ⌊x⌋₊) idx) :=
    (le_retransmitInterval hmax hlo hthree).trans_eq hinterval.symm
  refine ⟨hle, fun es t b hrun hb => ?_⟩
  exact (UdpTrace.second_paced hrun hb).imp_left fun hgap =>
    Nat.le_trans (Nat.add_le_add_left hle now) hgap

/-- The fourth attempt repeats its datagram no sooner than the server answers, nor much later. -/
theorem pacing_settles_slow :
    400000000 ≤ fourthTry.retransmit ∧ fourthTry.retransmit ≤ 600000000 ∧
      ∀ es t b, Machine.run (UdpTrace.step (.ofTable []))
          (.start fourthTry.retransmit 400000000) es = some t → t.sent[1]? = some b →
        800000000 ≤ b ∨ ∃ sent err, .datagram sent b (.error err) ∈ es := by
  have hall : ∀ d, (0, d) ∈ slowEnd.answers → d = 400000000 := by
    intro d hd
    rw [slow_answers] at hd
    simp only [slowFlights, List.mem_cons, List.not_mem_nil, or_false, or_self, Prod.mk.injEq,
      true_and] at hd
    exact hd
  obtain ⟨a, htries, -, -, -, -, hle, hslow⟩ := pacing_settles (.ofTable []) (fun _ => 0) slowEvents
    slowEnd fourthStart 0 [] 400000000 400000000 400000000 slow_run fourth_launch
    (fun d hd => Nat.le_of_eq (hall d hd).symm) (fun d hd => Nat.le_of_eq (hall d hd))
  have ha : fourthTry = a := (List.cons.inj htries).1
  rw [ha]
  obtain ⟨hlo, hruns⟩ := hslow (by decide) (by rw [slow_answers]; decide)
  exact ⟨hlo, hle, hruns⟩

end N0DnsResolver
