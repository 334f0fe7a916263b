/-
  What a nameserver that works does for a lookup, whatever the others do.

  The schedule of a timely race knows a server by its place in the order. So a server is
  dialled by its turn (`dialled_in_turn`), and one that answers whenever it is dialled makes
  `send_query` return a response, within its turn and the time it takes to answer
  (`answers_in_time`): neither silence nor errors of the other servers add to that.
-/
import N0DnsResolver.Theory.Deadlines
import N0DnsResolver.Theory.Healing

namespace N0DnsResolver

namespace Race

section Answers

variable {K : Type} {n : Nat} [NatCast K] [Add K] [Sub K] [Mul K] [Div K] [Min K]
variable {S : SimpleDns} {decay : Nat → K} {rtt₀ : RttMap K n}
variable {lag length : Nat} {t₀ : Instant} {order : List (Fin n)} {s s' : Race K n}
variable {limit : Fin n → Nat} {g : Fin n} {k : Nat}

/-- A server is dialled by its turn. -/
theorem Paced.dialled (h : Paced lag length t₀ order s) (hl : Ledger S decay rtt₀ order s)
    (hk : order[k]? = some g) (hlate : t₀ + startsBy lag length k < s.clock) : g ∈ s.dialled := by
  obtain ⟨hlt, hget⟩ := List.getElem?_eq_some_iff.mp hk
  have hnext : k < s.next := by
    by_contra hle
    have hplace : s.next ≤ k := Nat.not_lt.mp hle
    have hclock := h.clock_le
    rw [wakesBy_of_lt lag length (Nat.lt_of_le_of_lt hplace hlt)] at hclock
    have hmono := startsBy_mono lag length hplace
    unfold Instant at *
    omega
  rw [hl.dialled_eq, ← hget]
  exact List.mem_take_iff_getElem.mpr ⟨k, by omega, rfl⟩

/-- The race has a response, or the server has yet to answer and there is time. -/
structure Answering (limit : Fin n → Nat) (lag length : Nat) (t₀ : Instant) (g : Fin n) (k : Nat)
    (s : Race K n) : Prop where
  clock_le : s.clock ≤ t₀ + startsBy lag length k + (limit g + lag)
  pending : (∃ resp, s.result = some (.ok resp)) ∨ g ∉ s.completed.map (·.dial.idx)

/-- A race is not lost before every server has answered. -/
theorem not_lost (hl : Ledger S decay rtt₀ order s) (hst : Standing S order s)
    (hk : order[k]? = some g) (hpending : g ∉ s.completed.map (·.dial.idx)) (e : Error) :
    s.result ≠ some (.error e) := by
  intro hlost
  obtain ⟨hidle, hall⟩ := hst.lost e hlost
  have hdialled : s.dialled = order := by
    rw [hl.dialled_eq, List.take_of_length_le hall]
  have hmem : g ∈ s.dialled := hdialled ▸ List.mem_of_getElem? hk
  have hdone := hl.account.mem_iff.mpr hmem
  rw [hidle, List.map_nil, List.append_nil] at hdone
  exact hpending hdone

theorem Answering.no_error (h : Answering limit lag length t₀ g k s)
    (hl : Ledger S decay rtt₀ order s) (hst : Standing S order s) (hk : order[k]? = some g)
    (e : Error) : s.result ≠ some (.error e) := by
  rcases h.pending with ⟨resp, hok⟩ | hpending
  · rw [hok]
    exact fun h => nomatch h
  · exact not_lost hl hst hk hpending e

omit [NatCast K] [Add K] [Sub K] [Mul K] [Div K] [Min K] in
theorem completed_top (now : Instant) (s : Race K n) : (s.top now).completed = s.completed := by
  have hlaunch : (s.launch now).completed = s.completed := by
    rcases launch_cases now s with ⟨idx, -, -, heq⟩ | ⟨-, heq⟩
    · rw [heq]
      rfl
    · rw [heq]
  unfold Race.top
  simp only
  split <;> exact hlaunch

omit [NatCast K] [Add K] [Sub K] [Mul K] [Div K] [Min K] in
theorem start_answering (rtt : RttMap K n) :
    Answering limit lag length t₀ g k (start order rtt t₀) := by
  have hclock : (start order rtt t₀).clock = t₀ := clock_top t₀ _
  have hnone : (start order rtt t₀).completed = [] := completed_top t₀ _
  refine ⟨?_, .inr ?_⟩
  · rw [hclock]
    exact Nat.le_trans (Nat.le_add_right _ _) (Nat.le_add_right _ _)
  · rw [hnone]
    exact List.not_mem_nil

/-- While the server has not answered, something is due in time for it to answer. -/
theorem Answering.due (h : Answering limit lag length t₀ g k s) (hrun : s.result = none)
    (hp : Paced lag length t₀ order s) (hl : Ledger S decay rtt₀ order s) (hnd : order.Nodup)
    (hlimit : ∀ idx, limit idx + lag ≤ length) (hk : order[k]? = some g) :
    ∃ d ∈ (timing limit).due s, d + lag ≤ t₀ + startsBy lag length k + (limit g + lag) := by
  obtain ⟨hlt, hget⟩ := List.getElem?_eq_some_iff.mp hk
  by_cases hnext : s.next ≤ k
  · -- Its turn has not come.
    obtain ⟨d, hd, hle⟩ := hp.due hlimit hrun
    rw [wakesBy_of_lt lag length (Nat.lt_of_le_of_lt hnext hlt)] at hle
    have hmono := startsBy_mono lag length hnext
    refine ⟨d, hd, ?_⟩
    unfold Instant at *
    omega
  · -- It was dialled and has not answered, so it is in flight.
    have hmem : g ∈ s.dialled := by
      rw [hl.dialled_eq, ← hget]
      exact List.mem_take_iff_getElem.mpr ⟨k, by omega, rfl⟩
    have hflying : g ∈ s.dials.map (·.idx) := by
      rcases h.pending with ⟨resp, hok⟩ | hpending
      · exact nomatch hrun.symm.trans hok
      · exact (List.mem_append.mp (hl.account.mem_iff.mpr hmem)).resolve_left hpending
    obtain ⟨d, hd, rfl⟩ := List.mem_map.mp hflying
    obtain ⟨p, hplace, hstart⟩ := hp.placed d hd
    have hp : p = k := by
      obtain ⟨hp, hpget⟩ := List.getElem?_eq_some_iff.mp hplace
      exact (List.Nodup.getElem_inj_iff hnd).mp (hpget.trans hget.symm)
    rw [hp] at hstart
    refine ⟨d.start + limit d.idx, List.mem_append_right _ (List.mem_map_of_mem hd), ?_⟩
    unfold Instant at *
    omega

/-- One turn of a race in which the server answers whenever it is dialled. -/
theorem Answering.step (h : Answering limit lag length t₀ g k s) (hp : Paced lag length t₀ order s)
    (hl : Ledger S decay rtt₀ order s) (hnd : order.Nodup)
    (hlimit : ∀ idx, limit idx + lag ≤ length) (hk : order[k]? = some g) {e : Wake n}
    (hon : (timing limit).OnTime lag s e)
    (hwins : ∀ c, e = .completed c → c.dial.idx = g → ∃ resp, c.Won S resp)
    (hs : s.step S decay e = some s') : Answering limit lag length t₀ g k s' := by
  obtain ⟨hrun, hcases⟩ := step_cases S decay hs
  have hpending : g ∉ s.completed.map (·.dial.idx) :=
    h.pending.resolve_left fun ⟨resp, hok⟩ => nomatch hrun.symm.trans hok
  have hclock : s'.clock ≤ t₀ + startsBy lag length k + (limit g + lag) := by
    obtain ⟨d, hd, hle⟩ := h.due hrun hp hl hnd hlimit hk
    rw [clock_step S decay hs]
    exact Nat.le_trans (hon d hd) hle
  refine ⟨hclock, ?_⟩
  rcases hcases with ⟨c, err, rfl, hmem, -, hfail, rfl⟩ | ⟨c, resp, rfl, -, -, hw, rfl⟩ |
    ⟨now, due, rfl, -, -, -, rfl⟩
  · right
    rw [completed_top, complete_failed S decay hfail, List.map_append, List.mem_append, not_or]
    refine ⟨hpending, fun hg => ?_⟩
    obtain ⟨resp, hw⟩ := hwins c rfl (List.mem_singleton.mp hg).symm
    rw [hw.failure S] at hfail
    cases hfail
  · left
    rw [complete_won S decay hw]
    exact ⟨resp, rfl⟩
  · right
    rw [completed_top]
    exact hpending

end Answers

end Race

/-! ## Both tiers -/

namespace SendQuery

section Tiers

variable {K : Type} {n : Nat} [NatCast K] [Add K] [Sub K] [Mul K] [Div K] [Min K]
variable [LE K] [DecidableLE K] (S : SimpleDns) (decay : Nat → K) (primaryCount : Nat)
variable (lag length : Nat) (rtt₀ : RttMap K n) (now : Instant) (limit : Fin n → Nat) (g : Fin n)

/-- The race of the tier that the server is in has a response, or there is time for its answer. -/
def Answering : SendQuery K n → Prop
  | .primary race => ∀ k, (firstOrder decay primaryCount rtt₀ now)[k]? = some g →
      race.Answering limit lag length now g k
  | .fallback first race => g ∉ firstOrder decay primaryCount rtt₀ now ∧
      ∀ k, (secondOrder decay primaryCount first)[k]? = some g →
        race.Answering limit lag length first.clock g k

variable {lag length rtt₀ now limit g} {q q' : SendQuery K n}

theorem escalate_answering {race : Race K n}
    (hs : Sound S decay rtt₀ now (primaryIndices n primaryCount) race)
    (h : ∀ k, (firstOrder decay primaryCount rtt₀ now)[k]? = some g →
      race.Answering limit lag length now g k) :
    Answering decay primaryCount lag length rtt₀ now limit g (escalate decay primaryCount race) := by
  unfold escalate
  split
  · next e he =>
    have hout : g ∉ firstOrder decay primaryCount rtt₀ now := by
      intro hg
      obtain ⟨k, hk⟩ := List.mem_iff_getElem?.mp hg
      exact (h k hk).no_error hs.1 hs.2 hk e he
    split
    · exact h
    · exact ⟨hout, fun k _ => Race.start_answering race.rtt⟩
  · exact h

theorem Answering.step (hlimit : ∀ idx, limit idx + lag ≤ length) {e : Wake n}
    (hinv : Inv S decay primaryCount rtt₀ now q)
    (hp : Paced decay primaryCount lag length rtt₀ now q)
    (h : Answering decay primaryCount lag length rtt₀ now limit g q)
    (hon : (timing limit).OnTime lag q e)
    (hwins : ∀ c, e = .completed c → c.dial.idx = g → ∃ resp, c.Won S resp)
    (hs : q.step S decay primaryCount e = some q') :
    Answering decay primaryCount lag length rtt₀ now limit g q' := by
  cases q with
  | primary race =>
    obtain ⟨race', hr, rfl⟩ := Option.map_eq_some_iff.mp hs
    have hnd := orderIndices_nodup decay rtt₀ now (nodup_primaryIndices n primaryCount)
    refine escalate_answering S decay primaryCount (Race.step_sound S decay hnd hinv.1 hr) ?_
    intro k hk
    exact (h k hk).step hp hinv.1.1 hnd hlimit hk hon hwins hr
  | fallback first race =>
    obtain ⟨race', hr, rfl⟩ := Option.map_eq_some_iff.mp hs
    have hnd := orderIndices_nodup decay first.rtt first.clock
      (nodup_fallbackIndices n primaryCount)
    refine ⟨h.1, fun k hk => ?_⟩
    exact (h.2 k hk).step hp.2 hinv.2.2.2.1 hnd hlimit hk hon hwins hr

/-- A response is what `send_query` returns when it has an answering server in either tier. -/
theorem Answering.no_error (hinv : Inv S decay primaryCount rtt₀ now q)
    (h : Answering decay primaryCount lag length rtt₀ now limit g q) (e : Error) :
    q.result ≠ some (.error e) := by
  have hg : g ∈ primaryIndices n primaryCount ++ fallbackIndices n primaryCount := by
    unfold primaryIndices fallbackIndices
    rw [List.take_append_drop]
    exact List.mem_finRange g
  have hfirst : (firstOrder decay primaryCount rtt₀ now).Perm (primaryIndices n primaryCount) :=
    orderIndices_perm decay rtt₀ now _
  cases q with
  | primary race =>
    intro hlost
    have hall : primaryCount = n := hinv.2 ⟨e, hlost⟩
    have hnil : fallbackIndices n primaryCount = [] :=
      List.drop_of_length_le (by rw [List.length_finRange, hall])
    rw [hnil, List.append_nil] at hg
    obtain ⟨k, hk⟩ := List.mem_iff_getElem?.mp (hfirst.mem_iff.mpr hg)
    exact (h k hk).no_error hinv.1.1 hinv.1.2 hk e hlost
  | fallback first race =>
    have hsecond := (List.mem_append.mp hg).resolve_left
      fun hp => h.1 (hfirst.mem_iff.mpr hp)
    have hmem : g ∈ secondOrder decay primaryCount first :=
      (orderIndices_perm decay first.rtt first.clock _).mem_iff.mpr hsecond
    obtain ⟨k, hk⟩ := List.mem_iff_getElem?.mp hmem
    exact (h.2 k hk).no_error hinv.2.2.2.1 hinv.2.2.2.2 hk e

/-- A server of the primary tier answers in time, or something is due by then. -/
theorem Answering.first_inTime (hlimit : ∀ idx, limit idx + lag ≤ length)
    (hinv : Inv S decay primaryCount rtt₀ now q)
    (hp : Paced decay primaryCount lag length rtt₀ now q)
    (h : Answering decay primaryCount lag length rtt₀ now limit g q) {k : Nat}
    (hk : (firstOrder decay primaryCount rtt₀ now)[k]? = some g) :
    q.race.clock ≤ now + startsBy lag length k + (limit g + lag) ∧
      (q.result = none → ∃ d ∈ (timing limit).due q,
        d + lag ≤ now + startsBy lag length k + (limit g + lag)) := by
  cases q with
  | primary race =>
    have hnd := orderIndices_nodup decay rtt₀ now (nodup_primaryIndices n primaryCount)
    exact ⟨(h k hk).clock_le, fun hnone => (h k hk).due hnone hp hinv.1.1 hnd hlimit hk⟩
  | fallback first race => exact absurd (List.mem_of_getElem? hk) h.1

/-- So does a server of the fallback tier, once that is turned to. -/
theorem Answering.second_inTime (hlimit : ∀ idx, limit idx + lag ≤ length)
    (hinv : Inv S decay primaryCount rtt₀ now q)
    (hp : Paced decay primaryCount lag length rtt₀ now q)
    (h : Answering decay primaryCount lag length rtt₀ now limit g q) {k : Nat} {race : Race K n}
    (hrace : q.second = some race) (hk : (secondOrder decay primaryCount q.first)[k]? = some g) :
    race.clock ≤ q.first.clock + startsBy lag length k + (limit g + lag) ∧
      (q.result = none → ∃ d ∈ (timing limit).due q,
        d + lag ≤ q.first.clock + startsBy lag length k + (limit g + lag)) := by
  cases q with
  | primary race' => cases hrace
  | fallback first race' =>
    cases hrace
    have hnd := orderIndices_nodup decay first.rtt first.clock
      (nodup_fallbackIndices n primaryCount)
    exact ⟨(h.2 k hk).clock_le,
      fun hnone => (h.2 k hk).due hnone hp.2 hinv.2.2.2.1 hnd hlimit hk⟩

end Tiers

end SendQuery

section Contract

variable {K : Type} [NatCast K] [Add K] [Sub K] [Mul K] [Div K] [Min K] [LE K] [DecidableLE K]
variable (S : SimpleDns) (decay : Nat → K) (state : ResolverState) (lag : Nat)
variable (rtt₀ : RttMap K state.config.nameservers.length) (now : Instant)
variable (q₀ q : SendQuery K state.config.nameservers.length)
variable (events : List (Wake state.config.nameservers.length))

/-- An attempt whose limit is no more than the resolver's fits in the length of an attempt. -/
theorem attempts_fit {state : ResolverState} {lag : Nat}
    {limit : Fin state.config.nameservers.length → Nat}
    (hlimit : ∀ idx, limit idx ≤ state.limits lag idx) (idx : Fin state.config.nameservers.length) :
    limit idx + lag ≤ attemptLength lag :=
  Nat.le_trans (Nat.add_le_add_right (hlimit idx) lag) (state.limits_add_le lag idx)

/-- What is kept whatever the nameservers do. -/
theorem paced_of_run (limit : Fin state.config.nameservers.length → Nat)
    (hlimit : ∀ idx, limit idx ≤ state.limits lag idx)
    (hstart : SendQuery.start decay state.primaryCount rtt₀ now = .ok q₀)
    (hrun : Machine.run (SendQuery.step S decay state.primaryCount) q₀ events = some q)
    (htimely : (SendQuery.timing limit).Timely lag
      (SendQuery.step S decay state.primaryCount) q₀ events) :
    SendQuery.Inv S decay state.primaryCount rtt₀ now q ∧
      SendQuery.Paced decay state.primaryCount lag (attemptLength lag) rtt₀ now q := by
  constructor
  · exact Machine.run_invariant
      (fun q e q' hq hs => SendQuery.step_inv S decay state.primaryCount hq hs)
      (SendQuery.start_inv S decay state.primaryCount hstart) hrun
  · exact Machine.run_invariant_along
      (fun q e q' hq hon hs =>
        SendQuery.Paced.step S decay state.primaryCount (attempts_fit hlimit) hq hon hs)
      (SendQuery.start_paced decay state.primaryCount hstart).1 htimely hrun

/-- Whatever the others do, a server of either tier is dialled by its turn. -/
theorem dialled_in_turn
    (hstart : SendQuery.start decay state.primaryCount rtt₀ now = .ok q₀)
    (hrun : Machine.run (SendQuery.step S decay state.primaryCount) q₀ events = some q)
    (htimely : (SendQuery.timing (state.limits lag)).Timely lag
      (SendQuery.step S decay state.primaryCount) q₀ events) :
    (∀ k idx, (SendQuery.firstOrder decay state.primaryCount rtt₀ now)[k]? = some idx →
      now + startsBy lag (attemptLength lag) k < q.first.clock → idx ∈ q.first.dialled) ∧
    ∀ race k idx, q.second = some race →
      (SendQuery.secondOrder decay state.primaryCount q.first)[k]? = some idx →
        q.first.clock + startsBy lag (attemptLength lag) k < race.clock → idx ∈ race.dialled := by
  obtain ⟨hinv, hpaced⟩ := paced_of_run S decay state lag rtt₀ now q₀ q events (state.limits lag)
    (fun _ => Nat.le_refl _) hstart hrun htimely
  cases q with
  | primary race =>
    exact ⟨fun k idx hk => hpaced.dialled hinv.1.1 hk, fun race' k idx h => nomatch h⟩
  | fallback first race =>
    refine ⟨fun k idx hk => hpaced.1.dialled hinv.1.1 hk, fun race' k idx h hk => ?_⟩
    cases h
    exact hpaced.2.dialled hinv.2.2.2.1 hk

/-- Three configured servers. -/
def threeServers : ResolverState :=
  .build { nameservers := [primaryServer, primaryServer, fallbackServer] } {}

abbrev ThreeRace := Race ℝ threeServers.config.nameservers.length

def thirdServer : Fin threeServers.config.nameservers.length := ⟨2, by decide⟩

/-- None of them answers; the first one's attempt fails once the third is dialled. -/
def silentWakes : List (Wake threeServers.config.nameservers.length) :=
  [.due 100000000, .due 200000000, .completed ⟨⟨⟨0, by decide⟩, 0⟩, 250000000, .error .noResponse⟩]

noncomputable def threeStart : ThreeRace := .start (List.finRange 3) (.new 0) 0

/-- The race after each of these. -/
noncomputable def threeTwo : ThreeRace :=
  Option.get (threeStart.step (.ofTable []) expDecay (.due 100000000)) rfl

noncomputable def threeThree : ThreeRace :=
  Option.get (threeTwo.step (.ofTable []) expDecay (.due 200000000)) rfl

noncomputable def threeSilent : ThreeRace :=
  Option.get (threeThree.step (.ofTable []) expDecay
    (.completed ⟨⟨⟨0, by decide⟩, 0⟩, 250000000, .error .noResponse⟩)) rfl

theorem three_firstOrder :
    SendQuery.firstOrder expDecay threeServers.primaryCount
      (.new 0 : RttMap ℝ threeServers.config.nameservers.length) 0 = List.finRange 3 :=
  orderIndices_untried fun _ _ => ⟨0, rfl⟩

theorem three_start : SendQuery.start expDecay threeServers.primaryCount (.new 0) 0 =
    .ok (.primary threeStart) := by
  have horder := three_firstOrder
  unfold SendQuery.firstOrder at horder
  unfold SendQuery.start threeStart
  rw [if_neg (by decide), horder]
  rfl

theorem three_run : Machine.run (SendQuery.step (.ofTable []) expDecay threeServers.primaryCount)
    (.primary threeStart) silentWakes = some (.primary threeSilent) := rfl

theorem three_timely : (SendQuery.timing (threeServers.limits 0)).Timely 0
    (SendQuery.step (.ofTable []) expDecay threeServers.primaryCount) (.primary threeStart)
      silentWakes := by
  have htwo : SendQuery.step (.ofTable []) expDecay threeServers.primaryCount
      (.primary threeStart) (.due 100000000) = some (.primary threeTwo) := rfl
  have hthree : SendQuery.step (.ofTable []) expDecay threeServers.primaryCount
      (.primary threeTwo) (.due 200000000) = some (.primary threeThree) := rfl
  have hdue : (SendQuery.timing (threeServers.limits 0)).due (.primary threeStart) =
      [100000000, 12000000000] := rfl
  have hdue₂ : (SendQuery.timing (threeServers.limits 0)).due (.primary threeTwo) =
      [200000000, 12000000000, 12100000000] := rfl
  have hdue₃ : (SendQuery.timing (threeServers.limits 0)).due (.primary threeThree) =
      [12000000000, 12100000000, 12200000000] := rfl
  refine Timing.timely_cons htwo hdue (by decide) ?_
  refine Timing.timely_cons hthree hdue₂ (by decide) ?_
  exact Timing.timely_singleton hdue₃ (by decide)

/-- The third server is dialled in its turn, though the two before it are silent. -/
theorem dialled_in_turn_third : thirdServer ∈ threeSilent.dialled := by
  have hthird : (SendQuery.firstOrder expDecay threeServers.primaryCount
      (.new 0 : RttMap ℝ threeServers.config.nameservers.length) 0)[2]? = some thirdServer := by
    rw [three_firstOrder]
    rfl
  exact (dialled_in_turn (.ofTable []) expDecay threeServers 0 (.new 0) 0 _ _ _ three_start
    three_run three_timely).1 2 thirdServer hthird (by decide)

/-- What is kept while `send_query` has a server that answers whenever it is dialled. -/
theorem answering_of_run (limit : Fin state.config.nameservers.length → Nat)
    (g : Fin state.config.nameservers.length) (hlimit : ∀ idx, limit idx ≤ state.limits lag idx)
    (hwins : ∀ c, .completed c ∈ events → c.dial.idx = g → ∃ resp, c.Won S resp)
    (hstart : SendQuery.start decay state.primaryCount rtt₀ now = .ok q₀)
    (hrun : Machine.run (SendQuery.step S decay state.primaryCount) q₀ events = some q)
    (htimely : (SendQuery.timing limit).Timely lag
      (SendQuery.step S decay state.primaryCount) q₀ events) :
    SendQuery.Inv S decay state.primaryCount rtt₀ now q ∧
      SendQuery.Paced decay state.primaryCount lag (attemptLength lag) rtt₀ now q ∧
      SendQuery.Answering decay state.primaryCount lag (attemptLength lag) rtt₀ now limit g q := by
  have hpaced₀ : SendQuery.Paced decay state.primaryCount lag (attemptLength lag) rtt₀ now q₀ :=
    (SendQuery.start_paced decay state.primaryCount hstart).1
  have hinv₀ := SendQuery.start_inv S decay state.primaryCount hstart
  have hanswering₀ : SendQuery.Answering decay state.primaryCount lag (attemptLength lag) rtt₀ now
      limit g q₀ := by
    unfold SendQuery.start at hstart
    split at hstart
    · cases hstart
    · cases hstart
      exact SendQuery.escalate_answering S decay state.primaryCount (Race.start_sound S decay now)
        fun k _ => Race.start_answering rtt₀
  exact Machine.run_invariant_along
    (P := fun q => SendQuery.Inv S decay state.primaryCount rtt₀ now q ∧
      SendQuery.Paced decay state.primaryCount lag (attemptLength lag) rtt₀ now q ∧
      SendQuery.Answering decay state.primaryCount lag (attemptLength lag) rtt₀ now limit g q)
    (fun q e q' hq hon hs =>
      ⟨SendQuery.step_inv S decay state.primaryCount hq.1 hs,
        SendQuery.Paced.step S decay state.primaryCount (attempts_fit hlimit) hq.2.1 hon.1 hs,
        hq.2.2.step S decay state.primaryCount (attempts_fit hlimit) hq.1 hq.2.1 hon.1
          (fun c he hc => hon.2 c he hc) hs⟩)
    ⟨hinv₀, hpaced₀, hanswering₀⟩
    (Machine.along_and htimely (Machine.along_of_forall
      (Q := fun e => ∀ c, e = .completed c → c.dial.idx = g → ∃ resp, c.Won S resp)
      fun e he c hc => hwins c (hc ▸ he))) hrun

/-- A server that answers whenever it is dialled, within a limit of its own, is enough: `send_query`
does not fail, and has the response by the server's turn and that limit; until then something is due
in time for that. -/
theorem answers_in_time (limit : Fin state.config.nameservers.length → Nat)
    (g : Fin state.config.nameservers.length) (hlimit : ∀ idx, limit idx ≤ state.limits lag idx)
    (hwins : ∀ c, .completed c ∈ events → c.dial.idx = g → ∃ resp, c.Won S resp)
    (hstart : SendQuery.start decay state.primaryCount rtt₀ now = .ok q₀)
    (hrun : Machine.run (SendQuery.step S decay state.primaryCount) q₀ events = some q)
    (htimely : (SendQuery.timing limit).Timely lag
      (SendQuery.step S decay state.primaryCount) q₀ events) :
    (∀ e, q.result ≠ some (.error e)) ∧
    (∀ k, (SendQuery.firstOrder decay state.primaryCount rtt₀ now)[k]? = some g →
      let bound := now + startsBy lag (attemptLength lag) k + (limit g + lag)
      q.race.clock ≤ bound ∧
        (q.result = none → ∃ d ∈ (SendQuery.timing limit).due q, d + lag ≤ bound)) ∧
    ∀ race k, q.second = some race →
      (SendQuery.secondOrder decay state.primaryCount q.first)[k]? = some g →
        let bound := q.first.clock + startsBy lag (attemptLength lag) k + (limit g + lag)
        race.clock ≤ bound ∧
          (q.result = none → ∃ d ∈ (SendQuery.timing limit).due q, d + lag ≤ bound) := by
  obtain ⟨hinv, hpaced, hanswering⟩ :=
    answering_of_run S decay state lag rtt₀ now q₀ q events limit g hlimit hwins hstart hrun htimely
  refine ⟨hanswering.no_error S decay state.primaryCount hinv, fun k hk => ?_,
    fun race k hrace hk => ?_⟩
  · exact hanswering.first_inTime S decay state.primaryCount (attempts_fit hlimit) hinv hpaced hk
  · exact hanswering.second_inTime S decay state.primaryCount (attempts_fit hlimit) hinv hpaced
      hrace hk

end Contract

/-- The fallback server answers whenever it is dialled. -/
theorem twoTiers_answers (c : Completion twoTiers.config.nameservers.length)
    (hc : .completed c ∈ [primaryTimeout, fallbackReply]) (hidx : c.dial.idx = ⟨1, by decide⟩) :
    ∃ resp, c.Won (.ofTable []) resp := by
  rcases List.mem_cons.mp hc with h | h
  · cases h
    exact absurd hidx (by decide)
  · cases List.mem_singleton.mp h
    exact ⟨emptyReply, ⟨some 1000000, rfl⟩, rfl⟩

/-- The order of the fallback tier once the primary server timed out. -/
theorem twoTiers_secondOrder :
    SendQuery.secondOrder floatDecay twoTiers.primaryCount lostRace = [⟨1, by decide⟩] :=
  orderIndices_singleton floatDecay lostRace.rtt lostRace.clock _

/-- The response is there by the fallback server's turn and its limit, and something is due by then
before it is. -/
theorem answers_in_time_twoTiers : (∀ e, wonRace.result ≠ some (.error e)) ∧
    wonRace.clock ≤ lostRace.clock + startsBy 0 (attemptLength 0) 0 +
      (twoTiers.limits 0 ⟨1, by decide⟩ + 0) ∧
    ∃ d ∈ (SendQuery.timing (twoTiers.limits 0)).due (.fallback lostRace escalatedRace),
      d + 0 ≤ lostRace.clock + startsBy 0 (attemptLength 0) 0 +
        (twoTiers.limits 0 ⟨1, by decide⟩ + 0) := by
  have hplace : (SendQuery.secondOrder floatDecay twoTiers.primaryCount lostRace)[0]? =
      some ⟨1, by decide⟩ := by
    rw [twoTiers_secondOrder]
    rfl
  have hescalated : Machine.run (SendQuery.step (.ofTable []) floatDecay twoTiers.primaryCount)
      (.primary primaryRace) [primaryTimeout] = some (.fallback lostRace escalatedRace) :=
    Machine.run_cons_some twoTiers_escalates []
  obtain ⟨hok, -, hclock⟩ := answers_in_time (.ofTable []) floatDecay twoTiers 0 (.new 0) 0 _ _
    [primaryTimeout, fallbackReply] (twoTiers.limits 0) ⟨1, by decide⟩ (fun _ => Nat.le_refl _)
    twoTiers_answers twoTiers_start twoTiers_run twoTiers_timely
  obtain ⟨-, -, hdue⟩ := answers_in_time (.ofTable []) floatDecay twoTiers 0 (.new 0) 0 _ _
    [primaryTimeout] (twoTiers.limits 0) ⟨1, by decide⟩ (fun _ => Nat.le_refl _)
    (fun c hc => twoTiers_answers c (List.mem_of_mem_take (i := 1) hc)) twoTiers_start hescalated
    ⟨twoTiers_timely.1, fun _ _ => trivial⟩
  exact ⟨hok, (hclock wonRace 0 rfl hplace).1, (hdue escalatedRace 0 rfl hplace).2 rfl⟩

end N0DnsResolver
