/-
  An attempt at a server that answers over TCP alone.

  TCP is due a fixed delay after the attempt began, and is only brought forward by what
  comes of the datagrams. So it has joined by `joinBy`, which neither the retransmit
  interval nor the time the server takes enters, and the attempt returns a response within
  the time the TCP query takes from there (`tcp_answers_in_time`).
-/
import N0DnsResolver.Theory.Retransmits

namespace N0DnsResolver

/-- When TCP has joined an attempt, counted from its start: after the delay, and as much lag as
datagrams can come back before. -/
def joinBy (lag : Nat) : Nat := tcpJoinDelay + (udpDatagrams + 1) * lag

/-- When a wake started a TCP query. -/
def UdpWake.started : UdpWake → Option Instant
  | .tcpDue now => some now
  | _ => none

namespace UdpTrace

/-- When the TCP query in flight was started. -/
def tcpSince (t : UdpTrace) : Option Instant :=
  if t.race.tcp then (t.wakes.filterMap UdpWake.started).getLast? else none

/-- What is due at a wait when a TCP query takes no longer than `tcpLimit`. -/
def tcpTiming (tcpLimit : Nat) : Timing UdpTrace UdpWake where
  time := UdpWake.now
  due t := timing.due t ++ t.tcpSince.toList.map (· + tcpLimit)

variable {S : SimpleDns} {retransmit tcpLimit lag : Nat} {start : Instant} {t t' : UdpTrace}

/-- The datagrams that failed or came back truncated. -/
def spentCount (S : SimpleDns) (t : UdpTrace) : Nat := (t.wakes.filterMap (UdpWake.spent S)).length

/-- TCP is due in time, or it is in flight since it was. -/
def Joining (S : SimpleDns) (lag : Nat) (start : Instant) (t : UdpTrace) : Prop :=
  (t.race.tcp = false ∧ ∃ due, t.race.tcpDue = some due ∧
      due ≤ start + tcpJoinDelay + t.spentCount S * lag) ∨
    ∃ since, t.tcpSince = some since ∧ since ≤ start + joinBy lag

/-- While the attempt waits TCP joins or has joined, and it does not fail. -/
structure Joined (S : SimpleDns) (lag : Nat) (start : Instant) (t : UdpTrace) : Prop where
  waiting : t.race.result = none → t.Joining S lag start
  no_error : ∀ e, t.race.result ≠ some (.error e)

theorem tcpSince_tcp {since : Instant} (h : t.tcpSince = some since) : t.race.tcp = true :=
  (Option.ite_none_right_eq_some.mp h).1

/-- The head of the loop, of an attempt that goes on. -/
theorem joined_top {now : Instant} (hrun : t.race.result = none) (h : t.Joining S lag start)
    (hhurry : t.race.tcp = false → (t.race.send now).sendsLeft = 0 →
      (t.race.send now).datagrams = [] → now ≤ start + tcpJoinDelay + t.spentCount S * lag) :
    Joined S lag start (top now t) := by
  obtain ⟨due, res, htop, hdue, hres⟩ := top_cases now t.race
  obtain ⟨htcp, -, -⟩ := send_tcp now t.race
  have hjoining : (top now t).Joining S lag start := by
    unfold top Joining tcpSince
    rw [htop]
    rcases h with ⟨hfree, due', hdue', hle⟩ | ⟨since, hsince, hle⟩
    · left
      refine ⟨htcp.trans hfree, ?_⟩
      rcases hdue with rfl | ⟨rfl, -, hleft, hnone⟩
      · exact ⟨due', hdue', hle⟩
      · exact ⟨now, rfl, hhurry hfree hleft hnone⟩
    · right
      refine ⟨since, ?_, hle⟩
      simp only [htcp]
      exact hsince
  have hopen : (top now t).race.result = none := by
    unfold top
    rw [htop]
    rcases hres with rfl | ⟨hfree, rfl⟩
    · exact hrun
    · -- Nothing is left to start, but TCP is due.
      exfalso
      rcases h with ⟨-, due', hdue', -⟩ | ⟨since, hsince, -⟩
      · rcases hdue with hdue | ⟨hdue, -⟩
        · exact nomatch hdue.trans hdue'
        · cases hdue
      · exact nomatch hfree.symm.trans (tcpSince_tcp hsince)
  refine ⟨fun _ => hjoining, fun e he => ?_⟩
  rw [hopen] at he
  cases he

theorem clock_top {now : Instant} {t : UdpTrace} (hclock : t.race.clock = now) :
    (top now t).race.clock = now := by
  obtain ⟨due, res, htop, -, -⟩ := top_cases now t.race
  unfold top
  rw [htop]
  exact (send_tcp now t.race).2.2.trans hclock

theorem clock_step {e : UdpWake} (h : t.step S e = some t') : t'.race.clock = e.now := by
  obtain ⟨-, -, hturn⟩ := step_turn h
  cases hturn with
  | failed err hmem => exact clock_top rfl
  | truncated hmem hcut => exact clock_top rfl
  | answered hmem hcut => rfl
  | tcpFailed err htcp => exact clock_top rfl
  | tcpAnswered resp htcp => rfl
  | nextSend hsend hle => exact clock_top rfl
  | tcpDue hdue hle => exact clock_top rfl

/-- A wake that starts no TCP query leaves the one in flight. -/
theorem tcpSince_concat {race : UdpRace} {e : UdpWake} (htcp : race.tcp = t.race.tcp)
    (he : e.started = none) : tcpSince ⟨race, t.sent, t.wakes ++ [e]⟩ = t.tcpSince := by
  unfold tcpSince
  simp only [htcp, List.filterMap_append, List.filterMap_cons_none he, List.filterMap_nil,
    List.append_nil]

/-- No more datagrams are spent than were sent. -/
theorem spentCount_le (h : t.Open S start) : t.spentCount S ≤ udpDatagrams := by
  have hlen := h.spent.length_eq
  rw [List.length_append] at hlen
  have hsent := h.toSound.few
  unfold spentCount
  omega

/-- TCP is in flight by the bound. -/
theorem add_spent_le (h : t.Open S start) :
    start + tcpJoinDelay + t.spentCount S * lag + lag ≤ start + joinBy lag := by
  have hle : t.spentCount S * lag + lag ≤ (udpDatagrams + 1) * lag := by
    rw [← Nat.succ_mul]
    exact Nat.mul_le_mul_right lag (Nat.succ_le_succ (spentCount_le h))
  unfold joinBy Instant at *
  omega

/-- What an attempt has due while it waits. -/
theorem Joining.due (h : t.Joining S lag start) (hopen : t.Open S start) :
    ∃ d ∈ (tcpTiming tcpLimit).due t, d + lag ≤ start + joinBy lag + (tcpLimit + lag) := by
  rcases h with ⟨-, due, hdue, hle⟩ | ⟨since, hsince, hle⟩
  · refine ⟨due, List.mem_append_left _ (List.mem_append_right _ (Option.mem_toList.mpr hdue)), ?_⟩
    have hby : start + tcpJoinDelay + t.spentCount S * lag + lag ≤ start + joinBy lag :=
      add_spent_le hopen
    unfold Instant at *
    omega
  · refine ⟨since + tcpLimit, List.mem_append_right _
      (List.mem_map_of_mem (Option.mem_toList.mpr hsince)), ?_⟩
    unfold Instant at *
    omega

theorem spentCount_concat {race : UdpRace} (e : UdpWake) :
    spentCount S ⟨race, t.sent, t.wakes ++ [e]⟩ = t.spentCount S + (e.spent S).isSome.toNat := by
  unfold spentCount
  rw [List.filterMap_append, List.length_append]
  cases h : e.spent S with
  | none =>
    rw [List.filterMap_cons_none h]
    rfl
  | some sent =>
    rw [List.filterMap_cons_some h]
    rfl

/-- A datagram that is spent leaves one more lag for TCP to be brought forward in. -/
theorem add_spent_concat {race : UdpRace} {e : UdpWake} (hspent : (e.spent S).isSome = true) :
    start + tcpJoinDelay + spentCount S ⟨race, t.sent, t.wakes ++ [e]⟩ * lag =
      start + tcpJoinDelay + t.spentCount S * lag + lag := by
  rw [spentCount_concat, hspent]
  show start + tcpJoinDelay + (t.spentCount S + 1) * lag = _
  rw [Nat.succ_mul]
  exact (Nat.add_assoc _ _ _).symm

theorem add_unspent_concat {race : UdpRace} {e : UdpWake} (hspent : e.spent S = none) :
    start + tcpJoinDelay + spentCount S ⟨race, t.sent, t.wakes ++ [e]⟩ * lag =
      start + tcpJoinDelay + t.spentCount S * lag := by
  rw [spentCount_concat, hspent]
  rfl

/-- One turn of an attempt whose TCP queries all bring a response. -/
theorem Joined.step {e : UdpWake} (h : t.Joined S lag start) (hopen : t.Open S start)
    (hsends : t.race.nextSend.isSome → 0 < t.race.sendsLeft)
    (hon : (tcpTiming tcpLimit).OnTime lag t e) (htcp : ∀ now err, e ≠ .tcp now (.error err))
    (hs : t.step S e = some t') : t'.Joined S lag start := by
  obtain ⟨hrun, -, hturn⟩ := step_turn hs
  -- While TCP is to come, whatever happens is in time for it.
  have hearly (hfree : t.race.tcp = false) :
      e.now ≤ start + tcpJoinDelay + t.spentCount S * lag + lag := by
    rcases h.waiting hrun with ⟨-, due, hdue, hle⟩ | ⟨since, hsince, -⟩
    · have hlate : e.now ≤ due + lag := hon due
        (List.mem_append_left _ (List.mem_append_right _ (Option.mem_toList.mpr hdue)))
      exact Nat.le_trans hlate (Nat.add_le_add_right hle lag)
    · exact nomatch hfree.symm.trans (tcpSince_tcp hsince)
  cases hturn with
  | @failed sent now err hmem =>
    refine joined_top hrun ?_ fun hfree _ _ => ?_
    · rcases h.waiting hrun with ⟨hfree, due, hdue, hle⟩ | ⟨since, hsince, hle⟩
      · refine .inl ⟨hfree, due, hdue, ?_⟩
        rw [add_spent_concat rfl]
        exact Nat.le_trans hle (Nat.le_add_right _ _)
      · exact .inr ⟨since, (tcpSince_concat rfl rfl).trans hsince, hle⟩
    · rw [add_spent_concat rfl]
      exact hearly hfree
  | @truncated sent now reply hmem hcut =>
    have hspent : (UdpWake.spent S (.datagram sent now (.ok reply))).isSome = true := by
      unfold UdpWake.spent
      simp only [hcut, if_true]
      rfl
    refine joined_top hrun ?_ fun hfree _ _ => ?_
    · rcases h.waiting hrun with ⟨hfree, -⟩ | ⟨since, hsince, hle⟩
      · refine .inl ⟨hfree, now, if_neg (by rw [hfree]; decide), ?_⟩
        rw [add_spent_concat hspent]
        exact hearly hfree
      · exact .inr ⟨since, (tcpSince_concat rfl rfl).trans hsince, hle⟩
    · rw [add_spent_concat hspent]
      exact hearly hfree
  | answered hmem hcut => exact ⟨fun hnone => (nomatch hnone), fun _ he => (nomatch he)⟩
  | tcpFailed err hflying => exact absurd rfl (htcp _ _)
  | tcpAnswered resp hflying => exact ⟨fun hnone => (nomatch hnone), fun _ he => (nomatch he)⟩
  | nextSend hsend hle =>
    refine joined_top hrun ?_ fun _ _ hnone => ?_
    · rcases h.waiting hrun with ⟨hfree, due, hdue, hle⟩ | ⟨since, hsince, hle⟩
      · refine .inl ⟨hfree, due, hdue, ?_⟩
        rw [add_unspent_concat rfl]
        exact hle
      · exact .inr ⟨since, (tcpSince_concat rfl rfl).trans hsince, hle⟩
    · -- The datagram that was due is outstanding.
      have hleft := hsends (by rw [hsend]; rfl)
      unfold UdpRace.send at hnone
      simp only [hleft, and_self, if_true] at hnone
      exact absurd hnone (List.append_ne_nil_of_right_ne_nil _ (List.cons_ne_nil _ _))
  | @tcpDue now due hdue hle =>
    refine joined_top hrun (.inr ⟨now, ?_, ?_⟩) fun hfree => nomatch hfree
    · unfold tcpSince
      simp only [if_true, List.filterMap_append]
      exact List.getLast?_concat
    · have hfree : t.race.tcp = false := by
        by_contra hflying
        exact nomatch hdue.symm.trans (hopen.no_overlap (Bool.not_eq_false _ ▸ hflying))
      exact Nat.le_trans (hearly hfree) (add_spent_le hopen)

theorem joined_start (S : SimpleDns) (retransmit lag : Nat) (now : Instant) :
    Joined S lag now (UdpTrace.start retransmit now) :=
  joined_top rfl (.inl ⟨rfl, now + tcpJoinDelay, rfl, Nat.le_add_right _ _⟩)
    fun _ hleft => nomatch hleft

/-- What holds of an attempt at every wait: the sender's timer is set only while datagrams are left,
and TCP joins. -/
structure Joins (S : SimpleDns) (retransmit lag : Nat) (start : Instant) (t : UdpTrace) :
    Prop where
  waits : t.Waits retransmit
  sender : Backoff.Sender.Waiting (gap retransmit) udpDatagrams t.sender
  reached : t.Reached S start
  joined : t.Joined S lag start

theorem joins_start (S : SimpleDns) (retransmit lag : Nat) (now : Instant) :
    Joins S retransmit lag now (UdpTrace.start retransmit now) where
  waits := (sender_start retransmit now).1
  sender := (sender_start retransmit now).2 ▸ Backoff.Sender.waiting_start udpDatagrams now
  reached := reached_start S retransmit now
  joined := joined_start S retransmit lag now

/-- An attempt that waits is open. -/
theorem Reached.open (h : t.Reached S start) (hrun : t.race.result = none) : t.Open S start := by
  rcases h with ⟨-, -, hopen⟩ | ⟨_, _, _, hsome, -⟩ | ⟨_, hsome, -⟩
  · exact hopen
  · exact nomatch hrun.symm.trans hsome
  · exact nomatch hrun.symm.trans hsome

theorem Joins.step {e : UdpWake} (h : t.Joins S retransmit lag start)
    (hon : (tcpTiming tcpLimit).OnTime lag t e) (htcp : ∀ now err, e ≠ .tcp now (.error err))
    (hs : t.step S e = some t') : t'.Joins S retransmit lag start := by
  obtain ⟨hwaits, hsender⟩ := sender_step h.waits hs
  have hopen := h.reached.open (step_turn hs).1
  exact ⟨hwaits, h.sender.step hsender, reached_step hs h.reached,
    h.joined.step hopen h.sender.armed.mpr hon htcp hs⟩

end UdpTrace

/-- Where TCP is answered, an attempt over UDP does not fail, whatever becomes of its datagrams: it
always waits for something that is due, and with no timer more than `lag` late it has a response by
the join delay and the time TCP takes, and as much lag as datagrams can come back. -/
theorem tcp_answers_in_time {S : SimpleDns} {retransmit tcpLimit lag : Nat} {start : Instant}
    {events : List UdpWake} {t : UdpTrace}
    (hrun : Machine.run (UdpTrace.step S) (.start retransmit start) events = some t)
    (htimely : (UdpTrace.tcpTiming tcpLimit).Timely lag (UdpTrace.step S)
      (.start retransmit start) events)
    (htcp : ∀ now err, .tcp now (.error err) ∉ events) :
    (∀ e, t.race.result ≠ some (.error e)) ∧
      t.race.clock ≤ start + joinBy lag + (tcpLimit + lag) ∧
      (t.race.result = none → ∃ d ∈ (UdpTrace.tcpTiming tcpLimit).due t,
        d + lag ≤ start + joinBy lag + (tcpLimit + lag)) := by
  have hevents : Machine.Along (UdpTrace.step S)
      (fun _ e => ∀ now err, e ≠ .tcp now (.error err)) (.start retransmit start) events :=
    Machine.along_of_forall fun e he now err h => htcp now err (h ▸ he)
  have hclock : (UdpTrace.start retransmit start).race.clock ≤
      start + joinBy lag + (tcpLimit + lag) := by
    have hstart : (UdpTrace.start retransmit start).race.clock = start := UdpTrace.clock_top rfl
    rw [hstart]
    exact Nat.le_trans (Nat.le_add_right _ _) (Nat.le_add_right _ _)
  obtain ⟨hjoins, hbound⟩ := Timing.clock_le (T := UdpTrace.tcpTiming tcpLimit)
    (P := UdpTrace.Joins S retransmit lag start) (fun t e h => h.1)
    (fun t e t' h hon hs => ⟨h.step hon.1 hon.2 hs, UdpTrace.clock_step hs,
      (h.joined.waiting (UdpTrace.step_turn hs).1).due
        (h.reached.open (UdpTrace.step_turn hs).1)⟩)
    (UdpTrace.joins_start S retransmit lag start) hclock (Machine.along_and htimely hevents) hrun
  exact ⟨hjoins.joined.no_error, hbound, fun hnone =>
    (hjoins.joined.waiting hnone).due (hjoins.reached.open hnone)⟩

/-- At the limits of the resolver an attempt is over before its time is up. -/
example : joinBy 0 + 5 * 1000000000 ≤ udpNameserverTimeout := by decide

/-- The datagrams of an attempt are lost, and the server answers over TCP. -/
def lostWakes : List UdpWake :=
  [.nextSend 300000000, .nextSend 600000000, .tcpDue 900000000, .tcp 920000000 (.ok [])]

def lostAttempt : Option UdpTrace :=
  Machine.run (UdpTrace.step (.ofTable [])) (.start udpRetransmitMin 0) lostWakes

theorem lostWakes_timely : (UdpTrace.tcpTiming 5000000000).Timely 0
    (UdpTrace.step (.ofTable [])) (.start udpRetransmitMin 0) lostWakes := by
  decide +kernel

/-- The response is there a second after the attempt began. -/
theorem tcp_answers_in_time_lost :
    (lostAttempt.get rfl).race.result = some (.ok ([], none)) ∧
      (lostAttempt.get rfl).race.clock ≤ 0 + joinBy 0 + (5000000000 + 0) :=
  ⟨rfl, (tcp_answers_in_time (Option.some_get (rfl : lostAttempt.isSome = true)).symm
    lostWakes_timely (fun now err h => by simp [lostWakes] at h)).2.1⟩

end N0DnsResolver
