/-
  When the datagrams of an attempt go out, and when TCP joins them.

  The datagrams alone are a sender that repeats itself: `UdpTrace.sender` takes the turns of
  `Backoff.Sender`, whose gaps are the retransmit interval twice and then twice the one
  before. So datagrams are paced in every run (`datagrams_paced`), and in a timely run they
  go out by their schedule (`datagrams_on_schedule`). TCP joins by a bound that the interval
  does not enter, so a server that answers over TCP alone is enough (`tcp_answers_in_time`).
-/
import N0DnsResolver.Lib.Backoff
import N0DnsResolver.Theory.UdpAttempt
import Mathlib.Algebra.Group.Nat.Defs

namespace N0DnsResolver

/-- The instant of a wake. -/
def UdpWake.now : UdpWake → Instant
  | .datagram _ now _ => now
  | .tcp now _ => now
  | .nextSend now => now
  | .tcpDue now => now

namespace UdpTrace

variable {S : SimpleDns}

/-! ## One turn -/

/-- What a turn of the loop does, by what woke it. -/
inductive Turn (S : SimpleDns) (t : UdpTrace) : UdpWake → UdpTrace → Prop where
  | failed {sent now : Instant} (err : TransportError) (hmem : sent ∈ t.race.datagrams) :
    Turn S t (.datagram sent now (.error err)) (top now
      ⟨t.race.datagram S sent now (.error err), t.sent,
        t.wakes ++ [.datagram sent now (.error err)]⟩)
  | truncated {sent now : Instant} {reply : Bytes × Bool} (hmem : sent ∈ t.race.datagrams)
    (hcut : (reply.2 || truncated S reply.1) = true) :
    Turn S t (.datagram sent now (.ok reply)) (top now
      ⟨{ t.race with
          datagrams := t.race.datagrams.erase sent
          clock := now
          sendsLeft := 0
          nextSend := none
          tcpDue := if t.race.tcp then t.race.tcpDue else some now },
        t.sent, t.wakes ++ [.datagram sent now (.ok reply)]⟩)
  | answered {sent now : Instant} {reply : Bytes × Bool} (hmem : sent ∈ t.race.datagrams)
    (hcut : (reply.2 || N0DnsResolver.truncated S reply.1) = false) :
    Turn S t (.datagram sent now (.ok reply))
      ⟨{ t.race with
          datagrams := t.race.datagrams.erase sent
          clock := now
          result := some (.ok (reply.1, some (now - sent))) },
        t.sent, t.wakes ++ [.datagram sent now (.ok reply)]⟩
  | tcpFailed {now : Instant} (err : TransportError) (htcp : t.race.tcp = true) :
    Turn S t (.tcp now (.error err)) (top now
      ⟨t.race.tcpReturned now (.error err), t.sent, t.wakes ++ [.tcp now (.error err)]⟩)
  | tcpAnswered {now : Instant} (resp : Bytes) (htcp : t.race.tcp = true) :
    Turn S t (.tcp now (.ok resp))
      ⟨t.race.tcpReturned now (.ok resp), t.sent, t.wakes ++ [.tcp now (.ok resp)]⟩
  | nextSend {now due : Instant} (hdue : t.race.nextSend = some due) (hle : due ≤ now) :
    Turn S t (.nextSend now) (top now
      ⟨{ t.race with nextSend := none, sendDue := true, clock := now }, t.sent,
        t.wakes ++ [.nextSend now]⟩)
  | tcpDue {now due : Instant} (hdue : t.race.tcpDue = some due) (hle : due ≤ now) :
    Turn S t (.tcpDue now) (top now
      ⟨{ t.race with tcpDue := none, tcp := true, clock := now }, t.sent,
        t.wakes ++ [.tcpDue now]⟩)

theorem not_returned {race : UdpRace} (h : race.result = none) : ¬ race.result.isSome = true := by
  rw [h]
  decide

/-- Every step is a turn, of an attempt that has not returned. -/
theorem step_turn {t t' : UdpTrace} {e : UdpWake} (h : t.step S e = some t') :
    t.race.result = none ∧ t.race.clock ≤ e.now ∧ Turn S t e t' := by
  unfold step at h
  obtain ⟨hnone, h⟩ := Option.ite_none_left_eq_some.mp h
  have hrun : t.race.result = none := by simpa using hnone
  obtain ⟨p, hbranch, rfl⟩ := Option.map_eq_some_iff.mp h
  refine ⟨hrun, ?_⟩
  cases e with
  | datagram sent now res =>
    obtain ⟨⟨hmem, hclock⟩, hp⟩ := Option.ite_none_right_eq_some.mp hbranch
    cases hp
    refine ⟨hclock, ?_⟩
    cases res with
    | error err =>
      change Turn S t _ (if t.race.result.isSome then _ else _)
      rw [if_neg (not_returned hrun)]
      exact .failed err hmem
    | ok reply =>
      cases hcut : reply.2 || N0DnsResolver.truncated S reply.1 with
      | true =>
        have hrace : t.race.datagram S sent now (.ok reply) =
            { t.race with
              datagrams := t.race.datagrams.erase sent
              clock := now
              sendsLeft := 0
              nextSend := none
              tcpDue := if t.race.tcp then t.race.tcpDue else some now } := by
          unfold UdpRace.datagram
          simp only [hcut, if_true]
        rw [hrace]
        change Turn S t _ (if t.race.result.isSome then _ else _)
        rw [if_neg (not_returned hrun)]
        exact .truncated hmem hcut
      | false =>
        have hrace : t.race.datagram S sent now (.ok reply) =
            { t.race with
              datagrams := t.race.datagrams.erase sent
              clock := now
              result := some (.ok (reply.1, some (now - sent))) } := by
          unfold UdpRace.datagram
          simp only [hcut, Bool.false_eq_true, if_false]
        rw [hrace]
        exact .answered hmem hcut
  | tcp now res =>
    obtain ⟨⟨htcp, hclock⟩, hp⟩ := Option.ite_none_right_eq_some.mp hbranch
    cases hp
    refine ⟨hclock, ?_⟩
    cases res with
    | error err =>
      change Turn S t _ (if t.race.result.isSome then _ else _)
      rw [if_neg (not_returned hrun)]
      exact .tcpFailed err htcp
    | ok resp => exact .tcpAnswered resp htcp
  | nextSend now =>
    obtain ⟨⟨hany, hclock⟩, hp⟩ := Option.ite_none_right_eq_some.mp hbranch
    cases hp
    obtain ⟨due, hdue, hle⟩ := (Option.any_eq_true _ _).mp hany
    refine ⟨hclock, ?_⟩
    change Turn S t _ (if t.race.result.isSome then _ else _)
    rw [if_neg (not_returned hrun)]
    exact .nextSend hdue (of_decide_eq_true hle)
  | tcpDue now =>
    obtain ⟨⟨hany, hclock⟩, hp⟩ := Option.ite_none_right_eq_some.mp hbranch
    cases hp
    obtain ⟨due, hdue, hle⟩ := (Option.any_eq_true _ _).mp hany
    refine ⟨hclock, ?_⟩
    change Turn S t _ (if t.race.result.isSome then _ else _)
    rw [if_neg (not_returned hrun)]
    exact .tcpDue hdue (of_decide_eq_true hle)

/-- Sending a datagram leaves TCP as it is. -/
theorem send_tcp (now : Instant) (s : UdpRace) :
    (s.send now).tcp = s.tcp ∧ (s.send now).tcpDue = s.tcpDue ∧ (s.send now).clock = s.clock := by
  unfold UdpRace.send
  split <;> exact ⟨rfl, rfl, rfl⟩

/-- What the head of the loop leaves, but for the datagram it may send. -/
theorem top_cases (now : Instant) (s : UdpRace) : ∃ due res,
    s.top now = { s.send now with sendDue := false, tcpDue := due, result := res } ∧
      (due = s.tcpDue ∨ due = some now ∧ s.tcpDue.isSome ∧ (s.send now).sendsLeft = 0 ∧
        (s.send now).datagrams = []) ∧
      (res = s.result ∨ s.tcp = false ∧ due = none) := by
  obtain ⟨htcp, hdue, -⟩ := send_tcp now s
  rw [UdpRace.top_eq]
  unfold UdpRace.hurry UdpRace.giveUp
  simp only
  split
  · next hc =>
    refine ⟨some now, s.result, ?_, .inr ⟨rfl, hdue ▸ hc.2.2, hc.2.1, hc.1⟩, .inl rfl⟩
    rw [if_neg (fun h => nomatch h.2.2.2), ← result_send now s]
  · split
    · next hc => exact ⟨_, _, rfl, .inl hdue, .inr ⟨htcp ▸ hc.2.1,
        Option.isNone_iff_eq_none.mp hc.2.2.2⟩⟩
    · exact ⟨_, _, rfl, .inl hdue, .inl (result_send now s)⟩

/-! ## The datagrams -/

end UdpTrace

/-- What a wake is to the sender of the datagrams. -/
def UdpWake.pacing (S : SimpleDns) : UdpWake → Backoff.Wake
  | .datagram _ now (.error _) => .failed now
  | .datagram _ now (.ok (resp, maybeTruncated)) =>
    if maybeTruncated || truncated S resp then .stop now else .other now
  | .tcp now _ => .other now
  | .nextSend now => .timer now
  | .tcpDue now => .other now

theorem UdpWake.pacing_now (S : SimpleDns) (e : UdpWake) : (e.pacing S).now = e.now := by
  cases e with
  | datagram sent now res =>
    cases res with
    | error err => rfl
    | ok reply =>
      unfold UdpWake.pacing
      simp only
      split <;> rfl
  | tcp now res => rfl
  | nextSend now => rfl
  | tcpDue now => rfl

namespace UdpTrace

/-- How long after the `n`-th datagram the next one goes out. -/
def gap (retransmit n : Nat) : Nat := 2 ^ (n - 2) * retransmit

theorem gap_succ (retransmit n : Nat) : gap retransmit (n + 1) =
    if udpPacedDatagrams ≤ n + 1 then gap retransmit n * 2 else gap retransmit n := by
  unfold gap
  split
  · next h =>
    have hn : n + 1 - 2 = n - 2 + 1 := Nat.succ_sub (Nat.le_of_succ_le_succ h)
    rw [hn, Nat.pow_succ, Nat.mul_right_comm]
  · next h =>
    have hn : n + 1 - 2 = n - 2 := by
      have hlt : n + 1 < 3 := Nat.not_le.mp h
      omega
    rw [hn]

/-- The sender of the datagrams. -/
def sender (t : UdpTrace) : Backoff.Sender where
  sent := t.sent
  left := t.race.sendsLeft
  next := t.race.nextSend
  clock := t.race.clock

/-- The interval is the gap after the last datagram, while any are left. -/
def Interval (retransmit : Nat) (t : UdpTrace) : Prop :=
  0 < t.race.sendsLeft → t.sent.length + t.race.sendsLeft = udpDatagrams ∧
    t.race.interval = gap retransmit t.sent.length

variable {retransmit : Nat}

/-- The head of the loop sends as the sender does. -/
theorem sender_top {now : Instant} {t : UdpTrace} (hi : t.Interval retransmit)
    (hclock : t.race.clock = now) : (top now t).Interval retransmit ∧
      (top now t).sender =
        if t.race.sendDue then t.sender.send (gap retransmit) now else t.sender := by
  obtain ⟨due, res, htop, -, -⟩ := top_cases now t.race
  unfold Interval sender top
  rw [htop]
  unfold UdpRace.send Backoff.Sender.send
  by_cases hsend : t.race.sendDue = true ∧ 0 < t.race.sendsLeft
  · obtain ⟨hall, hinterval⟩ := hi hsend.2
    -- Counted either way, these are the datagrams that went out.
    have hcount : udpDatagrams - (t.race.sendsLeft - 1) = t.sent.length + 1 := by
      have hleft := hsend.2
      omega
    have hgap (hmore : 0 < t.race.sendsLeft - 1) :
        (if 0 < t.race.sendsLeft - 1 ∧
            udpPacedDatagrams ≤ udpDatagrams - (t.race.sendsLeft - 1) then t.race.interval * 2
          else t.race.interval) = gap retransmit (t.sent.length + 1) := by
      rw [gap_succ, hcount, hinterval]
      by_cases hpaced : udpPacedDatagrams ≤ t.sent.length + 1
      · rw [if_pos ⟨hmore, hpaced⟩, if_pos hpaced]
      · rw [if_neg fun h => hpaced h.2, if_neg hpaced]
    simp only [if_pos hsend, if_pos hsend.1, if_pos hsend.2, List.length_append,
      List.length_singleton]
    refine ⟨fun hmore => ⟨?_, hgap hmore⟩, ?_⟩
    · have hleft := hsend.2
      omega
    · by_cases hmore : 0 < t.race.sendsLeft - 1
      · simp only [if_pos hmore, hgap hmore, hclock]
      · simp only [if_neg hmore, hclock]
  · simp only [if_neg hsend]
    refine ⟨hi, ?_⟩
    by_cases hdue : t.race.sendDue = true
    · rw [if_pos hdue, if_neg fun hleft => hsend ⟨hdue, hleft⟩, ← hclock]
    · rw [if_neg hdue]

/-- At a wait no datagram is due, and the interval is the gap after the last. -/
def Waits (retransmit : Nat) (t : UdpTrace) : Prop :=
  t.race.sendDue = false ∧ t.Interval retransmit

/-- The head of the loop leads to a wait, and to what the sender comes to. -/
theorem sender_wait {now : Instant} {t : UdpTrace} {sender : Option Backoff.Sender}
    (hi : t.Interval retransmit) (hclock : t.race.clock = now)
    (hsender : sender =
      some (if t.race.sendDue then t.sender.send (gap retransmit) now else t.sender)) :
    (top now t).Waits retransmit ∧ sender = some (top now t).sender := by
  obtain ⟨hnext, htop⟩ := sender_top hi hclock
  refine ⟨⟨?_, hnext⟩, ?_⟩
  · obtain ⟨due, res, heq, -, -⟩ := top_cases now t.race
    unfold top
    rw [heq]
  · rw [hsender, htop]

/-- The datagrams of an attempt are those of a sender. -/
theorem sender_step {t t' : UdpTrace} {e : UdpWake} (hw : t.Waits retransmit)
    (h : t.step S e = some t') : t'.Waits retransmit ∧
      t.sender.step (gap retransmit) (e.pacing S) = some t'.sender := by
  obtain ⟨hdue, hi⟩ := hw
  obtain ⟨-, hclock, hturn⟩ := step_turn h
  cases hturn with
  | failed err hmem =>
    refine sender_wait ?_ rfl ?_
    · exact hi
    · exact if_pos hclock
  | truncated hmem hcut =>
    refine sender_wait (fun hleft => absurd hleft (Nat.lt_irrefl 0)) rfl ?_
    unfold UdpWake.pacing
    simp only [hcut, if_true, hdue, Bool.false_eq_true, if_false]
    exact if_pos hclock
  | answered hmem hcut =>
    refine ⟨⟨hdue, hi⟩, ?_⟩
    unfold UdpWake.pacing
    simp only [hcut, Bool.false_eq_true, if_false]
    exact if_pos hclock
  | tcpFailed err htcp =>
    refine sender_wait ?_ rfl ?_
    · exact hi
    · simp only [UdpRace.tcpReturned, hdue, Bool.false_eq_true, if_false]
      exact if_pos hclock
  | tcpAnswered resp htcp => exact ⟨⟨hdue, hi⟩, if_pos hclock⟩
  | @nextSend now due hsend hle =>
    have hany : t.sender.next.any (· ≤ now) = true :=
      (Option.any_eq_true _ _).mpr ⟨due, hsend, decide_eq_true hle⟩
    refine sender_wait ?_ rfl ?_
    · exact hi
    · exact if_pos ⟨hany, hclock⟩
  | tcpDue htcpDue hle =>
    refine sender_wait ?_ rfl ?_
    · exact hi
    · simp only [hdue, Bool.false_eq_true, if_false]
      exact if_pos hclock

theorem sender_start (retransmit : Nat) (now : Instant) :
    (start retransmit now).Waits retransmit ∧
      (start retransmit now).sender =
        Backoff.Sender.start (gap retransmit) udpDatagrams now := by
  have h : (start retransmit now).Waits retransmit ∧
      some (Backoff.Sender.start (gap retransmit) udpDatagrams now) =
        some (start retransmit now).sender :=
    sender_wait (fun _ => ⟨rfl, (Nat.one_mul _).symm⟩) rfl rfl
  exact ⟨h.1, (Option.some.inj h.2).symm⟩

/-- A run of an attempt is a run of the sender. -/
theorem sender_run {now : Instant} {events : List UdpWake} {t : UdpTrace}
    (hrun : Machine.run (step S) (start retransmit now) events = some t) :
    Machine.run (Backoff.Sender.step (gap retransmit))
      (Backoff.Sender.start (gap retransmit) udpDatagrams now) (events.map (UdpWake.pacing S)) =
        some t.sender := by
  obtain ⟨hw, hsender⟩ := sender_start retransmit now
  rw [← hsender]
  exact Machine.run_simulates (fun _ _ _ hw h => sender_step hw h) hw hrun

/-- What is due at a wait: the next datagram, and TCP. -/
def timing : Timing UdpTrace UdpWake where
  time := UdpWake.now
  due t := t.race.nextSend.toList ++ t.race.tcpDue.toList

theorem sender_timely {now : Instant} {events : List UdpWake} {t : UdpTrace} {lag : Nat}
    (hrun : Machine.run (step S) (start retransmit now) events = some t)
    (htimely : timing.Timely lag (step S) (start retransmit now) events) :
    Backoff.Sender.timing.Timely lag (Backoff.Sender.step (gap retransmit))
      (Backoff.Sender.start (gap retransmit) udpDatagrams now)
        (events.map (UdpWake.pacing S)) := by
  obtain ⟨hw, hsender⟩ := sender_start retransmit now
  rw [← hsender]
  refine Machine.along_simulates (fun _ _ _ hw h => sender_step hw h) ?_ hw htimely hrun
  intro t e _ hon d hd
  show (e.pacing S).now ≤ d + lag
  rw [UdpWake.pacing_now]
  exact hon d (List.mem_append_left _ hd)

/-! ## The answer -/

/-- The datagrams outstanding were sent, none of them after the clock. -/
def Flying (t : UdpTrace) : Prop :=
  (∀ d ∈ t.race.datagrams, d ∈ t.sent) ∧ ∀ d ∈ t.sent, d ≤ t.race.clock

theorem flying_top {now : Instant} {t : UdpTrace} (h : t.Flying) (hclock : t.race.clock = now) :
    (top now t).Flying := by
  obtain ⟨due, res, htop, -, -⟩ := top_cases now t.race
  unfold Flying top
  rw [htop]
  unfold UdpRace.send
  split
  · simp only [hclock]
    refine ⟨fun d hd => ?_, fun d hd => ?_⟩
    · exact List.mem_append.mpr ((List.mem_append.mp hd).imp_left (h.1 d))
    · rcases List.mem_append.mp hd with hd | hd
      · exact hclock ▸ h.2 d hd
      · exact Nat.le_of_eq (List.mem_singleton.mp hd)
  · exact h

theorem flying_step {t t' : UdpTrace} {e : UdpWake} (hf : t.Flying)
    (h : t.step S e = some t') : t'.Flying := by
  obtain ⟨-, hclock, hturn⟩ := step_turn h
  have hback {sent now : Instant} (hle : t.race.clock ≤ now) :
      (∀ d ∈ t.race.datagrams.erase sent, d ∈ t.sent) ∧ ∀ d ∈ t.sent, d ≤ now :=
    ⟨fun d hd => hf.1 d (List.mem_of_mem_erase hd), fun d hd => Nat.le_trans (hf.2 d hd) hle⟩
  have hsame {now : Instant} (hle : t.race.clock ≤ now) :
      (∀ d ∈ t.race.datagrams, d ∈ t.sent) ∧ ∀ d ∈ t.sent, d ≤ now :=
    ⟨hf.1, fun d hd => Nat.le_trans (hf.2 d hd) hle⟩
  cases hturn with
  | failed err hmem => exact flying_top (hback hclock) rfl
  | truncated hmem hcut => exact flying_top (hback hclock) rfl
  | answered hmem hcut => exact hback hclock
  | tcpFailed err htcp => exact flying_top (hsame hclock) rfl
  | tcpAnswered resp htcp => exact hsame hclock
  | nextSend hsend hle => exact flying_top (hsame hclock) rfl
  | tcpDue hdue hle => exact flying_top (hsame hclock) rfl

/-- The head of the loop returns no response. -/
theorem top_ok {now : Instant} {t : UdpTrace} {reply : Bytes × Option Nat}
    (hnone : t.race.result = none) : (top now t).race.result ≠ some (.ok reply) := by
  rw [top]
  simp only
  rw [UdpRace.top_eq]
  unfold UdpRace.giveUp
  split
  · simp
  · rw [result_hurry]
    simp only
    rw [result_send, hnone]
    simp

/-- A round trip is how long the datagram that brought the response was under way. -/
def RoundTrip (t : UdpTrace) : Prop :=
  ∀ resp d, t.race.result = some (.ok (resp, some d)) →
    ∃ sent maybeTruncated, sent ∈ t.sent ∧ sent + d = t.race.clock ∧
      t.wakes.getLast? = some (.datagram sent t.race.clock (.ok (resp, maybeTruncated)))

theorem roundTrip_step {t t' : UdpTrace} {e : UdpWake} (hf : t.Flying)
    (h : t.step S e = some t') : t'.RoundTrip := by
  obtain ⟨hrun, hclock, hturn⟩ := step_turn h
  intro resp d hresult
  cases hturn with
  | failed err hmem => exact absurd hresult (top_ok hrun)
  | truncated hmem hcut => exact absurd hresult (top_ok hrun)
  | @answered sent now reply hmem hcut =>
    cases hresult
    have hsent := hf.1 sent hmem
    have hle : sent ≤ now := Nat.le_trans (hf.2 sent hsent) hclock
    exact ⟨sent, reply.2, hsent, Nat.add_sub_cancel' hle, List.getLast?_concat⟩
  | tcpFailed err htcp => exact absurd hresult (top_ok hrun)
  | tcpAnswered resp' htcp => cases hresult
  | nextSend hsend hle => exact absurd hresult (top_ok hrun)
  | tcpDue hdue hle => exact absurd hresult (top_ok hrun)

/-- Every reachable attempt reports true round trips. -/
theorem roundTrip_run {now : Instant} {events : List UdpWake} {t : UdpTrace}
    (hrun : Machine.run (step S) (start retransmit now) events = some t) : t.RoundTrip := by
  have hflying : (start retransmit now).Flying :=
    flying_top ⟨fun d hd => (nomatch hd), fun d hd => (nomatch hd)⟩ rfl
  have h := Machine.run_invariant (P := fun t => t.Flying ∧ t.RoundTrip)
    (fun t e t' ht h => ⟨flying_step ht.1 h, roundTrip_step ht.1 h⟩)
    ⟨hflying, fun resp d h => absurd h (top_ok rfl)⟩ hrun
  exact h.2

theorem mem_pacing_failed {events : List UdpWake} {now : Instant}
    (h : .failed now ∈ events.map (UdpWake.pacing S)) :
    ∃ sent err, .datagram sent now (.error err) ∈ events := by
  obtain ⟨e, he, hpacing⟩ := List.mem_map.mp h
  cases e with
  | datagram sent now' res =>
    cases res with
    | error err =>
      cases hpacing
      exact ⟨sent, err, he⟩
    | ok reply =>
      unfold UdpWake.pacing at hpacing
      simp only at hpacing
      split at hpacing <;> cases hpacing
  | tcp now' res => cases hpacing
  | nextSend now' => cases hpacing
  | tcpDue now' => cases hpacing

theorem mem_pacing_stop {events : List UdpWake} {now : Instant}
    (h : .stop now ∈ events.map (UdpWake.pacing S)) :
    ∃ e ∈ events, e.truncatedDatagram S = true := by
  obtain ⟨e, he, hpacing⟩ := List.mem_map.mp h
  refine ⟨e, he, ?_⟩
  cases e with
  | datagram sent now' res =>
    cases res with
    | error err => cases hpacing
    | ok reply =>
      unfold UdpWake.pacing at hpacing
      simp only at hpacing
      split at hpacing
      · next hcut => exact hcut
      · cases hpacing
  | tcp now' res => cases hpacing
  | nextSend now' => cases hpacing
  | tcpDue now' => cases hpacing

end UdpTrace

/-- When datagram `k` of an attempt goes out, counted from the first. -/
def sendOffset (retransmit : Nat) : Nat → Nat
  | 0 => 0
  | k + 1 => 2 ^ k * retransmit

theorem offset_gap (retransmit k : Nat) :
    Backoff.offset (UdpTrace.gap retransmit) k = sendOffset retransmit k := by
  induction k with
  | zero => rfl
  | succ k ih =>
    rw [Backoff.offset_succ, ih]
    unfold UdpTrace.gap
    cases k with
    | zero => exact Nat.zero_add _
    | succ k =>
      show 2 ^ k * retransmit + 2 ^ k * retransmit = 2 ^ (k + 1) * retransmit
      rw [← Nat.two_mul, Nat.pow_succ, Nat.mul_comm (2 ^ k) 2, Nat.mul_assoc]

section Datagrams

variable {S : SimpleDns} {retransmit : Nat} {start : Instant} {events : List UdpWake}

/-- However an attempt is woken, its first datagram goes out at once, and each later one no sooner
than the gap after the one before, unless a datagram failed at that instant; and the round trip it
reports is the time the datagram that brought the response was under way, whatever was sent before
and after. -/
theorem datagrams_paced {s : UdpRace}
    (hrun : Machine.run (UdpRace.step S) (.start retransmit start) events = some s) :
    ∃ t, Machine.run (UdpTrace.step S) (.start retransmit start) events = some t ∧ t.race = s ∧
      t.sent[0]? = some start ∧
      (∀ k a b, t.sent[k]? = some a → t.sent[k + 1]? = some b →
        a + UdpTrace.gap retransmit (k + 1) ≤ b ∨
          ∃ sent err, .datagram sent b (.error err) ∈ events) ∧
      ∀ resp d, s.result = some (.ok (resp, some d)) →
        ∃ sent maybeTruncated, sent ∈ t.sent ∧ sent + d = s.clock ∧
          events.getLast? = some (.datagram sent s.clock (.ok (resp, maybeTruncated))) := by
  have hmap : (Machine.run (UdpTrace.step S) (.start retransmit start) events).map UdpTrace.race =
      Machine.run (UdpRace.step S) (.start retransmit start) events :=
    Machine.map_run UdpTrace.race_step _ events
  obtain ⟨t, ht, rfl⟩ := Option.map_eq_some_iff.mp (hmap.trans hrun)
  have hsender := UdpTrace.sender_run ht
  have hround := UdpTrace.roundTrip_run ht
  unfold UdpTrace.RoundTrip at hround
  rw [UdpTrace.run_wakes ht] at hround
  exact ⟨t, ht, rfl, Backoff.Sender.run_first hsender (by decide),
    Backoff.Sender.run_spaced hsender fun _ => UdpTrace.mem_pacing_failed, hround⟩

/-- With no timer more than `lag` late, datagram `k` goes out by its place in the schedule and as
much lag as there are datagrams before it, as long as no truncated response makes the datagrams
useless; and none goes out before its place when none fails. -/
theorem datagrams_on_schedule {lag : Nat} {t : UdpTrace}
    (hrun : Machine.run (UdpTrace.step S) (.start retransmit start) events = some t)
    (htimely : UdpTrace.timing.Timely lag (UdpTrace.step S) (.start retransmit start) events) :
    (∀ k d, t.sent[k]? = some d → d ≤ start + sendOffset retransmit k + k * lag) ∧
      ((∀ e ∈ events, e.truncatedDatagram S = false) → ∀ k < udpDatagrams,
        start + sendOffset retransmit k + k * lag < t.race.clock → k < t.sent.length) ∧
      ((∀ e ∈ events, e.failedDatagram = false) → ∀ k d, t.sent[k]? = some d →
        start + sendOffset retransmit k ≤ d) := by
  have hsender := UdpTrace.sender_run hrun
  have hsend := UdpTrace.sender_timely hrun htimely
  have hby (k : Nat) : Backoff.Sender.outBy (UdpTrace.gap retransmit) lag start k =
      start + sendOffset retransmit k + k * lag := by
    unfold Backoff.Sender.outBy
    rw [offset_gap]
  refine ⟨fun k d hd => ?_, fun hwhole k hk hlate => ?_, fun hfail k d hd => ?_⟩
  · rw [← hby]
    exact (Backoff.Sender.run_onSchedule hsender hsend).sent_by k d hd
  · refine Backoff.Sender.run_out hsender hsend ?_ hk ?_
    · intro now hstop
      obtain ⟨e, he, hcut⟩ := UdpTrace.mem_pacing_stop hstop
      rw [hwhole e he] at hcut
      cases hcut
    · rw [hby]
      exact hlate
  · rw [← offset_gap]
    refine Backoff.Sender.Spaced.offset_le ?_
      (Backoff.Sender.run_first hsender (by decide)) hd
    refine Backoff.Sender.run_spaced hsender fun now hfailed => ?_
    obtain ⟨sent, err, he⟩ := UdpTrace.mem_pacing_failed hfailed
    exact nomatch (hfail _ he : true = false)

end Datagrams

/-- The second datagram is sent and lost, and the first one comes back late. -/
def lateWakes : List UdpWake := [.nextSend 300000000, .datagram 0 350000000 (.ok ([], false))]

def lateAttempt : Option UdpTrace :=
  Machine.run (UdpTrace.step (.ofTable [])) (.start udpRetransmitMin 0) lateWakes

/-- The round trip reported is that of the first datagram. -/
theorem datagrams_paced_late : ∃ t, lateAttempt = some t ∧ t.sent[0]? = some 0 ∧
    ∃ sent ∈ t.sent, sent + 350000000 = t.race.clock := by
  have hrun : Machine.run (UdpRace.step (.ofTable [])) (.start udpRetransmitMin 0) lateWakes =
      some (lateAttempt.get rfl).race := rfl
  obtain ⟨t, ht, hrace, hfirst, -, hround⟩ := datagrams_paced hrun
  obtain ⟨sent, -, hmem, hflight, -⟩ := hround [] 350000000 rfl
  exact ⟨t, ht, hfirst, sent, hmem, hrace ▸ hflight⟩

/-- Its datagrams went out on time. -/
theorem datagrams_on_schedule_late : (lateAttempt.get rfl).sent[1]? = some 300000000 ∧
    300000000 ≤ 0 + sendOffset udpRetransmitMin 1 + 1 * 0 := by
  have htimely : UdpTrace.timing.Timely 0 (UdpTrace.step (.ofTable []))
      (.start udpRetransmitMin 0) lateWakes := by decide +kernel
  exact ⟨rfl, (datagrams_on_schedule (Option.some_get (rfl : lateAttempt.isSome = true)).symm
    htimely).1 1 300000000 rfl⟩

end N0DnsResolver
