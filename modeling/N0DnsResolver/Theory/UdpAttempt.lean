/-
  One attempt over UDP, with TCP joining it.

  `UdpTrace` takes the same turns as `DnsResolver::udp_query` and notes when a datagram was
  sent and what woke the loop. `Open` is what holds while the query waits, whatever woke it
  before: the datagrams sent are outstanding, failed or truncated, the timer of the next one
  is set, and TCP is due, in flight or failed. What holds of an attempt that ended is read off
  the last `Open` state.
-/
import N0DnsResolver.Lib.Machine
import N0DnsResolver.Model.Nameserver

namespace N0DnsResolver

/-! ## What woke the loop -/

namespace UdpWake

/-- A datagram failed. -/
def failedDatagram : UdpWake → Bool
  | .datagram _ _ (.error _) => true
  | _ => false

/-- A datagram came back truncated. -/
def truncatedDatagram (S : SimpleDns) : UdpWake → Bool
  | .datagram _ _ (.ok (resp, maybeTruncated)) => maybeTruncated || truncated S resp
  | _ => false

/-- A TCP query was started. -/
def startedTcp : UdpWake → Bool
  | .tcpDue _ => true
  | _ => false

/-- The TCP query returned. -/
def returnedTcp : UdpWake → Bool
  | .tcp _ _ => true
  | _ => false

/-- The TCP query failed. -/
def failedTcp : UdpWake → Bool
  | .tcp _ (.error _) => true
  | _ => false

/-- When the datagram was sent that failed or came back truncated. -/
def spent (S : SimpleDns) : UdpWake → Option Instant
  | .datagram sent _ (.error _) => some sent
  | .datagram sent _ (.ok (resp, maybeTruncated)) =>
    if maybeTruncated || truncated S resp then some sent else none
  | _ => none

/-- The response that came whole: in a datagram that was not truncated, or over TCP. -/
def whole (S : SimpleDns) : UdpWake → Option Bytes
  | .datagram _ _ (.ok (resp, maybeTruncated)) =>
    if maybeTruncated || truncated S resp then none else some resp
  | .tcp _ (.ok resp) => some resp
  | _ => none

end UdpWake

/-- A datagram is spent when it failed or came back truncated. -/
theorem spent_isSome (S : SimpleDns) (e : UdpWake) :
    (e.spent S).isSome.toNat = e.failedDatagram.toNat + (e.truncatedDatagram S).toNat := by
  cases e with
  | datagram sent now res =>
    cases res with
    | error err => rfl
    | ok reply =>
      change (if (reply.2 || truncated S reply.1) = true then some sent else none).isSome.toNat =
        0 + (reply.2 || truncated S reply.1).toNat
      cases reply.2 || truncated S reply.1 <;> rfl
  | tcp now res => rfl
  | nextSend now => rfl
  | tcpDue now => rfl

theorem countP_cons_toNat {α : Type} (p : α → Bool) (a : α) (l : List α) :
    (a :: l).countP p = l.countP p + (p a).toNat := by
  rw [List.countP_cons]
  cases p a <;> rfl

theorem spent_length (S : SimpleDns) (wakes : List UdpWake) :
    (wakes.filterMap (UdpWake.spent S)).length =
      wakes.countP UdpWake.failedDatagram + wakes.countP (UdpWake.truncatedDatagram S) := by
  rw [List.length_filterMap_eq_countP]
  induction wakes with
  | nil => rfl
  | cons e wakes ih =>
    have he := spent_isSome S e
    simp only [countP_cons_toNat]
    omega

/-! ## The trace -/

namespace UdpRace

/-- The state `DnsResolver::udp_query` enters its loop with. -/
def initial (retransmit : Nat) (now : Instant) : UdpRace where
  datagrams := []
  tcp := false
  nextSend := none
  tcpDue := some (now + tcpJoinDelay)
  sendsLeft := udpDatagrams
  interval := retransmit
  sendDue := true
  lastErr := none
  clock := now
  result := none

/-- Brings TCP in at once, when no datagram can answer any more. -/
def hurry (now : Instant) (s : UdpRace) : UdpRace :=
  if s.datagrams = [] ∧ s.sendsLeft = 0 ∧ s.tcpDue.isSome then { s with tcpDue := some now } else s

/-- Returns the last error, when nothing is left in flight or to start. -/
def giveUp (s : UdpRace) : UdpRace :=
  if s.datagrams = [] ∧ s.tcp = false ∧ s.nextSend.isNone ∧ s.tcpDue.isNone then
    { s with result := some (.error (s.lastErr.getD .noResponse)) }
  else s

theorem start_eq (retransmit : Nat) (now : Instant) :
    start retransmit now = (initial retransmit now).top now := rfl

theorem top_eq (now : Instant) (s : UdpRace) :
    s.top now = (hurry now { s.send now with sendDue := false }).giveUp := rfl

end UdpRace

/-- An attempt, with when its datagrams were sent and what woke it, oldest first. The code keeps
neither list. -/
structure UdpTrace where
  race : UdpRace
  sent : List Instant
  wakes : List UdpWake

namespace UdpTrace

/-- The head of the loop. -/
def top (now : Instant) (t : UdpTrace) : UdpTrace :=
  { t with
    race := t.race.top now
    sent := if t.race.sendDue ∧ 0 < t.race.sendsLeft then t.sent ++ [now] else t.sent }

/-- A new attempt, up to its first wait. -/
def start (retransmit : Nat) (now : Instant) : UdpTrace :=
  top now ⟨.initial retransmit now, [], []⟩

/-- One turn of the loop. -/
def step (S : SimpleDns) (t : UdpTrace) (e : UdpWake) : Option UdpTrace :=
  if t.race.result.isSome then none
  else
    (t.race.branch S e).map fun p =>
      let t := { t with race := p.2, wakes := t.wakes ++ [e] }
      if p.2.result.isSome then t else t.top p.1

variable {S : SimpleDns}

/-- The trace takes the turns of the code. -/
theorem race_step (t : UdpTrace) (e : UdpWake) : (t.step S e).map race = t.race.step S e := by
  unfold step UdpRace.step
  split
  · rfl
  · rw [Option.map_map]
    apply congrArg (Option.map · (t.race.branch S e))
    funext p
    simp only [Function.comp_apply]
    split <;> rfl

theorem step_wakes {t t' : UdpTrace} {e : UdpWake} (h : t.step S e = some t') :
    t'.wakes = t.wakes ++ [e] := by
  unfold step at h
  split at h
  · simp at h
  · obtain ⟨p, -, hp⟩ := Option.map_eq_some_iff.mp h
    simp only at hp
    split at hp
    · rw [← hp]
    · rw [← hp]
      rfl

/-! ## The invariant -/

/-- TCP may start at this instant: its delay is over, an answer was truncated, or every datagram
failed. -/
def TcpMayStart (S : SimpleDns) (start now : Instant) (wakes : List UdpWake) : Prop :=
  start + tcpJoinDelay ≤ now ∨ 0 < wakes.countP (UdpWake.truncatedDatagram S) ∨
    udpDatagrams ≤ wakes.countP UdpWake.failedDatagram

/-- What holds of every attempt, ended or not. -/
structure Sound (S : SimpleDns) (start : Instant) (t : UdpTrace) : Prop where
  few_sent : t.sent.length + t.race.sendsLeft ≤ udpDatagrams
  -- No TCP query was replaced by another: those started returned, but for the one in flight.
  one_tcp : t.wakes.countP UdpWake.startedTcp =
    t.wakes.countP UdpWake.returnedTcp + t.race.tcp.toNat
  no_overlap : t.race.tcp = true → t.race.tcpDue = none
  not_early : ∀ before now after, t.wakes = before ++ .tcpDue now :: after →
    TcpMayStart S start now before

/-- What holds besides while the attempt goes on. -/
structure Open (S : SimpleDns) (start : Instant) (t : UdpTrace) : Prop extends
    Sound S start t where
  all_sent : t.wakes.countP (UdpWake.truncatedDatagram S) = 0 →
    t.sent.length + t.race.sendsLeft = udpDatagrams
  timer : 0 < t.race.sendsLeft → t.race.sendDue = true ∨ t.race.nextSend.isSome
  spent : t.sent.Perm (t.race.datagrams ++ t.wakes.filterMap (UdpWake.spent S))
  deadline : ∀ due, t.race.tcpDue = some due → TcpMayStart S start due t.wakes
  tcp_tried : t.race.tcpDue = none → 0 < t.wakes.countP UdpWake.startedTcp
  tcp_failed : t.wakes.countP UdpWake.returnedTcp = t.wakes.countP UdpWake.failedTcp
  last_err : 0 < t.wakes.countP UdpWake.failedTcp → t.race.lastErr.isSome

/-- The attempt waits, returned a whole answer, or gave up. -/
def Reached (S : SimpleDns) (start : Instant) (t : UdpTrace) : Prop :=
  (t.race.result = none ∧ t.race.sendDue = false ∧ t.Open S start) ∨
    (∃ resp rtt e, t.race.result = some (.ok (resp, rtt)) ∧ t.Sound S start ∧
      t.wakes.getLast? = some e ∧ e.whole S = some resp) ∨
    (∃ e, t.race.result = some (.error e) ∧ t.Open S start ∧ t.race.sendDue = false ∧
      t.race.datagrams = [] ∧ t.race.tcp = false ∧ t.race.nextSend = none ∧
      t.race.tcpDue = none ∧ e = t.race.lastErr.getD .noResponse)

theorem TcpMayStart.later {start now now' : Instant} {wakes : List UdpWake}
    (h : TcpMayStart S start now wakes) (hle : now ≤ now') : TcpMayStart S start now' wakes :=
  h.imp_left fun hnow => Nat.le_trans hnow hle

theorem TcpMayStart.concat {start now : Instant} {wakes : List UdpWake}
    (h : TcpMayStart S start now wakes) (e : UdpWake) :
    TcpMayStart S start now (wakes ++ [e]) := by
  unfold TcpMayStart at h ⊢
  rw [List.countP_append, List.countP_append]
  exact h.imp_right fun h => h.imp (Nat.lt_add_right _) (Nat.le_add_right_of_le)

/-- The head of the loop, once the datagram that was due is sent. -/
theorem open_sent {start : Instant} {t : UdpTrace} (h : t.Open S start) (now : Instant) :
    Open S start
      { t with
        race := { t.race.send now with sendDue := false }
        sent := if t.race.sendDue ∧ 0 < t.race.sendsLeft then t.sent ++ [now] else t.sent } := by
  unfold UdpRace.send
  by_cases hdue : t.race.sendDue = true ∧ 0 < t.race.sendsLeft
  · rw [if_pos hdue, if_pos hdue]
    have hfew := h.few_sent
    exact { h with
      few_sent := by
        rw [List.length_append, List.length_singleton]
        simp only
        omega
      all_sent := fun hnone => by
        have hall := h.all_sent hnone
        rw [List.length_append, List.length_singleton]
        simp only
        omega
      timer := fun hleft => .inr (by
        simp only at hleft ⊢
        rw [if_pos hleft]
        rfl)
      spent := by
        have hspent := h.spent.append_right [now]
        refine hspent.trans ?_
        rw [List.append_assoc, List.append_assoc]
        exact List.perm_append_comm.append_left _ }
  · rw [if_neg hdue, if_neg hdue]
    exact { h with
      timer := fun hleft => .inr ((h.timer hleft).resolve_left fun hsend => hdue ⟨hsend, hleft⟩) }

/-- Datagrams that all came back, with none truncated, all failed. -/
theorem Open.all_failed {start : Instant} {t : UdpTrace} (h : t.Open S start)
    (hdatagrams : t.race.datagrams = []) (hleft : t.race.sendsLeft = 0) (now : Instant) :
    TcpMayStart S start now t.wakes := by
  right
  have hlen := h.spent.length_eq
  rw [hdatagrams, List.nil_append, spent_length] at hlen
  have hall := h.all_sent
  omega

/-- TCP brought in at once is not early. -/
theorem open_hurry {start : Instant} {t : UdpTrace} (h : t.Open S start) (now : Instant) :
    Open S start { t with race := t.race.hurry now } := by
  unfold UdpRace.hurry
  split
  · next hc =>
    obtain ⟨hdatagrams, hleft, hdue⟩ := hc
    exact { h with
      no_overlap := fun htcp => by
        rw [h.no_overlap htcp] at hdue
        cases hdue
      deadline := fun due hdue => by
        cases hdue
        exact h.all_failed hdatagrams hleft now
      tcp_tried := fun hnone => nomatch hnone }
  · exact h

/-- With nothing left in flight or to start, the attempt gives up; else it waits. -/
theorem reached_giveUp {start : Instant} {t : UdpTrace} (h : t.Open S start)
    (hdue : t.race.sendDue = false) (hrun : t.race.result = none) :
    Reached S start { t with race := t.race.giveUp } := by
  unfold UdpRace.giveUp
  split
  · next hc =>
    obtain ⟨hdatagrams, htcp, hsend, htcpDue⟩ := hc
    right; right
    exact ⟨_, rfl, { h with }, hdue, hdatagrams, htcp, Option.isNone_iff_eq_none.mp hsend,
      Option.isNone_iff_eq_none.mp htcpDue, rfl⟩
  · exact .inl ⟨hrun, hdue, h⟩

theorem result_hurry (now : Instant) (s : UdpRace) : (s.hurry now).result = s.result := by
  unfold UdpRace.hurry
  split <;> rfl

theorem sendDue_hurry (now : Instant) (s : UdpRace) : (s.hurry now).sendDue = s.sendDue := by
  unfold UdpRace.hurry
  split <;> rfl

theorem result_send (now : Instant) (s : UdpRace) : (s.send now).result = s.result := by
  unfold UdpRace.send
  split <;> rfl

/-- The head of the loop leads to a wait, or gives up. -/
theorem reached_top {start now : Instant} {t : UdpTrace} (h : t.Open S start)
    (hrun : t.race.result = none) : Reached S start (t.top now) := by
  have hnext := open_hurry (open_sent h now) now
  unfold top
  rw [UdpRace.top_eq]
  refine reached_giveUp hnext ?_ ?_
  · exact sendDue_hurry now _
  · exact (result_hurry now _).trans ((result_send now t.race).trans hrun)

theorem reached_start (S : SimpleDns) (retransmit : Nat) (now : Instant) :
    Reached S now (start retransmit now) := by
  refine reached_top ?_ rfl
  exact {
    few_sent := Nat.le_refl _
    one_tcp := rfl
    no_overlap := fun htcp => nomatch htcp
    not_early := fun before at' after hwakes => by
      cases before <;> cases hwakes
    all_sent := fun _ => rfl
    timer := fun _ => .inl rfl
    spent := .nil
    deadline := fun due hdue => by
      cases hdue
      exact .inl (Nat.le_refl _)
    tcp_tried := fun hnone => nomatch hnone
    tcp_failed := rfl
    last_err := fun hfailed => nomatch hfailed }

/-! ## The branches -/

/-- TCP did not start early if it did not before and does not now. -/
theorem not_early_concat {start : Instant} {wakes : List UdpWake} {e : UdpWake}
    (h : ∀ before now after, wakes = before ++ .tcpDue now :: after →
      TcpMayStart S start now before)
    (he : ∀ now, e = .tcpDue now → TcpMayStart S start now wakes) :
    ∀ before now after, wakes ++ [e] = before ++ .tcpDue now :: after →
      TcpMayStart S start now before := by
  intro before now after hsplit
  rcases Machine.concat_eq_append_cons.mp hsplit with ⟨rfl, hlast, -⟩ | ⟨rest, -, hbefore⟩
  · exact he now hlast
  · exact h before now rest hbefore

/-- A datagram that came back is no longer outstanding. -/
theorem perm_spent {sent : Instant} {all datagrams spent : List Instant}
    (h : all.Perm (datagrams ++ spent)) (hmem : sent ∈ datagrams) :
    all.Perm (datagrams.erase sent ++ (spent ++ [sent])) := by
  refine h.trans ?_
  have hout : (datagrams ++ spent).Perm (sent :: datagrams.erase sent ++ spent) :=
    (List.perm_cons_erase hmem).append_right spent
  have hback : (sent :: datagrams.erase sent ++ spent).Perm
      (datagrams.erase sent ++ (spent ++ [sent])) := by
    rw [← List.append_assoc]
    exact (List.perm_append_singleton sent _).symm
  exact hout.trans hback

section Branches

variable {start sent now : Instant} {t : UdpTrace}

/-- A wake that neither starts TCP nor ends it leaves what holds of every attempt. -/
theorem sound_quiet (h : t.Sound S start) {e : UdpWake} {race : UdpRace}
    (hstarted : e.startedTcp = false) (hreturned : e.returnedTcp = false)
    (hleft : race.sendsLeft ≤ t.race.sendsLeft) (htcp : race.tcp = t.race.tcp)
    (hdue : race.tcp = true → race.tcpDue = t.race.tcpDue) :
    Sound S start { t with race := race, wakes := t.wakes ++ [e] } where
  few_sent := Nat.le_trans (Nat.add_le_add_left hleft _) h.few_sent
  one_tcp := by
    have hnone (p : UdpWake → Bool) (hp : p e = false) :
        (t.wakes ++ [e]).countP p = t.wakes.countP p := by
      rw [List.countP_append, List.countP_singleton, hp]
      rfl
    rw [hnone _ hstarted, hnone _ hreturned, htcp]
    exact h.one_tcp
  no_overlap := fun hrun => (hdue hrun).trans (h.no_overlap (htcp ▸ hrun))
  not_early := not_early_concat h.not_early fun _ he => by
    rw [he] at hstarted
    cases hstarted

theorem open_failed (h : t.Open S start) (hmem : sent ∈ t.race.datagrams)
    (err : TransportError) : Open S start
      { t with
        race := t.race.datagram S sent now (.error err)
        wakes := t.wakes ++ [.datagram sent now (.error err)] } where
  toSound := sound_quiet h.toSound rfl rfl (Nat.le_refl _) rfl fun _ => rfl
  all_sent := by
    rw [List.countP_append]
    exact h.all_sent
  timer := fun _ => .inl rfl
  spent := by
    rw [List.filterMap_append]
    exact perm_spent h.spent hmem
  deadline := fun due hdue => (h.deadline due hdue).concat _
  tcp_tried := fun hnone => by
    rw [List.countP_append]
    exact h.tcp_tried hnone
  tcp_failed := by
    rw [List.countP_append, List.countP_append]
    exact h.tcp_failed
  last_err := fun _ => rfl

theorem open_truncated (h : t.Open S start) (hmem : sent ∈ t.race.datagrams)
    {resp : Bytes} {maybeTruncated : Bool} (hcut : (maybeTruncated || truncated S resp) = true) :
    Open S start
      { t with
        race := t.race.datagram S sent now (.ok (resp, maybeTruncated))
        wakes := t.wakes ++ [.datagram sent now (.ok (resp, maybeTruncated))] } := by
  have hcount : 0 < (t.wakes ++ [UdpWake.datagram sent now (.ok (resp, maybeTruncated))]).countP
      (UdpWake.truncatedDatagram S) :=
    List.countP_pos_iff.mpr ⟨_, List.mem_append_right _ List.mem_cons_self, hcut⟩
  unfold UdpRace.datagram
  simp only [hcut, if_true]
  exact {
    toSound := sound_quiet h.toSound rfl rfl (Nat.zero_le _) rfl fun htcp => if_pos htcp
    all_sent := fun hnone => by
      rw [hnone] at hcount
      exact absurd hcount (Nat.lt_irrefl _)
    timer := fun hleft => nomatch hleft
    spent := by
      have hspent : UdpWake.spent S (.datagram sent now (.ok (resp, maybeTruncated))) = some sent :=
        if_pos hcut
      rw [List.filterMap_append, List.filterMap_cons_some hspent]
      exact perm_spent h.spent hmem
    deadline := fun due hdue => .inr (.inl hcount)
    tcp_tried := fun hnone => by
      rw [List.countP_append]
      simp only at hnone
      split at hnone
      · exact h.tcp_tried hnone
      · cases hnone
    tcp_failed := by
      rw [List.countP_append, List.countP_append]
      exact h.tcp_failed
    last_err := fun hfailed => by
      rw [List.countP_append] at hfailed
      exact h.last_err hfailed }

theorem sound_tcp (h : t.Open S start) (htcp : t.race.tcp = true) (now : Instant)
    (res : Except TransportError Bytes) : Sound S start
      { t with
        race := { t.race with tcp := false, clock := now }
        wakes := t.wakes ++ [.tcp now res] } where
  few_sent := h.few_sent
  one_tcp := by
    have hone := h.one_tcp
    rw [htcp] at hone
    rw [List.countP_append, List.countP_append]
    exact hone
  no_overlap := fun hfalse => nomatch hfalse
  not_early := not_early_concat h.not_early fun _ he => nomatch he

theorem open_tcpFailed (h : t.Open S start) (htcp : t.race.tcp = true) (err : TransportError) :
    Open S start
      { t with
        race := t.race.tcpReturned now (.error err)
        wakes := t.wakes ++ [.tcp now (.error err)] } where
  toSound := { sound_tcp h htcp now (.error err) with }
  all_sent := by
    rw [List.countP_append]
    exact h.all_sent
  timer := h.timer
  spent := by
    rw [List.filterMap_append]
    exact (List.append_nil _).symm ▸ h.spent
  deadline := fun due hdue => (h.deadline due hdue).concat _
  tcp_tried := fun hnone => by
    rw [List.countP_append]
    exact h.tcp_tried hnone
  tcp_failed := by
    rw [List.countP_append, List.countP_append, h.tcp_failed]
    rfl
  last_err := fun _ => rfl

theorem open_nextSend (h : t.Open S start) : Open S start
    { t with
      race := { t.race with nextSend := none, sendDue := true, clock := now }
      wakes := t.wakes ++ [.nextSend now] } where
  toSound := sound_quiet h.toSound rfl rfl (Nat.le_refl _) rfl fun _ => rfl
  all_sent := by
    rw [List.countP_append]
    exact h.all_sent
  timer := fun _ => .inl rfl
  spent := by
    rw [List.filterMap_append]
    exact (List.append_nil _).symm ▸ h.spent
  deadline := fun due hdue => (h.deadline due hdue).concat _
  tcp_tried := fun hnone => by
    rw [List.countP_append]
    exact h.tcp_tried hnone
  tcp_failed := by
    rw [List.countP_append, List.countP_append]
    exact h.tcp_failed
  last_err := fun hfailed => by
    rw [List.countP_append] at hfailed
    exact h.last_err hfailed

theorem open_tcpDue (h : t.Open S start) {due : Instant} (hdue : t.race.tcpDue = some due)
    (hle : due ≤ now) : Open S start
      { t with
        race := { t.race with tcpDue := none, tcp := true, clock := now }
        wakes := t.wakes ++ [.tcpDue now] } where
  few_sent := h.few_sent
  one_tcp := by
    have hfree : t.race.tcp = false := by
      by_contra htcp
      rw [h.no_overlap (Bool.not_eq_false _ ▸ htcp)] at hdue
      cases hdue
    have hone := h.one_tcp
    rw [hfree] at hone
    rw [List.countP_append, List.countP_append, hone]
    rfl
  no_overlap := fun _ => rfl
  not_early := by
    refine not_early_concat h.not_early fun now' he => ?_
    cases he
    exact (h.deadline due hdue).later hle
  all_sent := by
    rw [List.countP_append]
    exact h.all_sent
  timer := h.timer
  spent := by
    rw [List.filterMap_append]
    exact (List.append_nil _).symm ▸ h.spent
  deadline := fun _ hnone => nomatch hnone
  tcp_tried := fun _ => by
    rw [List.countP_append]
    exact Nat.succ_pos _
  tcp_failed := by
    rw [List.countP_append, List.countP_append]
    exact h.tcp_failed
  last_err := fun hfailed => by
    rw [List.countP_append] at hfailed
    exact h.last_err hfailed

end Branches

/-! ## Runs -/

/-- A turn that did not return, on to the next wait. -/
theorem reached_next {start now : Instant} {race : UdpRace} {sent : List Instant}
    {wakes : List UdpWake} (hrun : race.result = none) (h : Open S start ⟨race, sent, wakes⟩) :
    Reached S start (if race.result.isSome then ⟨race, sent, wakes⟩
      else top now ⟨race, sent, wakes⟩) := by
  rw [hrun]
  exact reached_top h hrun

/-- A truncated datagram does not end the attempt. -/
theorem result_truncated (s : UdpRace) (sent now : Instant) {resp : Bytes} {maybeTruncated : Bool}
    (hcut : (maybeTruncated || truncated S resp) = true) :
    (s.datagram S sent now (.ok (resp, maybeTruncated))).result = s.result := by
  unfold UdpRace.datagram
  simp only [hcut, if_true]

/-- A whole answer ends it. -/
theorem reached_answer {start sent now : Instant} {t : UdpTrace} (h : t.Open S start)
    {resp : Bytes} {maybeTruncated : Bool}
    (hcut : ¬ (maybeTruncated || truncated S resp) = true) :
    (t.race.datagram S sent now (.ok (resp, maybeTruncated))).result.isSome = true ∧
      Reached S start
        { t with
          race := t.race.datagram S sent now (.ok (resp, maybeTruncated))
          wakes := t.wakes ++ [.datagram sent now (.ok (resp, maybeTruncated))] } := by
  have hwhole : UdpWake.whole S (.datagram sent now (.ok (resp, maybeTruncated))) = some resp :=
    if_neg hcut
  have hrace : t.race.datagram S sent now (.ok (resp, maybeTruncated)) =
      { t.race with
        datagrams := t.race.datagrams.erase sent
        clock := now
        result := some (.ok (resp, some (now - sent))) } := by
    unfold UdpRace.datagram
    simp only [hcut, Bool.false_eq_true, if_false]
  rw [hrace]
  refine ⟨rfl, .inr (.inl ⟨resp, _, _, rfl, ?_, List.getLast?_concat, hwhole⟩)⟩
  exact sound_quiet h.toSound rfl rfl (Nat.le_refl _) rfl fun _ => rfl

/-- A turn leads from a wait to a wait or to the end. -/
theorem reached_step {start : Instant} {t t' : UdpTrace} {e : UdpWake}
    (hstep : t.step S e = some t') (h : t.Reached S start) : t'.Reached S start := by
  unfold step at hstep
  split at hstep
  · simp at hstep
  · next hnone =>
    have hrun : t.race.result = none := by simpa using hnone
    have hopen : t.Open S start := by
      rcases h with ⟨-, -, hopen⟩ | ⟨_, _, _, hsome, -⟩ | ⟨_, hsome, -⟩
      · exact hopen
      · exact nomatch hrun.symm.trans hsome
      · exact nomatch hrun.symm.trans hsome
    obtain ⟨p, hbranch, hp⟩ := Option.map_eq_some_iff.mp hstep
    subst hp
    cases e with
    | datagram sent now res =>
      simp only [UdpRace.branch] at hbranch
      split at hbranch
      · next hc =>
        cases hbranch
        cases res with
        | error err => exact reached_next hrun (open_failed hopen hc.1 err)
        | ok reply =>
          obtain ⟨resp, maybeTruncated⟩ := reply
          by_cases hcut : (maybeTruncated || truncated S resp) = true
          · have hsame := (result_truncated t.race sent now hcut).trans hrun
            exact reached_next hsame (open_truncated hopen hc.1 hcut)
          · obtain ⟨hsome, hreached⟩ := reached_answer hopen hcut
            rw [if_pos hsome]
            exact hreached
      · simp at hbranch
    | tcp now res =>
      simp only [UdpRace.branch] at hbranch
      split at hbranch
      · next hc =>
        cases hbranch
        cases res with
        | error err => exact reached_next hrun (open_tcpFailed hopen hc.1 err)
        | ok resp =>
          refine .inr (.inl ⟨resp, none, .tcp now (.ok resp), rfl, ?_, List.getLast?_concat, rfl⟩)
          exact { sound_tcp hopen hc.1 now (.ok resp) with }
      · simp at hbranch
    | nextSend now =>
      simp only [UdpRace.branch] at hbranch
      split at hbranch
      · cases hbranch
        exact reached_next hrun (open_nextSend hopen)
      · simp at hbranch
    | tcpDue now =>
      simp only [UdpRace.branch] at hbranch
      split at hbranch
      · next hc =>
        cases hbranch
        obtain ⟨due, hdue, hle⟩ := (Option.any_eq_true _ _).mp hc.1
        exact reached_next hrun (open_tcpDue hopen hdue (of_decide_eq_true hle))
      · simp at hbranch

/-- What an attempt keeps to, whatever woke it. -/
structure Kept (S : SimpleDns) (start : Instant) (t : UdpTrace) : Prop where
  few_sent : t.sent.length ≤ udpDatagrams
  one_tcp : t.wakes.countP UdpWake.startedTcp =
    t.wakes.countP UdpWake.returnedTcp + t.race.tcp.toNat
  no_overlap : t.race.tcp = true → t.race.tcpDue = none
  timer : t.race.result = none → 0 < t.race.sendsLeft → t.race.nextSend.isSome
  not_early : ∀ before now after, t.wakes = before ++ .tcpDue now :: after →
    TcpMayStart S start now before
  answered : ∀ resp rtt, t.race.result = some (.ok (resp, rtt)) →
    ∃ e, t.wakes.getLast? = some e ∧ e.whole S = some resp
  spent : ∀ e, t.race.result = some (.error e) →
    t.sent.Perm (t.wakes.filterMap (UdpWake.spent S)) ∧ t.race.sendsLeft = 0
  tcp_failed : ∀ e, t.race.result = some (.error e) →
    0 < t.wakes.countP UdpWake.failedTcp ∧
      t.wakes.countP UdpWake.startedTcp = t.wakes.countP UdpWake.failedTcp
  last_err : ∀ e, t.race.result = some (.error e) → t.race.lastErr = some e

theorem Sound.few {start : Instant} {t : UdpTrace} (h : t.Sound S start) :
    t.sent.length ≤ udpDatagrams :=
  Nat.le_trans (Nat.le_add_right _ _) h.few_sent

theorem kept_of_reached {start : Instant} {t : UdpTrace} (h : t.Reached S start) :
    t.Kept S start := by
  rcases h with ⟨hrun, hdue, hopen⟩ | ⟨resp, rtt, e, hresult, hsound, hlast, hwhole⟩ |
    ⟨e, hresult, hopen, hdue, hdatagrams, htcp, hsend, htcpDue, he⟩
  · exact { hopen.toSound with
      few_sent := hopen.toSound.few
      timer := fun _ hleft => (hopen.timer hleft).resolve_left (by rw [hdue]; decide)
      answered := fun _ _ h => nomatch hrun.symm.trans h
      spent := fun _ h => nomatch hrun.symm.trans h
      tcp_failed := fun _ h => nomatch hrun.symm.trans h
      last_err := fun _ h => nomatch hrun.symm.trans h }
  · exact { hsound with
      few_sent := hsound.few
      timer := fun h => nomatch hresult.symm.trans h
      answered := fun resp' rtt' h => by
        cases hresult.symm.trans h
        exact ⟨e, hlast, hwhole⟩
      spent := fun _ h => nomatch hresult.symm.trans h
      tcp_failed := fun _ h => nomatch hresult.symm.trans h
      last_err := fun _ h => nomatch hresult.symm.trans h }
  · have hleft : t.race.sendsLeft = 0 := by
      by_contra hne
      rcases hopen.timer (Nat.pos_of_ne_zero hne) with hsend' | hsend'
      · rw [hdue] at hsend'
        cases hsend'
      · rw [hsend] at hsend'
        cases hsend'
    have hcount : t.wakes.countP UdpWake.startedTcp = t.wakes.countP UdpWake.failedTcp := by
      have hone := hopen.one_tcp
      rw [htcp, hopen.tcp_failed] at hone
      exact hone
    have htried := hopen.tcp_tried htcpDue
    rw [hcount] at htried
    obtain ⟨err, herr⟩ := Option.isSome_iff_exists.mp (hopen.last_err htried)
    exact { hopen.toSound with
      few_sent := hopen.toSound.few
      timer := fun h => nomatch hresult.symm.trans h
      answered := fun _ _ h => nomatch hresult.symm.trans h
      spent := fun _ _ => by
        have hspent := hopen.spent
        rw [hdatagrams] at hspent
        exact ⟨hspent, hleft⟩
      tcp_failed := fun _ _ => ⟨htried, hcount⟩
      last_err := fun e' h => by
        cases hresult.symm.trans h
        rw [he, herr]
        rfl }

theorem run_wakes {t t' : UdpTrace} {events : List UdpWake}
    (hrun : Machine.run (step S) t events = some t') : t'.wakes = t.wakes ++ events := by
  induction events generalizing t with
  | nil =>
    cases hrun
    exact (List.append_nil _).symm
  | cons e events ih =>
    obtain ⟨u, hstep, hrest⟩ := Machine.run_cons_eq_some hrun
    rw [ih hrest, step_wakes hstep, List.append_assoc]
    rfl

end UdpTrace

/-- In whatever order its datagrams, its TCP query and its timers come, an attempt keeps to its
bounds, and ends with a whole answer or with everything tried. -/
theorem udp_attempt {S : SimpleDns} {retransmit : Nat} {start : Instant} {events : List UdpWake}
    {s : UdpRace}
    (hrun : Machine.run (UdpRace.step S) (.start retransmit start) events = some s) :
    ∃ t, Machine.run (UdpTrace.step S) (.start retransmit start) events = some t ∧
      t.race = s ∧ t.wakes = events ∧ t.Kept S start := by
  have hstart : (UdpTrace.start retransmit start).race = .start retransmit start :=
    (UdpRace.start_eq retransmit start).symm
  have hmap : (Machine.run (UdpTrace.step S) (.start retransmit start) events).map UdpTrace.race =
      Machine.run (UdpRace.step S) (.start retransmit start) events := by
    rw [Machine.map_run UdpTrace.race_step, hstart]
  obtain ⟨t, ht, hrace⟩ := Option.map_eq_some_iff.mp (hmap.trans hrun)
  refine ⟨t, ht, hrace, UdpTrace.run_wakes ht, UdpTrace.kept_of_reached ?_⟩
  exact Machine.run_invariant (fun u e u' hu hstep => UdpTrace.reached_step hstep hu)
    (UdpTrace.reached_start S retransmit start) ht

/-- Every datagram is refused at once, and so is TCP. -/
def refusedWakes : List UdpWake :=
  [.datagram 0 1 (.error .io), .datagram 1 2 (.error .io), .datagram 2 3 (.error .io),
    .datagram 3 4 (.error .io), .datagram 4 5 (.error .io), .datagram 5 6 (.error .io),
    .tcpDue 6, .tcp 7 (.error .io)]

def refusedAttempt : Option UdpRace :=
  Machine.run (UdpRace.step (SimpleDns.ofTable [])) (.start udpRetransmitMin 0) refusedWakes

/-- TCP starts once the last datagram failed, and the attempt ends with the error of TCP. -/
theorem udp_attempt_refused :
    (refusedAttempt.get rfl).result = some (.error (.transport .io)) ∧
      ∃ t : UdpTrace, t.race = refusedAttempt.get rfl ∧ t.wakes = refusedWakes ∧
        t.Kept (SimpleDns.ofTable []) 0 := by
  refine ⟨rfl, ?_⟩
  obtain ⟨t, -, hrace, hwakes, hkept⟩ := udp_attempt
    (Option.some_get (rfl : refusedAttempt.isSome = true)).symm
  exact ⟨t, hrace, hwakes, hkept⟩

end N0DnsResolver
