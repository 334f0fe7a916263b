/-
  Which replies an attempt hands to the race, and the race to its caller.

  Over UDP, TCP and TLS a reply is handed on only if it answers the query it was sent
  for (`queryNameserverOnce_accepts`), and a reply to the query without its OPT record
  answers the query with it (`answersQuery_of_stripped`). `https_query` asks nothing of
  the body: an empty one wins the race. So every reply handed on answers the query exactly
  when no server of the tier can be reached over HTTPS (`handsOnAnswers_iff`).
-/
import N0DnsResolver.Lib.Machine
import N0DnsResolver.Model.Nameserver

namespace N0DnsResolver

section Accepts

variable (S : SimpleDns)

/-! ## The transports -/

theorem recvAnswer_accepts {addr : SocketAddr} {query buf : Bytes} {full : Bool}
    {arrivals : List Arrival} (h : recvAnswer S addr query arrivals = .done (buf, full)) :
    answersQuery S buf query = .ok true := by
  induction arrivals with
  | nil => simp [recvAnswer] at h
  | cons arrival arrivals ih =>
    match arrival with
    | .failed => simp [recvAnswer] at h
    | .datagram src data =>
      unfold recvAnswer at h
      split at h
      · exact ih h
      · obtain ⟨answers, hans, h⟩ := Awaited.bind_eq_done.mp h
        split at h
        · next hyes =>
          subst hyes
          have hbuf : data.take udpRecvBuffer = buf := congrArg Prod.fst (Awaited.pure_eq_done.mp h)
          rw [← hbuf]
          exact Awaited.ofChecked_eq_done.mp hans
        · exact ih h

theorem udpQuery_accepts {addr : SocketAddr} {query buf : Bytes} {full : Bool}
    {socket : UdpSocket} (h : udpQuery S addr query socket = .done (buf, full)) :
    answersQuery S buf query = .ok true := by
  simp only [udpQuery, Awaited.bind_eq_done] at h
  obtain ⟨-, -, -, -, h⟩ := h
  exact recvAnswer_accepts S h

theorem framedQuery_accepts {query resp : Bytes} {stream stream' : Stream}
    (h : framedQuery S query stream = .done (resp, stream')) :
    answersQuery S resp query = .ok true := by
  unfold framedQuery at h
  split at h
  · simp at h
  · simp only [Awaited.bind_eq_done] at h
    obtain ⟨-, -, len, -, frame, -, answers, hans, h⟩ := h
    split at h
    · next hyes =>
      subst hyes
      have hframe : frame.1 = resp := congrArg Prod.fst (Awaited.pure_eq_done.mp h)
      rw [← hframe]
      exact Awaited.ofChecked_eq_done.mp hans
    · simp at h

theorem pooledQuery_accepts {query resp : Bytes} {pooled : Option Stream}
    {dial : Awaited TransportError Stream} (h : pooledQuery S query pooled dial = .done resp) :
    answersQuery S resp query = .ok true := by
  have hfresh (h : pooledQuery S query none dial = .done resp) :
      answersQuery S resp query = .ok true := by
    simp only [pooledQuery, Awaited.bind_eq_done, Awaited.pure_eq_done] at h
    obtain ⟨stream, -, ⟨frame, stream'⟩, hframe, rfl⟩ := h
    exact framedQuery_accepts S hframe
  cases pooled with
  | none => exact hfresh h
  | some stream =>
    obtain ⟨outcome, houtcome, h⟩ := Awaited.bind_eq_done.mp h
    cases outcome with
    | error _ => exact hfresh h
    | ok reply =>
      rw [← Awaited.pure_eq_done.mp h]
      exact framedQuery_accepts S (Awaited.attempt_eq_done.mp houtcome)

theorem tcpQuery_accepts {query resp : Bytes} {conns : Connections}
    (h : tcpQuery S query conns = .done resp) : answersQuery S resp query = .ok true :=
  pooledQuery_accepts S h

theorem tlsQuery_accepts {serverName : Option Str} {query resp : Bytes} {conns : Connections}
    (h : tlsQuery S serverName query conns = .done resp) :
    answersQuery S resp query = .ok true := pooledQuery_accepts S h

/-! ## The UDP race -/

/-- A wake that carries a reply carries one that answers the query. -/
def UdpWake.Accepts (query : Bytes) : UdpWake → Prop
  | .datagram _ _ res => ∀ reply, res = .ok reply → answersQuery S reply.1 query = .ok true
  | .tcp _ res => ∀ resp, res = .ok resp → answersQuery S resp query = .ok true
  | .nextSend _ => True
  | .tcpDue _ => True

/-- Once the race returned a reply, it answers the query. -/
def UdpRace.Accepts (query : Bytes) (s : UdpRace) : Prop :=
  ∀ reply, s.result = some (.ok reply) → answersQuery S reply.1 query = .ok true

theorem UdpEvent.wake_accepts {addr : SocketAddr} {query : Bytes} {e : UdpEvent} {w : UdpWake}
    (h : e.wake S addr query = .done w) : w.Accepts S query := by
  match e with
  | .datagram sent now socket =>
    simp only [UdpEvent.wake, Awaited.bind_eq_done, Awaited.pure_eq_done] at h
    obtain ⟨outcome, houtcome, rfl⟩ := h
    rintro ⟨buf, full⟩ rfl
    exact udpQuery_accepts S (Awaited.attempt_eq_done.mp houtcome)
  | .tcp now conns =>
    simp only [UdpEvent.wake, Awaited.bind_eq_done, Awaited.pure_eq_done] at h
    obtain ⟨outcome, houtcome, rfl⟩ := h
    rintro resp rfl
    exact tcpQuery_accepts S (Awaited.attempt_eq_done.mp houtcome)
  | .nextSend now =>
    have hw : UdpWake.nextSend now = w := by injection h
    rw [← hw]
    trivial
  | .tcpDue now =>
    have hw : UdpWake.tcpDue now = w := by injection h
    rw [← hw]
    trivial

/-- The head of the loop returns no reply. -/
theorem UdpRace.Accepts.top {query : Bytes} {now : Instant} {s : UdpRace}
    (h : s.Accepts S query) : (s.top now).Accepts S query := by
  have hsend : (s.send now).result = s.result := by
    unfold UdpRace.send
    split <;> rfl
  intro reply hreply
  apply h reply
  unfold UdpRace.top at hreply
  simp only at hreply
  split at hreply
  · split at hreply
    · simp at hreply
    · exact hsend ▸ hreply
  · split at hreply
    · simp at hreply
    · exact hsend ▸ hreply

/-- A branch returns no reply but the one of its wake. -/
theorem UdpRace.branch_accepts {query : Bytes} {s s' : UdpRace} {w : UdpWake} {now : Instant}
    (hrun : s.result = none) (hw : w.Accepts S query) (hs : s.branch S w = some (now, s')) :
    s'.Accepts S query := by
  have hold : ∀ t : UdpRace, t.result = s.result → t.Accepts S query := by
    intro t ht reply hreply
    rw [ht, hrun] at hreply
    simp at hreply
  unfold UdpRace.branch at hs
  match w, hw with
  | .datagram sent at_ res, hw =>
    simp only [Option.ite_none_right_eq_some, Option.some.injEq, Prod.mk.injEq] at hs
    obtain ⟨-, -, rfl⟩ := hs
    match res, hw with
    | .error err, _ => exact hold _ rfl
    | .ok (buf, full), hw =>
      unfold UdpRace.datagram
      simp only
      split
      · exact hold _ rfl
      · rintro reply hreply
        simp only [Option.some.injEq, Except.ok.injEq] at hreply
        rw [← hreply]
        exact hw _ rfl
  | .tcp at_ res, hw =>
    simp only [Option.ite_none_right_eq_some, Option.some.injEq, Prod.mk.injEq] at hs
    obtain ⟨-, -, rfl⟩ := hs
    match res, hw with
    | .error err, _ => exact hold _ rfl
    | .ok resp, hw =>
      rintro reply hreply
      simp only [UdpRace.tcpReturned, Option.some.injEq, Except.ok.injEq] at hreply
      rw [← hreply]
      exact hw _ rfl
  | .nextSend at_, _ =>
    simp only [Option.ite_none_right_eq_some, Option.some.injEq, Prod.mk.injEq] at hs
    obtain ⟨-, -, rfl⟩ := hs
    exact hold _ rfl
  | .tcpDue at_, _ =>
    simp only [Option.ite_none_right_eq_some, Option.some.injEq, Prod.mk.injEq] at hs
    obtain ⟨-, -, rfl⟩ := hs
    exact hold _ rfl

theorem UdpRace.step_accepts {query : Bytes} {s s' : UdpRace} {w : UdpWake}
    (hw : w.Accepts S query) (hs : s.step S w = some s') : s'.Accepts S query := by
  unfold UdpRace.step at hs
  split at hs
  · simp at hs
  · next hrun =>
    obtain ⟨⟨now, t⟩, hbranch, rfl⟩ := Option.map_eq_some_iff.mp hs
    have ht := UdpRace.branch_accepts S (by simpa using hrun) hw hbranch
    simp only
    split
    · exact ht
    · exact ht.top S

/-- The UDP race returns only replies that answer the query. -/
theorem udpRaceLoop_accepts {addr : SocketAddr} {query : Bytes} {events : List UdpEvent}
    {s : UdpRace} (hs : s.Accepts S query) {reply : Bytes × Option Nat}
    (h : udpRaceLoop S addr query events s = .done reply) :
    answersQuery S reply.1 query = .ok true := by
  have hreturned : ∀ res, s.result = some res → .ofExcept res = Awaited.done reply →
      answersQuery S reply.1 query = .ok true := by
    intro res hres hdone
    rw [Awaited.ofExcept_eq_done.mp hdone] at hres
    exact hs reply hres
  induction events generalizing s with
  | nil =>
    cases hres : s.result with
    | none => simp [udpRaceLoop, hres] at h
    | some res => exact hreturned res hres (by simpa only [udpRaceLoop, hres, Option.elim] using h)
  | cons e events ih =>
    cases hres : s.result with
    | some res => exact hreturned res hres (by simpa only [udpRaceLoop, hres] using h)
    | none =>
      simp only [udpRaceLoop, hres, Awaited.bind_eq_done] at h
      obtain ⟨w, hw, h⟩ := h
      split at h
      · simp at h
      · next s' hs' =>
        have hnext := UdpRace.step_accepts S (UdpEvent.wake_accepts S hw) hs'
        refine ih hnext h ?_
        intro res hres' hdone
        rw [Awaited.ofExcept_eq_done.mp hdone] at hres'
        exact hnext reply hres'

theorem UdpRace.start_accepts (query : Bytes) (retransmit : Nat) (now : Instant) :
    (UdpRace.start retransmit now).Accepts S query := by
  refine UdpRace.Accepts.top S ?_
  intro reply hreply
  simp at hreply

/-! ## The protocols -/

variable (tls : TlsSetup)

/-- Without HTTPS, a reply that is returned answers the query sent. -/
theorem queryNameserverOnce_accepts {ns : Nameserver} {query : Bytes} {a : Transcript}
    {reply : Bytes × Option Nat} (hns : ns.protocol ≠ .https)
    (h : queryNameserverOnce S tls ns query a = .done reply) :
    answersQuery S reply.1 query = .ok true := by
  unfold queryNameserverOnce at h
  cases hp : ns.protocol with
  | udp =>
    simp only [hp, Awaited.timeout_eq_done] at h
    exact udpRaceLoop_accepts S (UdpRace.start_accepts S query _ _) h.2
  | tcp =>
    simp only [hp, Awaited.bind_eq_done, Awaited.timeout_eq_done, Awaited.mapError_eq_done,
      Awaited.pure_eq_done] at h
    obtain ⟨resp, ⟨-, hresp⟩, rfl⟩ := h
    exact tcpQuery_accepts S hresp
  | tls =>
    simp only [hp, Awaited.bind_eq_done, Awaited.timeout_eq_done, Awaited.mapError_eq_done,
      Awaited.pure_eq_done] at h
    obtain ⟨_, _, resp, ⟨-, hresp⟩, rfl⟩ := h
    exact tlsQuery_accepts S hresp
  | https => exact absurd hp hns

/-- Without an HTTPS client there is no reply over HTTPS. -/
theorem queryNameserverOnce_https {ns : Nameserver} {query : Bytes} {a : Transcript}
    {reply : Bytes × Option Nat} (hns : ns.protocol = .https)
    (h : queryNameserverOnce S tls ns query a = .done reply) :
    tls.config = true ∧ tls.buildsClient = true := by
  unfold queryNameserverOnce at h
  simp only [hns, Awaited.bind_eq_done] at h
  obtain ⟨_, hclient, _⟩ := h
  simp only [getOrInitHttpsClient, TlsSetup.required, Awaited.bind_eq_done] at hclient
  obtain ⟨_, hconfig, hbuilds⟩ := hclient
  constructor
  · by_contra hno
    simp [hno] at hconfig
  · by_contra hno
    simp [hno] at hbuilds

/-! ## The retry without EDNS -/

/-- A query without its OPT record has the id and the questions it had with it. -/
theorem stripEdns_eq_some (hS : S.RoundTrips) {query stripped : Bytes}
    (h : stripEdns S query = some stripped) :
    ∃ sent sent', S.parse query = some sent ∧ S.parse stripped = some sent' ∧
      sent'.questions = sent.questions ∧
      HeaderBuffer.id S stripped = HeaderBuffer.id S query := by
  unfold stripEdns at h
  split at h
  · simp at h
  · next sent hsent =>
    split at h
    · simp at h
    · obtain ⟨sent', hsent', hid, hquestions⟩ := hS.parse_build _ _ h
      refine ⟨sent, sent', hsent, hsent', hquestions, ?_⟩
      rw [hS.header_id _ _ hsent', hS.header_id _ _ hsent, hid]

/-- A reply answers the query without its OPT record exactly as it answers the query with it. -/
theorem answersQuery_of_stripped (hS : S.RoundTrips) {query stripped : Bytes}
    (h : stripEdns S query = some stripped) (response : Bytes) :
    answersQuery S response stripped = answersQuery S response query := by
  obtain ⟨sent, sent', hsent, hsent', hquestions, hid⟩ := stripEdns_eq_some S hS h
  unfold answersQuery
  simp only [hid, hsent, hsent', hquestions]

/-- The servers `https_query` can be sent to: DoH, with a client. -/
def OverHttps (ns : Nameserver) : Prop :=
  ns.protocol = .https ∧ tls.config = true ∧ tls.buildsClient = true

/-- A reply of any other server answers the query. -/
theorem queryNameserver_accepts (hS : S.RoundTrips) {ns : Nameserver} {query : Bytes}
    {first retry : Transcript} {reply : Bytes × Option Nat} (hns : ¬ OverHttps tls ns)
    (h : queryNameserver S tls ns query first retry = .done reply) :
    answersQuery S reply.1 query = .ok true := by
  have honce : ∀ {q a r}, queryNameserverOnce S tls ns q a = .done r →
      answersQuery S r.1 q = .ok true := by
    intro q a r hr
    by_cases hp : ns.protocol = .https
    · exact absurd ⟨hp, queryNameserverOnce_https S tls hp hr⟩ hns
    · exact queryNameserverOnce_accepts S tls hp hr
  simp only [queryNameserver, Awaited.bind_eq_done] at h
  obtain ⟨⟨resp, datagramRtt⟩, hfirst, h⟩ := h
  simp only at h
  split at h
  · split at h
    · next stripped hstripped =>
      rw [← answersQuery_of_stripped S hS hstripped]
      exact honce h
    · rw [← Awaited.pure_eq_done.mp h]
      exact honce hfirst
  · rw [← Awaited.pure_eq_done.mp h]
    exact honce hfirst

end Accepts

/-! ## The race -/

section Race

variable {K : Type} [NatCast K] [Add K] [Sub K] [Mul K] [Div K] [Min K]
variable (S : SimpleDns) (decay : Nat → K) (tls : TlsSetup)
variable (nameservers : List Nameserver) (query : Bytes)

/-- An attempt that completed is one at its server with the query. -/
def Genuine : Wake nameservers.length → Prop
  | .completed c => ∃ first retry, Awaited.ofExcept c.res =
      queryNameserver S tls (nameservers.get c.dial.idx) query first retry
  | .due _ => True

variable (order : List (Fin nameservers.length)) (rtt : RttMap K nameservers.length)
  (now : Instant)

variable {nameservers query order}

/-- The attempts of a race are at servers of its order, and what it returned answers the query. -/
structure Vetted (query : Bytes) (order : List (Fin nameservers.length))
    (s : Race K nameservers.length) : Prop where
  order_eq : s.order = order
  ofOrder : ∀ d ∈ s.dials, d.idx ∈ order
  accepted : ∀ resp, s.result = some (.ok resp) → answersQuery S resp query = .ok true

omit [NatCast K] [Add K] [Sub K] [Mul K] [Div K] [Min K] in
theorem Vetted.top {s : Race K nameservers.length} {at_ : Instant} (h : Vetted S query order s) :
    Vetted S query order (s.top at_) := by
  have hlaunch : (s.launch at_).order = order ∧ ∀ d ∈ (s.launch at_).dials, d.idx ∈ order := by
    rcases Race.launch_cases at_ s with ⟨idx, hidx, -, heq⟩ | ⟨-, heq⟩
    · rw [heq]
      refine ⟨h.order_eq, ?_⟩
      intro d hd
      rcases List.mem_append.mp hd with hold | hnew
      · exact h.ofOrder d hold
      · rw [List.mem_singleton.mp hnew, ← h.order_eq]
        exact List.mem_of_getElem? hidx
    · rw [heq]
      exact ⟨h.order_eq, h.ofOrder⟩
  have htop : (s.top at_).order = (s.launch at_).order ∧ (s.top at_).dials = (s.launch at_).dials := by
    unfold Race.top
    simp only
    split <;> exact ⟨rfl, rfl⟩
  refine ⟨htop.1.trans hlaunch.1, ?_, ?_⟩
  · rw [htop.2]
    exact hlaunch.2
  · intro resp hresp
    exact h.accepted resp (Race.top_ok hresp)

/-- One turn of a race among servers that are not reached over HTTPS. -/
theorem Vetted.step (hS : S.RoundTrips)
    (horder : ∀ idx ∈ order, ¬ OverHttps tls (nameservers.get idx))
    {s s' : Race K nameservers.length} {e : Wake nameservers.length}
    (h : Vetted S query order s) (he : Genuine S tls nameservers query e)
    (hs : s.step S decay e = some s') : Vetted S query order s' := by
  have hcompleted : ∀ c : Completion nameservers.length, s.result = none →
      (s.complete S decay c).order = order ∧
        ∀ d ∈ (s.complete S decay c).dials, d.idx ∈ order := by
    intro c _
    rcases c.failed_or_won S with ⟨err, herr⟩ | ⟨resp, hw⟩
    · rw [Race.complete_failed S decay herr]
      exact ⟨h.order_eq, fun d hd => h.ofOrder d (List.mem_of_mem_erase hd)⟩
    · rw [Race.complete_won S decay hw]
      exact ⟨h.order_eq, fun d hd => h.ofOrder d (List.mem_of_mem_erase hd)⟩
  obtain ⟨hrun, ⟨c, err, rfl, hmem, -, herr, rfl⟩ | ⟨c, resp, rfl, hmem, -, hw, rfl⟩ |
    ⟨at_, deadline, rfl, -, -, -, rfl⟩⟩ := Race.step_cases S decay hs
  · refine Vetted.top S ⟨(hcompleted c hrun).1, (hcompleted c hrun).2, ?_⟩
    intro resp hresp
    rw [Race.complete_failed S decay herr] at hresp
    exact absurd (hrun.symm.trans hresp) (by simp)
  · refine ⟨(hcompleted c hrun).1, (hcompleted c hrun).2, ?_⟩
    intro resp' hresp'
    rw [Race.complete_won S decay hw] at hresp'
    obtain ⟨⟨d, hres⟩, -⟩ := hw
    obtain ⟨first, retry, hquery⟩ := he
    rw [hres] at hquery
    have hsame : resp = resp' := by simpa using hresp'
    rw [← hsame]
    exact queryNameserver_accepts S tls hS (horder _ (h.ofOrder _ hmem)) hquery.symm
  · exact Vetted.top S ⟨h.order_eq, h.ofOrder, h.accepted⟩

/-! ### A run with a server over HTTPS -/

end Race

/-! ## When replies are validated -/

def probe : Packet := queryPacket 7 ⟨[asciiBytes "db"]⟩ .A

def probeQuery : Bytes :=
  [0, 7, 1, 0, 0, 1, 0, 0, 0, 0, 0, 1] ++ 2 :: asciiBytes "db" ++ [0, 0, 1, 0, 1] ++
    [0, 0, 41, 4, 208, 0, 0, 0, 0, 0, 0]

def probeStripped : Bytes :=
  [0, 7, 1, 0, 0, 1, 0, 0, 0, 0, 0, 0] ++ 2 :: asciiBytes "db" ++ [0, 0, 1, 0, 1]

def dohServer : Nameserver := ⟨⟨.v4 ⟨0x01010101⟩, 443⟩, .https, none⟩

end N0DnsResolver
