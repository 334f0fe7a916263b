/-
  One attempt at one nameserver (`DnsResolver::query_nameserver` and what it calls).

  `DnsResolver::udp_query` is a machine, like `race`: its events are the branches of its
  `select!`, in any order. A `Transcript` gives what every awaited call of one query comes
  to, as in `Transport`, and whether the time limit expires first.
-/
import N0DnsResolver.Model.Race
import N0DnsResolver.Model.Transport

namespace N0DnsResolver

/-! ## UDP, with TCP joining -/

/-- `UDP_DATAGRAMS`. -/
def udpDatagrams : Nat := 6

/-- `UDP_PACED_DATAGRAMS`. -/
def udpPacedDatagrams : Nat := 3

/-- `UDP_RETRANSMIT_MIN`, in nanoseconds. -/
def udpRetransmitMin : Nat := 300 * 1000000

/-- `TCP_JOIN_DELAY`, in nanoseconds. -/
def tcpJoinDelay : Nat := udpRetransmitMin * udpPacedDatagrams

/-- The state of `DnsResolver::udp_query` between two waits. -/
structure UdpRace where
  /-- When each outstanding datagram was sent. -/
  datagrams : List Instant
  /-- A TCP query is in flight. -/
  tcp : Bool
  nextSend : Option Instant
  tcpDue : Option Instant
  sendsLeft : Nat
  interval : Nat
  sendDue : Bool
  lastErr : Option Error
  clock : Instant
  result : Option Reply

/-- What wakes the `select!` of `DnsResolver::udp_query`. -/
inductive UdpWake where
  | datagram (sent now : Instant) (res : Except TransportError (Bytes × Bool))
  | tcp (now : Instant) (res : Except TransportError Bytes)
  | nextSend (now : Instant)
  | tcpDue (now : Instant)

namespace UdpRace

/-- Sends the next datagram, if the head of the loop finds one due. -/
def send (now : Instant) (s : UdpRace) : UdpRace :=
  if s.sendDue ∧ 0 < s.sendsLeft then
    let sendsLeft := s.sendsLeft - 1
    let interval :=
      if 0 < sendsLeft ∧ udpPacedDatagrams ≤ udpDatagrams - sendsLeft then s.interval * 2
      else s.interval
    { s with
      datagrams := s.datagrams ++ [now]
      sendsLeft
      interval
      nextSend := if 0 < sendsLeft then some (now + interval) else none }
  else s

/-- The loop, from its head to the `select!`. -/
def top (now : Instant) (s : UdpRace) : UdpRace :=
  let s := { s.send now with sendDue := false }
  let s :=
    if s.datagrams = [] ∧ s.sendsLeft = 0 ∧ s.tcpDue.isSome then { s with tcpDue := some now }
    else s
  -- The `else` branch of the `select!`: every other one is disabled.
  if s.datagrams = [] ∧ s.tcp = false ∧ s.nextSend.isNone ∧ s.tcpDue.isNone then
    { s with result := some (.error (s.lastErr.getD .noResponse)) }
  else s

/-- `DnsResolver::udp_query`, up to its first wait. -/
def start (retransmit : Nat) (now : Instant) : UdpRace :=
  top now
    { datagrams := [], tcp := false, nextSend := none, tcpDue := some (now + tcpJoinDelay),
      sendsLeft := udpDatagrams, interval := retransmit, sendDue := true, lastErr := none,
      clock := now, result := none }

section Turn

variable (S : SimpleDns)

/-- The branch for a datagram that came back. -/
def datagram (sent now : Instant) (res : Except TransportError (Bytes × Bool)) (s : UdpRace) :
    UdpRace :=
  let s := { s with datagrams := s.datagrams.erase sent, clock := now }
  match res with
  | .ok (resp, maybeTruncated) =>
    if maybeTruncated || truncated S resp then
      { s with
        sendsLeft := 0
        nextSend := none
        tcpDue := if s.tcp then s.tcpDue else some now }
    else { s with result := some (.ok (resp, some (now - sent))) }
  | .error err => { s with lastErr := some (.transport err), sendDue := true }

/-- The branch for the TCP query. -/
def tcpReturned (now : Instant) (res : Except TransportError Bytes) (s : UdpRace) : UdpRace :=
  let s := { s with tcp := false, clock := now }
  match res with
  | .ok resp => { s with result := some (.ok (resp, none)) }
  | .error err => { s with lastErr := some (.transport err) }

/-- A branch of the `select!`, if it is enabled and its future is ready. -/
def branch (s : UdpRace) : UdpWake → Option (Instant × UdpRace)
  | .datagram sent now res =>
    if sent ∈ s.datagrams ∧ s.clock ≤ now then some (now, s.datagram S sent now res) else none
  | .tcp now res =>
    if s.tcp ∧ s.clock ≤ now then some (now, s.tcpReturned now res) else none
  | .nextSend now =>
    if s.nextSend.any (· ≤ now) ∧ s.clock ≤ now then
      some (now, { s with nextSend := none, sendDue := true, clock := now })
    else none
  | .tcpDue now =>
    if s.tcpDue.any (· ≤ now) ∧ s.clock ≤ now then
      some (now, { s with tcpDue := none, tcp := true, clock := now })
    else none

/-- One turn of the loop: a branch of the `select!`, then on to the next wait. -/
def step (s : UdpRace) (e : UdpWake) : Option UdpRace :=
  if s.result.isSome then none
  else
    (s.branch S e).map fun (now, s) => if s.result.isSome then s else s.top now

end Turn

end UdpRace

/-- A wake of `DnsResolver::udp_query`, by what the query behind it finds. -/
inductive UdpEvent where
  | datagram (sent now : Instant) (socket : UdpSocket)
  | tcp (now : Instant) (conns : Connections)
  | nextSend (now : Instant)
  | tcpDue (now : Instant)

/-! ## The protocols -/

/-- The TLS settings, and whether `reqwest` builds a client from them. -/
structure TlsSetup where
  config : Bool
  buildsClient : Bool
  deriving DecidableEq

/-- `tls_config`, or the error that there is none. -/
def TlsSetup.required (tls : TlsSetup) : Awaited Error Unit :=
  if tls.config then .done () else .failed .missingTlsConfig

/-- `get_or_init_https_client`. -/
def getOrInitHttpsClient (tls : TlsSetup) : Awaited Error Unit := do
  tls.required
  if tls.buildsClient then return () else .failed (.transport .buildClient)

/-- What one call of `query_nameserver_once` finds, whichever protocol it goes by. -/
structure Transcript where
  start : Instant
  retransmit : Nat
  /-- The time limit expires before the query returns. -/
  expired : Bool
  events : List UdpEvent
  conns : Connections
  httpsSend : Progress
  response : HttpResponse

section Query

variable (S : SimpleDns) (tls : TlsSetup)

/-- The wake an event is, once the query behind it returned. -/
def UdpEvent.wake (addr : SocketAddr) (query : Bytes) : UdpEvent → Awaited Error UdpWake
  | .datagram sent now socket => do
    return .datagram sent now (← (udpQuery S addr query socket).attempt)
  | .tcp now conns => do
    return .tcp now (← (tcpQuery S query conns).attempt)
  | .nextSend now => .done (.nextSend now)
  | .tcpDue now => .done (.tcpDue now)

/-- `DnsResolver::udp_query`, from a state of its loop on. -/
def udpRaceLoop (addr : SocketAddr) (query : Bytes) :
    List UdpEvent → UdpRace → Awaited Error (Bytes × Option Nat)
  | [], s => s.result.elim .pending .ofExcept
  | e :: events, s =>
    match s.result with
    | some res => .ofExcept res
    | none => do
      match s.step S (← e.wake S addr query) with
      | none => .pending
      | some s => udpRaceLoop addr query events s

/-- `query_nameserver_once`. -/
def queryNameserverOnce (ns : Nameserver) (query : Bytes) (a : Transcript) :
    Awaited Error (Bytes × Option Nat) :=
  match ns.protocol with
  | .udp =>
    .timeout a.expired .timeout
      (udpRaceLoop S ns.addr query a.events (.start a.retransmit a.start))
  | .tcp => do
    let resp ← .timeout a.expired .timeout ((tcpQuery S query a.conns).mapError .transport)
    return (resp, none)
  | .tls => do
    tls.required
    let resp ← .timeout a.expired .timeout
      ((tlsQuery S ns.serverName query a.conns).mapError .transport)
    return (resp, none)
  | .https => do
    getOrInitHttpsClient tls
    let resp ← .timeout a.expired .timeout
      ((httpsQuery a.httpsSend a.response).mapError .transport)
    return (resp, none)

/-- `query_nameserver`, with what its first query finds and what the retry does. -/
def queryNameserver (ns : Nameserver) (query : Bytes) (first retry : Transcript) :
    Awaited Error (Bytes × Option Nat) := do
  let (resp, datagramRtt) ← queryNameserverOnce S tls ns query first
  if formatError S resp then
    match stripEdns S query with
    | some stripped => queryNameserverOnce S tls ns stripped retry
    | none => return (resp, datagramRtt)
  else return (resp, datagramRtt)

end Query

end N0DnsResolver
