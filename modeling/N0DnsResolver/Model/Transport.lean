/-
  One query over one transport (`transport.rs`).

  What the peer and the operating system do is an argument: the datagrams that reach a
  socket, the bytes that arrive on a connection, the body of an HTTP response, and for
  every other call that is awaited whether it waits, fails or succeeds. An argument that
  runs out leaves the query waiting. What is sent, other than the query, is left out,
  and so is the pool: a pooled connection is any connection.
-/
import N0DnsResolver.Lib.Awaited
import N0DnsResolver.Model.Config
import N0DnsResolver.Model.Query

namespace N0DnsResolver

/-- What becomes of a call whose result is not looked at. -/
inductive Progress where
  | waits | fails | succeeds
  deriving DecidableEq, Repr

def Progress.await {ε : Type} (e : ε) : Progress → Awaited ε Unit
  | .waits => .pending
  | .fails => .failed e
  | .succeeds => .done ()

section Transport

variable (S : SimpleDns)

/-! ## UDP -/

/-- `UDP_RECV_BUFFER`. -/
def udpRecvBuffer : Nat := 4096

/-- What a `recv_from` gives. -/
inductive Arrival where
  | datagram (src : SocketAddr) (data : Bytes)
  | failed
  deriving DecidableEq

/-- A fresh socket, as far as one query uses it. -/
structure UdpSocket where
  bind : Progress
  send : Progress
  arrivals : List Arrival

/-- The receive loop of `transport::udp_query`. -/
def recvAnswer (addr : SocketAddr) (query : Bytes) :
    List Arrival → Awaited TransportError (Bytes × Bool)
  | [] => .pending
  | .failed :: _ => .failed .io
  | .datagram src data :: arrivals => do
    let buf := data.take udpRecvBuffer
    if src ≠ addr then recvAnswer addr query arrivals
    else
      if ← .ofChecked (answersQuery S buf query) then return (buf, buf.length == udpRecvBuffer)
      else recvAnswer addr query arrivals

/-- `transport::udp_query`. -/
def udpQuery (addr : SocketAddr) (query : Bytes) (socket : UdpSocket) :
    Awaited TransportError (Bytes × Bool) := do
  socket.bind.await .io
  socket.send.await .io
  recvAnswer S addr query socket.arrivals

/-! ## Streams -/

/-- An established TCP or TLS stream: the bytes it has yet to deliver, and whether it ends
there or stays open. -/
structure Stream where
  write : Progress
  incoming : Bytes
  closed : Bool

/-- `read_exact`. -/
def readExact (n : Nat) (stream : Stream) : Awaited TransportError (Bytes × Stream) :=
  if n ≤ stream.incoming.length then
    .done (stream.incoming.take n, { stream with incoming := stream.incoming.drop n })
  else if stream.closed then .failed .io
  else .pending

/-- `framed_query`, with the stream as it leaves it. -/
def framedQuery (query : Bytes) (stream : Stream) : Awaited TransportError (Bytes × Stream) :=
  if 65535 < query.length then .failed .queryTooLarge
  else do
    stream.write.await .io
    let (len, stream) ← readExact 2 stream
    let (buf, stream) ← readExact (wordAt len 0).toNat stream
    if ← .ofChecked (answersQuery S buf query) then return (buf, stream)
    else .failed .unexpectedResponse

/-- What `tcp_query` and `tls_query` share: a pooled stream first, then a fresh one. -/
def pooledQuery (query : Bytes) (pooled : Option Stream) (dial : Awaited TransportError Stream) :
    Awaited TransportError Bytes := do
  let fresh := do
    let (resp, _) ← framedQuery S query (← dial)
    return resp
  match pooled with
  | none => fresh
  | some stream =>
    match ← (framedQuery S query stream).attempt with
    | .ok (resp, _) => return resp
    | .error _ => fresh

/-- The connections one query finds: a pooled stream, or what dialling gives. -/
structure Connections where
  pooled : Option Stream
  connect : Progress
  /-- `ServerName::try_from` accepts the configured server name. -/
  validName : Bool
  handshake : Progress
  fresh : Stream

/-- `tcp_query`. -/
def tcpQuery (query : Bytes) (conns : Connections) : Awaited TransportError Bytes :=
  pooledQuery S query conns.pooled do
    conns.connect.await .io
    return conns.fresh

/-- `ServerName::try_from`, which an address in place of a name does not need. -/
def Connections.serverName (conns : Connections) : Option Str → Awaited TransportError Unit
  | none => .done ()
  | some name => if conns.validName then .done () else .failed (.invalidServerName name)

/-- `tls_query`. -/
def tlsQuery (serverName : Option Str) (query : Bytes) (conns : Connections) :
    Awaited TransportError Bytes :=
  pooledQuery S query conns.pooled do
    conns.connect.await .io
    conns.serverName serverName
    conns.handshake.await .io
    return conns.fresh

/-! ## HTTPS -/

/-- `MAX_HTTPS_BODY`. -/
def maxHttpsBody : Nat := 65535

/-- A `reqwest::Response`: what it says of its body, and how that arrives. -/
structure HttpResponse where
  status : Nat
  contentLength : Option Nat
  chunks : List Bytes
  /-- What follows the last chunk: the end of the body, or an error. -/
  tail : Progress

/-- `Response::error_for_status`: an error for the 4xx and 5xx statuses. -/
def HttpResponse.errorForStatus (response : HttpResponse) : Awaited TransportError Unit :=
  if 400 ≤ response.status ∧ response.status < 600 then .failed .http else .done ()

/-- The loop of `read_body`. -/
def readChunks (tail : Progress) : Bytes → List Bytes → Awaited TransportError Bytes
  | body, [] => do
    tail.await .http
    return body
  | body, chunk :: chunks =>
    if maxHttpsBody < body.length + chunk.length then .failed .responseTooLarge
    else readChunks tail (body ++ chunk) chunks

/-- `read_body`. -/
def readBody (response : HttpResponse) : Awaited TransportError Bytes :=
  if response.contentLength.any (maxHttpsBody < ·) then .failed .responseTooLarge
  else readChunks response.tail [] response.chunks

/-- `https_query`, with what sending the request gives. -/
def httpsQuery (send : Progress) (response : HttpResponse) : Awaited TransportError Bytes := do
  send.await .http
  response.errorForStatus
  readBody response

end Transport

end N0DnsResolver
