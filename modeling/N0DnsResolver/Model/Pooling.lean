/-
  Queries that share the connection pool (`transport.rs`).

  A query is a task that stops where `tcp_query` and `tls_query` await, where they take a
  lock and where they return. Any number of tasks take turns with the sweeps of the pool,
  with the peers and with the clock, in any order. What becomes of a stream is kept beside
  the pool under the name of its connection. A name that neither a task nor the pool holds
  stands for a value that was dropped, which closes the connection.
-/
import N0DnsResolver.Model.Pool
import N0DnsResolver.Model.Transport

namespace N0DnsResolver

/-- The name of a connection, which no other connection ever has. -/
abbrev ConnId := Nat

/-- The name of a query. -/
abbrev TaskId := Nat

namespace Pooling

/-- How the last query on a connection ended; a timeout cancels it. -/
inductive Ending where
  | succeeded | failed | cancelled
  deriving DecidableEq

/-- A connection: what it was opened for, its stream, and how the last query on it ended unless one
is under way. -/
structure Conn where
  key : PoolKey
  stream : Stream
  ending : Option Ending

/-- Where a query has come to. -/
inductive Phase where
  /-- In `framed_query` on a pooled connection. -/
  | reusing (c : ConnId)
  /-- In `TcpStream::connect`. -/
  | dialing
  /-- In `TlsConnector::connect`. -/
  | handshaking (c : ConnId)
  /-- In `framed_query` on a connection of its own. -/
  | fresh (c : ConnId)
  /-- About to check a connection in. -/
  | answered (c : ConnId) (resp : Bytes)
  | returned (result : Except TransportError Bytes)
  /-- Cancelled, or ended by a panic. -/
  | dropped

/-- The connection a query holds. -/
def Phase.conn : Phase → Option ConnId
  | .reusing c | .handshaking c | .fresh c | .answered c _ => some c
  | .dialing | .returned _ | .dropped => none

/-- The response a query has. -/
def Phase.response : Phase → Option Bytes
  | .answered _ resp | .returned (.ok resp) => some resp
  | _ => none

/-- The query awaits, so that its caller can drop it. -/
def Phase.awaits : Phase → Bool
  | .reusing _ | .dialing | .handshaking _ | .fresh _ => true
  | .answered _ _ | .returned _ | .dropped => false

/-- A query over TCP or TLS. -/
structure Task where
  key : PoolKey
  query : Bytes
  phase : Phase

/-- What happens next. -/
inductive Event where
  /-- A query starts and tries the pool. -/
  | start (id : TaskId) (key : PoolKey) (query : Bytes) (now : Readings ConnId)
  /-- `framed_query` returns. -/
  | framed (id : TaskId)
  /-- `TcpStream::connect` returns, with a connection named `c` if it succeeds. -/
  | connect (id : TaskId) (c : ConnId) (progress : Progress)
  /-- `TlsConnector::connect` returns. -/
  | handshake (id : TaskId) (progress : Progress)
  /-- A query checks its connection in and returns. -/
  | checkin (id : TaskId) (now : Instant)
  /-- A query times out or is cancelled. -/
  | drop (id : TaskId)
  | pruneTcp (now : Readings ConnId)
  | pruneTls (now : Readings ConnId)
  /-- More bytes arrive on a connection, or the peer closes it, or a write comes to an end. -/
  | peer (c : ConnId) (write : Progress) (more : Bytes) (closed : Bool)

end Pooling

/-- A pool, the queries that share it and the connections opened so far. -/
structure Pooling where
  clock : Instant
  pool : ConnPool ConnId
  tasks : TaskId → Option Pooling.Task
  conns : ConnId → Option Pooling.Conn

namespace Pooling

/-- A new pool. -/
def new : Pooling := ⟨0, .new, fun _ => none, fun _ => none⟩

/-- The state with one query put somewhere. -/
def put (s : Pooling) (id : TaskId) (task : Task) : Pooling :=
  { s with tasks := Function.update s.tasks id (some task) }

/-- The state with one connection replaced. -/
def record (s : Pooling) (c : ConnId) (conn : Conn) : Pooling :=
  { s with conns := Function.update s.conns c (some conn) }

/-- The state at a later instant, with the pool as it is then. -/
def pooled (s : Pooling) (now : Instant) (pool : ConnPool ConnId) : Pooling :=
  { s with clock := now, pool := pool }

/-- The state with a query in a phase in which it has dropped its connection, and how it ended. -/
def leave (s : Pooling) (id : TaskId) (task : Task) (c : ConnId) (conn : Conn) (ending : Ending)
    (phase : Phase) : Pooling :=
  (s.put id { task with phase := phase }).record c { conn with ending := some ending }

section Step

variable (S : SimpleDns) (validName : Str → Bool)

/-- A query taken on from `framed_query` on `c`, given where it goes from an error. -/
def frame (s : Pooling) (id : TaskId) (task : Task) (c : ConnId)
    (failed : TransportError → Phase) : Option Pooling := do
  let conn ← s.conns c
  match framedQuery S task.query conn.stream with
  | .pending => none
  | .panicked _ => some (s.leave id task c conn .failed .dropped)
  | .failed e => some (s.leave id task c conn .failed (failed e))
  | .done (resp, stream) =>
    some ((s.record c { conn with stream := stream, ending := some .succeeded }).put id
      { task with phase := .answered c resp })

/-- Where a query goes once TCP is connected. -/
def Phase.connected (c : ConnId) : PoolKey → Phase
  | .tcp _ => .fresh c
  | .tls (_, none) => .handshaking c
  | .tls (_, some name) =>
    if validName name then .handshaking c else .returned (.error (.invalidServerName name))

/-- The state after an event, unless it cannot happen. -/
def step (s : Pooling) : Event → Option Pooling
  | .start id key query now => do
    guard ((s.tasks id).isNone ∧ s.clock ≤ now.began)
    let s' := s.pooled now.ended (s.pool.checkout now.read key).2
    match (s.pool.checkout now.read key).1 with
    | none => some (s'.put id ⟨key, query, .dialing⟩)
    | some c => do
      let conn ← s.conns c
      some ((s'.record c { conn with ending := none }).put id ⟨key, query, .reusing c⟩)
  | .framed id => do
    let task ← s.tasks id
    match task.phase with
    | .reusing c => s.frame S id task c fun _ => .dialing
    | .fresh c => s.frame S id task c fun e => .returned (.error e)
    | _ => none
  | .connect id c progress => do
    let task ← s.tasks id
    match task.phase, progress with
    | .dialing, .fails => some (s.put id { task with phase := .returned (.error .io) })
    | .dialing, .succeeds => do
      guard (s.conns c).isNone
      some ((s.record c ⟨task.key, ⟨.waits, [], false⟩, none⟩).put id
        { task with phase := Phase.connected validName c task.key })
    | _, _ => none
  | .handshake id progress => do
    let task ← s.tasks id
    match task.phase, progress with
    | .handshaking c, .fails => do
      let conn ← s.conns c
      some (s.leave id task c conn .failed (.returned (.error .io)))
    | .handshaking c, .succeeds => some (s.put id { task with phase := .fresh c })
    | _, _ => none
  | .checkin id now => do
    let task ← s.tasks id
    match task.phase with
    | .answered c resp => do
      guard (s.clock ≤ now)
      some ((s.put id { task with phase := .returned (.ok resp) }).pooled now
        (s.pool.checkin now c task.key))
    | _ => none
  | .drop id => do
    let task ← s.tasks id
    guard task.phase.awaits
    match task.phase.conn with
    | none => some (s.put id { task with phase := .dropped })
    | some c => do
      let conn ← s.conns c
      some (s.leave id task c conn .cancelled .dropped)
  | .pruneTcp now => do
    guard (s.clock ≤ now.began)
    some (s.pooled now.ended (s.pool.pruneTcp now.read))
  | .pruneTls now => do
    guard (s.clock ≤ now.began)
    some (s.pooled now.ended (s.pool.pruneTls now.read))
  | .peer c write more closed => do
    let conn ← s.conns c
    some (s.record c { conn with stream := ⟨write, conn.stream.incoming ++ more, closed⟩ })

end Step

end Pooling

end N0DnsResolver
