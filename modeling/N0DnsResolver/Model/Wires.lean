/-
  What goes over the pooled connections (`framed_query` of `transport.rs`).

  A message goes over a stream behind its length in two bytes (`frameOf`), and is read back the
  same way (`unframe`). `Wired` is `Pooling` with a note of what went over each connection:
  what the queries that had an answer wrote, what arrived, and which query had which frame
  for its answer. The code keeps none of it.

  A query that leaves a connection without an answer may have written and read some of a
  frame, which is not noted; nothing uses that connection again.
-/
import N0DnsResolver.Lib.Framing
import N0DnsResolver.Model.Pooling

namespace N0DnsResolver

/-! ## Frames -/

/-- `u16::to_be_bytes`. -/
def toBeBytes (word : UInt16) : Bytes :=
  [UInt8.ofNat (word.toNat / 256), UInt8.ofNat (word.toNat % 256)]

/-- What `framed_query` writes for a query that is not too large. -/
def frameOf (message : Bytes) : Bytes := toBeBytes (UInt16.ofNat message.length) ++ message

/-- The first frame of a stream, and what follows it. -/
def unframe (incoming : Bytes) : Option (Bytes × Bytes) :=
  if 2 ≤ incoming.length ∧ (wordAt incoming 0).toNat ≤ incoming.length - 2 then
    some ((incoming.drop 2).take (wordAt incoming 0).toNat,
      (incoming.drop 2).drop (wordAt incoming 0).toNat)
  else none

/-! ## Wires -/

namespace Pooling

/-- A query and the frame it had for its answer. -/
structure FramedExchange where
  id : TaskId
  query : Bytes
  resp : Bytes
  deriving DecidableEq

/-- What went over a connection. -/
structure Wire where
  written : Bytes := []
  received : Bytes := []
  exchanges : List FramedExchange := []

/-- More bytes arrived. -/
def Wire.heard (wire : Wire) (more : Bytes) : Wire :=
  { wire with received := wire.received ++ more }

/-- A query wrote its frame and read one. -/
def Wire.exchanged (wire : Wire) (exchange : FramedExchange) : Wire :=
  { wire with
    written := wire.written ++ frameOf exchange.query
    exchanges := wire.exchanges ++ [exchange] }

/-- The exchange of a query whose `framed_query` returned an answer. -/
def FramedExchange.ofFramed (id : TaskId) (query : Bytes) :
    Awaited TransportError (Bytes × Stream) → Option FramedExchange
  | .done (resp, _) => some ⟨id, query, resp⟩
  | .pending | .panicked _ | .failed _ => none

/-- The connection that `framed_query` is on. -/
def Phase.framing : Phase → Option ConnId
  | .reusing c | .fresh c => some c
  | .dialing | .handshaking _ | .answered _ _ | .returned _ | .dropped => none

section Step

variable (S : SimpleDns) (validName : Str → Bool)

/-- What the `framed_query` of a query would return now, and from which connection. -/
def exchange (s : Pooling) (id : TaskId) : Option (ConnId × FramedExchange) := do
  let task ← s.tasks id
  let c ← task.phase.framing
  let conn ← s.conns c
  let exchange ← FramedExchange.ofFramed id task.query (framedQuery S task.query conn.stream)
  return (c, exchange)

/-- The wires after an exchange, if there was one. -/
def noteExchange (wires : ConnId → Wire) : Option (ConnId × FramedExchange) → ConnId → Wire
  | some (c, exchange) => Function.update wires c ((wires c).exchanged exchange)
  | none => wires

/-- What an event puts on the wires. -/
def note (s : Pooling) (wires : ConnId → Wire) : Event → ConnId → Wire
  | .framed id => noteExchange wires (s.exchange S id)
  | .peer c _ more _ => Function.update wires c ((wires c).heard more)
  | _ => wires

end Step

end Pooling

/-- A pool and its queries, with what went over the connections. -/
structure Wired where
  pooling : Pooling
  wires : ConnId → Pooling.Wire

namespace Wired

/-- A new pool. -/
def new : Wired := ⟨.new, fun _ => {}⟩

/-- The state after an event, unless it cannot happen. -/
def step (S : SimpleDns) (validName : Str → Bool) (w : Wired) (e : Pooling.Event) : Option Wired :=
  (w.pooling.step S validName e).map fun pooling => ⟨pooling, w.pooling.note S w.wires e⟩

end Wired

end N0DnsResolver
