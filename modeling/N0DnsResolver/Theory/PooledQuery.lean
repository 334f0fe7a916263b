/-
  A pooled query by itself.

  `tcp_query` and `tls_query` appear twice: as one call that is told what it finds
  (`Model.Transport`), and as a task among others (`Model.Pooling`). Whatever the others do,
  a task that returned has the result of the one call, on the connections it found
  (`returned_alone`). What a task has been through so far is `Follows`.
-/
import N0DnsResolver.Theory.PoolExclusive

namespace N0DnsResolver

namespace Pooling

section Calls

variable (S : SimpleDns)

/-- The call of a query: `tcp_query` or `tls_query`. -/
def call (query : Bytes) (conns : Connections) : PoolKey → Awaited TransportError Bytes
  | .tcp _ => tcpQuery S query conns
  | .tls (_, serverName) => tlsQuery S serverName query conns

/-- What dialling for a key comes to. -/
def dial (conns : Connections) : PoolKey → Awaited TransportError Stream
  | .tcp _ => do
    conns.connect.await .io
    return conns.fresh
  | .tls (_, serverName) => do
    conns.connect.await .io
    conns.serverName serverName
    conns.handshake.await .io
    return conns.fresh

theorem call_eq (query : Bytes) (conns : Connections) (key : PoolKey) :
    call S query conns key = pooledQuery S query conns.pooled (dial conns key) := by
  cases key <;> rfl

/-- There was no pooled stream, or the query failed on it. -/
def Missed (query : Bytes) (pooled : Option Stream) : Prop :=
  ∀ stream, pooled = some stream → ∃ e, framedQuery S query stream = .failed e

variable {S} {query : Bytes} {conns : Connections} {key : PoolKey}

theorem call_missed (h : Missed S query conns.pooled) :
    call S query conns key = pooledQuery S query none (dial conns key) := by
  rw [call_eq]
  cases hpooled : conns.pooled with
  | none => rfl
  | some stream =>
    obtain ⟨e, he⟩ := h stream hpooled
    simp only [pooledQuery, he]
    rfl

theorem call_undialled {e : TransportError} (h : Missed S query conns.pooled)
    (hdial : dial conns key = .failed e) : call S query conns key = .failed e := by
  rw [call_missed h, hdial]
  rfl

theorem call_dialled {stream : Stream} (h : Missed S query conns.pooled)
    (hdial : dial conns key = .done stream) :
    call S query conns key = framedQuery S query stream >>= fun frame => pure frame.1 := by
  rw [call_missed h, hdial]
  rfl

theorem call_pooled {resp : Bytes} {stream stream' : Stream} (hpooled : conns.pooled = some stream)
    (hframed : framedQuery S query stream = .done (resp, stream')) :
    call S query conns key = .done resp := by
  rw [call_eq, hpooled]
  simp only [pooledQuery, hframed]
  rfl

end Calls

/-! ## What a task has been through -/

section Follows

variable (S : SimpleDns) (validName : Str → Bool)

/-- `ServerName::try_from` on the name of a key, which a key without one does not need. -/
def nameOk : PoolKey → Bool
  | .tls (_, some name) => validName name
  | _ => true

/-- A task in this phase is where the call can be. -/
def Follows (key : PoolKey) (query : Bytes) : Phase → Prop
  | .reusing _ | .dropped => True
  | .dialing => ∃ pooled, Missed S query pooled
  | .handshaking _ => (∃ pooled, Missed S query pooled) ∧ nameOk validName key = true ∧
      ∃ tls, key = .tls tls
  | .fresh _ => (∃ pooled, Missed S query pooled) ∧ nameOk validName key = true
  | .answered _ resp => ∃ conns : Connections, conns.validName = nameOk validName key ∧
      call S query conns key = .done resp
  | .returned result => ∃ conns : Connections, conns.validName = nameOk validName key ∧
      call S query conns key = .ofExcept result

variable {S validName} {key : PoolKey} {query : Bytes} {pooled : Option Stream}

theorem dial_succeeds (hname : nameOk validName key = true) (stream : Stream) :
    dial ⟨pooled, .succeeds, nameOk validName key, .succeeds, stream⟩ key = .done stream := by
  rw [hname]
  match key with
  | .tcp _ => rfl
  | .tls (_, none) => rfl
  | .tls (_, some _) => rfl

theorem dial_unconnected (validName : Bool) (handshake : Progress) (stream : Stream) :
    dial ⟨pooled, .fails, validName, handshake, stream⟩ key = .failed .io := by
  cases key <;> rfl

theorem dial_unsecured (hname : nameOk validName key = true) {tls : TlsKey} (htls : key = .tls tls)
    (stream : Stream) :
    dial ⟨pooled, .succeeds, nameOk validName key, .fails, stream⟩ key = .failed .io := by
  rw [hname]
  subst htls
  match tls with
  | (_, none) => rfl
  | (_, some _) => rfl

/-- A fresh connection gives the call what `framed_query` gives. -/
theorem call_fresh (hmissed : ∃ pooled, Missed S query pooled)
    (hname : nameOk validName key = true) (stream : Stream) :
    ∃ conns : Connections, conns.validName = nameOk validName key ∧
      call S query conns key = framedQuery S query stream >>= fun frame => pure frame.1 := by
  obtain ⟨pooled, hmissed⟩ := hmissed
  exact ⟨⟨pooled, .succeeds, nameOk validName key, .succeeds, stream⟩, rfl,
    call_dialled hmissed (dial_succeeds hname stream)⟩

theorem follows_connected (hmissed : ∃ pooled, Missed S query pooled) (c : ConnId) :
    Follows S validName key query (Phase.connected validName c key) := by
  unfold Phase.connected
  split
  · exact ⟨hmissed, rfl⟩
  · exact ⟨hmissed, rfl, _, rfl⟩
  · next addr name =>
    by_cases hname : validName name = true
    · rw [if_pos hname]
      exact ⟨hmissed, hname, _, rfl⟩
    · rw [if_neg hname]
      obtain ⟨pooled, hmissed⟩ := hmissed
      refine ⟨⟨pooled, .succeeds, validName name, .succeeds, ⟨.waits, [], false⟩⟩, rfl, ?_⟩
      apply call_undialled hmissed
      simp only [Bool.not_eq_true] at hname
      rw [hname]
      rfl

theorem Drops.follows {task : Task} {c : ConnId} {conn : Conn} {phase : Phase}
    (hwhy : Drops S task c conn phase)
    (h : Follows S validName task.key task.query task.phase) :
    Follows S validName task.key task.query phase := by
  cases hwhy with
  | @missed e hphase hframed =>
    refine ⟨some conn.stream, ?_⟩
    intro stream hstream
    exact ⟨e, Option.some.inj hstream ▸ hframed⟩
  | failed hphase hframed =>
    rw [hphase] at h
    obtain ⟨conns, hname, hcall⟩ := call_fresh h.1 h.2 conn.stream
    refine ⟨conns, hname, ?_⟩
    rw [hcall, hframed]
    rfl
  | unsecured hphase =>
    rw [hphase] at h
    obtain ⟨⟨pooled, hmissed⟩, hname, tls, htls⟩ := h
    refine ⟨⟨pooled, .succeeds, nameOk validName task.key, .fails, conn.stream⟩, rfl, ?_⟩
    exact call_undialled hmissed (dial_unsecured hname htls conn.stream)
  | dropped => trivial

theorem Turn.follows {s s' : Pooling} {e : Event} (ht : Turn S validName s e s')
    (h : ∀ id task, s.tasks id = some task →
      Follows S validName task.key task.query task.phase) :
    ∀ id task, s'.tasks id = some task → Follows S validName task.key task.query task.phase := by
  have hput : ∀ {id' task'}, Follows S validName task'.key task'.query task'.phase →
      ∀ id task, (s.put id' task').tasks id = some task →
        Follows S validName task.key task.query task.phase := by
    intro id' task' hfollows id task htask
    rcases tasks_of_put htask with ⟨-, rfl⟩ | ⟨-, htask⟩
    · exact hfollows
    · exact h id task htask
  cases ht with
  | dials => exact hput ⟨none, fun _ hstream => (nomatch hstream)⟩
  | reuses => exact hput trivial
  | @answers id task c conn resp stream htask hphase hconn hok =>
    have hfollows := h id task htask
    refine hput ?_
    rcases hphase with hphase | hphase
    · exact ⟨⟨some conn.stream, .waits, nameOk validName task.key, .waits, conn.stream⟩, rfl,
        call_pooled rfl hok⟩
    · rw [hphase] at hfollows
      obtain ⟨conns, hname, hcall⟩ := call_fresh hfollows.1 hfollows.2 conn.stream
      refine ⟨conns, hname, ?_⟩
      rw [hcall, hok]
      rfl
  | leaves htask hholds hconn hwhy => exact hput (hwhy.follows (h _ _ htask))
  | @fails e id task htask hphase =>
    have hfollows := h id task htask
    rw [hphase] at hfollows
    obtain ⟨pooled, hmissed⟩ := hfollows
    refine hput ⟨⟨pooled, .fails, nameOk validName task.key, .waits, ⟨.waits, [], false⟩⟩, rfl, ?_⟩
    exact call_undialled hmissed (dial_unconnected _ _ _)
  | stops => exact hput trivial
  | @opens id task c htask hphase hnew =>
    have hfollows := h id task htask
    rw [hphase] at hfollows
    exact hput (follows_connected hfollows c)
  | @secures id task c htask hphase =>
    have hfollows := h id task htask
    rw [hphase] at hfollows
    exact hput ⟨hfollows.1, hfollows.2.1⟩
  | @checksIn id task c resp now htask hphase =>
    have hfollows := h id task htask
    rw [hphase] at hfollows
    exact hput hfollows
  | sweeps => exact h
  | hears => exact h

end Follows

/-- Whatever the others do, a query that returned has the result of its call on the connections it
found. -/
theorem returned_alone {S : SimpleDns} {validName : Str → Bool} {events : List Event} {s : Pooling}
    (hrun : Machine.run (step S validName) new events = some s) {id : TaskId} {task : Task}
    {result : Except TransportError Bytes} (htask : s.tasks id = some task)
    (hphase : task.phase = .returned result) :
    ∃ conns : Connections, conns.validName = nameOk validName task.key ∧
      call S task.query conns task.key = .ofExcept result := by
  have hfollows := Machine.run_invariant
    (P := fun s : Pooling => ∀ id task, s.tasks id = some task →
      Follows S validName task.key task.query task.phase)
    (fun _ _ _ hs hstep => (step_turn hstep).follows hs)
    (fun _ _ htask => by simp [new] at htask) hrun id task htask
  rw [hphase] at hfollows
  exact hfollows

end Pooling

end N0DnsResolver
