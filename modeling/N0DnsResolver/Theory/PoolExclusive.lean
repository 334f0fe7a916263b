/-
  The pool under any number of queries.

  `Turn` says once what a step can do. `Inv` is the invariant: who has a connection, what it
  was opened for, how the last query on it ended, and in which order a key lists the idle
  ones. A step is made of four kinds of change, to the pool, to a query, to a connection and
  the check-in, and each keeps the invariant (`Inv.pooled`, `Inv.put`, `Inv.record`,
  `Inv.checkin`). A connection is handed on along two ways only (`Turn.idle`, `Turn.holds`),
  so one that is closed stays closed.
-/
import N0DnsResolver.Lib.Machine
import N0DnsResolver.Model.Pooling
import N0DnsResolver.Theory.Acceptance

namespace N0DnsResolver

namespace Pooling

/-! ## What a step can do -/

section Turn

variable (S : SimpleDns) (validName : Str → Bool)

/-- Why a query drops its connection, and where it goes then. -/
inductive Drops (task : Task) (c : ConnId) (conn : Conn) : Phase → Prop where
  | missed {e} (hphase : task.phase = .reusing c)
      (hframed : framedQuery S task.query conn.stream = .failed e) : Drops task c conn .dialing
  | failed {e} (hphase : task.phase = .fresh c)
      (hframed : framedQuery S task.query conn.stream = .failed e) :
      Drops task c conn (.returned (.error e))
  | unsecured (hphase : task.phase = .handshaking c) : Drops task c conn (.returned (.error .io))
  | dropped : Drops task c conn .dropped

/-- What a step of the queries, the sweeps and the peers changes. -/
inductive Turn (s : Pooling) : Event → Pooling → Prop where
  | dials {id key query now} (hnew : s.tasks id = none) (hclock : s.clock ≤ now.began)
      (hnone : (s.pool.checkout now.read key).1 = none) :
      Turn s (.start id key query now)
        ((s.pooled now.ended (s.pool.checkout now.read key).2).put id ⟨key, query, .dialing⟩)
  | reuses {id key query now c conn} (hnew : s.tasks id = none) (hclock : s.clock ≤ now.began)
      (hsome : (s.pool.checkout now.read key).1 = some c) (hconn : s.conns c = some conn) :
      Turn s (.start id key query now)
        (((s.pooled now.ended (s.pool.checkout now.read key).2).record c
          { conn with ending := none }).put id ⟨key, query, .reusing c⟩)
  | answers {id task c conn resp stream} (htask : s.tasks id = some task)
      (hphase : task.phase = .reusing c ∨ task.phase = .fresh c) (hconn : s.conns c = some conn)
      (hok : framedQuery S task.query conn.stream = .done (resp, stream)) :
      Turn s (.framed id) ((s.record c
        { conn with stream := stream, ending := some .succeeded }).put id
          { task with phase := .answered c resp })
  | leaves {e id task c conn ending phase} (htask : s.tasks id = some task)
      (hholds : task.phase.conn = some c) (hconn : s.conns c = some conn)
      (hwhy : Drops S task c conn phase) : Turn s e (s.leave id task c conn ending phase)
  | fails {e id task} (htask : s.tasks id = some task) (hphase : task.phase = .dialing) :
      Turn s e (s.put id { task with phase := .returned (.error .io) })
  | stops {e id task} (htask : s.tasks id = some task) :
      Turn s e (s.put id { task with phase := .dropped })
  | opens {id task c} (htask : s.tasks id = some task) (hphase : task.phase = .dialing)
      (hnew : s.conns c = none) :
      Turn s (.connect id c .succeeds) ((s.record c ⟨task.key, ⟨.waits, [], false⟩, none⟩).put id
        { task with phase := Phase.connected validName c task.key })
  | secures {id task c} (htask : s.tasks id = some task) (hphase : task.phase = .handshaking c) :
      Turn s (.handshake id .succeeds) (s.put id { task with phase := .fresh c })
  | checksIn {id task c resp now} (htask : s.tasks id = some task)
      (hphase : task.phase = .answered c resp) (hclock : s.clock ≤ now) :
      Turn s (.checkin id now) ((s.put id { task with phase := .returned (.ok resp) }).pooled now
        (s.pool.checkin now c task.key))
  | sweeps {e now pool} (hclock : s.clock ≤ now)
      (hsub : ∀ key, (pool.idle key).Sublist (s.pool.idle key)) : Turn s e (s.pooled now pool)
  | hears {c conn write more closed} (hconn : s.conns c = some conn) :
      Turn s (.peer c write more closed)
        (s.record c { conn with stream := ⟨write, conn.stream.incoming ++ more, closed⟩ })

variable {S validName} {s s' : Pooling}

theorem Drops.conn {task : Task} {c : ConnId} {conn : Conn} {phase : Phase}
    (h : Drops S task c conn phase) : phase.conn = none ∧ phase.response = none := by
  cases h <;> exact ⟨rfl, rfl⟩

theorem conn_of_framing {phase : Phase} {c : ConnId} (h : phase = .reusing c ∨ phase = .fresh c) :
    phase.conn = some c := by
  rcases h with rfl | rfl <;> rfl

theorem frame_turn {id : TaskId} {task : Task} {c : ConnId} {failed : TransportError → Phase}
    (htask : s.tasks id = some task) (hphase : task.phase = .reusing c ∨ task.phase = .fresh c)
    (hfailed : ∀ conn e, framedQuery S task.query conn.stream = .failed e →
      Drops S task c conn (failed e))
    (hs : s.frame S id task c failed = some s') : Turn S validName s (.framed id) s' := by
  obtain ⟨conn, hconn, hs⟩ := Option.bind_eq_some_iff.mp hs
  cases hframed : framedQuery S task.query conn.stream with
  | pending => simp [hframed] at hs
  | panicked p =>
    obtain rfl : _ = s' := by simpa [hframed] using hs
    exact .leaves htask (conn_of_framing hphase) hconn .dropped
  | failed e =>
    obtain rfl : _ = s' := by simpa [hframed] using hs
    exact .leaves htask (conn_of_framing hphase) hconn (hfailed conn e hframed)
  | done a =>
    obtain rfl : _ = s' := by simpa [hframed] using hs
    exact .answers htask hphase hconn hframed

theorem guard_bind_eq_some {p : Prop} [Decidable p] {x : Option Pooling} :
    ((guard p : Option Unit) >>= fun _ => x) = some s' ↔ p ∧ x = some s' := by
  by_cases h : p <;> simp [guard, h]

theorem step_turn {e : Event} (hs : s.step S validName e = some s') : Turn S validName s e s' := by
  cases e with
  | start id key query now =>
    obtain ⟨⟨hnew, hclock⟩, hs⟩ := guard_bind_eq_some.mp hs
    have hnew := Option.isNone_iff_eq_none.mp hnew
    cases hfound : (s.pool.checkout now.read key).1 with
    | none =>
      obtain rfl : _ = s' := by simpa [hfound] using hs
      exact .dials hnew hclock hfound
    | some c =>
      simp only [hfound] at hs
      obtain ⟨conn, hconn, hs⟩ := Option.bind_eq_some_iff.mp hs
      obtain rfl := Option.some.inj hs
      exact .reuses hnew hclock hfound hconn
  | framed id =>
    obtain ⟨task, htask, hs⟩ := Option.bind_eq_some_iff.mp hs
    cases hphase : task.phase with
    | reusing c =>
      simp only [hphase] at hs
      exact frame_turn htask (.inl hphase) (fun _ _ hframed => .missed hphase hframed) hs
    | fresh c =>
      simp only [hphase] at hs
      exact frame_turn htask (.inr hphase) (fun _ _ hframed => .failed hphase hframed) hs
    | _ => simp [hphase] at hs
  | connect id c progress =>
    obtain ⟨task, htask, hs⟩ := Option.bind_eq_some_iff.mp hs
    cases hphase : task.phase with
    | dialing =>
      cases progress with
      | waits => simp [hphase] at hs
      | fails =>
        obtain rfl : _ = s' := by simpa [hphase] using hs
        exact .fails htask hphase
      | succeeds =>
        simp only [hphase] at hs
        obtain ⟨hnew, hs⟩ := guard_bind_eq_some.mp hs
        obtain rfl := Option.some.inj hs
        exact .opens htask hphase (Option.isNone_iff_eq_none.mp hnew)
    | _ => simp [hphase] at hs
  | handshake id progress =>
    obtain ⟨task, htask, hs⟩ := Option.bind_eq_some_iff.mp hs
    cases hphase : task.phase with
    | handshaking c =>
      cases progress with
      | waits => simp [hphase] at hs
      | fails =>
        simp only [hphase] at hs
        obtain ⟨conn, hconn, hs⟩ := Option.bind_eq_some_iff.mp hs
        obtain rfl := Option.some.inj hs
        exact .leaves htask (by rw [hphase]; rfl) hconn (.unsecured hphase)
      | succeeds =>
        obtain rfl : _ = s' := by simpa [hphase] using hs
        exact .secures htask hphase
    | _ => simp [hphase] at hs
  | checkin id now =>
    obtain ⟨task, htask, hs⟩ := Option.bind_eq_some_iff.mp hs
    cases hphase : task.phase with
    | answered c resp =>
      simp only [hphase] at hs
      obtain ⟨hclock, hs⟩ := guard_bind_eq_some.mp hs
      obtain rfl := Option.some.inj hs
      exact .checksIn htask hphase hclock
    | _ => simp [hphase] at hs
  | drop id =>
    obtain ⟨task, htask, hs⟩ := Option.bind_eq_some_iff.mp hs
    obtain ⟨-, hs⟩ := guard_bind_eq_some.mp hs
    cases hholds : task.phase.conn with
    | none =>
      obtain rfl : _ = s' := by simpa [hholds] using hs
      exact .stops htask
    | some c =>
      simp only [hholds] at hs
      obtain ⟨conn, hconn, hs⟩ := Option.bind_eq_some_iff.mp hs
      obtain rfl := Option.some.inj hs
      exact .leaves htask hholds hconn .dropped
  | pruneTcp now =>
    obtain ⟨hclock, hs⟩ := guard_bind_eq_some.mp hs
    obtain rfl := Option.some.inj hs
    exact .sweeps (Nat.le_trans hclock now.began_le) (s.pool.idle_pruneTcp_sublist now.read)
  | pruneTls now =>
    obtain ⟨hclock, hs⟩ := guard_bind_eq_some.mp hs
    obtain rfl := Option.some.inj hs
    exact .sweeps (Nat.le_trans hclock now.began_le) (s.pool.idle_pruneTls_sublist now.read)
  | peer c write more closed =>
    obtain ⟨conn, hconn, hs⟩ := Option.bind_eq_some_iff.mp hs
    obtain rfl := Option.some.inj hs
    exact .hears hconn

end Turn

/-! ## Where a connection is -/

/-- The pool has a connection under a key. -/
def IdleAt (s : Pooling) (key : PoolKey) (c : ConnId) : Prop :=
  ∃ conn ∈ s.pool.idle key, conn.stream = c

/-- A query has a connection. -/
def Holds (s : Pooling) (id : TaskId) (c : ConnId) : Prop :=
  ∃ task, s.tasks id = some task ∧ task.phase.conn = some c

/-- A place for a connection. -/
inductive Place where
  | idle (key : PoolKey)
  | held (id : TaskId)
  | closed

/-- A connection is at a place. It is closed when neither the pool nor a query has it. -/
def At (s : Pooling) (c : ConnId) : Place → Prop
  | .idle key => s.IdleAt key c
  | .held id => s.Holds id c
  | .closed => (∀ key, ¬ s.IdleAt key c) ∧ ∀ id, ¬ s.Holds id c

section Places

variable {s : Pooling} {id id' : TaskId} {task task' : Task} {c : ConnId} {conn : Conn}

theorem tasks_of_put (h : (s.put id task).tasks id' = some task') :
    id' = id ∧ task' = task ∨ id' ≠ id ∧ s.tasks id' = some task' := by
  by_cases hid : id' = id
  · subst hid
    exact .inl ⟨rfl, by simpa [Pooling.put] using h.symm⟩
  · exact .inr ⟨hid, by simpa [Pooling.put, hid] using h⟩

theorem holds_of_put (h : (s.put id task).Holds id' c) :
    id' = id ∧ task.phase.conn = some c ∨ id' ≠ id ∧ s.Holds id' c := by
  obtain ⟨task', ht, hc⟩ := h
  rcases tasks_of_put ht with ⟨hid, rfl⟩ | ⟨hid, ht⟩
  · exact .inl ⟨hid, hc⟩
  · exact .inr ⟨hid, task', ht, hc⟩

/-- A query that has no connection does not keep anybody from having one. -/
theorem holds_of_put_none (hphase : task.phase.conn = none) (h : (s.put id task).Holds id' c) :
    id' ≠ id ∧ s.Holds id' c := by
  rcases holds_of_put h with ⟨-, hc⟩ | hh
  · rw [hphase] at hc
    simp at hc
  · exact hh

theorem record_conns_self : (s.record c conn).conns c = some conn := by
  simp [record]

variable (task) in
theorem put_record_put :
    ((s.put id task).record c conn).put id task' = (s.record c conn).put id task' := by
  simp [put, record]

end Places

/-- How the last query on a connection ended that a query in this phase has. -/
def Phase.ending : Phase → Option Ending
  | .answered _ _ => some .succeeded
  | _ => none

/-! ## The invariant -/

section Inv

variable (S : SimpleDns)

/-- The invariant of the pool and its queries. -/
structure Inv (s : Pooling) : Prop where
  idleFor : ∀ key c, s.IdleAt key c →
    ∃ conn, s.conns c = some conn ∧ conn.key = key ∧ conn.ending = some .succeeded
  once : ∀ key, ((s.pool.idle key).map (·.stream)).Nodup
  heldFor : ∀ id task c, s.tasks id = some task → task.phase.conn = some c →
    ∃ conn, s.conns c = some conn ∧ conn.key = task.key ∧ conn.ending = task.phase.ending
  heldOnce : ∀ id id' c, s.Holds id c → s.Holds id' c → id = id'
  apart : ∀ key id c, s.IdleAt key c → ¬ s.Holds id c
  cap : ∀ key, (s.pool.idle key).length ≤ maxIdlePerKey
  inOrder : ∀ key, (s.pool.idle key).Pairwise (·.lastUsed ≤ ·.lastUsed)
  stamped : ∀ key, ∀ conn ∈ s.pool.idle key, conn.lastUsed ≤ s.clock
  answers : ∀ id task resp, s.tasks id = some task → task.phase.response = some resp →
    answersQuery S resp task.query = .ok true

variable {S} {s : Pooling}

theorem new_inv : Inv S new := by
  have hidle : ∀ key c, ¬ new.IdleAt key c := by
    intro key c hi
    simp [IdleAt, new] at hi
  refine ⟨fun key c hi => absurd hi (hidle key c), ?_, fun _ _ _ h => (nomatch h),
    fun _ _ _ ⟨_, h, _⟩ => (nomatch h), fun key _ c hi => absurd hi (hidle key c), ?_, ?_, ?_,
    fun _ _ _ h => (nomatch h)⟩ <;> intro key <;> simp [new]

/-- What the connection is that is idle under a key. -/
theorem Inv.idleConn (h : Inv S s) {key : PoolKey} {c : ConnId} {conn : Conn}
    (hi : s.IdleAt key c) (hconn : s.conns c = some conn) :
    conn.key = key ∧ conn.ending = some .succeeded := by
  obtain ⟨conn', hconn', hfor⟩ := h.idleFor key c hi
  obtain rfl : conn' = conn := Option.some.inj (hconn'.symm.trans hconn)
  exact hfor

/-- What the connection is that a query has. -/
theorem Inv.heldConn (h : Inv S s) {id : TaskId} {task : Task} {c : ConnId} {conn : Conn}
    (htask : s.tasks id = some task) (hholds : task.phase.conn = some c)
    (hconn : s.conns c = some conn) : conn.key = task.key ∧ conn.ending = task.phase.ending := by
  obtain ⟨conn', hconn', hfor⟩ := h.heldFor id task c htask hholds
  obtain rfl : conn' = conn := Option.some.inj (hconn'.symm.trans hconn)
  exact hfor

/-- The pool drops connections and time passes. -/
theorem Inv.pooled (h : Inv S s) {now : Instant} {pool : ConnPool ConnId} (hclock : s.clock ≤ now)
    (hsub : ∀ key, (pool.idle key).Sublist (s.pool.idle key)) : Inv S (s.pooled now pool) := by
  have hidle : ∀ key c, (s.pooled now pool).IdleAt key c → s.IdleAt key c := by
    intro key c ⟨conn, hconn, hc⟩
    exact ⟨conn, (hsub key).subset hconn, hc⟩
  refine ⟨fun key c hi => h.idleFor key c (hidle key c hi), ?_, h.heldFor, h.heldOnce,
    fun key id c hi => h.apart key id c (hidle key c hi), ?_, ?_, ?_, h.answers⟩
  · intro key
    exact (h.once key).sublist ((hsub key).map _)
  · intro key
    exact Nat.le_trans (hsub key).length_le (h.cap key)
  · intro key
    exact (h.inOrder key).sublist (hsub key)
  · intro key conn hconn
    exact Nat.le_trans (h.stamped key conn ((hsub key).subset hconn)) hclock

/-- A query is put somewhere: what it has there, nobody else has. -/
theorem Inv.put (h : Inv S s) {id : TaskId} {task : Task}
    (hfor : ∀ c, task.phase.conn = some c → ∃ conn, s.conns c = some conn ∧
      conn.key = task.key ∧ conn.ending = task.phase.ending)
    (halone : ∀ c, task.phase.conn = some c →
      (∀ key, ¬ s.IdleAt key c) ∧ ∀ id', id' ≠ id → ¬ s.Holds id' c)
    (hresp : ∀ resp, task.phase.response = some resp → answersQuery S resp task.query = .ok true) :
    Inv S (s.put id task) := by
  refine ⟨h.idleFor, h.once, ?_, ?_, ?_, h.cap, h.inOrder, h.stamped, ?_⟩
  · intro id' task' c ht hc
    rcases tasks_of_put ht with ⟨-, rfl⟩ | ⟨-, ht⟩
    · exact hfor c hc
    · exact h.heldFor id' task' c ht hc
  · intro id₁ id₂ c h₁ h₂
    rcases holds_of_put h₁ with ⟨rfl, hc⟩ | ⟨hne₁, hc⟩
    · rcases holds_of_put h₂ with ⟨rfl, -⟩ | ⟨hne₂, hc₂⟩
      · rfl
      · exact absurd hc₂ ((halone c hc).2 id₂ hne₂)
    · rcases holds_of_put h₂ with ⟨rfl, hc₂⟩ | ⟨-, hc₂⟩
      · exact absurd hc ((halone c hc₂).2 id₁ hne₁)
      · exact h.heldOnce id₁ id₂ c hc hc₂
  · intro key id' c hi hh
    rcases holds_of_put hh with ⟨-, hc⟩ | ⟨-, hc⟩
    · exact (halone c hc).1 key hi
    · exact h.apart key id' c hi hc
  · intro id' task' resp ht hr
    rcases tasks_of_put ht with ⟨-, rfl⟩ | ⟨-, ht⟩
    · exact hresp resp hr
    · exact h.answers id' task' resp ht hr

/-- A query is put where it has no connection. -/
theorem Inv.put_none (h : Inv S s) {id : TaskId} {task : Task} (hphase : task.phase.conn = none)
    (hresp : ∀ resp, task.phase.response = some resp → answersQuery S resp task.query = .ok true) :
    Inv S (s.put id task) := by
  refine h.put ?_ ?_ hresp
  · intro c hc
    simp [hphase] at hc
  · intro c hc
    simp [hphase] at hc

/-- A connection becomes another that is as good for whoever has it. -/
theorem Inv.record (h : Inv S s) {c : ConnId} {conn : Conn}
    (hidle : ∀ key, s.IdleAt key c → conn.key = key ∧ conn.ending = some .succeeded)
    (hheld : ∀ id task, s.tasks id = some task → task.phase.conn = some c →
      conn.key = task.key ∧ conn.ending = task.phase.ending) :
    Inv S (s.record c conn) := by
  refine ⟨?_, h.once, ?_, h.heldOnce, h.apart, h.cap, h.inOrder, h.stamped, h.answers⟩
  · intro key c' hi
    by_cases hc : c' = c
    · subst hc
      exact ⟨conn, record_conns_self, hidle key hi⟩
    · simpa [Pooling.record, hc] using h.idleFor key c' hi
  · intro id task c' ht hh
    by_cases hc : c' = c
    · subst hc
      exact ⟨conn, record_conns_self, hheld id task ht hh⟩
    · simpa [Pooling.record, hc] using h.heldFor id task c' ht hh

theorem Inv.record_closed (h : Inv S s) {c : ConnId} {conn : Conn} (hc : s.At c .closed) :
    Inv S (s.record c conn) := by
  refine h.record ?_ ?_
  · intro key hi
    exact absurd hi (hc.1 key)
  · intro id task ht hh
    exact absurd ⟨task, ht, hh⟩ (hc.2 id)

/-- A connection that nobody has goes back to the pool. -/
theorem Inv.checkin (h : Inv S s) {c : ConnId} {conn : Conn} {key : PoolKey} {now : Instant}
    (hclock : s.clock ≤ now) (hc : s.At c .closed) (hconn : s.conns c = some conn)
    (hkey : conn.key = key) (hend : conn.ending = some .succeeded) :
    Inv S (s.pooled now (s.pool.checkin now c key)) := by
  subst hkey
  have hidle : ∀ key c', (s.pooled now (s.pool.checkin now c conn.key)).IdleAt key c' →
      s.IdleAt key c' ∨ key = conn.key ∧ c' = c := by
    intro key c' ⟨i, hi, hstream⟩
    rcases ConnPool.mem_idle_checkin hi with hi | ⟨hkey, rfl⟩
    · exact .inl ⟨i, hi, hstream⟩
    · exact .inr ⟨hkey, hstream.symm⟩
  refine ⟨?_, ?_, h.heldFor, h.heldOnce, ?_, ?_, ?_, ?_, h.answers⟩
  · intro key c' hi
    rcases hidle key c' hi with hi | ⟨rfl, rfl⟩
    · exact h.idleFor key c' hi
    · exact ⟨conn, hconn, rfl, hend⟩
  · apply ConnPool.forall_idle_checkin (P := fun idle => (idle.map (·.stream)).Nodup) h.once
    refine List.Nodup.sublist ((pushCapped_sublist now _ c).map _) ?_
    rw [List.map_append, List.map_singleton]
    refine List.Nodup.append (h.once _) (List.nodup_singleton c) ?_
    intro c' hmem hlast
    obtain ⟨i, hi, hstream⟩ := List.mem_map.mp hmem
    exact hc.1 _ ⟨i, hi, hstream.trans (List.mem_singleton.mp hlast)⟩
  · intro key id c' hi hh
    rcases hidle key c' hi with hi | ⟨-, rfl⟩
    · exact h.apart key id c' hi hh
    · exact hc.2 id hh
  · apply ConnPool.forall_idle_checkin (P := fun idle => idle.length ≤ maxIdlePerKey) h.cap
    exact length_pushCapped_le now c (h.cap _)
  · apply ConnPool.forall_idle_checkin (P := List.Pairwise (·.lastUsed ≤ ·.lastUsed)) h.inOrder
    refine List.Pairwise.sublist (pushCapped_sublist now _ c) ?_
    refine List.pairwise_append.mpr ⟨h.inOrder _, List.pairwise_singleton _ _, ?_⟩
    intro i hi last hlast
    rw [List.mem_singleton.mp hlast]
    exact Nat.le_trans (h.stamped _ i hi) hclock
  · intro key i hi
    rcases ConnPool.mem_idle_checkin hi with hi | ⟨-, rfl⟩
    · exact Nat.le_trans (h.stamped key i hi) hclock
    · exact Nat.le_refl now

/-- A query has a connection that nobody else has. -/
theorem Inv.take (h : Inv S s) {id : TaskId} {task : Task} {c : ConnId} {conn : Conn}
    (hc : s.At c .closed) (hconn : s.conns c = some conn) (hkey : conn.key = task.key)
    (hend : conn.ending = task.phase.ending) (hphase : ∀ c', task.phase.conn = some c' → c' = c)
    (hresp : ∀ resp, task.phase.response = some resp → answersQuery S resp task.query = .ok true) :
    Inv S (s.put id task) := by
  refine h.put ?_ ?_ hresp
  · intro c' hc'
    rw [hphase c' hc']
    exact ⟨conn, hconn, hkey, hend⟩
  · intro c' hc'
    rw [hphase c' hc']
    exact ⟨hc.1, fun id' _ => hc.2 id'⟩

/-- A query gives up its connection. -/
theorem Inv.release (h : Inv S s) {id : TaskId} {task : Task} (phase : Phase) {c : ConnId}
    (htask : s.tasks id = some task) (hholds : task.phase.conn = some c)
    (hphase : phase.conn = none)
    (hresp : ∀ resp, phase.response = some resp → answersQuery S resp task.query = .ok true) :
    Inv S (s.put id { task with phase := phase }) ∧
      (s.put id { task with phase := phase }).At c .closed := by
  have hheld : s.Holds id c := ⟨task, htask, hholds⟩
  refine ⟨h.put_none hphase hresp, fun key hi => h.apart key id c hi hheld, ?_⟩
  intro id' hh
  obtain ⟨hid, hh⟩ := holds_of_put_none hphase hh
  exact hid (h.heldOnce id' id c hh hheld)

/-- A checkout takes a fresh connection, which nobody has then. -/
theorem Inv.checkout (h : Inv S s) {key : PoolKey} {read : Idle ConnId → Instant} {c : ConnId}
    (hsome : (s.pool.checkout read key).1 = some c) (now : Instant) :
    (∃ conn ∈ s.pool.idle key, conn.stream = c ∧ conn.isStale (read conn) = false) ∧
      (s.pooled now (s.pool.checkout read key).2).At c .closed := by
  rw [ConnPool.checkout_fst] at hsome
  rcases takeFresh_cases read (s.pool.idle key) with
    hnone | ⟨kept, conn, stale, hidle, hfresh, htake⟩
  · rw [hnone] at hsome
    simp at hsome
  · rw [htake] at hsome
    obtain rfl : conn.stream = c := Option.some.inj hsome
    have hmem : conn ∈ s.pool.idle key := by
      rw [hidle]
      exact List.mem_append_right kept List.mem_cons_self
    have hat : s.IdleAt key conn.stream := ⟨conn, hmem, rfl⟩
    refine ⟨⟨conn, hmem, rfl, hfresh⟩, ?_, fun id hh => h.apart key id _ hat hh⟩
    intro k hi
    obtain ⟨i, hi, hstream⟩ := hi
    by_cases hk : k = key
    · -- It was listed once under its key, and what was kept came before it.
      subst hk
      have hkept : i ∈ kept := by
        have hleft : (s.pool.checkout read k).2.idle k = kept := by
          rw [ConnPool.idle_checkout_self, htake]
        exact hleft ▸ hi
      have honce := h.once k
      rw [hidle, List.map_append, List.map_cons] at honce
      exact (List.nodup_append.mp honce).2.2 _ (List.mem_map_of_mem hkept) _
        List.mem_cons_self hstream
    · have hi : i ∈ s.pool.idle k := (s.pool.idle_checkout_sublist read key k).subset hi
      obtain ⟨conn', hconn', hkey', -⟩ := h.idleFor key _ hat
      exact hk ((h.idleConn ⟨i, hi, hstream⟩ hconn').1.symm.trans hkey')

/-- Nobody has a connection that was never opened. -/
theorem Inv.unopened (h : Inv S s) {c : ConnId} (hc : s.conns c = none) : s.At c .closed := by
  refine ⟨?_, ?_⟩
  · intro key hi
    obtain ⟨conn, hconn, -⟩ := h.idleFor key c hi
    simp [hc] at hconn
  · intro id ⟨task, htask, hh⟩
    obtain ⟨conn, hconn, -⟩ := h.heldFor id task c htask hh
    simp [hc] at hconn

variable {validName : Str → Bool}

theorem Phase.connected_conn {c c' : ConnId} {key : PoolKey}
    (h : (Phase.connected validName c key).conn = some c') : c' = c := by
  unfold Phase.connected at h
  split at h
  · exact (Option.some.inj h).symm
  · exact (Option.some.inj h).symm
  · split at h
    · exact (Option.some.inj h).symm
    · simp [Phase.conn] at h

variable (validName) in
theorem Phase.connected_pending (c : ConnId) (key : PoolKey) :
    (Phase.connected validName c key).response = none ∧
      (Phase.connected validName c key).ending = none := by
  unfold Phase.connected
  split
  · exact ⟨rfl, rfl⟩
  · exact ⟨rfl, rfl⟩
  · split <;> exact ⟨rfl, rfl⟩

theorem Turn.inv {e : Event} {s' : Pooling} (ht : Turn S validName s e s') (h : Inv S s) :
    Inv S s' := by
  cases ht with
  | @dials id key query now hnew hclock hnone =>
    have hpool := h.pooled (Nat.le_trans hclock now.began_le)
      (s.pool.idle_checkout_sublist now.read key)
    exact hpool.put_none rfl (fun _ hr => (nomatch hr))
  | @reuses id key query now c conn hnew hclock hsome hconn =>
    have hpool := h.pooled (Nat.le_trans hclock now.began_le)
      (s.pool.idle_checkout_sublist now.read key)
    obtain ⟨⟨i, hi, hstream, -⟩, hclosed⟩ := h.checkout hsome now.ended
    have hkey := (h.idleConn ⟨i, hi, hstream⟩ hconn).1
    refine (hpool.record_closed hclosed).take (c := c) hclosed record_conns_self hkey rfl
      ?_ (fun _ hr => (nomatch hr))
    intro c' hc'
    exact (Option.some.inj hc').symm
  | @answers id task c conn resp stream htask hphase hconn hok =>
    have hholds := conn_of_framing hphase
    obtain ⟨hinv, hclosed⟩ := h.release .dropped htask hholds rfl (fun _ hr => (nomatch hr))
    have hkey := (h.heldConn htask hholds hconn).1
    rw [← put_record_put { task with phase := .dropped }]
    refine (hinv.record_closed hclosed).take (c := c) hclosed record_conns_self hkey rfl
      ?_ ?_
    · intro c' hc'
      exact (Option.some.inj hc').symm
    · intro resp' hr
      obtain rfl : resp = resp' := Option.some.inj hr
      exact framedQuery_accepts S hok
  | leaves htask hholds hconn hwhy =>
    obtain ⟨hinv, hclosed⟩ := h.release _ htask hholds hwhy.conn.1
      (fun _ hr => by simp [hwhy.conn.2] at hr)
    exact hinv.record_closed hclosed
  | fails => exact h.put_none rfl (fun _ hr => (nomatch hr))
  | stops => exact h.put_none rfl (fun _ hr => (nomatch hr))
  | @opens id task c htask hphase hnew =>
    have hclosed := h.unopened hnew
    obtain ⟨hresp, hend⟩ := Phase.connected_pending validName c task.key
    refine (h.record_closed hclosed).take (c := c) hclosed record_conns_self rfl hend.symm
      (fun _ hc => Phase.connected_conn hc) ?_
    intro resp hr
    simp [hresp] at hr
  | @secures id task c htask hphase =>
    have hholds : task.phase.conn = some c := by rw [hphase]; rfl
    have hheld : s.Holds id c := ⟨task, htask, hholds⟩
    obtain ⟨conn, hconn, hkey, hend⟩ := h.heldFor id task c htask hholds
    rw [hphase] at hend
    refine h.put ?_ ?_ (fun _ hr => (nomatch hr))
    · intro c' hc'
      obtain rfl : c = c' := Option.some.inj hc'
      exact ⟨conn, hconn, hkey, hend⟩
    · intro c' hc'
      obtain rfl : c = c' := Option.some.inj hc'
      exact ⟨fun key hi => h.apart key id c hi hheld,
        fun id' hid hh => hid (h.heldOnce id' id c hh hheld)⟩
  | @checksIn id task c resp now htask hphase hclock =>
    have hholds : task.phase.conn = some c := by rw [hphase]; rfl
    have hresp : answersQuery S resp task.query = .ok true :=
      h.answers id task resp htask (by rw [hphase]; rfl)
    obtain ⟨conn, hconn, hkey, hend⟩ := h.heldFor id task c htask hholds
    rw [hphase] at hend
    obtain ⟨hinv, hclosed⟩ := h.release (.returned (.ok resp)) htask hholds rfl
      (fun resp' hr => by obtain rfl : resp = resp' := Option.some.inj hr; exact hresp)
    exact hinv.checkin hclock hclosed hconn hkey hend
  | sweeps hclock hsub => exact h.pooled hclock hsub
  | @hears c conn write more closed hconn =>
    refine h.record ?_ ?_
    · intro key hi
      have hfor := h.idleConn hi hconn
      exact hfor
    · intro id task htask hholds
      have hfor := h.heldConn htask hholds hconn
      exact hfor

end Inv

/-! ## How connections are handed on -/

section Moves

variable {S : SimpleDns} {validName : Str → Bool} {s s' : Pooling} {e : Event}

/-- A connection gets into the pool by the check-in of a query that had its answer from it. -/
theorem Turn.idle (ht : Turn S validName s e s') {key : PoolKey} {conn : Idle ConnId}
    (hi : conn ∈ s'.pool.idle key) : conn ∈ s.pool.idle key ∨
      ∃ id task resp, e = .checkin id conn.lastUsed ∧ s.tasks id = some task ∧ task.key = key ∧
        task.phase = .answered conn.stream resp := by
  cases ht with
  | dials => exact .inl ((s.pool.idle_checkout_sublist _ _ key).subset hi)
  | reuses => exact .inl ((s.pool.idle_checkout_sublist _ _ key).subset hi)
  | @checksIn id task c resp now htask hphase =>
    rcases ConnPool.mem_idle_checkin hi with hi | ⟨rfl, rfl⟩
    · exact .inl hi
    · exact .inr ⟨id, task, resp, rfl, htask, rfl, hphase⟩
  | sweeps hclock hsub => exact .inl ((hsub key).subset hi)
  | _ => exact .inl hi

/-- A query gets a connection from the pool as it starts, or it opens it. -/
theorem Turn.holds (ht : Turn S validName s e s') (h : Inv S s) {id : TaskId} {c : ConnId}
    (hh : s'.Holds id c) : s.Holds id c ∨ s.conns c = none ∨
      ∃ key query now, e = .start id key query now ∧
        s'.tasks id = some ⟨key, query, .reusing c⟩ ∧
        ∃ conn ∈ s.pool.idle key, conn.stream = c ∧ conn.isStale (now.read conn) = false := by
  cases ht with
  | dials => exact .inl (holds_of_put_none rfl hh).2
  | @reuses id' key query now c' conn hnew hclock hsome hconn =>
    rcases holds_of_put hh with ⟨rfl, hc⟩ | ⟨-, hh⟩
    · obtain rfl : c' = c := Option.some.inj hc
      have hfound := (h.checkout hsome now.ended).1
      exact .inr (.inr ⟨key, query, now, rfl, Function.update_self .., hfound⟩)
    · exact .inl hh
  | @answers id' task c' conn resp stream htask hphase hconn hok =>
    rcases holds_of_put hh with ⟨rfl, hc⟩ | ⟨-, hh⟩
    · obtain rfl : c' = c := Option.some.inj hc
      exact .inl ⟨task, htask, conn_of_framing hphase⟩
    · exact .inl hh
  | leaves htask hholds hconn hwhy => exact .inl (holds_of_put_none hwhy.conn.1 hh).2
  | fails => exact .inl (holds_of_put_none rfl hh).2
  | stops => exact .inl (holds_of_put_none rfl hh).2
  | opens htask hphase hnew =>
    rcases holds_of_put hh with ⟨-, hc⟩ | ⟨-, hh⟩
    · rw [Phase.connected_conn hc]
      exact .inr (.inl hnew)
    · exact .inl hh
  | @secures id' task c' htask hphase =>
    rcases holds_of_put hh with ⟨rfl, hc⟩ | ⟨-, hh⟩
    · obtain rfl : c' = c := Option.some.inj hc
      exact .inl ⟨task, htask, by rw [hphase]; rfl⟩
    · exact .inl hh
  | checksIn => exact .inl (holds_of_put_none rfl hh).2
  | sweeps => exact .inl hh
  | hears => exact .inl hh

/-- A closed connection stays closed. -/
theorem Turn.closed (ht : Turn S validName s e s') (h : Inv S s) {c : ConnId}
    (hopened : (s.conns c).isSome) (hc : s.At c .closed) : s'.At c .closed := by
  refine ⟨?_, ?_⟩
  · intro key ⟨conn, hi, hstream⟩
    rcases ht.idle hi with hi | ⟨id, task, resp, -, htask, -, hphase⟩
    · exact hc.1 key ⟨conn, hi, hstream⟩
    · exact hc.2 id ⟨task, htask, by rw [hphase, ← hstream]; rfl⟩
  · intro id hh
    rcases ht.holds h hh with hh | hnone | ⟨key, query, now, -, -, conn, hi, hstream, -⟩
    · exact hc.2 id hh
    · simp [hnone] at hopened
    · exact hc.1 key ⟨conn, hi, hstream⟩

/-- A query is asked once: its key and its query stay. -/
theorem Turn.tasks (ht : Turn S validName s e s') {id : TaskId} {task : Task}
    (htask : s.tasks id = some task) :
    ∃ task', s'.tasks id = some task' ∧ task'.key = task.key ∧ task'.query = task.query := by
  have hput : ∀ {id' task' phase}, s.tasks id' = some task' →
      ∃ t, (s.put id' { task' with phase := phase }).tasks id = some t ∧ t.key = task.key ∧
        t.query = task.query := by
    intro id' task' phase htask'
    by_cases hid : id = id'
    · subst hid
      obtain rfl : task' = task := Option.some.inj (htask'.symm.trans htask)
      exact ⟨_, Function.update_self .., rfl, rfl⟩
    · exact ⟨task, by simpa [put, hid] using htask, rfl, rfl⟩
  have hstart : ∀ {id' task'}, s.tasks id' = none →
      ∃ t, (s.put id' task').tasks id = some t ∧ t.key = task.key ∧ t.query = task.query := by
    intro id' task' hnew
    have hid : id ≠ id' := by
      intro heq
      rw [heq, hnew] at htask
      simp at htask
    exact ⟨task, by simpa [put, hid] using htask, rfl, rfl⟩
  cases ht with
  | dials hnew => exact hstart hnew
  | reuses hnew => exact hstart hnew
  | answers htask' => exact hput htask'
  | leaves htask' => exact hput htask'
  | fails htask' => exact hput htask'
  | stops htask' => exact hput htask'
  | opens htask' => exact hput htask'
  | secures htask' => exact hput htask'
  | checksIn htask' => exact hput htask'
  | sweeps => exact ⟨task, htask, rfl, rfl⟩
  | hears => exact ⟨task, htask, rfl, rfl⟩

/-- A connection is opened by a query that dials, for the key of that query. -/
theorem Turn.conns (ht : Turn S validName s e s') {c : ConnId} {conn' : Conn}
    (hconn' : s'.conns c = some conn') :
    (∃ conn, s.conns c = some conn ∧ conn'.key = conn.key) ∨
      s.conns c = none ∧ ∃ id task, e = .connect id c .succeeds ∧ s.tasks id = some task ∧
        task.phase = .dialing ∧ conn'.key = task.key := by
  have hrecord : ∀ {c₀ : ConnId} {conn : Conn} {stream : Stream} {ending : Option Ending},
      s.conns c₀ = some conn → (s.record c₀ ⟨conn.key, stream, ending⟩).conns c = some conn' →
        ∃ conn, s.conns c = some conn ∧ conn'.key = conn.key := by
    intro c₀ conn stream ending hconn hget
    by_cases hc : c = c₀
    · subst hc
      obtain rfl : _ = conn' := Option.some.inj (record_conns_self.symm.trans hget)
      exact ⟨conn, hconn, rfl⟩
    · exact ⟨conn', by simpa [record, hc] using hget, rfl⟩
  cases ht with
  | reuses hnew hclock hsome hconn => exact .inl (hrecord hconn hconn')
  | answers htask hphase hconn => exact .inl (hrecord hconn hconn')
  | leaves htask hholds hconn => exact .inl (hrecord hconn hconn')
  | hears hconn => exact .inl (hrecord hconn hconn')
  | @opens id task c₀ htask hphase hnew =>
    by_cases hc : c = c₀
    · subst hc
      obtain rfl : _ = conn' := Option.some.inj (record_conns_self.symm.trans hconn')
      exact .inr ⟨hnew, id, task, rfl, htask, hphase, rfl⟩
    · exact .inl ⟨conn', by simpa [record, put, hc] using hconn', rfl⟩
  | _ => exact .inl ⟨conn', hconn', rfl⟩

theorem Turn.conns_isSome (ht : Turn S validName s e s') {c : ConnId}
    (h : (s.conns c).isSome) : (s'.conns c).isSome := by
  have hrecord : ∀ {c₀ : ConnId} {conn : Conn}, ((s.record c₀ conn).conns c).isSome := by
    intro c₀ conn
    by_cases hc : c = c₀
    · rw [hc, record_conns_self]
      rfl
    · simpa [record, hc] using h
  cases ht with
  | reuses => exact hrecord
  | answers => exact hrecord
  | leaves => exact hrecord
  | opens => exact hrecord
  | hears => exact hrecord
  | _ => exact h

end Moves

/-! ## The contract of the pool -/

section Contract

variable (S : SimpleDns)

/-- What is asked of the pool and its queries in every state. -/
structure Exclusive (s : Pooling) : Prop where
  /-- Every connection opened is idle under one key, held by one query, or closed. -/
  place : ∀ c, (s.conns c).isSome → ∃! place, s.At c place
  /-- A key lists a connection once. -/
  once : ∀ key, ((s.pool.idle key).map (·.stream)).Nodup
  idleFor : ∀ key c, s.At c (.idle key) → ∃ conn, s.conns c = some conn ∧ conn.key = key
  heldFor : ∀ id c, s.At c (.held id) → ∃ task conn, s.tasks id = some task ∧
    s.conns c = some conn ∧ conn.key = task.key
  cap : ∀ key, (s.pool.idle key).length ≤ maxIdlePerKey
  inOrder : ∀ key, (s.pool.idle key).Pairwise (·.lastUsed ≤ ·.lastUsed)
  spent : ∀ c conn, s.conns c = some conn →
    conn.ending = some .failed ∨ conn.ending = some .cancelled → s.At c .closed
  answers : ∀ id task resp, s.tasks id = some task → task.phase = .returned (.ok resp) →
    answersQuery S resp task.query = .ok true

/-- What is asked of a step. -/
structure Orderly (s : Pooling) (e : Event) (s' : Pooling) : Prop where
  /-- A query that gets a connection opened it, or starts and finds it idle under its key, not for
  as long as the timeout. -/
  handedOut : ∀ id c, s'.At c (.held id) → s.At c (.held id) ∨ s.conns c = none ∨
    ∃ key query now, e = .start id key query now ∧ s'.tasks id = some ⟨key, query, .reusing c⟩ ∧
      ∃ conn ∈ s.pool.idle key, conn.stream = c ∧ now.read conn - conn.lastUsed < idleTimeout
  /-- A query that no longer has its connection dropped it, or had its answer and checked it in. -/
  parted : ∀ id c, s.At c (.held id) → s'.At c (.held id) ∨ s'.At c .closed ∨
    ∃ task resp now, e = .checkin id now ∧ s.tasks id = some task ∧
      task.phase = .answered c resp ∧ s'.At c (.idle task.key)
  /-- A connection is last used when it is checked in. -/
  stamped : ∀ key, ∀ conn ∈ s'.pool.idle key, conn ∈ s.pool.idle key ∨
    ∃ id, e = .checkin id conn.lastUsed ∧ s.At conn.stream (.held id)
  closed : ∀ c, (s.conns c).isSome → s.At c .closed → s'.At c .closed
  /-- A connection is opened for the key of the query that dials, and for good. -/
  opened : ∀ c conn', s'.conns c = some conn' →
    (∃ conn, s.conns c = some conn ∧ conn'.key = conn.key) ∨
      s.conns c = none ∧ ∃ id task, e = .connect id c .succeeds ∧ s.tasks id = some task ∧
        task.phase = .dialing ∧ conn'.key = task.key
  kept : ∀ c, (s.conns c).isSome → (s'.conns c).isSome
  asked : ∀ id task, s.tasks id = some task →
    ∃ task', s'.tasks id = some task' ∧ task'.key = task.key ∧ task'.query = task.query

variable {S} {validName : Str → Bool} {s s' : Pooling}

theorem Inv.place (h : Inv S s) (c : ConnId) : ∃! place, s.At c place := by
  by_cases hidle : ∃ key, s.IdleAt key c
  · obtain ⟨key, hi⟩ := hidle
    refine ⟨.idle key, hi, ?_⟩
    intro place hplace
    cases place with
    | idle key' =>
      obtain ⟨conn, hconn, hkey, -⟩ := h.idleFor key c hi
      rw [← hkey, ← (h.idleConn hplace hconn).1]
    | held id => exact absurd hplace (h.apart key id c hi)
    | closed => exact absurd hi (hplace.1 key)
  · by_cases hheld : ∃ id, s.Holds id c
    · obtain ⟨id, hh⟩ := hheld
      refine ⟨.held id, hh, ?_⟩
      intro place hplace
      cases place with
      | idle key => exact absurd ⟨key, hplace⟩ hidle
      | held id' => rw [h.heldOnce id' id c hplace hh]
      | closed => exact absurd hh (hplace.2 id)
    · have hclosed : s.At c .closed := ⟨not_exists.mp hidle, not_exists.mp hheld⟩
      refine ⟨.closed, hclosed, ?_⟩
      intro place hplace
      cases place with
      | idle key => exact absurd ⟨key, hplace⟩ hidle
      | held id => exact absurd ⟨id, hplace⟩ hheld
      | closed => rfl

theorem Inv.exclusive (h : Inv S s) : s.Exclusive S := by
  refine ⟨fun c _ => h.place c, h.once, ?_, ?_, h.cap, h.inOrder, ?_, ?_⟩
  · intro key c hi
    obtain ⟨conn, hconn, hkey, -⟩ := h.idleFor key c hi
    exact ⟨conn, hconn, hkey⟩
  · intro id c ⟨task, htask, hh⟩
    obtain ⟨conn, hconn, hkey, -⟩ := h.heldFor id task c htask hh
    exact ⟨task, conn, htask, hconn, hkey⟩
  · intro c conn hconn hend
    refine ⟨?_, ?_⟩
    · intro key hi
      rw [(h.idleConn hi hconn).2] at hend
      simp at hend
    · intro id ⟨task, htask, hh⟩
      rw [(h.heldConn htask hh hconn).2] at hend
      -- While a query is under way there is no ending yet, and with an answer it succeeded.
      unfold Phase.ending at hend
      split at hend <;> simp at hend
  · intro id task resp htask hphase
    exact h.answers id task resp htask (by rw [hphase]; rfl)

theorem Turn.orderly {e : Event} (ht : Turn S validName s e s') (h : Inv S s) :
    s.Orderly e s' := by
  have h' := ht.inv h
  refine ⟨?_, ?_, ?_, fun c hopened hc => ht.closed h hopened hc,
    fun c conn' hconn' => ht.conns hconn', fun c hopened => ht.conns_isSome hopened,
    fun id task htask => ht.tasks htask⟩
  · intro id c hh
    rcases ht.holds h hh with hh | hnone | ⟨key, query, now, he, htask, conn, hi, hstream, hfresh⟩
    · exact .inl hh
    · exact .inr (.inl hnone)
    · refine .inr (.inr ⟨key, query, now, he, htask, conn, hi, hstream, ?_⟩)
      exact Nat.lt_of_not_le (of_decide_eq_false hfresh)
  · intro id c hh
    obtain ⟨task, htask, hc⟩ := hh
    obtain ⟨place, hplace, -⟩ := h'.place c
    cases place with
    | closed => exact .inr (.inl hplace)
    | held id' =>
      rcases ht.holds h hplace with hh' | hnone | ⟨key, query, now, -, -, conn, hi, hstream, -⟩
      · obtain rfl := h.heldOnce id' id c hh' ⟨task, htask, hc⟩
        exact .inl hplace
      · obtain ⟨conn, hconn, -⟩ := h.heldFor id task c htask hc
        simp [hnone] at hconn
      · exact absurd ⟨task, htask, hc⟩ (h.apart key id c ⟨conn, hi, hstream⟩)
    | idle key =>
      obtain ⟨conn, hi, hstream⟩ := hplace
      rcases ht.idle hi with hi | ⟨id', task', resp, he, htask', hkey, hphase⟩
      · exact absurd ⟨task, htask, hc⟩ (h.apart key id c ⟨conn, hi, hstream⟩)
      · rw [hstream] at hphase
        have hh' : s.Holds id' c := ⟨task', htask', by rw [hphase]; rfl⟩
        obtain rfl := h.heldOnce id' id c hh' ⟨task, htask, hc⟩
        exact .inr (.inr ⟨task', resp, conn.lastUsed, he, htask', hphase, conn, hkey ▸ hi, hstream⟩)
  · intro key conn hi
    rcases ht.idle hi with hi | ⟨id, task, resp, he, htask, -, hphase⟩
    · exact .inl hi
    · exact .inr ⟨id, he, task, htask, by rw [hphase]; rfl⟩

end Contract

theorem run_inv {S : SimpleDns} {validName : Str → Bool} {events : List Event} {s t : Pooling}
    (h : Inv S s) (hrun : Machine.run (step S validName) s events = some t) : Inv S t :=
  Machine.run_invariant (fun _ _ _ hs hstep => (step_turn hstep).inv hs) h hrun

/-- What was closed is closed after every run. -/
theorem run_closed {S : SimpleDns} {validName : Str → Bool} {events : List Event} {s t : Pooling}
    {c : ConnId} (h : Inv S s) (hopened : (s.conns c).isSome) (hc : s.At c .closed)
    (hrun : Machine.run (step S validName) s events = some t) : t.At c .closed := by
  refine (Machine.run_invariant (P := fun s : Pooling => Inv S s ∧ (s.conns c).isSome ∧
    s.At c .closed) ?_ ⟨h, hopened, hc⟩ hrun).2.2
  intro s e s' ⟨hs, hopened, hc⟩ hstep
  have ht := step_turn hstep
  exact ⟨ht.inv hs, ht.conns_isSome hopened, ht.closed hs hopened hc⟩

end Pooling

/-- Whatever the queries, the sweeps and the peers do and whenever, a pooled connection is never at
two places, never with the wrong query, and closed for good once a query on it went wrong. -/
theorem pool_exclusive (S : SimpleDns) (validName : Str → Bool) (events : List Pooling.Event)
    (s : Pooling) (hrun : Machine.run (Pooling.step S validName) .new events = some s) :
    s.Exclusive S ∧ (∀ e s', s.step S validName e = some s' → s.Orderly e s') ∧
      ∀ c, (s.conns c).isSome → s.At c .closed → ∀ later t,
        Machine.run (Pooling.step S validName) s later = some t → t.At c .closed := by
  have h := Pooling.run_inv Pooling.new_inv hrun
  exact ⟨h.exclusive, fun e s' hstep => (Pooling.step_turn hstep).orderly h,
    fun c hopened hc later t hlater => Pooling.run_closed h hopened hc hlater⟩

/-! ## A stale frame -/

def staleKey : PoolKey := .tcp ⟨.v4 ⟨0x01010101⟩, 53⟩

/-- The header of a query. -/
def bareQuery (id : UInt8) : Bytes := [0, id, 1, 0, 0, 1, 0, 0, 0, 0, 0, 0]

/-- The header of its answer. -/
def bareAnswer (id : UInt8) : Bytes := [0, id, 0x81, 0x80, 0, 1, 0, 0, 0, 0, 0, 0]

def bareFrame (id : UInt8) : Bytes := [0, 12] ++ bareAnswer id

/-- The server answers the first query twice, and the second on a connection of its own. -/
def staleEvents : List Pooling.Event :=
  [.start 0 staleKey (bareQuery 1) (.still ConnId 0), .connect 0 0 .succeeds,
    .peer 0 .succeeds (bareFrame 1 ++ bareFrame 1) false, .framed 0, .checkin 0 1,
    .start 1 staleKey (bareQuery 2) (.still ConnId 2), .framed 1, .connect 1 1 .succeeds,
    .peer 1 .succeeds (bareFrame 2) false, .framed 1, .checkin 1 3]

def staleRun : Option Pooling :=
  Machine.run (Pooling.step (.ofTable []) fun _ => true) .new staleEvents

/-- The second query finds the frame the first one left, drops the connection and dials. -/
theorem pool_exclusive_stale :
    ((staleRun.get rfl).tasks 1).map (·.phase) = some (.returned (.ok (bareAnswer 2))) ∧
      (staleRun.get rfl).pool.idle staleKey = [⟨1, 3⟩] ∧
      ((staleRun.get rfl).conns 0).map (·.ending) = some (some .failed) ∧
      (staleRun.get rfl).Exclusive (.ofTable []) :=
  ⟨rfl, rfl, rfl, (pool_exclusive (.ofTable []) (fun _ => true) staleEvents (staleRun.get rfl)
    (Option.some_get (rfl : staleRun.isSome = true)).symm).1⟩

end N0DnsResolver
