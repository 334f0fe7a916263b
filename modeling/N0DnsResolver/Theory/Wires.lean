/-
  The frames on the pooled connections stay in step.

  `frames` is the code of `framed_query`: what it writes is a word of it, and what it returns
  is the first message of what arrived (`framedQuery_done`). An event either passes the wires
  by, or is an answer, or brings more bytes (`Passes`). So on every connection the answers are
  the frames that arrived, one for each query that was written, in the same order
  (`frames_in_step`).
-/
import N0DnsResolver.Model.Wires
import N0DnsResolver.Theory.PoolExclusive

namespace N0DnsResolver

/-! ## Frames -/

theorem wordAt_toBeBytes (word : UInt16) (rest : Bytes) :
    wordAt (toBeBytes word ++ rest) 0 = word := by
  have hword : word.toNat < 65536 := word.toNat_lt
  have hhigh : word.toNat / 256 < 256 := by omega
  have hlow : word.toNat % 256 < 256 := Nat.mod_lt _ (by decide)
  show UInt16.ofNat ((UInt8.ofNat (word.toNat / 256)).toNat * 256 +
    (UInt8.ofNat (word.toNat % 256)).toNat) = word
  rw [UInt8.toNat_ofNat_of_lt' hhigh, UInt8.toNat_ofNat_of_lt' hlow, Nat.mul_comm,
    Nat.div_add_mod]
  exact UInt16.ofNat_toNat

theorem exists_two_bytes {incoming : Bytes} (h : 2 ≤ incoming.length) :
    ∃ high low rest, incoming = high :: low :: rest := by
  cases incoming with
  | nil => exact absurd h (by decide)
  | cons high incoming =>
    cases incoming with
    | nil => exact absurd h (by simp)
    | cons low rest => exact ⟨high, low, rest, rfl⟩

/-- Two bytes are those of the word they make. -/
theorem toBeBytes_wordAt {incoming : Bytes} (h : 2 ≤ incoming.length) :
    toBeBytes (wordAt incoming 0) = incoming.take 2 := by
  obtain ⟨high, low, rest, rfl⟩ := exists_two_bytes h
  have hhigh : high.toNat < 256 := high.toNat_lt
  have hlow : low.toNat < 256 := low.toNat_lt
  have hword : (wordAt (high :: low :: rest) 0).toNat = high.toNat * 256 + low.toNat :=
    UInt16.toNat_ofNat_of_lt' (show high.toNat * 256 + low.toNat < 65536 by omega)
  have hdiv : (high.toNat * 256 + low.toNat) / 256 = high.toNat := by omega
  have hmod : (high.toNat * 256 + low.toNat) % 256 = low.toNat := by omega
  show [_, _] = [high, low]
  rw [hword, hdiv, hmod, UInt8.ofNat_toNat, UInt8.ofNat_toNat]

/-- Messages behind their length in two bytes. -/
def frames : Framing Bytes UInt8 where
  encode := frameOf
  decode := unframe
  Valid message := message.length ≤ 65535
  decode_encode := by
    intro message hvalid rest
    have hword : wordAt (frameOf message ++ rest) 0 = UInt16.ofNat message.length := by
      unfold frameOf
      rw [List.append_assoc]
      exact wordAt_toBeBytes _ _
    have hlen : (UInt16.ofNat message.length).toNat = message.length :=
      UInt16.toNat_ofNat_of_lt' (show message.length < 65536 by omega)
    have hdrop : (frameOf message ++ rest).drop 2 = message ++ rest := rfl
    have hlong : (frameOf message ++ rest).length = 2 + message.length + rest.length := by
      unfold frameOf toBeBytes
      simp
      omega
    unfold unframe
    rw [hword, hlen, hdrop, hlong, if_pos (by omega), List.take_left, List.drop_left]
  encode_decode := by
    intro incoming message rest h
    unfold unframe at h
    obtain ⟨⟨hlong, hbody⟩, h⟩ := Option.ite_none_right_eq_some.mp h
    cases h
    have hword : (wordAt incoming 0).toNat < 65536 := (wordAt incoming 0).toNat_lt
    have hlen : ((incoming.drop 2).take (wordAt incoming 0).toNat).length =
        (wordAt incoming 0).toNat := by
      rw [List.length_take, List.length_drop]
      omega
    refine ⟨by omega, ?_⟩
    unfold frameOf
    rw [hlen, UInt16.ofNat_toNat, toBeBytes_wordAt hlong, List.append_assoc,
      List.take_append_drop, List.take_append_drop]
  encode_ne_nil := fun message h => nomatch h

theorem readExact_eq_done {n : Nat} {stream stream' : Stream} {buf : Bytes}
    (h : readExact n stream = .done (buf, stream')) :
    n ≤ stream.incoming.length ∧ buf = stream.incoming.take n ∧
      stream' = { stream with incoming := stream.incoming.drop n } := by
  unfold readExact at h
  split at h
  · next hle =>
    injection h with h
    exact ⟨hle, (congrArg Prod.fst h).symm, (congrArg Prod.snd h).symm⟩
  · split at h <;> cases h

section Framed

variable {S : SimpleDns} {query resp : Bytes} {stream stream' : Stream}

/-- A query that had an answer wrote a frame and read the first one that arrived. -/
theorem framedQuery_done (h : framedQuery S query stream = .done (resp, stream')) :
    frames.Valid query ∧ frames.decode stream.incoming = some (resp, stream'.incoming) := by
  unfold framedQuery at h
  split at h
  · cases h
  · next hsmall =>
    refine ⟨Nat.le_of_not_lt hsmall, ?_⟩
    simp only [Awaited.bind_eq_done] at h
    obtain ⟨-, -, ⟨len, stream₁⟩, hlen, ⟨buf, stream₂⟩, hbuf, answers, -, h⟩ := h
    obtain ⟨htwo, rfl, rfl⟩ := readExact_eq_done hlen
    obtain ⟨hbody, rfl, rfl⟩ := readExact_eq_done hbuf
    have hword : wordAt (stream.incoming.take 2) 0 = wordAt stream.incoming 0 := by
      obtain ⟨high, low, rest, hin⟩ := exists_two_bytes htwo
      rw [hin]
      rfl
    rw [hword] at hbody h
    rw [List.length_drop] at hbody
    split at h
    · injection h with h
      obtain ⟨rfl, rfl⟩ := Prod.mk.inj h
      exact if_pos ⟨htwo, hbody⟩
    · cases h

end Framed

namespace Pooling

/-! ## What passes over the wires -/

section Passes

/-- What arrived on a connection and was not read. -/
def incoming (s : Pooling) (c : ConnId) : Option Bytes :=
  (s.conns c).map fun conn => conn.stream.incoming

/-- A query has its answer. -/
def Answered (s : Pooling) (id : TaskId) (query resp : Bytes) : Prop :=
  ∃ task, s.tasks id = some task ∧ task.query = query ∧ task.phase.response = some resp

variable (S : SimpleDns)

/-- What an event does to the wires. -/
inductive Passes (s : Pooling) (e : Event) (s' : Pooling) : Prop where
  | aside (hnote : ∀ wires, s.note S wires e = wires)
      (hincoming : ∀ c, s'.incoming c = s.incoming c ∨
        s.incoming c = none ∧ s'.incoming c = some [])
      (hanswered : ∀ id query resp, s'.Answered id query resp ↔ s.Answered id query resp)
  | answer {c : ConnId} {x : FramedExchange} {unread : Bytes}
      (hnote : ∀ wires, s.note S wires e = Function.update wires c ((wires c).exchanged x))
      (hquery : frames.Valid x.query) (hresp : frames.Valid x.resp)
      (hanswers : answersQuery S x.resp x.query = .ok true)
      (hread : s.incoming c = some (frames.encode x.resp ++ unread))
      (hincoming : s'.incoming = Function.update s.incoming c (some unread))
      (hnew : ∀ query resp, ¬ s.Answered x.id query resp)
      (hanswered : ∀ id query resp, s'.Answered id query resp ↔
        s.Answered id query resp ∨ id = x.id ∧ query = x.query ∧ resp = x.resp)
  | arrival {c : ConnId} {more unread : Bytes}
      (hnote : ∀ wires, s.note S wires e = Function.update wires c ((wires c).heard more))
      (hopen : s.incoming c = some unread)
      (hincoming : s'.incoming = Function.update s.incoming c (some (unread ++ more)))
      (hanswered : ∀ id query resp, s'.Answered id query resp ↔ s.Answered id query resp)

variable {S} {validName : Str → Bool} {s s' : Pooling} {id : TaskId} {task : Task} {c : ConnId}
  {conn : Conn}

theorem incoming_record :
    (s.record c conn).incoming = Function.update s.incoming c (some conn.stream.incoming) := by
  funext c'
  by_cases hc : c' = c
  · subst hc
    rw [Function.update_self]
    show (Function.update s.conns c' (some conn) c').map _ = _
    rw [Function.update_self]
    rfl
  · rw [Function.update_of_ne hc]
    show (Function.update s.conns c (some conn) c').map _ = _
    rw [Function.update_of_ne hc]
    rfl

theorem incoming_of_conn (hconn : s.conns c = some conn) :
    s.incoming c = some conn.stream.incoming := by
  unfold incoming
  rw [hconn]
  rfl

/-- A connection of which only the note on its last query changes. -/
theorem incoming_record_ending (hconn : s.conns c = some conn) (ending : Option Ending) :
    (s.record c { conn with ending := ending }).incoming = s.incoming := by
  rw [incoming_record, ← incoming_of_conn hconn]
  exact Function.update_eq_self c s.incoming

theorem answered_put {id' : TaskId} {query resp : Bytes} :
    (s.put id task).Answered id' query resp ↔
      id' = id ∧ task.query = query ∧ task.phase.response = some resp ∨
        id' ≠ id ∧ s.Answered id' query resp := by
  by_cases hid : id' = id
  · subst hid
    have hself : (s.put id' task).tasks id' = some task := Function.update_self ..
    constructor
    · rintro ⟨task', htask', hquery, hresp⟩
      obtain rfl : task = task' := Option.some.inj (hself.symm.trans htask')
      exact .inl ⟨rfl, hquery, hresp⟩
    · rintro (⟨-, hquery, hresp⟩ | ⟨hne, -⟩)
      · exact ⟨task, hself, hquery, hresp⟩
      · exact absurd rfl hne
  · have hsame : (s.put id task).tasks id' = s.tasks id' := Function.update_of_ne hid ..
    constructor
    · rintro ⟨task', htask', hanswer⟩
      exact .inr ⟨hid, task', hsame.symm.trans htask', hanswer⟩
    · rintro (⟨heq, -⟩ | ⟨-, task', htask', hanswer⟩)
      · exact absurd heq hid
      · exact ⟨task', hsame.trans htask', hanswer⟩

/-- A query that goes on without an answer, or with the one it had. -/
theorem answered_goes_on (htask : s.tasks id = some task) {phase : Phase}
    (hresp : phase.response = task.phase.response) (id' : TaskId) (query resp : Bytes) :
    (s.put id { task with phase := phase }).Answered id' query resp ↔
      s.Answered id' query resp := by
  rw [answered_put]
  constructor
  · rintro (⟨rfl, hquery, hanswer⟩ | ⟨-, hanswer⟩)
    · exact ⟨task, htask, hquery, hresp.symm.trans hanswer⟩
    · exact hanswer
  · intro hanswer
    by_cases hid : id' = id
    · subst hid
      obtain ⟨task', htask', hquery, hanswer⟩ := hanswer
      obtain rfl : task = task' := Option.some.inj (htask.symm.trans htask')
      exact .inl ⟨rfl, hquery, hresp.trans hanswer⟩
    · exact .inr ⟨hid, hanswer⟩

/-- A query that starts. -/
theorem answered_starts (hnew : s.tasks id = none) (hresp : task.phase.response = none)
    (id' : TaskId) (query resp : Bytes) :
    (s.put id task).Answered id' query resp ↔ s.Answered id' query resp := by
  rw [answered_put]
  constructor
  · rintro (⟨-, -, hanswer⟩ | ⟨-, hanswer⟩)
    · cases hresp.symm.trans hanswer
    · exact hanswer
  · intro hanswer
    refine .inr ⟨?_, hanswer⟩
    rintro rfl
    obtain ⟨task', htask', -⟩ := hanswer
    cases hnew.symm.trans htask'

theorem response_of_framing {phase : Phase} (h : phase.framing = some c) :
    phase.response = none := by
  cases phase <;> first | rfl | cases h

theorem response_of_awaits {phase : Phase} (h : phase.awaits = true) : phase.response = none := by
  cases phase <;> first | rfl | cases h

/-- A query that leaves its connection without an answer. -/
theorem leave_passes {e : Event} (htask : s.tasks id = some task) (hconn : s.conns c = some conn)
    (hold : task.phase.response = none) {phase : Phase} (hnew : phase.response = none)
    (hnote : ∀ wires, s.note S wires e = wires) (ending : Ending) :
    Passes S s e (s.leave id task c conn ending phase) := by
  refine .aside hnote (fun c' => .inl ?_) (answered_goes_on htask (hnew.trans hold.symm))
  have hput : (s.put id { task with phase := phase }).conns c = some conn := hconn
  exact congrFun (incoming_record_ending hput (some ending)) c'

/-- A query that goes on, or starts, without its connection changing. -/
theorem put_passes {e : Event} (htask : s.tasks id = some task) {phase : Phase}
    (hresp : phase.response = task.phase.response) (hnote : ∀ wires, s.note S wires e = wires) :
    Passes S s e (s.put id { task with phase := phase }) :=
  .aside hnote (fun _ => .inl rfl) (answered_goes_on htask hresp)

theorem note_framed {found : Option (ConnId × FramedExchange)} (h : s.exchange S id = found)
    (wires : ConnId → Wire) : s.note S wires (.framed id) = noteExchange wires found :=
  congrArg (noteExchange wires) h

/-- The end of a `framed_query`. -/
theorem frame_passes {failed : TransportError → Phase} (htask : s.tasks id = some task)
    (hframing : task.phase.framing = some c) (hfailed : ∀ e, (failed e).response = none)
    (hs : s.frame S id task c failed = some s') : Passes S s (.framed id) s' := by
  obtain ⟨conn, hconn, hs⟩ := Option.bind_eq_some_iff.mp hs
  have hold : task.phase.response = none := response_of_framing hframing
  have hexchange : s.exchange S id = (FramedExchange.ofFramed id task.query
      (framedQuery S task.query conn.stream)).map fun exchange => (c, exchange) := by
    unfold exchange
    rw [htask]
    show task.phase.framing.bind _ = _
    rw [hframing]
    show (s.conns c).bind _ = _
    rw [hconn]
    exact Option.map_eq_bind.symm
  cases hframed : framedQuery S task.query conn.stream with
  | pending => simp [hframed] at hs
  | panicked p =>
    obtain rfl : _ = s' := by simpa [hframed] using hs
    rw [hframed] at hexchange
    exact leave_passes htask hconn hold rfl (note_framed hexchange) .failed
  | failed e =>
    obtain rfl : _ = s' := by simpa [hframed] using hs
    rw [hframed] at hexchange
    exact leave_passes htask hconn hold (hfailed e) (note_framed hexchange) .failed
  | done a =>
    obtain ⟨resp, stream⟩ := a
    obtain rfl : _ = s' := by simpa [hframed] using hs
    obtain ⟨hquery, hdecode⟩ := framedQuery_done hframed
    obtain ⟨hresp, hread⟩ := frames.encode_decode hdecode
    rw [hframed] at hexchange
    refine .answer (note_framed hexchange) hquery hresp (framedQuery_accepts S hframed)
      ((incoming_of_conn hconn).trans (congrArg some hread)) incoming_record ?_ ?_
    · rintro query resp' ⟨task', htask', -, hanswer⟩
      cases htask.symm.trans htask'
      cases hold.symm.trans hanswer
    · intro id' query resp'
      rw [answered_put]
      constructor
      · rintro (⟨rfl, rfl, hanswer⟩ | ⟨-, hanswer⟩)
        · cases hanswer
          exact .inr ⟨rfl, rfl, rfl⟩
        · exact .inl hanswer
      · rintro (hanswer | ⟨rfl, rfl, rfl⟩)
        · refine .inr ⟨?_, hanswer⟩
          rintro rfl
          obtain ⟨task', htask', -, hanswer⟩ := hanswer
          cases htask.symm.trans htask'
          cases hold.symm.trans hanswer
        · exact .inl ⟨rfl, rfl, rfl⟩

theorem step_passes {e : Event} (hs : s.step S validName e = some s') : Passes S s e s' := by
  cases e with
  | start id key query now =>
    obtain ⟨⟨hnew, -⟩, hs⟩ := guard_bind_eq_some.mp hs
    have hnew := Option.isNone_iff_eq_none.mp hnew
    cases hfound : (s.pool.checkout now.read key).1 with
    | none =>
      obtain rfl : _ = s' := by simpa [hfound] using hs
      exact .aside (fun _ => rfl) (fun _ => .inl rfl) (answered_starts hnew rfl)
    | some c =>
      simp only [hfound] at hs
      obtain ⟨conn, hconn, hs⟩ := Option.bind_eq_some_iff.mp hs
      obtain rfl := Option.some.inj hs
      refine .aside (fun _ => rfl) (fun c' => .inl ?_) (answered_starts hnew rfl)
      exact congrFun (incoming_record_ending hconn none) c'
  | framed id =>
    obtain ⟨task, htask, hs⟩ := Option.bind_eq_some_iff.mp hs
    cases hphase : task.phase with
    | reusing c =>
      simp only [hphase] at hs
      exact frame_passes htask (by rw [hphase]; rfl) (fun _ => rfl) hs
    | fresh c =>
      simp only [hphase] at hs
      exact frame_passes htask (by rw [hphase]; rfl) (fun _ => rfl) hs
    | _ => simp [hphase] at hs
  | connect id c progress =>
    obtain ⟨task, htask, hs⟩ := Option.bind_eq_some_iff.mp hs
    cases hphase : task.phase with
    | dialing =>
      cases progress with
      | waits => simp [hphase] at hs
      | fails =>
        obtain rfl : _ = s' := by simpa [hphase] using hs
        exact put_passes htask (by rw [hphase]; rfl) fun _ => rfl
      | succeeds =>
        simp only [hphase] at hs
        obtain ⟨hnew, hs⟩ := guard_bind_eq_some.mp hs
        have hnew := Option.isNone_iff_eq_none.mp hnew
        obtain rfl := Option.some.inj hs
        have hresp : (Phase.connected validName c task.key).response = task.phase.response := by
          rw [hphase]
          exact (Phase.connected_pending validName c task.key).1
        refine .aside (fun _ => rfl) (fun c' => ?_) (answered_goes_on htask hresp)
        have hopened : (s.record c ⟨task.key, ⟨.waits, [], false⟩, none⟩).incoming c' =
            Function.update s.incoming c (some []) c' := congrFun incoming_record c'
        by_cases hc : c' = c
        · subst hc
          refine .inr ⟨by unfold incoming; rw [hnew]; rfl, ?_⟩
          rw [Function.update_self] at hopened
          exact hopened
        · rw [Function.update_of_ne hc] at hopened
          exact .inl hopened
    | _ => simp [hphase] at hs
  | handshake id progress =>
    obtain ⟨task, htask, hs⟩ := Option.bind_eq_some_iff.mp hs
    cases hphase : task.phase with
    | handshaking c =>
      cases progress with
      | waits => simp [hphase] at hs
      | fails =>
        simp only [hphase] at hs
        obtain ⟨conn, hconn, hs⟩ := Option.bind_eq_some_iff.mp hs
        obtain rfl := Option.some.inj hs
        exact leave_passes htask hconn (by rw [hphase]; rfl) rfl (fun _ => rfl) .failed
      | succeeds =>
        obtain rfl : _ = s' := by simpa [hphase] using hs
        exact put_passes htask (by rw [hphase]; rfl) fun _ => rfl
    | _ => simp [hphase] at hs
  | checkin id now =>
    obtain ⟨task, htask, hs⟩ := Option.bind_eq_some_iff.mp hs
    cases hphase : task.phase with
    | answered c resp =>
      simp only [hphase] at hs
      obtain ⟨-, hs⟩ := guard_bind_eq_some.mp hs
      obtain rfl := Option.some.inj hs
      have hresp : (Phase.returned (.ok resp)).response = task.phase.response := by
        rw [hphase]
        rfl
      exact .aside (fun _ => rfl) (fun _ => .inl rfl) (answered_goes_on htask hresp)
    | _ => simp [hphase] at hs
  | drop id =>
    obtain ⟨task, htask, hs⟩ := Option.bind_eq_some_iff.mp hs
    obtain ⟨hawaits, hs⟩ := guard_bind_eq_some.mp hs
    have hold : task.phase.response = none := response_of_awaits hawaits
    cases hholds : task.phase.conn with
    | none =>
      obtain rfl : _ = s' := by simpa [hholds] using hs
      exact put_passes htask hold.symm fun _ => rfl
    | some c =>
      simp only [hholds] at hs
      obtain ⟨conn, hconn, hs⟩ := Option.bind_eq_some_iff.mp hs
      obtain rfl := Option.some.inj hs
      exact leave_passes htask hconn hold rfl (fun _ => rfl) .cancelled
  | pruneTcp now =>
    obtain ⟨-, hs⟩ := guard_bind_eq_some.mp hs
    obtain rfl := Option.some.inj hs
    exact .aside (fun _ => rfl) (fun _ => .inl rfl) fun _ _ _ => Iff.rfl
  | pruneTls now =>
    obtain ⟨-, hs⟩ := guard_bind_eq_some.mp hs
    obtain rfl := Option.some.inj hs
    exact .aside (fun _ => rfl) (fun _ => .inl rfl) fun _ _ _ => Iff.rfl
  | peer c write more closed =>
    obtain ⟨conn, hconn, hs⟩ := Option.bind_eq_some_iff.mp hs
    obtain rfl := Option.some.inj hs
    exact .arrival (fun _ => rfl) (incoming_of_conn hconn) incoming_record fun _ _ _ => Iff.rfl

end Passes

end Pooling

/-! ## In step -/

namespace Wired

open Pooling

/-- One connection: the bytes that arrived and were not read, if it was opened, and its wire. -/
structure OnWire (S : SimpleDns) (incoming : Option Bytes) (wire : Wire) : Prop where
  unopened : incoming = none → wire = {}
  received : ∀ unread, incoming = some unread →
    wire.received = frames.encodeAll (wire.exchanges.map (·.resp)) ++ unread
  written : wire.written = frames.encodeAll (wire.exchanges.map (·.query))
  fits : ∀ x ∈ wire.exchanges,
    frames.Valid x.query ∧ frames.Valid x.resp ∧ answersQuery S x.resp x.query = .ok true
  once : (wire.exchanges.map (·.id)).Nodup

section OnWire

variable {S : SimpleDns} {wire : Wire} {unread : Bytes}

theorem onWire_unopened (S : SimpleDns) : OnWire S none {} where
  unopened _ := rfl
  received _ h := nomatch h
  written := rfl
  fits _ hx := absurd hx List.not_mem_nil
  once := List.nodup_nil

theorem OnWire.opened (h : OnWire S none wire) : OnWire S (some []) wire := by
  obtain rfl := h.unopened rfl
  refine ⟨(fun hnone => nomatch hnone), ?_, rfl, h.fits, h.once⟩
  intro unread hunread
  cases hunread
  rfl

theorem OnWire.heard (h : OnWire S (some unread) wire) (more : Bytes) :
    OnWire S (some (unread ++ more)) (wire.heard more) := by
  refine ⟨(fun hnone => nomatch hnone), ?_, h.written, h.fits, h.once⟩
  intro unread' hunread
  cases hunread
  show wire.received ++ more = _
  rw [h.received unread rfl, List.append_assoc]
  rfl

/-- A query that had no answer yet has the next frame. -/
theorem OnWire.exchanged {x : FramedExchange} (hquery : frames.Valid x.query)
    (hresp : frames.Valid x.resp) (hanswers : answersQuery S x.resp x.query = .ok true)
    (hnew : ∀ y ∈ wire.exchanges, y.id ≠ x.id)
    (h : OnWire S (some (frames.encode x.resp ++ unread)) wire) :
    OnWire S (some unread) (wire.exchanged x) := by
  refine ⟨(fun hnone => nomatch hnone), ?_, ?_, ?_, ?_⟩
  · intro unread' hunread
    cases hunread
    show wire.received = frames.encodeAll ((wire.exchanges ++ [x]).map (·.resp)) ++ unread
    rw [h.received _ rfl, List.map_append, List.map_singleton, frames.encodeAll_concat,
      List.append_assoc]
  · show wire.written ++ frames.encode x.query =
      frames.encodeAll ((wire.exchanges ++ [x]).map (·.query))
    rw [h.written, List.map_append, List.map_singleton, frames.encodeAll_concat]
  · intro y hy
    rcases List.mem_append.mp hy with hy | hy
    · exact h.fits y hy
    · obtain rfl := List.mem_singleton.mp hy
      exact ⟨hquery, hresp, hanswers⟩
  · show ((wire.exchanges ++ [x]).map (·.id)).Nodup
    rw [List.map_append, List.map_singleton, List.nodup_append]
    refine ⟨h.once, List.nodup_singleton _, ?_⟩
    intro id hmem id' hid' heq
    obtain ⟨y, hy, rfl⟩ := List.mem_map.mp hmem
    exact hnew y hy (heq.trans (List.mem_singleton.mp hid'))

end OnWire

/-- What holds of the wires at every moment. -/
structure Inv (S : SimpleDns) (w : Wired) : Prop where
  onWire : ∀ c, OnWire S (w.pooling.incoming c) (w.wires c)
  answered : ∀ id query resp,
    w.pooling.Answered id query resp ↔ ∃ c, ⟨id, query, resp⟩ ∈ (w.wires c).exchanges
  apart : ∀ c c' x x', x ∈ (w.wires c).exchanges → x' ∈ (w.wires c').exchanges →
    x.id = x'.id → c = c'

theorem new_inv (S : SimpleDns) : Inv S new where
  onWire _ := onWire_unopened S
  answered id query resp := by
    constructor
    · rintro ⟨task, htask, -⟩
      cases htask
    · rintro ⟨c, hx⟩
      exact absurd hx List.not_mem_nil
  apart _ _ _ _ hx := absurd hx List.not_mem_nil

section Step

variable {S : SimpleDns} {validName : Str → Bool} {w : Wired} {s' : Pooling} {c : ConnId}

/-- What holds of every connection holds with one of them changed. -/
theorem forall_update {P : Option Bytes → Wire → Prop} {incoming : ConnId → Option Bytes}
    {wires : ConnId → Wire} {unread : Option Bytes} {wire : Wire}
    (h : ∀ c, P (incoming c) (wires c)) (hc : P unread wire) (c' : ConnId) :
    P (Function.update incoming c unread c') (Function.update wires c wire c') := by
  by_cases hne : c' = c
  · subst hne
    rw [Function.update_self, Function.update_self]
    exact hc
  · rw [Function.update_of_ne hne, Function.update_of_ne hne]
    exact h c'

theorem mem_exchanged {c' : ConnId} {x y : FramedExchange} :
    y ∈ (Function.update w.wires c ((w.wires c).exchanged x) c').exchanges ↔
      y ∈ (w.wires c').exchanges ∨ c' = c ∧ y = x := by
  by_cases hc : c' = c
  · subst hc
    rw [Function.update_self]
    show y ∈ (w.wires c').exchanges ++ [x] ↔ _
    rw [List.mem_append, List.mem_singleton]
    simp
  · rw [Function.update_of_ne hc]
    simp [hc]

theorem exchanges_heard (more : Bytes) (c' : ConnId) :
    (Function.update w.wires c ((w.wires c).heard more) c').exchanges =
      (w.wires c').exchanges := by
  by_cases hc : c' = c
  · subst hc
    rw [Function.update_self]
    rfl
  · rw [Function.update_of_ne hc]

theorem Inv.aside (h : Inv S w)
    (hincoming : ∀ c, s'.incoming c = w.pooling.incoming c ∨
      w.pooling.incoming c = none ∧ s'.incoming c = some [])
    (hanswered : ∀ id query resp,
      s'.Answered id query resp ↔ w.pooling.Answered id query resp) :
    Inv S ⟨s', w.wires⟩ where
  onWire c := by
    have hwire : OnWire S (w.pooling.incoming c) (w.wires c) := h.onWire c
    rcases hincoming c with hsame | ⟨hnone, hopened⟩
    · exact hsame.symm ▸ hwire
    · rw [hnone] at hwire
      exact hopened.symm ▸ hwire.opened
  answered id query resp := (hanswered id query resp).trans (h.answered id query resp)
  apart := h.apart

theorem Inv.answer (h : Inv S w) {x : FramedExchange} {unread : Bytes}
    (hquery : frames.Valid x.query) (hresp : frames.Valid x.resp)
    (hanswers : answersQuery S x.resp x.query = .ok true)
    (hread : w.pooling.incoming c = some (frames.encode x.resp ++ unread))
    (hincoming : s'.incoming = Function.update w.pooling.incoming c (some unread))
    (hnew : ∀ query resp, ¬ w.pooling.Answered x.id query resp)
    (hanswered : ∀ id query resp, s'.Answered id query resp ↔
      w.pooling.Answered id query resp ∨ id = x.id ∧ query = x.query ∧ resp = x.resp) :
    Inv S ⟨s', Function.update w.wires c ((w.wires c).exchanged x)⟩ := by
  -- A query that has had no answer is in none of the exchanges.
  have hid : ∀ c', ∀ y ∈ (w.wires c').exchanges, y.id ≠ x.id := by
    intro c' y hy heq
    exact hnew y.query y.resp (heq ▸ (h.answered y.id y.query y.resp).mpr ⟨c', hy⟩)
  refine ⟨?_, ?_, ?_⟩
  · show ∀ c', OnWire S (s'.incoming c') (Function.update w.wires c _ c')
    rw [hincoming]
    exact forall_update h.onWire
      (OnWire.exchanged hquery hresp hanswers (hid c) (hread ▸ h.onWire c))
  · intro id query resp
    rw [hanswered, h.answered]
    constructor
    · rintro (⟨c', hx⟩ | ⟨rfl, rfl, rfl⟩)
      · exact ⟨c', mem_exchanged.mpr (.inl hx)⟩
      · exact ⟨c, mem_exchanged.mpr (.inr ⟨rfl, rfl⟩)⟩
    · rintro ⟨c', hx⟩
      rcases mem_exchanged.mp hx with hx | ⟨-, rfl⟩
      · exact .inl ⟨c', hx⟩
      · exact .inr ⟨rfl, rfl, rfl⟩
  · intro c₁ c₂ y z hy hz heq
    rcases mem_exchanged.mp hy with hy | ⟨rfl, rfl⟩ <;>
      rcases mem_exchanged.mp hz with hz | ⟨hc, hzx⟩
    · exact h.apart c₁ c₂ y z hy hz heq
    · exact absurd (heq.trans (congrArg FramedExchange.id hzx)) (hid c₁ y hy)
    · exact absurd heq.symm (hid c₂ z hz)
    · exact hc.symm

theorem Inv.arrival (h : Inv S w) {more unread : Bytes} (hopen : w.pooling.incoming c = some unread)
    (hincoming : s'.incoming = Function.update w.pooling.incoming c (some (unread ++ more)))
    (hanswered : ∀ id query resp,
      s'.Answered id query resp ↔ w.pooling.Answered id query resp) :
    Inv S ⟨s', Function.update w.wires c ((w.wires c).heard more)⟩ := by
  refine ⟨?_, ?_, ?_⟩
  · show ∀ c', OnWire S (s'.incoming c') (Function.update w.wires c _ c')
    rw [hincoming]
    exact forall_update h.onWire (OnWire.heard (hopen ▸ h.onWire c) more)
  · intro id query resp
    rw [hanswered, h.answered]
    exact exists_congr fun c' => by rw [exchanges_heard]
  · intro c₁ c₂ y z hy hz heq
    exact h.apart c₁ c₂ y z (exchanges_heard more c₁ ▸ hy) (exchanges_heard more c₂ ▸ hz) heq

theorem step_inv {w' : Wired} {e : Event} (h : Inv S w) (hs : w.step S validName e = some w') :
    Inv S w' := by
  obtain ⟨s', hstep, rfl⟩ := Option.map_eq_some_iff.mp hs
  cases step_passes hstep with
  | aside hnote hincoming hanswered =>
    rw [hnote]
    exact h.aside hincoming hanswered
  | answer hnote hquery hresp hanswers hread hincoming hnew hanswered =>
    rw [hnote]
    exact h.answer hquery hresp hanswers hread hincoming hnew hanswered
  | arrival hnote hopen hincoming hanswered =>
    rw [hnote]
    exact h.arrival hopen hincoming hanswered

end Step

/-- What the two ends of the connections make of the wires. -/
structure InStep (S : SimpleDns) (w : Wired) : Prop where
  /-- The other end reads the queries that were answered, in their order, and nothing else. -/
  queries : ∀ c, frames.decodeAll (w.wires c).written = ((w.wires c).exchanges.map (·.query), [])
  /-- Their answers are the first frames that arrived, in the same order. -/
  answers : ∀ c conn, w.pooling.conns c = some conn →
    frames.decodeAll (w.wires c).received =
      ((w.wires c).exchanges.map (·.resp) ++ (frames.decodeAll conn.stream.incoming).1,
        (frames.decodeAll conn.stream.incoming).2)
  fits : ∀ c, ∀ x ∈ (w.wires c).exchanges, answersQuery S x.resp x.query = .ok true
  /-- A query with an answer has a frame for it. -/
  answered : ∀ id task resp, w.pooling.tasks id = some task →
    (task.phase.response = some resp ↔
      ∃ c, ⟨id, task.query, resp⟩ ∈ (w.wires c).exchanges)
  /-- No query has two frames. -/
  once : ∀ c, ((w.wires c).exchanges.map (·.id)).Nodup
  apart : ∀ c c' x x', x ∈ (w.wires c).exchanges → x' ∈ (w.wires c').exchanges →
    x.id = x'.id → c = c'

theorem Inv.inStep {S : SimpleDns} {w : Wired} (h : Inv S w) : w.InStep S := by
  refine ⟨?_, ?_, fun c x hx => ((h.onWire c).fits x hx).2.2, ?_, fun c => (h.onWire c).once,
    h.apart⟩
  · intro c
    have hvalid : ∀ query ∈ (w.wires c).exchanges.map (·.query), frames.Valid query := by
      intro query hmem
      obtain ⟨x, hx, rfl⟩ := List.mem_map.mp hmem
      exact ((h.onWire c).fits x hx).1
    have hnil : frames.decodeAll [] = ([], []) := frames.decodeAll_of_none rfl
    have hread := frames.decodeAll_append hvalid []
    rw [List.append_nil, hnil, List.append_nil] at hread
    rw [(h.onWire c).written, hread]
  · intro c conn hconn
    have hvalid : ∀ resp ∈ (w.wires c).exchanges.map (·.resp), frames.Valid resp := by
      intro resp hmem
      obtain ⟨x, hx, rfl⟩ := List.mem_map.mp hmem
      exact ((h.onWire c).fits x hx).2.1
    rw [(h.onWire c).received _ (incoming_of_conn hconn), frames.decodeAll_append hvalid]
  · intro id task resp htask
    rw [← h.answered]
    constructor
    · intro hresp
      exact ⟨task, htask, rfl, hresp⟩
    · rintro ⟨task', htask', -, hresp⟩
      obtain rfl : task = task' := Option.some.inj (htask.symm.trans htask')
      exact hresp

end Wired

/-- Whatever the queries, the sweeps and the peers do and whenever, the framing of no connection
gets out of step: the other end reads the queries one by one, and each has the next frame for its
answer, which no other query ever has. -/
theorem frames_in_step (S : SimpleDns) (validName : Str → Bool) (events : List Pooling.Event)
    (w : Wired) (hrun : Machine.run (Wired.step S validName) .new events = some w) :
    Machine.run (Pooling.step S validName) .new events = some w.pooling ∧ w.InStep S := by
  constructor
  · have hmap : ∀ (w : Wired) (e : Pooling.Event),
        (w.step S validName e).map Wired.pooling = w.pooling.step S validName e := by
      intro w e
      unfold Wired.step
      rw [Option.map_map]
      exact Option.map_id'
    have hpooling := Machine.map_run hmap .new events
    rw [hrun] at hpooling
    exact hpooling.symm
  · exact (Machine.run_invariant (fun _ _ _ h hs => Wired.step_inv h hs) (Wired.new_inv S)
      hrun).inStep

/-! ## A connection used twice -/

/-- The second answer comes with the beginning of a frame nobody asked for. -/
def reusedEvents : List Pooling.Event :=
  [.start 0 staleKey (bareQuery 1) (.still ConnId 0), .connect 0 0 .succeeds,
    .peer 0 .succeeds (bareFrame 1) false, .framed 0, .checkin 0 1,
    .start 1 staleKey (bareQuery 2) (.still ConnId 2),
    .peer 0 .succeeds (bareFrame 2 ++ [0]) false, .framed 1, .checkin 1 3]

def reusedRun : Option Wired :=
  Machine.run (Wired.step (.ofTable []) fun _ => true) .new reusedEvents

theorem frames_in_step_reused :
    ((reusedRun.get rfl).wires 0).exchanges =
        [⟨0, bareQuery 1, bareAnswer 1⟩, ⟨1, bareQuery 2, bareAnswer 2⟩] ∧
      ((reusedRun.get rfl).pooling.conns 0).map (·.stream.incoming) = some [0] ∧
      (reusedRun.get rfl).InStep (.ofTable []) :=
  ⟨rfl, rfl, (frames_in_step (.ofTable []) (fun _ => true) reusedEvents (reusedRun.get rfl)
    (Option.some_get (rfl : reusedRun.isSome = true)).symm).2⟩

end N0DnsResolver
