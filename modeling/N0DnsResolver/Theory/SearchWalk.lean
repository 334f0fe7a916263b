/-
  A lookup is what its races make it.

  `Model/Lookup` and `Model/Follow` take the outcome of every `send_query` from a `Network`,
  and `Model/SearchWalk` runs the races. Whatever the races of a run come to, a network that
  gives the same replies takes the loops to the same end (`lookup_refines`): at every wait the
  loops still have before them what the run gives in the end (`endOf`). So what is proved of
  lookups over any network is proved of the races.
-/
import N0DnsResolver.Model.SearchWalk
import N0DnsResolver.Theory.Deadlines
import N0DnsResolver.Theory.Provenance

namespace N0DnsResolver

/-! ## Trails -/

/-- The network gives the replies of a trail, and takes as long. -/
def TimedTrail.Replays (trail : TimedTrail) (net : Network) : Prop :=
  ∀ (before : TimedTrail) x took, before ++ [(x, took)] <+: trail →
    ∀ query, net.sendQuery before.log query = (x.result, took)

theorem TimedTrail.Replays.of_prefix {trail trail' : TimedTrail} {net : Network}
    (h : trail'.Replays net) (hle : trail <+: trail') : trail.Replays net :=
  fun before x took hbefore => h before x took (hbefore.trans hle)

theorem TimedTrail.log_concat (trail : TimedTrail) (x : Exchange) (took : Nat) :
    TimedTrail.log (trail ++ [(x, took)]) = trail.log ++ [x] := List.map_append

/-- The network of a trail. -/
def TimedTrail.network (trail : TimedTrail) (randomId : List Exchange → UInt16) : Network where
  randomId := randomId
  sendQuery log _ :=
    trail[log.length]?.elim (.error .noResponse, 0) fun entry => (entry.1.result, entry.2)

theorem TimedTrail.replays_network (trail : TimedTrail) (randomId : List Exchange → UInt16) :
    trail.Replays (trail.network randomId) := by
  intro before x took hbefore query
  obtain ⟨rest, rfl⟩ := hbefore
  have hlength : before.log.length = before.length := List.length_map _
  have hget : (before ++ [(x, took)] ++ rest)[before.log.length]? = some (x, took) := by
    rw [hlength, List.append_assoc, List.getElem?_append_right (Nat.le_refl _), Nat.sub_self]
    rfl
  unfold network
  simp only
  rw [hget]
  rfl

/-- The trail where following has come to, from a trail. -/
def Hop.trail {K : Type} {n : Nat} (trail : TimedTrail) : Hop K n → TimedTrail
  | .sending .. => trail
  | .returned _ trail => trail

namespace SearchWalk

/-- The trail of a state. -/
def trail {K : Type} {n : Nat} : SearchWalk K n → TimedTrail
  | .waiting a => a.trail
  | .done _ _ trail => trail

/-! ## What is before the loops -/

section Ends

variable (S : SimpleDns) (net : Network) (builder : Builder) (kind : RecordKind)

/-- The end of the candidate loop, when it ends and the exchanges by then. -/
abbrev LoopEnd := WalkEnd × Instant × List Exchange

/-- The candidate loop over a network. -/
def loopEnd : List Str → LoopState → Instant → List Exchange → LoopEnd
  | [], st, now, log => (.finished st, now, log)
  | name :: names, st, now, log =>
    match sendQueryFollowingCnames S net name kind.dnsType log with
    | (r, took, log) =>
      match judge builder st (readAttempt S kind r) with
      | .answered records ttl => (.answered name records ttl, now + took, log)
      | .failed e => (.failed e, now + took, log)
      | .next st => loopEnd names st (now + took) log

/-- What following comes to, when it took this long to get there. -/
def later (took : Nat) : Followed → Followed
  | (r, took', log) => (r, took + took', log)

/-- The end once following a candidate's CNAMEs has come to this. -/
def judgedEnd (candidate : Str) (names : List Str) (st : LoopState) (now : Instant) :
    Followed → LoopEnd
  | (r, took, log) =>
    match judge builder st (readAttempt S kind r) with
    | .answered records ttl => (.answered candidate records ttl, now + took, log)
    | .failed e => (.failed e, now + took, log)
    | .next st => loopEnd S net builder kind names st (now + took) log

theorem judgedEnd_later (candidate : Str) (names : List Str) (st : LoopState) (since : Instant)
    (took : Nat) (f : Followed) :
    judgedEnd S net builder kind candidate names st since (later took f) =
      judgedEnd S net builder kind candidate names st (since + took) f := by
  obtain ⟨r, took', log⟩ := f
  unfold judgedEnd later
  simp only
  rw [Nat.add_assoc]

theorem loopEnd_cons (name : Str) (names : List Str) (st : LoopState) (now : Instant)
    (log : List Exchange) :
    loopEnd S net builder kind (name :: names) st now log =
      judgedEnd S net builder kind name names st now
        (sendQueryFollowingCnames S net name kind.dnsType log) := rfl

/-- What following comes to, once a query has come to this. -/
def readEnd (query : Query) (left : Nat) (log : List Exchange) (result : Except Error Bytes)
    (took : Nat) : Followed :=
  match Exchange.reading S kind.dnsType ⟨query, result⟩ with
  | .inl r => (r, took, log ++ [⟨query, result⟩])
  | .inr target =>
    later took (followCnames S net kind.dnsType left target (log ++ [⟨query, result⟩]))

/-- What following comes to, from the wait for a query. -/
def sentEnd (query : Query) (left : Nat) (log : List Exchange) : Followed :=
  readEnd S net kind query left log (net.sendQuery log query).1 (net.sendQuery log query).2

theorem followCnames_sent {host : Str} {name : Name} {bytes : Bytes} {log : List Exchange}
    (hname : S.nameNew host = some name)
    (hbytes : buildQuery S (net.randomId log) host kind.dnsType = .ok bytes) (left : Nat) :
    followCnames S net kind.dnsType (left + 1) host log =
      sentEnd S net kind ⟨host, name, kind.dnsType, net.randomId log, bytes⟩ left log := by
  simp only [followCnames, hname, hbytes, sentEnd, readEnd, Exchange.reading]
  cases (net.sendQuery log ⟨host, name, kind.dnsType, net.randomId log, bytes⟩).1 with
  | error e => rfl
  | ok response =>
    simp only
    cases readReply S (net.randomId log) name kind.dnsType response with
    | inl r => rfl
    | inr target => rfl

variable {K : Type} {n : Nat}

/-- What following comes to, from where it stands. -/
def hopEnd (trail : TimedTrail) : Hop K n → Followed
  | .sending left query _ => sentEnd S net kind query left trail.log
  | .returned r trail => (r, 0, trail.log)

/-- The end of the candidate loop, from where the lookup stands. -/
def endOf : SearchWalk K n → LoopEnd
  | .waiting a =>
    judgedEnd S net builder kind a.candidate a.names a.st a.since
      (sentEnd S net kind a.query a.left a.trail.log)
  | .done ended now trail => (ended, now, trail.log)

theorem endOf_waiting (a : Awaiting K n) : endOf S net builder kind (.waiting a) =
    judgedEnd S net builder kind a.candidate a.names a.st a.since
      (sentEnd S net kind a.query a.left a.trail.log) := rfl

end Ends

/-! ## One turn -/

section Turns

variable {K : Type} {n : Nat} [NatCast K] [Add K] [Sub K] [Mul K] [LE K] [DecidableLE K]
variable (S : SimpleDns) (decay : Nat → K) (primaryCount : Nat)
variable (env : Surroundings K n) (builder : Builder) (kind : RecordKind)

theorem trail_hop (host : Str) (now : Instant) (trail : TimedTrail) (left : Nat) :
    trail <+: (hop S decay primaryCount env kind host now trail left).trail trail := by
  cases left with
  | zero => exact List.prefix_refl trail
  | succ left =>
    unfold hop
    cases S.nameNew host with
    | none => exact List.prefix_refl trail
    | some name =>
      simp only
      cases buildQuery S (env.randomId trail.log) host kind.dnsType with
      | error e => exact List.prefix_refl trail
      | ok bytes =>
        simp only
        cases SendQuery.start decay primaryCount (env.rtt trail.log) now with
        | error e => exact List.prefix_append trail _
        | ok send => exact List.prefix_refl trail

theorem candidates_cons (now : Instant) (name : Str) (names : List Str) (st : LoopState)
    (trail : TimedTrail) :
    candidates S decay primaryCount env builder kind now (name :: names) st trail =
      goOn S decay primaryCount env builder kind name names st now trail
        (hop S decay primaryCount env kind name now trail maxCnameDepth) := by
  unfold candidates goOn
  cases hop S decay primaryCount env kind name now trail maxCnameDepth with
  | sending left query send => rfl
  | returned r trail' => rfl

theorem trail_goOn {now : Instant} {names : List Str}
    (hnext : ∀ st trail,
      trail <+: (candidates S decay primaryCount env builder kind now names st trail).trail)
    (candidate : Str) (st : LoopState) (trail : TimedTrail) (h : Hop K n) :
    h.trail trail <+:
      (goOn S decay primaryCount env builder kind candidate names st now trail h).trail := by
  cases h with
  | sending left query send => exact List.prefix_refl trail
  | returned r trail' =>
    unfold goOn
    simp only
    cases judge builder st (readAttempt S kind r) with
    | answered records ttl => exact List.prefix_refl trail'
    | failed e => exact List.prefix_refl trail'
    | next st => exact hnext st trail'

theorem trail_candidates (now : Instant) (names : List Str) (st : LoopState) (trail : TimedTrail) :
    trail <+: (candidates S decay primaryCount env builder kind now names st trail).trail := by
  induction names generalizing st trail with
  | nil => exact List.prefix_refl trail
  | cons name names ih =>
    rw [candidates_cons]
    exact (trail_hop S decay primaryCount env kind name now trail maxCnameDepth).trans
      (trail_goOn S decay primaryCount env builder kind ih name st trail _)

variable {net : Network} (hid : net.randomId = env.randomId)

include hid in
/-- The head of the loop that follows CNAMEs leaves what is before it as it was. -/
theorem hopEnd_hop {host : Str} {now : Instant} {trail : TimedTrail} {left : Nat}
    (hreplays :
      ((hop S decay primaryCount env kind host now trail left).trail trail).Replays net) :
    hopEnd S net kind trail (hop S decay primaryCount env kind host now trail left) =
      followCnames S net kind.dnsType left host trail.log := by
  cases left with
  | zero => rfl
  | succ left =>
    unfold hop at hreplays ⊢
    cases hname : S.nameNew host with
    | none =>
      simp only [followCnames, hname]
      rfl
    | some name =>
      simp only [hname] at hreplays ⊢
      cases hbytes : buildQuery S (env.randomId trail.log) host kind.dnsType with
      | error e =>
        simp only [followCnames, hname, hid, hbytes]
        rfl
      | ok bytes =>
        simp only [hbytes] at hreplays ⊢
        rw [followCnames_sent S net kind hname (hid.symm ▸ hbytes)]
        cases hstart : SendQuery.start decay primaryCount (env.rtt trail.log) now with
        | error e =>
          simp only [hstart] at hreplays ⊢
          have hsent := hreplays trail ⟨⟨host, name, kind.dnsType, env.randomId trail.log, bytes⟩,
            .error e⟩ 0 (List.prefix_refl _)
          unfold sentEnd
          rw [hid, hsent]
          show (_, _, TimedTrail.log (trail ++ [_])) = _
          rw [TimedTrail.log_concat]
          rfl
        | ok send =>
          rw [hid]
          rfl

/-- The head of the loop over the candidates leaves what is before it as it was. -/
theorem endOf_goOn {now : Instant} {names : List Str}
    (hnext : ∀ st trail,
      (candidates S decay primaryCount env builder kind now names st trail).trail.Replays net →
        endOf S net builder kind
            (candidates S decay primaryCount env builder kind now names st trail) =
          loopEnd S net builder kind names st now trail.log)
    {candidate : Str} {st : LoopState} {trail : TimedTrail} {h : Hop K n}
    (hreplays :
      (goOn S decay primaryCount env builder kind candidate names st now trail h).trail.Replays
        net) :
    endOf S net builder kind
        (goOn S decay primaryCount env builder kind candidate names st now trail h) =
      judgedEnd S net builder kind candidate names st now (hopEnd S net kind trail h) := by
  cases h with
  | sending left query send => rfl
  | returned r trail' =>
    unfold goOn judgedEnd hopEnd at *
    simp only at hreplays ⊢
    cases hjudge : judge builder st (readAttempt S kind r) with
    | answered records ttl => rfl
    | failed e => rfl
    | next st' =>
      simp only [hjudge] at hreplays ⊢
      exact hnext st' trail' hreplays

include hid in
theorem endOf_candidates (now : Instant) (names : List Str) (st : LoopState) (trail : TimedTrail)
    (hreplays :
      (candidates S decay primaryCount env builder kind now names st trail).trail.Replays net) :
    endOf S net builder kind
        (candidates S decay primaryCount env builder kind now names st trail) =
      loopEnd S net builder kind names st now trail.log := by
  induction names generalizing st trail with
  | nil => rfl
  | cons name names ih =>
    rw [candidates_cons] at hreplays ⊢
    have hhop := hreplays.of_prefix (trail_goOn S decay primaryCount env builder kind
      (trail_candidates S decay primaryCount env builder kind now names) name st trail _)
    rw [endOf_goOn S decay primaryCount env builder kind ih hreplays, loopEnd_cons,
      hopEnd_hop S decay primaryCount env kind hid hhop]
    rfl

theorem trail_settle (a : Awaiting K n) (now : Instant) (result : Except Error Bytes) :
    a.trail ++ [(⟨a.query, result⟩, now - a.since)] <+:
      (settle S decay primaryCount env builder kind a now result).trail := by
  have hreplied : ∀ trail, trail <+:
      (replied S decay primaryCount env kind a.query a.left now trail result).trail trail := by
    intro trail
    unfold replied
    cases Exchange.reading S kind.dnsType ⟨a.query, result⟩ with
    | inl r => exact List.prefix_refl trail
    | inr target => exact trail_hop S decay primaryCount env kind target now trail a.left
  exact (hreplied _).trans (trail_goOn S decay primaryCount env builder kind
    (trail_candidates S decay primaryCount env builder kind now a.names) a.candidate a.st _ _)

include hid in
/-- What `send_query_following_cnames` does with what a query came to. -/
theorem sentEnd_eq {a : Awaiting K n} {now : Instant} {result : Except Error Bytes} {took : Nat}
    {trail : TimedTrail} (hlog : trail.log = a.trail.log ++ [⟨a.query, result⟩])
    (hsent : net.sendQuery a.trail.log a.query = (result, took))
    (hreplays : ((replied S decay primaryCount env kind a.query a.left now trail result).trail
      trail).Replays net) :
    sentEnd S net kind a.query a.left a.trail.log =
      later took (hopEnd S net kind trail
        (replied S decay primaryCount env kind a.query a.left now trail result)) := by
  unfold sentEnd readEnd replied at *
  rw [hsent]
  simp only
  cases hreading : Exchange.reading S kind.dnsType ⟨a.query, result⟩ with
  | inl r =>
    simp only [hopEnd]
    rw [hlog]
    rfl
  | inr target =>
    simp only [hreading] at hreplays ⊢
    rw [hopEnd_hop S decay primaryCount env kind hid hreplays, hlog]

include hid in
/-- A query that has come to this leaves what is before the loops as it was. -/
theorem endOf_settle {a : Awaiting K n} {now : Instant} {result : Except Error Bytes}
    (hsince : a.since ≤ now)
    (hreplays : (settle S decay primaryCount env builder kind a now result).trail.Replays net) :
    endOf S net builder kind (settle S decay primaryCount env builder kind a now result) =
      endOf S net builder kind (.waiting a) := by
  have hsent := hreplays a.trail ⟨a.query, result⟩ (now - a.since)
    (trail_settle S decay primaryCount env builder kind a now result) a.query
  have hreplied := hreplays.of_prefix (trail_goOn S decay primaryCount env builder kind
    (trail_candidates S decay primaryCount env builder kind now a.names) a.candidate a.st _ _)
  unfold settle at hreplays ⊢
  rw [endOf_goOn S decay primaryCount env builder kind
      (endOf_candidates S decay primaryCount env builder kind hid now a.names) hreplays,
    endOf_waiting, sentEnd_eq S decay primaryCount env kind hid (TimedTrail.log_concat _ _ _) hsent
      hreplied, judgedEnd_later, Nat.add_sub_of_le hsince]

end Turns

/-! ## The replies of races -/

section Races

variable {K : Type} {n : Nat} [NatCast K] [Add K] [Sub K] [Mul K] [Div K] [Min K]
variable [LE K] [DecidableLE K] (S : SimpleDns) (decay : Nat → K) (primaryCount : Nat)
variable (env : Surroundings K n) (builder : Builder) (kind : RecordKind)

/-- Some run of the races takes a `send_query` here from its start. -/
def Sent (rtt : RttMap K n) (since : Instant) (send : SendQuery K n) : Prop :=
  ∃ q₀ events, SendQuery.start decay primaryCount rtt since = .ok q₀ ∧
    Machine.run (SendQuery.step S decay primaryCount) q₀ events = some send

/-- What some `send_query` came to, and how long it took. -/
inductive Raced (rtt : RttMap K n) : Except Error Bytes → Nat → Prop where
  | refused {since : Instant} {e : Error}
    (hstart : SendQuery.start decay primaryCount rtt since = .error e) : Raced rtt (.error e) 0
  | raced {since : Instant} {send : SendQuery K n} {result : Except Error Bytes} {took : Nat}
    (hsent : Sent S decay primaryCount rtt since send) (hresult : send.result = some result)
    (htook : send.race.clock = since + took) : Raced rtt result took

/-- Every exchange of a trail is what some `send_query` came to. -/
def RacedTrail (trail : TimedTrail) : Prop :=
  ∀ (before : TimedTrail) x took, before ++ [(x, took)] <+: trail →
    Raced S decay primaryCount (env.rtt before.log) x.result took

/-- The exchanges are those of races, and so is the query that following waits for. -/
def RacedHop (now : Instant) (trail : TimedTrail) : Hop K n → Prop
  | .sending _ _ send => RacedTrail S decay primaryCount env trail ∧
      SendQuery.start decay primaryCount (env.rtt trail.log) now = .ok send
  | .returned _ trail => RacedTrail S decay primaryCount env trail

/-- As `RacedHop`, for a lookup. -/
def AllRaced : SearchWalk K n → Prop
  | .waiting a => RacedTrail S decay primaryCount env a.trail ∧
      Sent S decay primaryCount (env.rtt a.trail.log) a.since a.send
  | .done _ _ trail => RacedTrail S decay primaryCount env trail

variable {S decay primaryCount env builder kind}

theorem RacedTrail.concat {trail : TimedTrail} (h : RacedTrail S decay primaryCount env trail)
    {x : Exchange} {took : Nat}
    (hx : Raced S decay primaryCount (env.rtt trail.log) x.result took) :
    RacedTrail S decay primaryCount env (trail ++ [(x, took)]) := by
  intro before y took' hbefore
  rcases List.prefix_concat_iff.mp hbefore with heq | hbefore
  · obtain ⟨rfl, hlast⟩ := List.append_inj' heq rfl
    cases hlast
    exact hx
  · exact h before y took' hbefore

theorem Sent.step {rtt : RttMap K n} {since : Instant} {send send' : SendQuery K n} {e : Wake n}
    (h : Sent S decay primaryCount rtt since send)
    (hs : send.step S decay primaryCount e = some send') :
    Sent S decay primaryCount rtt since send' := by
  obtain ⟨q₀, events, hstart, hrun⟩ := h
  refine ⟨q₀, events ++ [e], hstart, ?_⟩
  rw [Machine.run_append hrun, Machine.run_cons_some hs]
  rfl

theorem Sent.since_le {rtt : RttMap K n} {since : Instant} {send : SendQuery K n}
    (h : Sent S decay primaryCount rtt since send) : since ≤ send.race.clock := by
  obtain ⟨q₀, events, hstart, hrun⟩ := h
  refine Machine.run_invariant (P := fun q : SendQuery K n => since ≤ q.race.clock) ?_ ?_ hrun
  · exact fun q e q' hle hs => hle.trans (SendQuery.clock_le_step S decay primaryCount hs)
  · exact Nat.le_of_eq (SendQuery.clock_start decay primaryCount hstart).symm

theorem raced_hop {trail : TimedTrail} (h : RacedTrail S decay primaryCount env trail)
    (host : Str) (now : Instant) (left : Nat) :
    RacedHop S decay primaryCount env now trail
      (hop S decay primaryCount env kind host now trail left) := by
  cases left with
  | zero => exact h
  | succ left =>
    unfold hop
    cases S.nameNew host with
    | none => exact h
    | some name =>
      simp only
      cases buildQuery S (env.randomId trail.log) host kind.dnsType with
      | error e => exact h
      | ok bytes =>
        simp only
        cases hstart : SendQuery.start decay primaryCount (env.rtt trail.log) now with
        | error e => exact h.concat (.refused hstart)
        | ok send => exact ⟨h, hstart⟩

theorem allRaced_goOn {now : Instant} {names : List Str}
    (hnext : ∀ st trail, RacedTrail S decay primaryCount env trail →
      AllRaced S decay primaryCount env
        (candidates S decay primaryCount env builder kind now names st trail))
    (candidate : Str) (st : LoopState) {trail : TimedTrail} {h : Hop K n}
    (hraced : RacedHop S decay primaryCount env now trail h) :
    AllRaced S decay primaryCount env
      (goOn S decay primaryCount env builder kind candidate names st now trail h) := by
  cases h with
  | sending left query send => exact ⟨hraced.1, send, [], hraced.2, rfl⟩
  | returned r trail' =>
    unfold goOn
    simp only
    cases judge builder st (readAttempt S kind r) with
    | answered records ttl => exact hraced
    | failed e => exact hraced
    | next st => exact hnext st trail' hraced

theorem allRaced_candidates (now : Instant) (names : List Str) (st : LoopState) (trail : TimedTrail)
    (h : RacedTrail S decay primaryCount env trail) :
    AllRaced S decay primaryCount env
      (candidates S decay primaryCount env builder kind now names st trail) := by
  induction names generalizing st trail with
  | nil => exact h
  | cons name names ih =>
    rw [candidates_cons]
    exact allRaced_goOn ih name st (raced_hop h name now maxCnameDepth)

theorem allRaced_settle {a : Awaiting K n} {send : SendQuery K n} {result : Except Error Bytes}
    (h : RacedTrail S decay primaryCount env a.trail)
    (hsent : Sent S decay primaryCount (env.rtt a.trail.log) a.since send)
    (hresult : send.result = some result) :
    AllRaced S decay primaryCount env
      (settle S decay primaryCount env builder kind a send.race.clock result) := by
  have htook : send.race.clock = a.since + (send.race.clock - a.since) :=
    (Nat.add_sub_of_le hsent.since_le).symm
  have htrail := h.concat (x := ⟨a.query, result⟩) (.raced hsent hresult htook)
  refine allRaced_goOn (allRaced_candidates send.race.clock a.names) a.candidate a.st ?_
  unfold replied
  cases Exchange.reading S kind.dnsType ⟨a.query, result⟩ with
  | inl r => exact htrail
  | inr target => exact raced_hop htrail target send.race.clock a.left

/-- What a turn can be. -/
theorem step_cases {s s' : SearchWalk K n} {e : Wake n}
    (h : s.step S decay primaryCount env builder kind e = some s') :
    ∃ a send, s = .waiting a ∧ a.send.step S decay primaryCount e = some send ∧
      (send.result = none ∧ s' = .waiting { a with send := send } ∨
        ∃ result, send.result = some result ∧
          s' = settle S decay primaryCount env builder kind a send.race.clock result) := by
  cases s with
  | done ended now trail => cases h
  | waiting a =>
    simp only [step] at h
    cases hsend : a.send.step S decay primaryCount e with
    | none =>
      simp only [hsend] at h
      cases h
    | some send =>
      simp only [hsend] at h
      refine ⟨a, send, rfl, hsend, ?_⟩
      cases hresult : send.result with
      | none =>
        simp only [hresult] at h
        exact .inl ⟨rfl, (Option.some.inj h).symm⟩
      | some result =>
        simp only [hresult] at h
        exact .inr ⟨result, rfl, (Option.some.inj h).symm⟩

/-- A turn keeps to replies of races, and leaves what is before the loops as it was. -/
theorem step_endOf {net : Network} (hid : net.randomId = env.randomId) {s s' : SearchWalk K n}
    {e : Wake n} (hraced : AllRaced S decay primaryCount env s)
    (h : s.step S decay primaryCount env builder kind e = some s') :
    AllRaced S decay primaryCount env s' ∧
      (s'.trail.Replays net → s.trail.Replays net ∧
        endOf S net builder kind s = endOf S net builder kind s') := by
  obtain ⟨a, send, rfl, hsend, ⟨-, rfl⟩ | ⟨result, hresult, rfl⟩⟩ := step_cases h
  · exact ⟨⟨hraced.1, hraced.2.step hsend⟩, fun hreplays => ⟨hreplays, rfl⟩⟩
  · have hsent := hraced.2.step hsend
    refine ⟨allRaced_settle hraced.1 hsent hresult, fun hreplays => ⟨?_, ?_⟩⟩
    · exact hreplays.of_prefix ((List.prefix_append _ _).trans
        (trail_settle S decay primaryCount env builder kind a _ result))
    · exact (endOf_settle S decay primaryCount env builder kind hid hsent.since_le hreplays).symm

/-- A run to the end of the candidate loop, and the loop over a network with the same replies. -/
theorem run_loopEnd {net : Network} (hid : net.randomId = env.randomId) {names : List Str}
    {start now : Instant} {events : List (Wake n)} {ended : WalkEnd} {trail : TimedTrail}
    (hrun : Machine.run (step S decay primaryCount env builder kind)
      (candidates S decay primaryCount env builder kind start names {} []) events =
        some (.done ended now trail)) :
    RacedTrail S decay primaryCount env trail ∧
      (trail.Replays net → loopEnd S net builder kind names {} start [] =
        (ended, now, trail.log)) := by
  have hnil : RacedTrail S decay primaryCount env [] :=
    fun before x took h => absurd (List.prefix_nil.mp h) (List.append_ne_nil_of_right_ne_nil _
      (List.cons_ne_nil _ _))
  have hstart : AllRaced S decay primaryCount env
      (candidates S decay primaryCount env builder kind start names {} []) :=
    allRaced_candidates start names {} [] hnil
  refine ⟨Machine.run_invariant (fun s e s' hs h => (step_endOf hid hs h).1) hstart hrun, ?_⟩
  intro hreplays
  obtain ⟨hfirst, heq⟩ := Machine.run_unchanged (f := endOf S net builder kind)
    (Q := fun s => s.trail.Replays net) (fun s e s' hs h => step_endOf hid hs h) hstart hrun
    hreplays
  exact (endOf_candidates S decay primaryCount env builder kind hid start names {} []
    hfirst).symm.trans heq

end Races

end SearchWalk

/-! ## Lookups -/

section Lookups

variable {L : Type} [LruMap L UInt64 CacheEntry] (cacheKey : Str → RecordKind → UInt64)
variable (S : SimpleDns) (net : Network) (builder : Builder)

/-- What a lookup makes of the end of its candidate loop. -/
def WalkEnd.conclude (name : Str) (kind : RecordKind) (w : World (List Exchange) L) :
    WalkEnd → Checked (Except Error (List Record) × World (List Exchange) L)
  | .answered candidate records ttl =>
    .ok (.ok records, w.insert cacheKey candidate kind (.positive records) ttl)
  | .failed e => .ok (.error e, w)
  | .finished st => N0DnsResolver.conclude cacheKey builder name kind st w

/-- How `candidateLoop` ends, for an end of the loop. -/
def WalkEnd.exit (kind : RecordKind) (w : World (List Exchange) L) :
    WalkEnd → LoopExit × World (List Exchange) L
  | .answered candidate records ttl =>
    (.returned (.ok records), w.insert cacheKey candidate kind (.positive records) ttl)
  | .failed e => (.returned (.error e), w)
  | .finished st => (.finished st, w)

theorem candidateLoop_eq {kind : RecordKind} {ended : WalkEnd} {now : Instant}
    {log : List Exchange} (names : List Str) (st : LoopState) (w : World (List Exchange) L)
    (h : SearchWalk.loopEnd S net builder kind names st w.now w.net = (ended, now, log)) :
    candidateLoop cacheKey (resolveCandidate S net) builder kind names st w =
      ended.exit cacheKey kind { w with now := now, net := log } := by
  induction names generalizing st w with
  | nil =>
    cases h
    rfl
  | cons name names ih =>
    unfold candidateLoop
    rw [SearchWalk.loopEnd_cons] at h
    unfold SearchWalk.judgedEnd at h
    unfold resolveCandidate at ih ⊢
    unfold World.resolve
    simp only at h ⊢
    cases hjudge : judge builder st
      (readAttempt S kind (sendQueryFollowingCnames S net name kind.dnsType w.net).1) with
    | answered records ttl =>
      simp only [hjudge] at h ⊢
      cases h
      rfl
    | failed e =>
      simp only [hjudge] at h ⊢
      cases h
      rfl
    | next st' =>
      simp only [hjudge] at h ⊢
      exact ih st' _ h

/-- The walk along the search list, from the end of its loop. -/
theorem walk_eq {names : List Str} {name : Str} {kind : RecordKind}
    {w : World (List Exchange) L} {ended : WalkEnd} {now : Instant} {log : List Exchange}
    (h : SearchWalk.loopEnd S net builder kind names {} w.now w.net = (ended, now, log)) :
    walk cacheKey (resolveCandidate S net) builder names name kind w =
      ended.conclude cacheKey builder name kind { w with now := now, net := log } := by
  unfold walk
  rw [candidateLoop_eq cacheKey S net builder names {} w h]
  cases ended with
  | answered candidate records ttl => rfl
  | failed e => rfl
  | finished st => rfl

theorem lookupRecord_of_miss {S : SimpleDns} {config : Config} {name : Str} {kind : RecordKind}
    {w : World (List Exchange) L}
    (hmiss : (DnsCache.get cacheKey w.cache w.now name kind).1 = none) :
    lookupRecord S net cacheKey builder config name kind w =
      walk cacheKey (resolveCandidate S net) builder (searchNames S config name) name kind
        { w with cache := (DnsCache.get cacheKey w.cache w.now name kind).2 } := by
  unfold lookupRecord lookupRecordImpl
  cases hget : DnsCache.get cacheKey w.cache w.now name kind with
  | mk found cache =>
    rw [hget] at hmiss
    cases hmiss
    rfl

end Lookups

/-- Whatever the races of a lookup come to, each exchange is what some `send_query` came to, and the
lookup ends as over the network that gives the same replies after the same times. -/
theorem lookup_refines {K L : Type} [LruMap L UInt64 CacheEntry] [NatCast K] [Add K] [Sub K]
    [Mul K] [Div K] [Min K] [LE K] [DecidableLE K] (cacheKey : Str → RecordKind → UInt64)
    (S : SimpleDns) (decay : Nat → K) (state : ResolverState)
    (env : Surroundings K state.config.nameservers.length) (builder : Builder) (name : Str)
    (kind : RecordKind) (w : World (List Exchange) L)
    (events : List (Wake state.config.nameservers.length)) (ended : WalkEnd) (now : Instant)
    (trail : TimedTrail) (hmiss : (DnsCache.get cacheKey w.cache w.now name kind).1 = none)
    (hlog : w.net = [])
    (hrun : Machine.run (SearchWalk.step S decay state.primaryCount env builder kind)
      (SearchWalk.candidates S decay state.primaryCount env builder kind w.now
        (searchNames S state.config name) {} []) events = some (.done ended now trail)) :
    SearchWalk.RacedTrail S decay state.primaryCount env trail ∧
      lookupRecord S (trail.network env.randomId) cacheKey builder state.config name kind w =
        ended.conclude cacheKey builder name kind
          { w with
            now := now
            net := trail.log
            cache := (DnsCache.get cacheKey w.cache w.now name kind).2 } := by
  have hid : (trail.network env.randomId).randomId = env.randomId := rfl
  obtain ⟨hraced, hloop⟩ := SearchWalk.run_loopEnd hid hrun
  refine ⟨hraced, ?_⟩
  rw [lookupRecord_of_miss cacheKey (trail.network env.randomId) builder hmiss]
  have hend := hloop (trail.replays_network env.randomId)
  rw [← hlog] at hend
  exact walk_eq cacheKey S (trail.network env.randomId) builder hend

/-! ## The primary server times out -/

def dbSurroundings : Surroundings Float twoTiers.config.nameservers.length :=
  ⟨fun _ => 4660, fun _ => .new 0⟩

theorem twoTiers_fallback_lt : 1 < twoTiers.config.nameservers.length := by decide

/-- The fallback server answers for the host. -/
def dbWake : EscalationWake :=
  .completed ⟨⟨⟨1, twoTiers_fallback_lt⟩, 6000000000⟩, 6001000000, .ok (dbReply, some 1000000)⟩

def dbAsked : Query := ⟨"db.".toList, dbName, .A, 4660, dbQuery⟩

def dbAwaiting : Awaiting Float twoTiers.config.nameservers.length where
  candidate := "db.".toList
  names := []
  st := {}
  left := 7
  query := dbAsked
  since := 0
  send := .primary primaryRace
  trail := []

def dbTrail : TimedTrail := [(⟨dbAsked, .ok dbReply⟩, 6001000000)]

theorem dbWalk_start : SearchWalk.candidates dbDns floatDecay twoTiers.primaryCount dbSurroundings
    {} .a 0 (searchNames dbDns twoTiers.config "db.".toList) {} [] = .waiting dbAwaiting := by
  have hhop : SearchWalk.hop dbDns floatDecay twoTiers.primaryCount dbSurroundings .a "db.".toList 0
      [] maxCnameDepth = .sending 7 dbAsked (.primary primaryRace) := by
    have hname : dbDns.nameNew "db.".toList = some dbName := rfl
    have hbytes : buildQuery dbDns (dbSurroundings.randomId []) "db.".toList .A = .ok dbQuery := rfl
    have hstart : SendQuery.start floatDecay twoTiers.primaryCount (dbSurroundings.rtt []) 0 =
        .ok (.primary primaryRace) := twoTiers_start
    simp only [SearchWalk.hop, maxCnameDepth, TimedTrail.log, List.map_nil, RecordKind.dnsType,
      hname, hbytes, hstart]
    rfl
  show SearchWalk.candidates dbDns floatDecay twoTiers.primaryCount dbSurroundings {} .a 0
    ["db.".toList] {} [] = _
  unfold SearchWalk.candidates
  rw [hhop]
  rfl

/-- The race of the fallback tier starts when the primary server times out. -/
theorem dbWalk_escalates :
    SearchWalk.step dbDns floatDecay twoTiers.primaryCount dbSurroundings {} .a
      (.waiting dbAwaiting) primaryTimeout =
        some (.waiting { dbAwaiting with send := .fallback lostRace escalatedRace }) := by
  have hsend : SendQuery.step dbDns floatDecay twoTiers.primaryCount dbAwaiting.send
      primaryTimeout = some (.fallback lostRace escalatedRace) := by
    unfold escalatedRace
    rw [← orderIndices_singleton floatDecay lostRace.rtt lostRace.clock]
    rfl
  simp only [SearchWalk.step, hsend]
  rfl

theorem dbWalk_run : Machine.run
    (SearchWalk.step dbDns floatDecay twoTiers.primaryCount dbSurroundings {} .a)
    (.waiting dbAwaiting) [primaryTimeout, dbWake] =
      some (.done (.answered "db.".toList [.a ⟨7⟩] 60) 6001000000 dbTrail) := by
  rw [Machine.run_cons_some dbWalk_escalates]
  rfl

/-- The lookup that escalates returns the address the fallback server gave. -/
theorem lookup_refines_db :
    SearchWalk.RacedTrail dbDns floatDecay twoTiers.primaryCount dbSurroundings dbTrail ∧
      (lookupRecord dbDns (dbTrail.network fun _ => 4660) sampleKey {} twoTiers.config
        "db.".toList .a (⟨0, [], LruMap.new, []⟩ : World (List Exchange) Table)).map Prod.fst =
          .ok (.ok [.a ⟨7⟩]) := by
  obtain ⟨hraced, hlookup⟩ := lookup_refines sampleKey dbDns floatDecay twoTiers dbSurroundings {}
    "db.".toList .a (⟨0, [], LruMap.new, []⟩ : World (List Exchange) Table)
    [primaryTimeout, dbWake] _ _ dbTrail rfl rfl (dbWalk_start ▸ dbWalk_run)
  exact ⟨hraced, (congrArg (Except.map Prod.fst) hlookup).trans rfl⟩

end N0DnsResolver
