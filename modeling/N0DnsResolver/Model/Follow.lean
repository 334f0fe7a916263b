/-
  The resolver's own stage: querying a candidate and following its CNAMEs
  (`DnsResolver::send_query_following_cnames`), then reading the final reply.

  Below it lies `DnsResolver::send_query`, which races the nameservers. Here it is a
  `Network`: for every query, given all that was exchanged before, it returns any
  bytes or any error after any time, and the random source any transaction id. The
  state of the stage is the log of exchanges.
-/
import N0DnsResolver.Model.Answers
import N0DnsResolver.Model.Lookup

namespace N0DnsResolver

/-- A query handed to `send_query`. -/
structure Query where
  host : Str
  name : Name
  qtype : TYPE
  id : UInt16
  bytes : Bytes
  deriving DecidableEq

/-- A query and what `send_query` returned for it. -/
structure Exchange where
  query : Query
  result : Except Error Bytes

/-- What the servers and the random source do, given the exchanges so far. -/
structure Network where
  randomId : List Exchange → UInt16
  sendQuery : List Exchange → Query → Except Error Bytes × Nat

/-- What following a candidate's CNAMEs gives: the result, the time taken and the log. -/
abbrev Followed := Except Error Bytes × Nat × List Exchange

section Follow

variable (S : SimpleDns) (net : Network)

/-- How the loop body of `send_query_following_cnames` reads a reply: the error or the
response to return, or the target to query next. -/
def readReply (id : UInt16) (name : Name) (qtype : TYPE) (response : Bytes) :
    Except Error Bytes ⊕ Str :=
  match parsedPacket S response with
  | .error e => .inl (.error e.toError)
  | .ok packet =>
    match checkResponse packet id name qtype with
    | .error e => .inl (.error e.toError)
    | .ok () =>
      match unresolvedCnameTarget S packet name qtype with
      | none => .inl (.ok response)
      | some target => .inr target

/-- The loop of `send_query_following_cnames`, with the iterations left. -/
def followCnames (qtype : TYPE) : Nat → Str → List Exchange → Followed
  | 0, _, log => (.error .invalidResponse, 0, log)
  | fuel + 1, currentHost, log =>
    match S.nameNew currentHost with
    | none => (.error (.invalidName currentHost), 0, log)
    | some name =>
      let id := net.randomId log
      match buildQuery S id currentHost qtype with
      | .error e => (.error e.toError, 0, log)
      | .ok bytes =>
        let query : Query := ⟨currentHost, name, qtype, id, bytes⟩
        let (result, elapsed) := net.sendQuery log query
        let log := log ++ [⟨query, result⟩]
        match result with
        | .error e => (.error e, elapsed, log)
        | .ok response =>
          match readReply S id name qtype response with
          | .inl r => (r, elapsed, log)
          | .inr target =>
            let (r, elapsed', log) := followCnames qtype fuel target log
            (r, elapsed + elapsed', log)

/-- `send_query_following_cnames`. -/
def sendQueryFollowingCnames (host : Str) (qtype : TYPE) (log : List Exchange) : Followed :=
  followCnames S net qtype maxCnameDepth host log

/-! ## The trail of a candidate -/

/-- The exchange is the query for `host` sent after `log`, and what came of it. -/
structure Asked (qtype : TYPE) (host : Str) (log : List Exchange) (x : Exchange) : Prop where
  host_eq : x.query.host = host
  name_eq : S.nameNew host = some x.query.name
  qtype_eq : x.query.qtype = qtype
  id_eq : x.query.id = net.randomId log
  bytes_eq : buildQuery S x.query.id host qtype = .ok x.query.bytes
  result_eq : (net.sendQuery log x.query).1 = x.result

/-- The hops from `host` to the last exchange: every reply but the last was validated and led, along
its CNAME chain, to the name asked for next. -/
inductive Trail (qtype : TYPE) : Str → List Exchange → List Exchange → Exchange → Prop where
  | last {host log x} (asked : Asked S net qtype host log x) : Trail qtype host log [] x
  | hop {host log x response packet target hops y} (asked : Asked S net qtype host log x)
      (reply : x.result = .ok response) (parsed : parsedPacket S response = .ok packet)
      (checked : checkResponse packet x.query.id x.query.name qtype = .ok ())
      (unresolved : unresolvedTargetName packet x.query.name qtype = some target)
      (rest : Trail qtype (S.nameToString target) (log ++ [x]) hops y) :
      Trail qtype host log (x :: hops) y

/-- A trail ends with an exchange. -/
theorem Trail.asked {qtype : TYPE} {host : Str} {log hops : List Exchange} {x : Exchange}
    (h : Trail S net qtype host log hops x) : ∃ host' log', Asked S net qtype host' log' x := by
  induction h with
  | last asked => exact ⟨_, _, asked⟩
  | hop _ _ _ _ _ _ ih => exact ih

/-- What the last exchange of a trail makes of the candidate. -/
def Exchange.reading (qtype : TYPE) (x : Exchange) : Except Error Bytes ⊕ Str :=
  match x.result with
  | .error e => .inl (.error e)
  | .ok response => readReply S x.query.id x.query.name qtype response

/-- A reply that is followed was validated. -/
theorem readReply_inr {id : UInt16} {name : Name} {qtype : TYPE} {response : Bytes} {host : Str}
    (h : readReply S id name qtype response = .inr host) :
    ∃ packet target, parsedPacket S response = .ok packet ∧
      checkResponse packet id name qtype = .ok () ∧
      unresolvedTargetName packet name qtype = some target ∧ host = S.nameToString target := by
  unfold readReply at h
  split at h
  · simp at h
  · next packet hp =>
    split at h
    · simp at h
    · next hc =>
      split at h
      · simp at h
      · next target ht =>
        cases h
        obtain ⟨name', hn, rfl⟩ := Option.map_eq_some_iff.mp ht
        exact ⟨packet, name', hp, hc, hn, rfl⟩

/-- A reply that is returned was validated, and its chain is resolved. -/
theorem readReply_ok {id : UInt16} {name : Name} {qtype : TYPE} {response response' : Bytes}
    (h : readReply S id name qtype response = .inl (.ok response')) :
    response' = response ∧ ∃ packet, parsedPacket S response = .ok packet ∧
      checkResponse packet id name qtype = .ok () ∧
      unresolvedTargetName packet name qtype = none := by
  unfold readReply at h
  split at h
  · simp at h
  · next packet hp =>
    split at h
    · simp at h
    · next hc =>
      split at h
      · next ht =>
        cases h
        exact ⟨rfl, packet, hp, hc, Option.map_eq_none_iff.mp ht⟩
      · simp at h

/-- NXDOMAIN is read off a validated reply with that RCODE. -/
theorem readReply_nxDomain {id : UInt16} {name : Name} {qtype : TYPE} {response : Bytes}
    (h : readReply S id name qtype response = .inl (.error .nxDomain)) :
    ∃ packet, parsedPacket S response = .ok packet ∧ packet.rcode = .nameError := by
  unfold readReply at h
  split at h
  · next e he =>
    unfold parsedPacket at he
    split at he
    · cases he
      cases h
    · split at he
      · cases he
        cases h
      · split at he
        · cases he
          cases h
        · cases he
  · next packet hp =>
    split at h
    · next e hc =>
      have he : e.toError = .nxDomain := Except.error.inj (Sum.inl.inj h)
      cases e with
      | nxDomain => exact ⟨packet, hp, (checkResponse_nxDomain hc).2⟩
      | _ => cases he
    · split at h <;> cases h

/-- Following a candidate ends with what its last exchange reads as, or before a query was sent
or after the last hop allowed, with an error that is not NXDOMAIN. -/
theorem followCnames_cases (qtype : TYPE) (fuel : Nat) (host : Str) (log : List Exchange) :
    (∃ hops x, Trail S net qtype host log hops x ∧ hops.length < fuel ∧
        (followCnames S net qtype fuel host log).2.2 = log ++ hops ++ [x] ∧
        x.reading S qtype = .inl (followCnames S net qtype fuel host log).1) ∨
      ∃ e, (followCnames S net qtype fuel host log).1 = .error e ∧ e ≠ .nxDomain := by
  induction fuel generalizing host log with
  | zero => exact .inr ⟨.invalidResponse, rfl, by decide⟩
  | succ fuel ih =>
    unfold followCnames
    cases hname : S.nameNew host with
    | none => exact .inr ⟨_, rfl, by simp⟩
    | some name =>
      simp only
      cases hbytes : buildQuery S (net.randomId log) host qtype with
      | error e =>
        refine .inr ⟨_, rfl, ?_⟩
        unfold buildQuery at hbytes
        rw [hname] at hbytes
        simp only at hbytes
        split at hbytes
        · cases hbytes
          exact fun h => nomatch h
        · cases hbytes
      | ok bytes =>
        simp only
        have hasked : Asked S net qtype host log
            ⟨⟨host, name, qtype, net.randomId log, bytes⟩,
              (net.sendQuery log ⟨host, name, qtype, net.randomId log, bytes⟩).1⟩ :=
          ⟨rfl, hname, rfl, rfl, hbytes, rfl⟩
        cases hresult : (net.sendQuery log ⟨host, name, qtype, net.randomId log, bytes⟩).1 with
        | error e =>
          rw [hresult] at hasked
          exact .inl ⟨[], _, .last hasked, Nat.succ_pos _, by simp, rfl⟩
        | ok response =>
          rw [hresult] at hasked
          simp only
          cases hread : readReply S (net.randomId log) name qtype response with
          | inl r => exact .inl ⟨[], _, .last hasked, Nat.succ_pos _, by simp, hread⟩
          | inr next =>
            obtain ⟨packet, target, hp, hc, hu, rfl⟩ := readReply_inr S hread
            simp only
            rcases ih (S.nameToString target)
                (log ++ [⟨⟨host, name, qtype, net.randomId log, bytes⟩, .ok response⟩]) with
              ⟨hops, x, htrail, hlen, hlog, hx⟩ | ⟨e, he, hne⟩
            · refine .inl ⟨_ :: hops, x, .hop hasked rfl hp hc hu htrail, Nat.succ_lt_succ hlen,
                ?_, hx⟩
              rw [hlog]
              simp
            · exact .inr ⟨e, he, hne⟩

/-- The log only grows. -/
theorem followCnames_log (qtype : TYPE) (fuel : Nat) (host : Str) (log : List Exchange) :
    log <+: (followCnames S net qtype fuel host log).2.2 := by
  induction fuel generalizing host log with
  | zero => exact List.prefix_refl log
  | succ fuel ih =>
    unfold followCnames
    cases hname : S.nameNew host with
    | none => exact List.prefix_refl log
    | some name =>
      simp only
      cases hbytes : buildQuery S (net.randomId log) host qtype with
      | error e => exact List.prefix_refl log
      | ok bytes =>
        simp only
        cases hresult : (net.sendQuery log ⟨host, name, qtype, net.randomId log, bytes⟩).1 with
        | error e => exact List.prefix_append log _
        | ok response =>
          simp only
          cases readReply S (net.randomId log) name qtype response with
          | inl r => exact List.prefix_append log _
          | inr next => exact (List.prefix_append log _).trans (ih next _)

/-! ### One iteration -/

/-- A host is asked for, or it is no valid name and nothing is sent. -/
theorem asked_or_invalid (qtype : TYPE) (host : Str) (log : List Exchange) :
    (∃ x, Asked S net qtype host log x) ∨
      ∀ fuel, followCnames S net qtype (fuel + 1) host log = (.error (.invalidName host), 0, log) := by
  cases hname : S.nameNew host with
  | none =>
    right
    intro fuel
    unfold followCnames
    rw [hname]
  | some name =>
    cases hbytes : buildQuery S (net.randomId log) host qtype with
    | error e =>
      right
      intro fuel
      have he : e.toError = .invalidName host := by
        unfold buildQuery at hbytes
        rw [hname] at hbytes
        simp only at hbytes
        split at hbytes
        · cases hbytes
          rfl
        · simp at hbytes
      unfold followCnames
      rw [hname]
      simp only [hbytes, he]
    | ok bytes =>
      exact .inl ⟨⟨⟨host, name, qtype, net.randomId log, bytes⟩,
        (net.sendQuery log ⟨host, name, qtype, net.randomId log, bytes⟩).1⟩,
        rfl, hname, rfl, rfl, hbytes, rfl⟩

/-- The parts of an exchange: the name and bytes of its query, the rest is determined. -/
theorem Asked.eq {qtype : TYPE} {host : Str} {log : List Exchange} {x : Exchange}
    (h : Asked S net qtype host log x) : ∃ name bytes, S.nameNew host = some name ∧
      buildQuery S (net.randomId log) host qtype = .ok bytes ∧
      x = ⟨⟨host, name, qtype, net.randomId log, bytes⟩,
        (net.sendQuery log ⟨host, name, qtype, net.randomId log, bytes⟩).1⟩ := by
  obtain ⟨⟨host', name, qtype', id, bytes⟩, result⟩ := x
  obtain ⟨hhost, hname, hqtype, hid, hbytes, hresult⟩ := h
  simp only at hhost hname hqtype hid hbytes hresult
  subst hhost hqtype hid
  exact ⟨name, bytes, hname, hbytes, by rw [hresult]⟩

theorem Asked.unique {qtype : TYPE} {host : Str} {log : List Exchange} {x y : Exchange}
    (hx : Asked S net qtype host log x) (hy : Asked S net qtype host log y) : x = y := by
  obtain ⟨name, bytes, hname, hbytes, rfl⟩ := hx.eq
  obtain ⟨name', bytes', hname', hbytes', rfl⟩ := hy.eq
  cases hname.symm.trans hname'
  cases hbytes.symm.trans hbytes'
  rfl

/-- A valid name whose query can be built is asked for. -/
theorem exists_asked {qtype : TYPE} {host : Str} {name : Name} (log : List Exchange)
    (hname : S.nameNew host = some name)
    (hbuild : (S.buildBytesVec (queryPacket (net.randomId log) name qtype)).isSome = true) :
    ∃ x, Asked S net qtype host log x ∧ x.query.name = name := by
  obtain ⟨bytes, hbytes⟩ := Option.isSome_iff_exists.mp hbuild
  have hquery : buildQuery S (net.randomId log) host qtype = .ok bytes := by
    unfold buildQuery
    simp only [hname, hbytes]
  exact ⟨⟨⟨host, name, qtype, net.randomId log, bytes⟩,
    (net.sendQuery log ⟨host, name, qtype, net.randomId log, bytes⟩).1⟩,
    ⟨rfl, hname, rfl, rfl, hquery, rfl⟩, rfl⟩

/-- The iteration that asks for a host ends with what the reply reads as, or goes on to the target
it leads to. -/
theorem followCnames_of_asked {qtype : TYPE} {host : Str} {log : List Exchange} {x : Exchange}
    (h : Asked S net qtype host log x) (fuel : Nat) :
    (followCnames S net qtype (fuel + 1) host log).1 =
        (match x.reading S qtype with
          | .inl r => r
          | .inr target => (followCnames S net qtype fuel target (log ++ [x])).1) ∧
      (followCnames S net qtype (fuel + 1) host log).2.2 =
        (match x.reading S qtype with
          | .inl _ => log ++ [x]
          | .inr target => (followCnames S net qtype fuel target (log ++ [x])).2.2) := by
  obtain ⟨name, bytes, hname, hbytes, rfl⟩ := h.eq
  simp only [followCnames, Exchange.reading, hname, hbytes]
  cases (net.sendQuery log ⟨host, name, qtype, net.randomId log, bytes⟩).1 with
  | error e => exact ⟨rfl, rfl⟩
  | ok response =>
    simp only
    cases readReply S (net.randomId log) name qtype response with
    | inl r => exact ⟨rfl, rfl⟩
    | inr target => exact ⟨rfl, rfl⟩

/-- The reading of a validated reply. -/
theorem reading_of_validated {qtype : TYPE} {x : Exchange} {response : Bytes} {packet : Packet}
    (hresult : x.result = .ok response) (hpacket : parsedPacket S response = .ok packet)
    (hchecked : checkResponse packet x.query.id x.query.name qtype = .ok ()) :
    x.reading S qtype =
      match unresolvedTargetName packet x.query.name qtype with
      | none => .inl (.ok response)
      | some target => .inr (S.nameToString target) := by
  unfold Exchange.reading readReply unresolvedCnameTarget
  rw [hresult]
  simp only [hpacket, hchecked]
  cases unresolvedTargetName packet x.query.name qtype <;> rfl

/-- The pair the candidate loop builds from the reply. -/
def readAttempt (kind : RecordKind) : Except Error Bytes → Attempt
  | .ok response =>
    let parsed := (parsedRecords S response kind).mapError QueryError.toError
    let soa := match parsed with
      | .ok (records, _) => if records = [] then negativeTtlOf S response else none
      | .error .nxDomain => negativeTtlOf S response
      | _ => none
    ⟨parsed, soa⟩
  | .error e => ⟨.error e, none⟩

theorem readAttempt_ok {kind : RecordKind} {r : Except Error Bytes} {rs : List Record} {ttl : Nat}
    (h : (readAttempt S kind r).res = .ok (rs, ttl)) :
    ∃ response, r = .ok response ∧ parsedRecords S response kind = .ok (rs, ttl) ∧
      (readAttempt S kind r).soa = if rs = [] then negativeTtlOf S response else none := by
  cases r with
  | error e => cases h
  | ok response =>
    have hparsed : parsedRecords S response kind = .ok (rs, ttl) := by
      cases hp : parsedRecords S response kind with
      | error e =>
        simp only [readAttempt, hp] at h
        cases h
      | ok p =>
        simp only [readAttempt, hp] at h
        cases h
        rfl
    exact ⟨response, rfl, hparsed, by simp [readAttempt, hparsed, Except.mapError]⟩

/-- NXDOMAIN comes from following the candidate, not from reading the final reply, and brings no
SOA with it. -/
theorem readAttempt_nxDomain {kind : RecordKind} {r : Except Error Bytes}
    (h : (readAttempt S kind r).res = .error .nxDomain) :
    r = .error .nxDomain ∧ (readAttempt S kind r).soa = none := by
  cases r with
  | error e =>
    cases h
    exact ⟨rfl, rfl⟩
  | ok response =>
    simp only [readAttempt, parsedRecords_eq] at h
    unfold parsedPacket at h
    split at h
    · cases h
    · split at h
      · cases h
      · split at h <;> cases h

/-- The stage of the resolver. -/
def resolveCandidate : Stage (List Exchange) := fun name kind log =>
  let (r, elapsed, log) := sendQueryFollowingCnames S net name kind.dnsType log
  (readAttempt S kind r, elapsed, log)

/-- `DnsResolver::lookup_record`. -/
def lookupRecord {L : Type} [LruMap L UInt64 CacheEntry]
    (cacheKey : Str → RecordKind → UInt64) (builder : Builder) (config : Config) (name : Str)
    (kind : RecordKind) (w : World (List Exchange) L) :
    Checked (Except Error (List Record) × World (List Exchange) L) :=
  lookupRecordImpl cacheKey (resolveCandidate S net) builder S config name kind w

end Follow

end N0DnsResolver
