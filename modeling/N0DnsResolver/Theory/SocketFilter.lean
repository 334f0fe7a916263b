/-
  The check at the socket against the validator.

  `answers_query` reads the header bytes of a reply and parses the query again;
  `check_response` compares the parsed reply with what was asked for. On a reply that
  parses, to a query that was built, both come to the same test (`Echoes`), but for the
  FORMERR without a question that only the socket lets through.
-/
import N0DnsResolver.Model.Answers
import N0DnsResolver.Theory.Acceptance

namespace N0DnsResolver

/-- The flag reader of `header_buffer` agrees with the parser. -/
def SimpleDns.FlagsAgree (S : SimpleDns) : Prop :=
  ∀ data packet, S.parse data = some packet →
    ∀ flag, S.headerHasFlags data flag = some (packet.hasFlags flag)

/-- The reply has no question and reports a format error. -/
def BareFormatError (packet : Packet) : Prop :=
  packet.questions = [] ∧ packet.rcode = .formatError

instance (packet : Packet) : Decidable (BareFormatError packet) :=
  inferInstanceAs (Decidable (_ ∧ _))

section Filter

variable {S : SimpleDns} {i : UInt16} {host : Str} {qtype : TYPE} {query r : Bytes} {name : Name}
  {p : Packet}

/-- A query that was built is the wire form of its packet. -/
theorem buildBytesVec_of_buildQuery (hname : S.nameNew host = some name)
    (hbuild : buildQuery S i host qtype = .ok query) :
    S.buildBytesVec (queryPacket i name qtype) = some query := by
  unfold buildQuery at hbuild
  rw [hname] at hbuild
  simp only at hbuild
  cases hbytes : S.buildBytesVec (queryPacket i name qtype) with
  | none =>
    rw [hbytes] at hbuild
    cases hbuild
  | some bytes =>
    rw [hbytes] at hbuild
    cases hbuild
    rfl

/-- It carries the id it was given and the one question it asks. -/
theorem buildQuery_reads (hS : S.RoundTrips) (hname : S.nameNew host = some name)
    (hbuild : buildQuery S i host qtype = .ok query) :
    HeaderBuffer.id S query = some i ∧ ∃ sent, S.parse query = some sent ∧
      sent.questions = [⟨name, .TYPE qtype, .CLASS .IN⟩] := by
  have hbytes := buildBytesVec_of_buildQuery hname hbuild
  obtain ⟨sent, hsent, hid, hquestions⟩ := hS.parse_build _ _ hbytes
  refine ⟨?_, sent, hsent, hquestions⟩
  rw [hS.header_id _ _ hsent, hid]
  rfl

/-- It has an OPT record, so there is a query without it to retry with. -/
theorem stripEdns_isSome (hS : S.RoundTrips) (hopt : S.OptRoundTrips)
    (hname : S.nameNew host = some name) (hbuild : buildQuery S i host qtype = .ok query) :
    ∃ stripped, stripEdns S query = some stripped := by
  have hbytes := buildBytesVec_of_buildQuery hname hbuild
  obtain ⟨sent, hsent, -, -⟩ := hS.parse_build _ _ hbytes
  obtain ⟨stripped, hstripped⟩ := hopt.builds_without _ _ _ hbytes hsent
  have hedns : sent.opt = some ⟨ednsUdpPayloadSize, 0⟩ := hopt.opt_eq _ _ _ hbytes hsent
  refine ⟨stripped, ?_⟩
  unfold stripEdns
  rw [hsent]
  simp only [hedns]
  exact hstripped

/-- What `parse_packet` accepts is as long as a header and parses. -/
theorem parse_of_parsedPacket (h : parsedPacket S r = .ok p) :
    dnsHeaderLen ≤ r.length ∧ S.parse r = some p := by
  unfold parsedPacket at h
  split at h
  · cases h
  · next hlen =>
    split at h
    · cases h
    · split at h
      · cases h
      · next packet hparse =>
        cases h
        exact ⟨Nat.not_lt.mp hlen, hparse⟩

theorem questionsEcho_singleton (got : List Question) (want : Question) :
    questionsEcho got [want] = true ↔
      ∃ q, got = [q] ∧ namesEqual q.qname want.qname = true ∧ q.qtype = want.qtype ∧
        q.qclass = want.qclass := by
  unfold questionsEcho
  match got with
  | [] => simp
  | [q] => simp [and_assoc]
  | q :: q' :: rest => simp

/-- The check at the socket, on a reply that parses: id, QR bit, and the question or a FORMERR
without one. -/
theorem answersQuery_iff (hS : S.RoundTrips) (hflags : S.FlagsAgree)
    (hname : S.nameNew host = some name) (hbuild : buildQuery S i host qtype = .ok query)
    (hp : parsedPacket S r = .ok p) :
    answersQuery S r query = .ok true ↔
      Echoes p i name qtype ∨
        (p.id = i ∧ p.hasFlags .response = true ∧ BareFormatError p) := by
  obtain ⟨hlen, hparse⟩ := parse_of_parsedPacket hp
  obtain ⟨hid, sent, hsent, hquestions⟩ := buildQuery_reads hS hname hbuild
  have hread : HeaderBuffer.id S r = some p.id := hS.header_id _ _ hparse
  have hqr : HeaderBuffer.hasFlags S r .response = .ok (some (p.hasFlags .response)) := by
    rw [hasFlags_eq_ok S (Nat.le_trans (by decide) hlen), hflags _ _ hparse]
  have hecho := questionsEcho_singleton p.questions ⟨name, .TYPE qtype, .CLASS .IN⟩
  unfold answersQuery
  simp only [hread, hid, hqr, parsePacket_eq, hp, hsent, hquestions, bind, Except.bind]
  by_cases hsame : p.id = i
  · rw [if_neg (by simp [hsame])]
    cases hresponse : p.hasFlags .response with
    | false =>
      refine iff_of_false (by simp) ?_
      rintro (h | ⟨-, h, -⟩)
      · simpa [hresponse] using h.qr
      · cases h
    | true =>
      by_cases hbare : BareFormatError p
      · rw [if_neg (by simp)]
        refine iff_of_true (if_pos hbare) (.inr ⟨hsame, rfl, hbare⟩)
      · have hask : ¬ (p.questions = [] ∧ p.rcode = .formatError) := hbare
        rw [if_neg (by simp), if_neg hask]
        constructor
        · intro h
          exact .inl ⟨hresponse, hsame, hecho.mp (Except.ok.inj h)⟩
        · rintro (h | ⟨-, -, h⟩)
          · exact congrArg Except.ok (hecho.mpr h.question)
          · exact absurd h hbare
  · rw [if_pos (by simpa using Ne.symm hsame)]
    refine iff_of_false (by simp) ?_
    rintro (h | ⟨h, -⟩)
    · exact hsame h.id_eq
    · exact hsame h

/-- The validator rejects a reply as a mismatch exactly when it does not echo the query. -/
theorem checkResponse_ne_unexpected :
    checkResponse p i name qtype ≠ .error .unexpected ↔ Echoes p i name qtype := by
  rcases checkResponse_cases p i name qtype with ⟨hnot, he⟩ | ⟨hecho, he⟩
  · exact iff_of_false (fun h => h he) hnot
  · refine iff_of_true ?_ hecho
    rw [he]
    split <;> simp

/-- For a reply that parses, to the query as it was built or to the one without EDNS, which there
is: what the validator does not reject as a mismatch passes the socket, and what passes the socket
is not rejected as a mismatch, unless it is a FORMERR without a question. -/
theorem socket_filter_agrees (hS : S.RoundTrips) (hopt : S.OptRoundTrips) (hflags : S.FlagsAgree)
    (hname : S.nameNew host = some name) (hbuild : buildQuery S i host qtype = .ok query)
    (hp : parsedPacket S r = .ok p) :
    (checkResponse p i name qtype ≠ .error .unexpected →
        answersQuery S r query = .ok true ∧
          ∃ stripped, stripEdns S query = some stripped ∧ answersQuery S r stripped = .ok true) ∧
      (answersQuery S r query = .ok true → ¬ BareFormatError p →
        checkResponse p i name qtype ≠ .error .unexpected) := by
  have hanswers := answersQuery_iff hS hflags hname hbuild hp
  refine ⟨fun hcheck => ?_, fun hfilter hbare => ?_⟩
  · have hecho := checkResponse_ne_unexpected.mp hcheck
    obtain ⟨stripped, hstripped⟩ := stripEdns_isSome hS hopt hname hbuild
    refine ⟨hanswers.mpr (.inl hecho), stripped, hstripped, ?_⟩
    rw [answersQuery_of_stripped S hS hstripped]
    exact hanswers.mpr (.inl hecho)
  · rcases hanswers.mp hfilter with hecho | ⟨-, -, h⟩
    · exact checkResponse_ne_unexpected.mpr hecho
    · exact absurd h hbare

end Filter

/-! ## A probe and its answer -/

/-- The answer to the probe, its name in capitals. -/
def probeAnswer : Packet where
  id := 7
  flags := [.response, .recursionDesired]
  rcode := .noError
  questions := [⟨⟨[asciiBytes "DB"]⟩, .TYPE .A, .CLASS .IN⟩]
  answers := []
  nameServers := []
  opt := none

/-- The probe with and without its OPT record, and its answer. -/
def answeredDns : SimpleDns :=
  .ofTable [(probe, probeQuery), ({ probe with opt := none }, probeStripped),
    (probeAnswer, probeAnswer.wire)]

theorem answeredDns_flagsAgree : answeredDns.FlagsAgree := by
  intro data packet h flag
  obtain ⟨m, hm, rfl⟩ := Option.map_eq_some_iff.mp h
  have hdata : m.2 = data := by simpa using List.find?_some hm
  have hall : ∀ m ∈ [(probe, probeQuery), ({ probe with opt := none }, probeStripped),
      (probeAnswer, probeAnswer.wire)], ∀ flag : PacketFlag,
        answeredDns.headerHasFlags m.2 flag = some (m.1.hasFlags flag) := by
    intro m hm flag
    simp only [List.mem_cons, List.not_mem_nil, or_false] at hm
    rcases hm with rfl | rfl | rfl <;> cases flag <;> decide
  rw [← hdata]
  exact hall m (List.mem_of_find?_eq_some hm) flag

theorem socket_filter_agrees_probe :
    answersQuery answeredDns probeAnswer.wire probeQuery = .ok true ∧
      (∃ stripped, stripEdns answeredDns probeQuery = some stripped ∧ stripped = probeStripped ∧
        answersQuery answeredDns probeAnswer.wire stripped = .ok true) ∧
      checkResponse probeAnswer 7 ⟨[asciiBytes "db"]⟩ .A ≠ .error .unexpected := by
  have hS : answeredDns.RoundTrips := SimpleDns.ofTable_roundTrips (by decide) (by decide)
  have hopt : answeredDns.OptRoundTrips :=
    SimpleDns.ofTable_optRoundTrips (by decide) (by decide)
  have hname : answeredDns.nameNew "db".toList = some ⟨[asciiBytes "db"]⟩ := by decide
  have hbuild : buildQuery answeredDns 7 "db".toList .A = .ok probeQuery := by rfl
  have hp : parsedPacket answeredDns probeAnswer.wire = .ok probeAnswer := by rfl
  have hprobe : stripEdns answeredDns probeQuery = some probeStripped := by rfl
  have hagrees := socket_filter_agrees hS hopt answeredDns_flagsAgree hname hbuild hp
  obtain ⟨hquery, stripped, hstripped, hanswers⟩ := hagrees.1 (by decide)
  have hsame : stripped = probeStripped := Option.some.inj (hstripped.symm.trans hprobe)
  exact ⟨hquery, ⟨stripped, hstripped, hsame, hanswers⟩, hagrees.2 hquery (by decide)⟩

end N0DnsResolver
