/-
  Packet construction and response parsing (`query.rs`).

  Every function that reads the raw bytes of a reply is a `Checked` computation:
  a header read past the end of the buffer is a panic. The guarded ones are proved
  to return (`parsePacket_returns` and its like) and are read through
  `Checked.get` from there on. `answersQuery` leaves the guard to `header_buffer::id`
  and stays `Checked` for its callers.
-/
import N0DnsResolver.Lib.Chase
import N0DnsResolver.Model.SimpleDns

namespace N0DnsResolver

/-- `QueryError`. -/
inductive QueryError where
  | buildQuery (name : Str)
  | malformed
  | unexpected
  | nxDomain
  | serverFailure (rcode : RCODE)
  deriving DecidableEq, Repr

/-- `response_code`. -/
def responseCode : RCODE → ResponseCode
  | .serverFailure => .serverFailure
  | .refused => .refused
  | .formatError => .formatError
  | .notImplemented => .notImplemented
  | _ => .other

/-- `From<QueryError> for Error`. -/
def QueryError.toError : QueryError → Error
  | .buildQuery name => .invalidName name
  | .malformed => .invalidResponse
  | .unexpected => .invalidResponse
  | .nxDomain => .nxDomain
  | .serverFailure rcode => .serverError (responseCode rcode)

/-- `RecordKind::dns_type`. -/
def RecordKind.dnsType : RecordKind → TYPE
  | .a => .A
  | .aaaa => .AAAA
  | .txt => .TXT
  | .ns => .NS
  | .srv => .SRV
  | .mx => .MX
  | .caa => .CAA
  | .svcb => .SVCB
  | .https => .HTTPS

/-! ## Names -/

/-- `u8::to_ascii_lowercase`. -/
def asciiLower (b : UInt8) : UInt8 := if 65 ≤ b ∧ b ≤ 90 then b + 32 else b

/-- `<[u8]>::eq_ignore_ascii_case`. -/
def eqIgnoreAsciiCase (a b : Bytes) : Bool := a.map asciiLower == b.map asciiLower

/-- `names_equal`. -/
def namesEqual (a b : Name) : Bool :=
  a.labels.length == b.labels.length &&
    (a.labels.zip b.labels).all (fun p => eqIgnoreAsciiCase p.1 p.2)

/-- The labels of a name in lower case. -/
def Name.folded (name : Name) : List Bytes := name.labels.map (·.map asciiLower)

/-- Two names are equal when their labels are, ignoring ASCII case. -/
theorem namesEqual_iff (a b : Name) : namesEqual a b = true ↔ a.folded = b.folded := by
  obtain ⟨as⟩ := a
  obtain ⟨bs⟩ := b
  unfold namesEqual Name.folded
  simp only
  induction as generalizing bs with
  | nil => cases bs <;> simp
  | cons x xs ih =>
    cases bs with
    | nil => simp
    | cons y ys =>
      have h := ih ys
      simp only [Bool.and_eq_true, beq_iff_eq] at h
      simp only [List.length_cons, List.zip_cons_cons, List.all_cons, List.map_cons,
        List.cons.injEq, Bool.and_eq_true, beq_iff_eq, Nat.add_right_cancel_iff,
        eqIgnoreAsciiCase]
      rw [← h]
      tauto

theorem namesEqual_comm (a b : Name) : namesEqual a b = namesEqual b a := by
  rw [Bool.eq_iff_iff, namesEqual_iff, namesEqual_iff]
  exact eq_comm

/-- Equal names are told apart from no third one. -/
theorem namesEqual_congr_left {a b : Name} (h : namesEqual a b = true) (c : Name) :
    namesEqual a c = namesEqual b c := by
  rw [Bool.eq_iff_iff, namesEqual_iff, namesEqual_iff, (namesEqual_iff a b).mp h]

theorem namesEqual_congr_right {a b : Name} (h : namesEqual a b = true) (c : Name) :
    namesEqual c a = namesEqual c b := by
  rw [namesEqual_comm c a, namesEqual_comm c b, namesEqual_congr_left h]

/-! ## Parsing -/

/-- `DNS_HEADER_LEN`. -/
def dnsHeaderLen : Nat := 12

/-- `MIN_QUESTION_LEN`. -/
def minQuestionLen : Nat := 1 + 2 + 2

/-- `MIN_RECORD_LEN`. -/
def minRecordLen : Nat := 1 + 2 + 2 + 4 + 2

section Parsing

variable (S : SimpleDns)

/-- `parse_packet`. -/
def parsePacket (data : Bytes) : Checked (Except QueryError Packet) :=
  if data.length < dnsHeaderLen then .ok (.error .malformed)
  else do
    let questions ← HeaderBuffer.questionsUnchecked S data
    let answers ← HeaderBuffer.answersUnchecked S data
    let nameServers ← HeaderBuffer.nameServersUnchecked S data
    let additionalRecords ← HeaderBuffer.additionalRecordsUnchecked S data
    let records := answers.toNat + nameServers.toNat + additionalRecords.toNat
    let minLen := dnsHeaderLen + questions.toNat * minQuestionLen + records * minRecordLen
    if data.length < minLen then .ok (.error .malformed)
    else
      match S.parse data with
      | none => .ok (.error .malformed)
      | some packet => .ok (.ok packet)

/-- The length the header counts of a message call for, once the header is there. -/
def declaredLen (data : Bytes) : Nat :=
  dnsHeaderLen + (S.questionsUnchecked data).toNat * minQuestionLen +
    ((S.answersUnchecked data).toNat + (S.nameServersUnchecked data).toNat +
      (S.additionalRecordsUnchecked data).toNat) * minRecordLen

/-- What `parse_packet` returns. -/
def parsedPacket (data : Bytes) : Except QueryError Packet :=
  if data.length < dnsHeaderLen then .error .malformed
  else if data.length < declaredLen S data then .error .malformed
  else
    match S.parse data with
    | none => .error .malformed
    | some packet => .ok packet

/-- `parse_packet` never reads past the end of the buffer. -/
theorem parsePacket_eq (data : Bytes) : parsePacket S data = .ok (parsedPacket S data) := by
  unfold parsePacket parsedPacket
  by_cases h : data.length < dnsHeaderLen
  · rw [if_pos h, if_pos h]
  · have h12 : 12 ≤ data.length := Nat.not_lt.mp h
    rw [if_neg h, if_neg h]
    simp only [HeaderBuffer.questionsUnchecked, HeaderBuffer.answersUnchecked,
      HeaderBuffer.nameServersUnchecked, HeaderBuffer.additionalRecordsUnchecked,
      Checked.needs_eq_ok (Nat.le_trans (by decide : 6 ≤ 12) h12),
      Checked.needs_eq_ok (Nat.le_trans (by decide : 8 ≤ 12) h12),
      Checked.needs_eq_ok (Nat.le_trans (by decide : 10 ≤ 12) h12),
      Checked.needs_eq_ok h12, bind, Except.bind]
    by_cases hd : data.length < declaredLen S data
    · rw [if_pos hd]
      exact if_pos hd
    · rw [if_neg hd]
      refine (if_neg hd).trans ?_
      cases S.parse data <;> rfl

theorem parsePacket_returns (data : Bytes) : (parsePacket S data).Returns :=
  ⟨_, parsePacket_eq S data⟩

/-! ### The width of the sum -/

/-- An addition in a `usize` of so many bits. -/
def addIn (bits a b : Nat) : Checked Nat :=
  if a + b < 2 ^ bits then .ok (a + b) else .error .overflow

/-- A multiplication in a `usize` of so many bits. -/
def mulIn (bits a b : Nat) : Checked Nat :=
  if a * b < 2 ^ bits then .ok (a * b) else .error .overflow

/-- The `min_len` of `parse_packet`, in a `usize` of so many bits. -/
def minLenIn (bits : Nat) (data : Bytes) : Checked Nat := do
  let records ← addIn bits (S.answersUnchecked data).toNat (S.nameServersUnchecked data).toNat
  let records ← addIn bits records (S.additionalRecordsUnchecked data).toNat
  let questionsLen ← mulIn bits (S.questionsUnchecked data).toNat minQuestionLen
  let len ← addIn bits dnsHeaderLen questionsLen
  let recordsLen ← mulIn bits records minRecordLen
  addIn bits len recordsLen

/-- `parse_packet`, with its sum in a `usize` of so many bits. -/
def parsePacketIn (bits : Nat) (data : Bytes) : Checked (Except QueryError Packet) :=
  if data.length < dnsHeaderLen then .ok (.error .malformed)
  else do
    let minLen ← minLenIn S bits data
    if data.length < minLen then .ok (.error .malformed)
    else
      match S.parse data with
      | none => .ok (.error .malformed)
      | some packet => .ok (.ok packet)

/-! ## Queries -/

/-- `EDNS_UDP_PAYLOAD_SIZE`. -/
def ednsUdpPayloadSize : UInt16 := 1232

/-- The packet `build_query` serializes. -/
def queryPacket (id : UInt16) (name : Name) (qtype : TYPE) : Packet where
  id := id
  flags := [.recursionDesired]
  rcode := .noError
  questions := [⟨name, .TYPE qtype, .CLASS .IN⟩]
  answers := []
  nameServers := []
  opt := some ⟨ednsUdpPayloadSize, 0⟩

/-- Every query for a name that fits the wire format is serialized. -/
def SimpleDns.BuildsQueries (S : SimpleDns) : Prop :=
  ∀ id name qtype, name.Wire → (S.buildBytesVec (queryPacket id name qtype)).isSome = true

/-- `build_query`, with the transaction id the random source gave it. -/
def buildQuery (id : UInt16) (host : Str) (qtype : TYPE) : Except QueryError Bytes :=
  match S.nameNew host with
  | none => .error (.buildQuery host)
  | some name =>
    match S.buildBytesVec (queryPacket id name qtype) with
    | none => .error (.buildQuery host)
    | some bytes => .ok bytes

/-- `strip_edns`. -/
def stripEdns (query : Bytes) : Option Bytes :=
  match S.parse query with
  | none => none
  | some packet =>
    match packet.opt with
    | none => none
    | some _ => S.buildBytesVec { packet with opt := none }

/-! ## The header helpers -/

/-- `retryable_failure_rcode`. -/
def retryableFailureRcode (data : Bytes) : Checked (Option RCODE) :=
  if data.length < dnsHeaderLen then .ok none
  else do
    match ← HeaderBuffer.rcode S data with
    | some .serverFailure => .ok (some .serverFailure)
    | some .refused => .ok (some .refused)
    | some .formatError => .ok (some .formatError)
    | _ => .ok none

/-- `is_format_error`. -/
def isFormatError (data : Bytes) : Checked Bool :=
  if dnsHeaderLen ≤ data.length then do
    match ← HeaderBuffer.rcode S data with
    | some .formatError => .ok true
    | _ => .ok false
  else .ok false

/-- `is_truncated`. -/
def isTruncated (data : Bytes) : Checked Bool :=
  if data.length < dnsHeaderLen then .ok false
  else do
    let flag ← HeaderBuffer.hasFlags S data .truncation
    .ok (flag.getD false)

/-- Whether the questions of a reply echo those sent, in name, type and class. -/
def questionsEcho (got sent : List Question) : Bool :=
  got.length == sent.length &&
    (got.zip sent).all (fun p =>
      namesEqual p.1.qname p.2.qname && p.1.qtype == p.2.qtype && p.1.qclass == p.2.qclass)

/-- `answers_query`. -/
def answersQuery (response query : Bytes) : Checked Bool :=
  match HeaderBuffer.id S response with
  | none => .ok false
  | some id =>
    if HeaderBuffer.id S query ≠ some id then .ok false
    else do
      let qr ← HeaderBuffer.hasFlags S response .response
      if qr.getD false = false then .ok false
      else
        match ← parsePacket S response with
        | .error _ => .ok true
        | .ok packet =>
          match S.parse query with
          | none => .ok true
          | some sent =>
            if packet.questions = [] ∧ packet.rcode = .formatError then .ok true
            else .ok (questionsEcho packet.questions sent.questions)

/-- A guarded header read returns. -/
theorem rcode_eq_ok {data : Bytes} (h : dnsHeaderLen ≤ data.length) :
    HeaderBuffer.rcode S data = .ok (S.headerRcode data) :=
  Checked.needs_eq_ok (Nat.le_trans (by decide) h) _

theorem hasFlags_eq_ok {data : Bytes} (h : 4 ≤ data.length) (flag : PacketFlag) :
    HeaderBuffer.hasFlags S data flag = .ok (S.headerHasFlags data flag) :=
  Checked.needs_eq_ok h _

theorem retryableFailureRcode_returns (data : Bytes) : (retryableFailureRcode S data).Returns := by
  unfold retryableFailureRcode
  by_cases h : data.length < dnsHeaderLen
  · rw [if_pos h]
    exact Checked.returns_ok _
  · rw [if_neg h, rcode_eq_ok S (Nat.not_lt.mp h)]
    simp only [bind, Except.bind]
    split <;> exact Checked.returns_ok _

theorem isFormatError_returns (data : Bytes) : (isFormatError S data).Returns := by
  unfold isFormatError
  by_cases h : dnsHeaderLen ≤ data.length
  · rw [if_pos h, rcode_eq_ok S h]
    simp only [bind, Except.bind]
    split <;> exact Checked.returns_ok _
  · rw [if_neg h]
    exact Checked.returns_ok _

theorem isTruncated_returns (data : Bytes) : (isTruncated S data).Returns := by
  unfold isTruncated
  by_cases h : data.length < dnsHeaderLen
  · rw [if_pos h]
    exact Checked.returns_ok _
  · rw [if_neg h, hasFlags_eq_ok S (Nat.le_trans (by decide) (Nat.not_lt.mp h))]
    exact Checked.returns_ok _

/-- `retryable_failure_rcode`, read. -/
def retryable (data : Bytes) : Option RCODE :=
  (retryableFailureRcode S data).get (retryableFailureRcode_returns S data)

/-- `is_format_error`, read. -/
def formatError (data : Bytes) : Bool := (isFormatError S data).get (isFormatError_returns S data)

/-- `is_truncated`, read. -/
def truncated (data : Bytes) : Bool := (isTruncated S data).get (isTruncated_returns S data)

/-- A reply that is not retryable carries none of the three failure codes. -/
theorem retryable_eq_none {data : Bytes} (h : retryable S data = none)
    (hlen : dnsHeaderLen ≤ data.length) :
    S.headerRcode data ≠ some .serverFailure ∧ S.headerRcode data ≠ some .refused ∧
      S.headerRcode data ≠ some .formatError := by
  have hr := Checked.eq_ok_get _ (retryableFailureRcode_returns S data)
  rw [show Checked.get _ (retryableFailureRcode_returns S data) = none from h] at hr
  unfold retryableFailureRcode at hr
  rw [if_neg (Nat.not_lt.mpr hlen), rcode_eq_ok S hlen] at hr
  refine ⟨?_, ?_, ?_⟩ <;> intro hc <;> simp [hc, bind, Except.bind] at hr

/-- A reply shorter than a header is not retryable. -/
theorem retryable_short {data : Bytes} (h : data.length < dnsHeaderLen) :
    retryable S data = none :=
  Checked.get_eq_of_eq_ok _ (if_pos h)

end Parsing

end N0DnsResolver
