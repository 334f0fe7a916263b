/-
  The size check in front of the parser.

  `parse_packet` compares the length of a message with what its counts call for at the
  least. Every legal wire form of a question or a record is at least that long, so no
  well-formed message is turned away; the parser is not asked about a message that does
  not pass, and one that passes declares no more entries than fit its length. The sum
  fits 32 bits.
-/
import N0DnsResolver.Model.Query
import Mathlib.Algebra.Group.Nat.Defs

namespace N0DnsResolver

/-! ## Wire forms -/

/-- A name on the wire: labels up to the root, or up to a pointer to an earlier name. -/
inductive NameForm : Bytes → Prop where
  | root : NameForm [0]
  | pointer (hi lo : UInt8) (tag : 192 ≤ hi.toNat) : NameForm [hi, lo]
  | label {len : UInt8} {text rest : Bytes} (length : text.length = len.toNat)
      (range : 0 < len.toNat ∧ len.toNat ≤ 63) (form : NameForm rest) :
      NameForm (len :: text ++ rest)

/-- A question on the wire: a name, a type and a class. -/
inductive QuestionForm : Bytes → Prop where
  | mk {name qtype qclass : Bytes} (name_form : NameForm name) (qtype_length : qtype.length = 2)
      (qclass_length : qclass.length = 2) : QuestionForm (name ++ qtype ++ qclass)

/-- A resource record on the wire, OPT records among them: a name, a type, a class, a TTL, and the
data after its length. -/
inductive RecordForm : Bytes → Prop where
  | mk {name type cls ttl rdlength rdata : Bytes} (name_form : NameForm name)
      (type_length : type.length = 2) (cls_length : cls.length = 2) (ttl_length : ttl.length = 4)
      (rdlength_length : rdlength.length = 2)
      (rdata_length : rdata.length = (wordAt rdlength 0).toNat) :
      RecordForm (name ++ type ++ cls ++ ttl ++ rdlength ++ rdata)

/-- A message whose sections hold the entries its header declares, each in its own bytes. What
follows the last entry is not looked at. -/
inductive WireMessage : Bytes → Prop where
  | mk {header trailing : Bytes} {questions answers nameServers additional : List Bytes}
      (header_length : header.length = dnsHeaderLen)
      (questions_length : questions.length = (wordAt header 4).toNat)
      (answers_length : answers.length = (wordAt header 6).toNat)
      (nameServers_length : nameServers.length = (wordAt header 8).toNat)
      (additional_length : additional.length = (wordAt header 10).toNat)
      (questions_form : ∀ q ∈ questions, QuestionForm q)
      (records_form : ∀ rr ∈ answers ++ nameServers ++ additional, RecordForm rr) :
      WireMessage (header ++ (questions.flatten ++
        ((answers ++ nameServers ++ additional).flatten ++ trailing)))

/-- The count readers of `header_buffer` read the big-endian words of the header. -/
structure SimpleDns.ReadsCounts (S : SimpleDns) : Prop where
  questions : ∀ data, dnsHeaderLen ≤ data.length → S.questionsUnchecked data = wordAt data 4
  answers : ∀ data, dnsHeaderLen ≤ data.length → S.answersUnchecked data = wordAt data 6
  nameServers : ∀ data, dnsHeaderLen ≤ data.length → S.nameServersUnchecked data = wordAt data 8
  additional : ∀ data, dnsHeaderLen ≤ data.length →
    S.additionalRecordsUnchecked data = wordAt data 10

/-- `Packet::parse` succeeds only on a message whose declared entries each have their own bytes. -/
def SimpleDns.ParsesWireMessages (S : SimpleDns) : Prop :=
  ∀ data packet, S.parse data = some packet → WireMessage data

/-! ## Their sizes -/

theorem NameForm.length_pos {name : Bytes} (h : NameForm name) : 1 ≤ name.length := by
  cases h with
  | root => exact Nat.le_refl _
  | pointer hi lo tag => exact Nat.le_succ _
  | label length range form =>
    rw [List.length_append, List.length_cons]
    omega

theorem QuestionForm.minQuestionLen_le {q : Bytes} (h : QuestionForm q) :
    minQuestionLen ≤ q.length := by
  obtain ⟨hname, htype, hclass⟩ := h
  have hpos := hname.length_pos
  simp only [minQuestionLen, List.length_append]
  omega

theorem RecordForm.minRecordLen_le {rr : Bytes} (h : RecordForm rr) :
    minRecordLen ≤ rr.length := by
  obtain ⟨hname, htype, hcls, httl, hrdlength, -⟩ := h
  have hpos := hname.length_pos
  simp only [minRecordLen, List.length_append]
  omega

/-- Entries of a least size take as much room as there are of them. -/
theorem length_mul_le_flatten {n : Nat} {entries : List Bytes} (h : ∀ e ∈ entries, n ≤ e.length) :
    entries.length * n ≤ entries.flatten.length := by
  induction entries with
  | nil => simp
  | cons e entries ih =>
    have he := h e List.mem_cons_self
    have hrest := ih fun e' he' => h e' (List.mem_cons_of_mem e he')
    rw [List.length_cons, List.flatten_cons, List.length_append, Nat.succ_mul]
    omega

theorem wordAt_append {header : Bytes} (rest : Bytes) {i : Nat} (h : i + 1 < header.length) :
    wordAt (header ++ rest) i = wordAt header i := by
  have hget : ∀ j < header.length, (header ++ rest).getD j 0 = header.getD j 0 := by
    intro j hj
    simp [List.getD_eq_getElem?_getD, List.getElem?_append_left hj]
  unfold wordAt
  rw [hget i (by omega), hget (i + 1) h]

/-! ## The check -/

section Guard

variable (S : SimpleDns)

/-- The message is not turned away before the parser sees it. -/
def PassesSizeCheck (data : Bytes) : Prop :=
  dnsHeaderLen ≤ data.length ∧ declaredLen S data ≤ data.length

/-- A message that passes is what the parser makes of it. -/
theorem parsePacket_of_passes {data : Bytes} (h : PassesSizeCheck S data) {packet : Packet}
    (hparse : S.parse data = some packet) : parsePacket S data = .ok (.ok packet) := by
  rw [parsePacket_eq]
  unfold parsedPacket
  rw [if_neg (Nat.not_lt.mpr h.1), if_neg (Nat.not_lt.mpr h.2), hparse]

/-- A message that does not is malformed, whatever the parser would make of it. -/
theorem parsePacket_of_not_passes {data : Bytes} (h : ¬ PassesSizeCheck S data) :
    parsePacket S data = .ok (.error .malformed) := by
  rw [parsePacket_eq]
  unfold parsedPacket
  by_cases hheader : data.length < dnsHeaderLen
  · rw [if_pos hheader]
  · have hshort : data.length < declaredLen S data := by
      rw [← Nat.not_le]
      exact fun hlen => h ⟨Nat.not_lt.mp hheader, hlen⟩
    rw [if_neg hheader, if_pos hshort]

/-- The records a message declares. -/
def declaredRecords (data : Bytes) : Nat :=
  (S.answersUnchecked data).toNat + (S.nameServersUnchecked data).toNat +
    (S.additionalRecordsUnchecked data).toNat

theorem declaredLen_eq (data : Bytes) :
    declaredLen S data = 12 + (S.questionsUnchecked data).toNat * 5 + declaredRecords S data * 11 :=
  rfl

/-- A well-formed message has the length its counts call for. -/
theorem WireMessage.passes {S : SimpleDns} (hS : S.ReadsCounts) {data : Bytes}
    (h : WireMessage data) : PassesSizeCheck S data := by
  obtain ⟨hheader, hq, ha, hn, had, hqform, hrform⟩ := h
  rename_i header trailing questions answers nameServers additional
  have hlen : dnsHeaderLen ≤ (header ++ (questions.flatten ++
      ((answers ++ nameServers ++ additional).flatten ++ trailing))).length := by
    rw [List.length_append, hheader]
    omega
  have hword : ∀ i, i + 1 < 12 → wordAt (header ++ (questions.flatten ++
      ((answers ++ nameServers ++ additional).flatten ++ trailing))) i = wordAt header i := by
    intro i hi
    exact wordAt_append _ (by rw [hheader]; exact hi)
  have hquestions := length_mul_le_flatten fun q hq => (hqform q hq).minQuestionLen_le
  have hrecords := length_mul_le_flatten fun rr hrr => (hrform rr hrr).minRecordLen_le
  refine ⟨hlen, ?_⟩
  unfold declaredLen
  rw [hS.questions _ hlen, hS.answers _ hlen, hS.nameServers _ hlen, hS.additional _ hlen,
    hword 4 (by decide), hword 6 (by decide), hword 8 (by decide), hword 10 (by decide), ← hq, ← ha,
    ← hn, ← had]
  rw [List.length_append, List.length_append] at hrecords
  simp only [List.length_append] at hrecords ⊢
  omega

/-- A message that passes declares at most one entry for every five bytes after the header. -/
theorem declared_le_of_passes {data : Bytes} (h : PassesSizeCheck S data) :
    (S.questionsUnchecked data).toNat + declaredRecords S data ≤ (data.length - 12) / 5 := by
  have hlen := h.2
  rw [declaredLen_eq] at hlen
  omega

/-! ## The width of the sum -/

/-- No step of the sum leaves 32 bits. -/
theorem minLenIn_eq (data : Bytes) : minLenIn S 32 data = .ok (declaredLen S data) := by
  have hq := (S.questionsUnchecked data).toNat_lt
  have ha := (S.answersUnchecked data).toNat_lt
  have hn := (S.nameServersUnchecked data).toNat_lt
  have had := (S.additionalRecordsUnchecked data).toNat_lt
  have hadd : ∀ a b, a + b < 4294967296 → addIn 32 a b = .ok (a + b) := fun a b h => if_pos h
  have hmul : ∀ a b, a * b < 4294967296 → mulIn 32 a b = .ok (a * b) := fun a b h => if_pos h
  unfold minLenIn
  simp only [minQuestionLen, minRecordLen, dnsHeaderLen]
  rw [hadd _ _ (by omega)]
  simp only [bind, Except.bind]
  rw [hadd _ _ (by omega)]
  simp only
  rw [hmul _ _ (by omega)]
  simp only
  rw [hadd _ _ (by omega)]
  simp only
  rw [hmul _ _ (by omega)]
  simp only
  rw [hadd _ _ (by omega)]
  rfl

/-- So `parse_packet` does with a `usize` of 32 bits what it does with natural numbers. -/
theorem parsePacketIn_eq (data : Bytes) : parsePacketIn S 32 data = parsePacket S data := by
  rw [parsePacket_eq]
  unfold parsePacketIn parsedPacket
  rw [minLenIn_eq]
  simp only [bind, Except.bind]
  split
  · rfl
  · split
    · rfl
    · cases S.parse data <;> rfl

/-- The size check of `parse_packet` turns no well-formed message away, so it accepts whatever
`Packet::parse` does. It lets no message through to the parser, whatever the parser is, that
declares more than one entry for every five bytes after the header; and its sum fits a `usize` of 32
bits. -/
theorem size_guard_exact (data : Bytes) :
    (S.ReadsCounts → WireMessage data → PassesSizeCheck S data) ∧
      (S.ReadsCounts → S.ParsesWireMessages → ∀ packet, S.parse data = some packet →
        parsePacket S data = .ok (.ok packet)) ∧
      (PassesSizeCheck S data →
        (S.questionsUnchecked data).toNat + declaredRecords S data ≤ (data.length - 12) / 5) ∧
      (¬ PassesSizeCheck S data → parsePacket S data = .ok (.error .malformed)) ∧
      (∀ packet, parsePacket S data = .ok (.ok packet) →
        (S.questionsUnchecked data).toNat + declaredRecords S data ≤ (data.length - 12) / 5) ∧
      minLenIn S 32 data = .ok (declaredLen S data) ∧
      parsePacketIn S 32 data = parsePacket S data := by
  refine ⟨fun hcounts => WireMessage.passes hcounts, fun hcounts hparses packet hparse => ?_,
    declared_le_of_passes S, parsePacket_of_not_passes S, fun packet hpacket => ?_,
    minLenIn_eq S data, parsePacketIn_eq S data⟩
  · exact parsePacket_of_passes S ((hparses data packet hparse).passes hcounts) hparse
  · by_cases hpasses : PassesSizeCheck S data
    · exact declared_le_of_passes S hpasses
    · rw [parsePacket_of_not_passes S hpasses] at hpacket
      cases hpacket

end Guard

/-! ## The densest packing -/

/-- The root, of type A and class IN. -/
def rootQuestion : Bytes := [0] ++ [0, 1] ++ [0, 1]

/-- A record of the root without data. -/
def rootRecord : Bytes := [0] ++ [0, 1] ++ [0, 1] ++ [0, 0, 0, 60] ++ [0, 0] ++ []

/-- The OPT record, whose class and TTL are the payload size and the flags. -/
def rootOpt : Bytes := [0] ++ [0, 41] ++ [4, 208] ++ [0, 0, 0, 0] ++ [0, 0] ++ []

def denseMessage : Bytes :=
  [18, 52, 129, 128, 0, 1, 0, 1, 0, 0, 0, 1] ++
    ([rootQuestion].flatten ++ (([rootRecord] ++ [] ++ [rootOpt]).flatten ++ []))

theorem wireMessage_dense : WireMessage denseMessage := by
  refine .mk rfl rfl rfl rfl rfl ?_ ?_
  · intro q hq
    rw [List.mem_singleton] at hq
    subst hq
    exact .mk .root rfl rfl
  · intro rr hrr
    have hcases : rr = rootRecord ∨ rr = rootOpt := by simpa using hrr
    rcases hcases with rfl | rfl
    · exact .mk .root rfl rfl rfl rfl rfl
    · exact .mk .root rfl rfl rfl rfl rfl

def densePacket : Packet where
  id := 4660
  flags := [.response]
  rcode := .noError
  questions := [⟨⟨[]⟩, .TYPE .A, .CLASS .IN⟩]
  answers := [⟨⟨[]⟩, .IN, 60, .empty .A⟩]
  nameServers := []
  opt := some ⟨ednsUdpPayloadSize, 0⟩

/-- Parses the one message, and reads the counts of any. -/
def denseDns : SimpleDns := SimpleDns.ofTable [(densePacket, denseMessage)]

theorem denseDns_parsesWireMessages : denseDns.ParsesWireMessages := by
  intro data packet h
  obtain ⟨m, hm, -⟩ := Option.map_eq_some_iff.mp h
  have hmem := List.mem_of_find?_eq_some hm
  rw [List.mem_singleton] at hmem
  have hdata : m.2 = data := by simpa using List.find?_some hm
  rw [← hdata, hmem]
  exact wireMessage_dense

/-- A parser that makes something of every message. -/
def eagerDns : SimpleDns := { denseDns with parse := fun _ => some densePacket }

/-- A header that claims 65535 entries in every section, and nothing else. -/
def overstated : Bytes := [18, 52, 129, 128] ++ List.replicate 8 255

/-- Without a byte to spare, the message passes the check and is parsed; the header that overstates
its counts is malformed even where the parser takes everything. -/
theorem size_guard_exact_dense :
    declaredLen denseDns denseMessage = denseMessage.length ∧
      minLenIn denseDns 32 denseMessage = .ok denseMessage.length ∧
      PassesSizeCheck denseDns denseMessage ∧
      parsePacket denseDns denseMessage = .ok (.ok densePacket) ∧
      (denseDns.questionsUnchecked denseMessage).toNat +
        declaredRecords denseDns denseMessage ≤ 5 ∧
      parsePacket eagerDns overstated = .ok (.error .malformed) := by
  have hcounts : denseDns.ReadsCounts :=
    ⟨fun _ _ => rfl, fun _ _ => rfl, fun _ _ => rfl, fun _ _ => rfl⟩
  have hlen : declaredLen denseDns denseMessage = denseMessage.length := by decide
  have hover : ¬ PassesSizeCheck eagerDns overstated := by
    unfold PassesSizeCheck
    decide
  obtain ⟨hwire, haccepts, hbound, -, -, hsum, -⟩ := size_guard_exact denseDns denseMessage
  obtain ⟨-, -, -, hrejects, -⟩ := size_guard_exact eagerDns overstated
  have hpasses := hwire hcounts wireMessage_dense
  exact ⟨hlen, by rw [hsum, hlen], hpasses,
    haccepts hcounts denseDns_parsesWireMessages densePacket rfl, hbound hpasses, hrejects hover⟩

end N0DnsResolver
