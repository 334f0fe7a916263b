/-
  The `simple_dns` crate, as far as the resolver uses it.

  The crate is not part of the repository. Its parsed data types are given here;
  its functions are the fields of `SimpleDns`, a parameter of everything below.
  The `header_buffer` readers index the raw bytes with no bounds check (see the
  comments of `query.rs`), which the wrappers below make visible: a read past the
  end is a panic. `header_buffer::id` is the one that checks the length: it is never
  `Ok` below two bytes, nor (`IdNeedsHeader`) below a whole header.
-/
import N0DnsResolver.Lib.Checked
import N0DnsResolver.Lib.Utf8
import N0DnsResolver.Model.Records
import Mathlib.Algebra.GroupWithZero.Nat

namespace N0DnsResolver

/-- `simple_dns::TYPE`: the types the resolver names, and the rest by their code. -/
inductive TYPE where
  | A | AAAA | TXT | NS | SRV | MX | CAA | SVCB | HTTPS | CNAME | SOA
  | other (code : UInt16)
  deriving DecidableEq, Repr

inductive CLASS where
  | IN
  | other (code : UInt16)
  deriving DecidableEq, Repr

inductive QTYPE where
  | TYPE (t : TYPE)
  | other (code : UInt16)
  deriving DecidableEq, Repr

inductive QCLASS where
  | CLASS (c : CLASS)
  | any
  deriving DecidableEq, Repr

inductive RCODE where
  | noError
  | formatError
  | serverFailure
  | nameError
  | notImplemented
  | refused
  | other (code : UInt16)
  deriving DecidableEq, Repr

inductive PacketFlag where
  | response
  | truncation
  | recursionDesired
  deriving DecidableEq, Repr

structure SOA where
  mname : Name
  rname : Name
  serial : UInt32
  refresh : UInt32
  retry : UInt32
  expire : UInt32
  minimum : UInt32
  deriving DecidableEq, Repr

/-- `simple_dns::rdata::RData`. A record with zero-length data parses as `empty`. -/
inductive RData where
  | a (address : UInt32)
  | aaaa (address : BitVec 128)
  | txt (strings : List Bytes)
  | ns (name : Name)
  | srv (priority weight port : UInt16) (target : Name)
  | mx (preference : UInt16) (exchange : Name)
  | caa (flag : UInt8) (tag value : Bytes)
  | svcb (data : Svcb)
  | https (data : Svcb)
  | cname (target : Name)
  | soa (data : SOA)
  | empty (type : TYPE)
  | other (code : UInt16) (data : Bytes)
  deriving DecidableEq, Repr

/-- `RData::type_code`. -/
def RData.typeCode : RData → TYPE
  | .a _ => .A
  | .aaaa _ => .AAAA
  | .txt _ => .TXT
  | .ns _ => .NS
  | .srv .. => .SRV
  | .mx .. => .MX
  | .caa .. => .CAA
  | .svcb _ => .SVCB
  | .https _ => .HTTPS
  | .cname _ => .CNAME
  | .soa _ => .SOA
  | .empty type => type
  | .other code _ => .other code

structure ResourceRecord where
  name : Name
  cls : CLASS
  ttl : UInt32
  rdata : RData
  deriving DecidableEq, Repr

structure Question where
  qname : Name
  qtype : QTYPE
  qclass : QCLASS
  deriving DecidableEq, Repr

structure OPT where
  udpPacketSize : UInt16
  version : UInt8
  deriving DecidableEq, Repr

/-- `simple_dns::Packet`; the resolver reads no additional record but the OPT. -/
structure Packet where
  id : UInt16
  flags : List PacketFlag
  rcode : RCODE
  questions : List Question
  answers : List ResourceRecord
  nameServers : List ResourceRecord
  opt : Option OPT
  deriving DecidableEq, Repr

def Packet.hasFlags (packet : Packet) (flag : PacketFlag) : Bool := flag ∈ packet.flags

/-- The functions of the crate. A `Result` whose error is dropped is an `Option`. -/
structure SimpleDns where
  /-- `header_buffer::id`, on a buffer of two bytes or more. -/
  headerId : Bytes → Option UInt16
  headerRcode : Bytes → Option RCODE
  headerHasFlags : Bytes → PacketFlag → Option Bool
  questionsUnchecked : Bytes → UInt16
  answersUnchecked : Bytes → UInt16
  nameServersUnchecked : Bytes → UInt16
  additionalRecordsUnchecked : Bytes → UInt16
  /-- `Packet::parse`. -/
  parse : Bytes → Option Packet
  /-- `Packet::build_bytes_vec`. -/
  buildBytesVec : Packet → Option Bytes
  /-- `Name::new`. -/
  nameNew : Str → Option Name
  /-- `Name::to_string`. -/
  nameToString : Name → Str
  /-- `CharacterString::to_string`. -/
  characterStringToString : Bytes → Str

namespace HeaderBuffer

variable (S : SimpleDns)

/-- `header_buffer::id`. -/
def id (data : Bytes) : Option UInt16 := if data.length < 2 then none else S.headerId data

/-- `header_buffer::rcode`: indexes `data[2..4]`. -/
def rcode (data : Bytes) : Checked (Option RCODE) := Checked.needs 4 data.length (S.headerRcode data)

/-- `header_buffer::has_flags`: indexes `data[2..4]`. -/
def hasFlags (data : Bytes) (flag : PacketFlag) : Checked (Option Bool) :=
  Checked.needs 4 data.length (S.headerHasFlags data flag)

/-- `header_buffer::questions_unchecked`. -/
def questionsUnchecked (data : Bytes) : Checked UInt16 :=
  Checked.needs 6 data.length (S.questionsUnchecked data)

/-- `header_buffer::answers_unchecked`. -/
def answersUnchecked (data : Bytes) : Checked UInt16 :=
  Checked.needs 8 data.length (S.answersUnchecked data)

/-- `header_buffer::name_servers_unchecked`. -/
def nameServersUnchecked (data : Bytes) : Checked UInt16 :=
  Checked.needs 10 data.length (S.nameServersUnchecked data)

/-- `header_buffer::additional_records_unchecked`. -/
def additionalRecordsUnchecked (data : Bytes) : Checked UInt16 :=
  Checked.needs 12 data.length (S.additionalRecordsUnchecked data)

end HeaderBuffer

/-! ## What is relied on -/

/-- The crate parses what it builds, and its header readers agree with its parser. -/
structure SimpleDns.RoundTrips (S : SimpleDns) : Prop where
  parse_build : ∀ packet bytes, S.buildBytesVec packet = some bytes →
    ∃ packet', S.parse bytes = some packet' ∧ packet'.id = packet.id ∧
      packet'.questions = packet.questions
  header_id : ∀ bytes packet, S.parse bytes = some packet →
    HeaderBuffer.id S bytes = some packet.id

/-- The OPT record of a message survives the round trip, and what was built is built without its OPT
record too. -/
structure SimpleDns.OptRoundTrips (S : SimpleDns) : Prop where
  opt_eq : ∀ packet bytes packet', S.buildBytesVec packet = some bytes →
    S.parse bytes = some packet' → packet'.opt = packet.opt
  builds_without : ∀ packet bytes packet', S.buildBytesVec packet = some bytes →
    S.parse bytes = some packet' → ∃ stripped, S.buildBytesVec { packet' with opt := none } =
      some stripped

/-- `header_buffer::id` is `Ok` on a whole header only: `answers_query` is asked about replies
shorter than a header, and says no. -/
def SimpleDns.IdNeedsHeader (S : SimpleDns) : Prop :=
  ∀ data id, HeaderBuffer.id S data = some id → 12 ≤ data.length

/-- The bytes a name of these labels takes on the wire. -/
def wireLen (labels : List Bytes) : Nat := (labels.map (·.length + 1)).sum + 1

/-- A name that fits the wire format. -/
structure Name.Wire (name : Name) : Prop where
  label : ∀ label ∈ name.labels, 0 < label.length ∧ label.length ≤ 63
  total : wireLen name.labels ≤ 255

/-- What `Name::new` accepts, it splits at the dots. Whether it drops empty pieces or rejects them
is left open, and so is what else it rejects. -/
def SimpleDns.SplitsAtDots (S : SimpleDns) : Prop :=
  ∀ s name, S.nameNew s = some name →
    name.labels = ((s.splitOn '.').filter (· ≠ [])).map Utf8.encode

/-- Names as text: `Name::to_string` joins the labels with dots, each rendered as UTF-8 where it is
UTF-8; `Name::new` splits at the dots and accepts labels of 1 to 63 bytes. How a label that is not
UTF-8 is rendered is left open. -/
structure SimpleDns.NamesAsText (S : SimpleDns) (render : Bytes → Str) : Prop where
  toString_eq : ∀ name, S.nameToString name = ['.'].intercalate (name.labels.map render)
  render_encode : ∀ s, render (Utf8.encode s) = s
  new_labels : S.SplitsAtDots
  new_accepts : ∀ s, (Name.mk ((s.splitOn '.').map Utf8.encode)).Wire →
    S.nameNew s = some ⟨(s.splitOn '.').map Utf8.encode⟩

/-! ## A stand-in for runs on fixed inputs -/

/-- The big-endian word at an offset. -/
def wordAt (data : Bytes) (i : Nat) : UInt16 :=
  UInt16.ofNat ((data.getD i 0).toNat * 256 + (data.getD (i + 1) 0).toNat)

/-- The RCODE in the low bits of the fourth byte of a header. -/
def rcodeOfNat : Nat → RCODE
  | 0 => .noError
  | 1 => .formatError
  | 2 => .serverFailure
  | 3 => .nameError
  | 4 => .notImplemented
  | 5 => .refused
  | n => .other (UInt16.ofNat n)

def PacketFlag.bit : PacketFlag → Nat
  | .response => 128
  | .truncation => 2
  | .recursionDesired => 1

def asciiBytes (s : String) : Bytes := s.toList.map (fun c => UInt8.ofNat c.toNat)

/-! ### Wire forms, with no compression -/

def wordBytes (w : UInt16) : Bytes := [UInt8.ofNat (w.toNat / 256), UInt8.ofNat (w.toNat % 256)]

def longBytes (w : UInt32) : Bytes :=
  wordBytes (UInt16.ofNat (w.toNat / 65536)) ++ wordBytes (UInt16.ofNat (w.toNat % 65536))

def Name.wire (name : Name) : Bytes :=
  name.labels.flatMap (fun label => UInt8.ofNat label.length :: label) ++ [0]

def TYPE.code : TYPE → UInt16
  | .A => 1
  | .NS => 2
  | .CNAME => 5
  | .SOA => 6
  | .MX => 15
  | .TXT => 16
  | .AAAA => 28
  | .SRV => 33
  | .SVCB => 64
  | .HTTPS => 65
  | .CAA => 257
  | .other code => code

def CLASS.code : CLASS → UInt16
  | .IN => 1
  | .other code => code

def QTYPE.code : QTYPE → UInt16
  | .TYPE t => t.code
  | .other code => code

def QCLASS.code : QCLASS → UInt16
  | .CLASS c => c.code
  | .any => 255

def RCODE.bits : RCODE → Nat
  | .noError => 0
  | .formatError => 1
  | .serverFailure => 2
  | .nameError => 3
  | .notImplemented => 4
  | .refused => 5
  | .other code => code.toNat

def stringWire (s : Bytes) : Bytes := UInt8.ofNat s.length :: s

def Svcb.wire (data : Svcb) : Bytes :=
  wordBytes data.priority ++ data.target.wire ++
    data.params.flatMap (fun p => wordBytes p.1 ++ wordBytes (UInt16.ofNat p.2.length) ++ p.2)

def SOA.wire (soa : SOA) : Bytes :=
  soa.mname.wire ++ soa.rname.wire ++
    [soa.serial, soa.refresh, soa.retry, soa.expire, soa.minimum].flatMap longBytes

def RData.wire : RData → Bytes
  | .a address => longBytes address
  | .aaaa address => (List.range 16).map (fun i => UInt8.ofNat (address.toNat / 256 ^ (15 - i)))
  | .txt strings => strings.flatMap stringWire
  | .ns name => name.wire
  | .srv priority weight port target =>
    wordBytes priority ++ wordBytes weight ++ wordBytes port ++ target.wire
  | .mx preference exchange => wordBytes preference ++ exchange.wire
  | .caa flag tag value => flag :: stringWire tag ++ value
  | .svcb data => data.wire
  | .https data => data.wire
  | .cname target => target.wire
  | .soa data => data.wire
  | .empty _ => []
  | .other _ data => data

def ResourceRecord.wire (rr : ResourceRecord) : Bytes :=
  rr.name.wire ++ wordBytes rr.rdata.typeCode.code ++ wordBytes rr.cls.code ++ longBytes rr.ttl ++
    wordBytes (UInt16.ofNat rr.rdata.wire.length) ++ rr.rdata.wire

def Question.wire (question : Question) : Bytes :=
  question.qname.wire ++ wordBytes question.qtype.code ++ wordBytes question.qclass.code

def OPT.wire (opt : OPT) : Bytes :=
  [0, 0, 41] ++ wordBytes opt.udpPacketSize ++ [0, opt.version, 0, 0, 0, 0]

def Packet.wire (packet : Packet) : Bytes :=
  let counts := [packet.questions.length, packet.answers.length, packet.nameServers.length,
    packet.opt.toList.length]
  wordBytes packet.id ++
    [UInt8.ofNat (packet.flags.map PacketFlag.bit).sum, UInt8.ofNat packet.rcode.bits] ++
    counts.flatMap (fun n => wordBytes (UInt16.ofNat n)) ++
    packet.questions.flatMap Question.wire ++ packet.answers.flatMap ResourceRecord.wire ++
    packet.nameServers.flatMap ResourceRecord.wire ++ packet.opt.toList.flatMap OPT.wire

/-- Reads the header off the bytes, and parses and builds the messages listed and no others. Names
are ASCII. -/
def SimpleDns.ofTable (messages : List (Packet × Bytes)) : SimpleDns where
  headerId data := if data.length < 12 then none else some (wordAt data 0)
  headerRcode data := some (rcodeOfNat ((data.getD 3 0).toNat % 16))
  headerHasFlags data flag := some ((data.getD 2 0).toNat / flag.bit % 2 == 1)
  questionsUnchecked data := wordAt data 4
  answersUnchecked data := wordAt data 6
  nameServersUnchecked data := wordAt data 8
  additionalRecordsUnchecked data := wordAt data 10
  parse data := (messages.find? (fun m => m.2 = data)).map Prod.fst
  buildBytesVec packet := (messages.find? (fun m => m.1 = packet)).map Prod.snd
  nameNew s :=
    let labels := (s.splitOn '.').filter (· ≠ [])
    if labels.all (·.length ≤ 63) then
      some ⟨labels.map (·.map (fun c => UInt8.ofNat c.toNat))⟩
    else none
  nameToString name :=
    List.intercalate ['.'] (name.labels.map (·.map (fun b => Char.ofNat b.toNat)))
  characterStringToString data := data.map (fun b => Char.ofNat b.toNat)

/-- `ofTable`, with names read and rendered as UTF-8, and every packet serialized. -/
def SimpleDns.ofTexts (messages : List (Packet × Bytes)) : SimpleDns :=
  { ofTable messages with
    buildBytesVec := fun packet => some packet.wire
    nameNew := fun s =>
      let labels := ((s.splitOn '.').filter (· ≠ [])).map Utf8.encode
      if (∀ label ∈ labels, 0 < label.length ∧ label.length ≤ 63) ∧ wireLen labels ≤ 255 then
        some ⟨labels⟩
      else none
    nameToString := fun name => ['.'].intercalate (name.labels.map Utf8.decodeLossy) }

theorem SimpleDns.ofTexts_namesAsText (messages : List (Packet × Bytes)) :
    (ofTexts messages).NamesAsText Utf8.decodeLossy := by
  refine ⟨fun _ => rfl, Utf8.decodeLossy_encode, ?_, ?_⟩
  · intro s name h
    simp only [ofTexts] at h
    split at h
    · cases h
      rfl
    · simp at h
  · intro s h
    have hne : (s.splitOn '.').filter (· ≠ []) = s.splitOn '.' := by
      rw [List.filter_eq_self]
      intro p hp
      have hpos := (h.label _ (List.mem_map_of_mem hp)).1
      simpa [Utf8.encode_eq_nil] using List.ne_nil_of_length_pos hpos
    simp only [ofTexts, hne]
    exact if_pos ⟨h.label, h.total⟩

/-- A table of messages that are told apart by their bytes, each with its id in front. -/
theorem SimpleDns.ofTable_roundTrips {messages : List (Packet × Bytes)}
    (hid : ∀ m ∈ messages, 12 ≤ m.2.length ∧ wordAt m.2 0 = m.1.id)
    (hbytes : ∀ m ∈ messages, ∀ m' ∈ messages, m.2 = m'.2 → m.1 = m'.1) :
    (ofTable messages).RoundTrips := by
  refine ⟨?_, ?_⟩
  · intro packet bytes h
    obtain ⟨m, hm, rfl⟩ := Option.map_eq_some_iff.mp h
    have hpacket : m.1 = packet := by simpa using List.find?_some hm
    have hmem := List.mem_of_find?_eq_some hm
    have hfound : ∃ m', messages.find? (fun m' => m'.2 = m.2) = some m' :=
      Option.isSome_iff_exists.mp (List.find?_isSome.mpr ⟨m, hmem, by simp⟩)
    obtain ⟨m', hm'⟩ := hfound
    have hsame : m'.1 = m.1 :=
      hbytes m' (List.mem_of_find?_eq_some hm') m hmem (by simpa using List.find?_some hm')
    refine ⟨m'.1, ?_, by rw [hsame, hpacket], by rw [hsame, hpacket]⟩
    exact congrArg (Option.map Prod.fst) hm'
  · intro bytes packet h
    obtain ⟨m, hm, rfl⟩ := Option.map_eq_some_iff.mp h
    have hpacket : m.2 = bytes := by simpa using List.find?_some hm
    obtain ⟨hlen, hword⟩ := hid m (List.mem_of_find?_eq_some hm)
    have hread : (ofTable messages).headerId m.2 = some m.1.id := by
      rw [← hword]
      exact if_neg (Nat.not_lt.mpr hlen)
    unfold HeaderBuffer.id
    rw [← hpacket, if_neg (Nat.not_lt.mpr (Nat.le_trans (by decide) hlen))]
    exact hread

theorem SimpleDns.ofTable_idNeedsHeader (messages : List (Packet × Bytes)) :
    (ofTable messages).IdNeedsHeader := by
  intro data id h
  unfold HeaderBuffer.id at h
  split at h
  · cases h
  · by_cases hlen : data.length < 12
    · have hnone : (ofTable messages).headerId data = none := if_pos hlen
      exact nomatch hnone.symm.trans h
    · exact Nat.not_lt.mp hlen

/-- Such a table, when with every message it lists that message without its OPT record. -/
theorem SimpleDns.ofTable_optRoundTrips {messages : List (Packet × Bytes)}
    (hbytes : ∀ m ∈ messages, ∀ m' ∈ messages, m.2 = m'.2 → m.1 = m'.1)
    (hwithout : ∀ m ∈ messages, ∃ m' ∈ messages, m'.1 = { m.1 with opt := none }) :
    (ofTable messages).OptRoundTrips := by
  have hsame : ∀ packet bytes packet', (ofTable messages).buildBytesVec packet = some bytes →
      (ofTable messages).parse bytes = some packet' →
      packet' = packet ∧ ∃ m ∈ messages, m.1 = packet := by
    intro packet bytes packet' hbuild hparse
    obtain ⟨m, hm, rfl⟩ := Option.map_eq_some_iff.mp hbuild
    obtain ⟨m', hm', rfl⟩ := Option.map_eq_some_iff.mp hparse
    have hpacket : m.1 = packet := by simpa using List.find?_some hm
    have heq : m'.2 = m.2 := by simpa using List.find?_some hm'
    rw [hbytes m' (List.mem_of_find?_eq_some hm') m (List.mem_of_find?_eq_some hm) heq]
    exact ⟨hpacket, m, List.mem_of_find?_eq_some hm, hpacket⟩
  refine ⟨?_, ?_⟩
  · intro packet bytes packet' hbuild hparse
    rw [(hsame packet bytes packet' hbuild hparse).1]
  · intro packet bytes packet' hbuild hparse
    obtain ⟨rfl, m, hm, rfl⟩ := hsame packet bytes packet' hbuild hparse
    obtain ⟨m', hm', hstripped⟩ := hwithout m hm
    have hfound : ∃ m'', messages.find? (fun m' => m'.1 = { m.1 with opt := none }) = some m'' :=
      Option.isSome_iff_exists.mp (List.find?_isSome.mpr ⟨m', hm', by simpa using hstripped⟩)
    obtain ⟨m'', hm''⟩ := hfound
    exact ⟨m''.2, congrArg (Option.map Prod.snd) hm''⟩

end N0DnsResolver
