/-
  What a validated reply holds, and whether it is followed.

  `parse_records` takes one record from each answer of the kind on the chain, and the
  decision to follow the chain asks for an answer of the type on it. The two part on
  records without data: `RData::Empty` has the type's code and yields no record, so a
  reply whose only such answers are empty is neither followed nor an answer.
-/
import N0DnsResolver.Model.Answers

namespace N0DnsResolver

/-! ## Extraction, answer by answer -/

section Fold

variable {T : Type} (chain : List Name) (extract : Name → RData → Option T)

/-- What the loop body of `parse_response` takes from an answer. -/
def taken (rr : ResourceRecord) : Option T :=
  if rr.cls ≠ .IN ∨ onChain chain rr.name = false then none
  else
    match rr.rdata with
    | .cname _ => none
    | rdata => extract rr.name rdata

/-- The TTL of an answer that bounds the one `parse_response` returns. -/
def bounding (rr : ResourceRecord) : Option Nat :=
  if rr.cls ≠ .IN ∨ onChain chain rr.name = false then none
  else
    match rr.rdata with
    | .cname _ => some rr.ttl.toNat
    | rdata => (extract rr.name rdata).map fun _ => rr.ttl.toNat

/-- One answer adds what is taken from it and lowers the TTL to its own. -/
theorem extractStep_eq (acc : List T × Nat) (rr : ResourceRecord) :
    extractStep chain extract acc rr =
      (acc.1 ++ (taken chain extract rr).toList,
        (bounding chain extract rr).elim acc.2 (min acc.2)) := by
  unfold extractStep taken bounding
  by_cases h : rr.cls ≠ .IN ∨ onChain chain rr.name = false
  · simp only [if_pos h, Option.toList_none, List.append_nil, Option.elim_none]
  · simp only [if_neg h]
    cases rr.rdata with
    | cname target => simp
    | _ => simp only; split <;> simp [*]

theorem foldl_extractStep (answers : List ResourceRecord) (acc : List T × Nat) :
    answers.foldl (extractStep chain extract) acc =
      (acc.1 ++ answers.filterMap (taken chain extract),
        (answers.filterMap (bounding chain extract)).foldl min acc.2) := by
  induction answers generalizing acc with
  | nil => simp
  | cons rr answers ih =>
    rw [List.foldl_cons, ih, extractStep_eq]
    cases ht : taken chain extract rr <;> cases hb : bounding chain extract rr <;>
      simp [ht, hb]

/-- The TTL `parse_response` returns, from those that bound it. -/
def leastTtl (ttls : List Nat) : Nat :=
  if ttls.foldl min u32Max = u32Max then 0 else ttls.foldl min u32Max

/-- Extraction takes from every answer what the loop body takes, in the order of the answers. -/
theorem extractAll_eq (packet : Packet) :
    extractAll extract packet =
      (packet.answers.filterMap (taken (questionChain packet) extract),
        leastTtl (packet.answers.filterMap (bounding (questionChain packet) extract))) := by
  unfold extractAll
  rw [foldl_extractStep]
  rfl

end Fold

/-! ## The answers of a question -/

/-- The answer is one of class IN and the type, on the chain from `qname`. -/
structure Answering (packet : Packet) (qname : Name) (qtype : TYPE) (rr : ResourceRecord) :
    Prop where
  mem : rr ∈ packet.answers
  cls : rr.cls = .IN
  type : rr.rdata.typeCode = qtype
  on : onChain (cnameChain packet qname) rr.name = true

/-- The `answered` of `unresolved_cname_target`. -/
def answered (packet : Packet) (qname : Name) (qtype : TYPE) : Bool :=
  packet.answers.any (fun rr =>
    rr.cls == .IN && rr.rdata.typeCode == qtype && onChain (cnameChain packet qname) rr.name)

theorem answered_iff {packet : Packet} {qname : Name} {qtype : TYPE} :
    answered packet qname qtype = true ↔ ∃ rr, Answering packet qname qtype rr := by
  unfold answered
  rw [List.any_eq_true]
  constructor
  · rintro ⟨rr, hmem, h⟩
    simp only [Bool.and_eq_true, beq_iff_eq] at h
    exact ⟨rr, hmem, h.1.1, h.1.2, h.2⟩
  · rintro ⟨rr, h⟩
    exact ⟨rr, h.mem, by simp [h.cls, h.type, h.on]⟩

/-- A chain is followed when it is not answered and ends away from the name it starts at. -/
theorem unresolvedTargetName_of_answered {packet : Packet} {qname : Name} {qtype : TYPE}
    (h : answered packet qname qtype = true) : unresolvedTargetName packet qname qtype = none :=
  if_pos h

theorem unresolvedTargetName_of_last {packet : Packet} {qname last : Name} {qtype : TYPE}
    (h : answered packet qname qtype = false)
    (hlast : (cnameChain packet qname).getLast? = some last) :
    unresolvedTargetName packet qname qtype =
      if namesEqual last qname then none else some last := by
  have hans : ¬ answered packet qname qtype = true := by simp [h]
  unfold unresolvedTargetName
  simp only [hlast]
  exact if_neg hans

section Kinds

variable (S : SimpleDns)

/-- The extraction of a kind takes the data of its type, and nothing from an empty record. -/
theorem extractor_isSome (kind : RecordKind) (name : Name) (rdata : RData) :
    (extractor S kind name rdata).isSome = true ↔
      rdata.typeCode = kind.dnsType ∧ rdata ≠ .empty kind.dnsType := by
  cases rdata with
  | empty type => cases kind <;> simp [extractor, RData.typeCode, RecordKind.dnsType]
  | other code data => cases kind <;> simp [extractor, RData.typeCode, RecordKind.dnsType]
  | _ => cases kind <;> simp [extractor, RData.typeCode, RecordKind.dnsType]

/-- From a class-IN answer on the chain its data is taken. -/
theorem taken_eq_extractor {chain : List Name} {kind : RecordKind} {rr : ResourceRecord}
    (hcls : rr.cls = .IN) (hon : onChain chain rr.name = true) :
    taken chain (extractor S kind) rr = extractor S kind rr.name rr.rdata := by
  have hno : ∀ target, extractor S kind rr.name (.cname target) = none := by
    intro target
    cases kind <;> rfl
  unfold taken
  rw [if_neg (by simp [hcls, hon])]
  cases rr.rdata with
  | cname target => exact (hno target).symm
  | _ => rfl

/-- A record is taken from the class-IN answers of the kind on the chain that hold data. -/
theorem taken_isSome_iff {chain : List Name} {kind : RecordKind} {rr : ResourceRecord} :
    (taken chain (extractor S kind) rr).isSome = true ↔
      rr.cls = .IN ∧ rr.rdata.typeCode = kind.dnsType ∧ rr.rdata ≠ .empty kind.dnsType ∧
        onChain chain rr.name = true := by
  by_cases h : rr.cls ≠ .IN ∨ onChain chain rr.name = false
  · unfold taken
    rw [if_pos h]
    refine ⟨fun hn => by simp at hn, fun ha => ?_⟩
    rcases h with h | h
    · exact absurd ha.1 h
    · rw [ha.2.2.2] at h
      simp at h
  · rw [not_or, not_not, Bool.not_eq_false] at h
    rw [taken_eq_extractor S h.1 h.2, extractor_isSome]
    exact ⟨fun ht => ⟨h.1, ht.1, ht.2, h.2⟩, fun ha => ⟨ha.2.1, ha.2.2.1⟩⟩

theorem taken_isSome {packet : Packet} {qname : Name} {kind : RecordKind} {rr : ResourceRecord}
    (hmem : rr ∈ packet.answers) :
    (taken (cnameChain packet qname) (extractor S kind) rr).isSome = true ↔
      Answering packet qname kind.dnsType rr ∧ rr.rdata ≠ .empty kind.dnsType := by
  rw [taken_isSome_iff]
  exact ⟨fun h => ⟨⟨hmem, h.1, h.2.1, h.2.2.2⟩, h.2.2.1⟩,
    fun h => ⟨h.1.cls, h.1.type, h.2, h.1.on⟩⟩

/-- The chain of a validated reply's own question is that of the name asked for. -/
theorem onChain_questionChain {packet : Packet} {id : UInt16} {name : Name} {qtype : TYPE}
    (h : Echoes packet id name qtype) (owner : Name) :
    onChain (questionChain packet) owner = onChain (cnameChain packet name) owner := by
  obtain ⟨q, hq, hname, -⟩ := h.question
  have hchain : questionChain packet = cnameChain packet q.qname := by
    unfold questionChain
    rw [hq]
    rfl
  rw [hchain, onChain_congr packet hname]

theorem taken_congr {T : Type} {chain chain' : List Name} {rr : ResourceRecord}
    (h : onChain chain rr.name = onChain chain' rr.name) (extract : Name → RData → Option T) :
    taken chain extract rr = taken chain' extract rr := by
  unfold taken
  rw [h]

/-- The records `parse_records` returns for a validated reply. -/
theorem records_of_validated {data : Bytes} {packet : Packet} {id : UInt16} {name : Name}
    {kind : RecordKind} {rs : List Record} {ttl : Nat}
    (hpacket : parsedPacket S data = .ok packet) (hecho : Echoes packet id name kind.dnsType)
    (hrs : parsedRecords S data kind = .ok (rs, ttl)) :
    rs = packet.answers.filterMap (taken (cnameChain packet name) (extractor S kind)) := by
  rw [parsedRecords_eq, hpacket] at hrs
  have hall : extractAll (extractor S kind) packet = (rs, ttl) := Except.ok.inj hrs
  rw [extractAll_eq] at hall
  calc rs = packet.answers.filterMap (taken (questionChain packet) (extractor S kind)) :=
        (congrArg Prod.fst hall).symm
    _ = packet.answers.filterMap (taken (cnameChain packet name) (extractor S kind)) :=
        List.filterMap_congr fun rr _ => taken_congr (onChain_questionChain hecho rr.name) _

/-- `parse_records` returns records exactly when an answer of the kind holds data. -/
theorem records_ne_nil_iff {data : Bytes} {packet : Packet} {id : UInt16} {name : Name}
    {kind : RecordKind} {rs : List Record} {ttl : Nat}
    (hpacket : parsedPacket S data = .ok packet) (hecho : Echoes packet id name kind.dnsType)
    (hrs : parsedRecords S data kind = .ok (rs, ttl)) :
    rs ≠ [] ↔ ∃ rr, Answering packet name kind.dnsType rr ∧ rr.rdata ≠ .empty kind.dnsType := by
  rw [records_of_validated S hpacket hecho hrs, ne_eq, List.filterMap_eq_nil_iff]
  push Not
  constructor
  · rintro ⟨rr, hmem, hsome⟩
    exact ⟨rr, (taken_isSome S hmem).mp (Option.isSome_iff_ne_none.mpr hsome)⟩
  · rintro ⟨rr, hans, hdata⟩
    exact ⟨rr, hans.mem,
      Option.isSome_iff_ne_none.mp ((taken_isSome S hans.mem).mpr ⟨hans, hdata⟩)⟩

/-! ## Following and extracting -/

/-- The decision to follow a reply agrees with what is extracted from it: the chain counts as
answered exactly when there are records, and a chain that leads away from the name is followed
when there are none. -/
structure FollowAgrees (data : Bytes) (packet : Packet) (name : Name) (kind : RecordKind) :
    Prop where
  answered_iff : ∀ rs ttl, parsedRecords S data kind = .ok (rs, ttl) →
    (answered packet name kind.dnsType = true ↔ rs ≠ [])
  follows : ∀ ttl last, parsedRecords S data kind = .ok ([], ttl) →
    (cnameChain packet name).getLast? = some last → namesEqual last name = false →
      unresolvedCnameTarget S packet name kind.dnsType = some (S.nameToString last)

/-- The two agree on a validated reply exactly when, if there is an answer of the type on the chain,
one of them holds data. -/
theorem followAgrees_iff {data : Bytes} {packet : Packet} {id : UInt16} {name : Name}
    {kind : RecordKind} (hpacket : parsedPacket S data = .ok packet)
    (hchecked : checkResponse packet id name kind.dnsType = .ok ()) :
    FollowAgrees S data packet name kind ↔
      ((∃ rr, Answering packet name kind.dnsType rr) →
        ∃ rr, Answering packet name kind.dnsType rr ∧ rr.rdata ≠ .empty kind.dnsType) := by
  obtain ⟨hecho, -⟩ := checkResponse_ok hchecked
  have hparsed : parsedRecords S data kind = .ok (extractAll (extractor S kind) packet) := by
    rw [parsedRecords_eq, hpacket]
    rfl
  constructor
  · intro h hans
    have hne := (h.answered_iff _ _ hparsed).mp (answered_iff.mpr hans)
    exact (records_ne_nil_iff S hpacket hecho hparsed).mp hne
  · intro h
    have hiff : ∀ rs ttl, parsedRecords S data kind = .ok (rs, ttl) →
        (answered packet name kind.dnsType = true ↔ rs ≠ []) := by
      intro rs ttl hrs
      rw [records_ne_nil_iff S hpacket hecho hrs, answered_iff]
      exact ⟨h, fun ⟨rr, hrr, _⟩ => ⟨rr, hrr⟩⟩
    refine ⟨hiff, fun ttl last hrs hlast hne => ?_⟩
    have hans : answered packet name kind.dnsType = false := by
      rw [← Bool.not_eq_true, hiff [] ttl hrs]
      exact not_not_intro rfl
    unfold unresolvedCnameTarget
    rw [unresolvedTargetName_of_last hans hlast, hne]
    rfl

end Kinds

/-! ## An alias of an address without data -/

def aliasName : Name := ⟨[asciiBytes "alias"]⟩

def realName : Name := ⟨[asciiBytes "real"]⟩

/-- A reply to `alias. A`: its CNAME, and the answers given for the name it leads to. -/
def aliasReply (answers : List ResourceRecord) : Packet where
  id := 4660
  flags := [.response, .recursionDesired]
  rcode := .noError
  questions := [⟨aliasName, .TYPE .A, .CLASS .IN⟩]
  answers := ⟨aliasName, .IN, 60, .cname realName⟩ :: answers
  nameServers := []
  opt := none

/-- The only address record of the target has zero-length data. -/
def bareReply : Packet := aliasReply [⟨realName, .IN, 60, .empty .A⟩]

def fullReply : Packet := aliasReply [⟨realName, .IN, 60, .empty .A⟩, ⟨realName, .IN, 60, .a 7⟩]

def aliasDns : SimpleDns :=
  SimpleDns.ofTable [(bareReply, bareReply.wire), (fullReply, fullReply.wire)]

/-- With an address beside the empty record, the reply is answered and read alike. -/
theorem followAgrees_iff_full : FollowAgrees aliasDns fullReply.wire fullReply aliasName .a := by
  have hpacket : parsedPacket aliasDns fullReply.wire = .ok fullReply := by rfl
  have hchecked : checkResponse fullReply 4660 aliasName (RecordKind.dnsType .a) = .ok () := by rfl
  refine (followAgrees_iff aliasDns hpacket hchecked).mpr fun _ => ?_
  exact ⟨⟨realName, .IN, 60, .a 7⟩, ⟨by decide, rfl, rfl, by decide⟩, by decide⟩

/-- With the empty record alone, the chain counts as answered and no record is returned: the alias
is reported as NODATA, and its target is not asked for. -/
theorem empty_record_ends_the_chain :
    parsedPacket aliasDns bareReply.wire = .ok bareReply ∧
      checkResponse bareReply 4660 aliasName (RecordKind.dnsType .a) = .ok () ∧
      answered bareReply aliasName .A = true ∧
      parsedRecords aliasDns bareReply.wire .a = .ok ([], 60) ∧
      unresolvedCnameTarget aliasDns bareReply aliasName .A = none ∧
      ¬ FollowAgrees aliasDns bareReply.wire bareReply aliasName .a := by
  have hrecords : parsedRecords aliasDns bareReply.wire .a = .ok ([], 60) := by rfl
  refine ⟨by rfl, by rfl, by decide, hrecords, by rfl, fun h => ?_⟩
  exact (h.answered_iff [] 60 hrecords).mp (by decide) rfl

end N0DnsResolver
