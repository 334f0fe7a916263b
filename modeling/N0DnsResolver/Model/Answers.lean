/-
  Reading a reply (`query.rs`, second half): its CNAME chain, its validation
  against the query, the records it holds and the SOA of a negative answer.
-/
import N0DnsResolver.Model.Query
import Mathlib.Algebra.Group.Nat.Defs
import Mathlib.Data.List.TakeDrop

namespace N0DnsResolver

/-- `MAX_CNAME_DEPTH`. -/
def maxCnameDepth : Nat := 8

/-! ## The CNAME chain -/

/-- The target of the CNAME that the first class-IN answer owned by `current` is, if it is one. -/
def cnameTarget (packet : Packet) (current : Name) : Option Name :=
  match packet.answers.find? (fun rr => rr.cls == .IN && namesEqual rr.name current) with
  | some ⟨_, _, _, .cname target⟩ => some target
  | _ => none

/-- `cname_chain`. -/
def cnameChain (packet : Packet) (startName : Name) : List Name :=
  chase (cnameTarget packet) maxCnameDepth startName

/-- Whether a name is on a chain. -/
def onChain (chain : List Name) (name : Name) : Bool := chain.any (fun n => namesEqual n name)

/-- `unresolved_cname_target`, before the target is turned into text. -/
def unresolvedTargetName (packet : Packet) (qname : Name) (qtype : TYPE) : Option Name :=
  let chain := cnameChain packet qname
  let answered := packet.answers.any (fun rr =>
    rr.cls == .IN && rr.rdata.typeCode == qtype && onChain chain rr.name)
  if answered then none
  else
    match chain.getLast? with
    | none => none
    | some last => if namesEqual last qname then none else some last

/-- `unresolved_cname_target`. -/
def unresolvedCnameTarget (S : SimpleDns) (packet : Packet) (qname : Name) (qtype : TYPE) :
    Option Str :=
  (unresolvedTargetName packet qname qtype).map S.nameToString

theorem cnameTarget_congr (packet : Packet) {a b : Name} (h : namesEqual a b = true) :
    cnameTarget packet a = cnameTarget packet b := by
  unfold cnameTarget
  simp only [namesEqual_congr_right h]

/-- The chain does not depend on the letter case of the name it starts at. -/
theorem onChain_congr (packet : Packet) {a b : Name} (h : namesEqual a b = true) (name : Name) :
    onChain (cnameChain packet a) name = onChain (cnameChain packet b) name :=
  Chase.any_chase_congr _ _ _ (cnameTarget_congr packet h) (namesEqual_congr_left h name)

theorem unresolvedTargetName_eq_some {packet : Packet} {qname target : Name} {qtype : TYPE}
    (h : unresolvedTargetName packet qname qtype = some target) :
    (∀ rr ∈ packet.answers, rr.cls = .IN → rr.rdata.typeCode = qtype →
        onChain (cnameChain packet qname) rr.name = false) ∧
      (cnameChain packet qname).getLast? = some target ∧ namesEqual target qname = false := by
  unfold unresolvedTargetName at h
  simp only at h
  split at h
  · simp at h
  · next hans =>
    split at h
    · simp at h
    · next last hlast =>
      split at h
      · simp at h
      · next hne =>
        cases h
        refine ⟨?_, hlast, by simpa using hne⟩
        intro rr hrr hcls htype
        by_contra hc
        rw [Bool.not_eq_false] at hc
        exact hans (List.any_eq_true.mpr ⟨rr, hrr, by simp [hcls, htype, hc]⟩)

/-! ## Validation -/

/-- `check_response`. -/
def checkResponse (packet : Packet) (expectedId : UInt16) (expectedName : Name)
    (expectedType : TYPE) : Except QueryError Unit :=
  if packet.hasFlags .response = false then .error .unexpected
  else if packet.id ≠ expectedId then .error .unexpected
  else
    match packet.questions with
    | [question] =>
      if namesEqual question.qname expectedName ∧ question.qtype = .TYPE expectedType ∧
          question.qclass = .CLASS .IN then
        match packet.rcode with
        | .noError => .ok ()
        | .nameError => .error .nxDomain
        | rcode => .error (.serverFailure rcode)
      else .error .unexpected
    | _ => .error .unexpected

/-- A reply that echoes the query: QR bit, transaction id and the one question, up to case. -/
structure Echoes (packet : Packet) (id : UInt16) (name : Name) (qtype : TYPE) : Prop where
  qr : packet.hasFlags .response = true
  id_eq : packet.id = id
  question : ∃ q, packet.questions = [q] ∧ namesEqual q.qname name = true ∧
    q.qtype = .TYPE qtype ∧ q.qclass = .CLASS .IN

/-- `check_response` rejects a reply that does not echo the query and surfaces the RCODE of
one that does. -/
theorem checkResponse_cases (packet : Packet) (id : UInt16) (name : Name) (qtype : TYPE) :
    (¬ Echoes packet id name qtype ∧ checkResponse packet id name qtype = .error .unexpected) ∨
    (Echoes packet id name qtype ∧ checkResponse packet id name qtype =
      match packet.rcode with
      | .noError => .ok ()
      | .nameError => .error .nxDomain
      | rcode => .error (.serverFailure rcode)) := by
  unfold checkResponse
  by_cases hqr : packet.hasFlags .response = false
  · exact .inl ⟨fun h => by simp [h.qr] at hqr, if_pos hqr⟩
  rw [if_neg hqr]
  by_cases hid : packet.id = id
  · rw [if_neg (not_not_intro hid)]
    split
    · next q hq =>
      by_cases hc : namesEqual q.qname name ∧ q.qtype = .TYPE qtype ∧ q.qclass = .CLASS .IN
      · rw [if_pos hc]
        exact .inr ⟨⟨by simpa using hqr, hid, q, hq, hc⟩, rfl⟩
      · rw [if_neg hc]
        refine .inl ⟨fun h => ?_, rfl⟩
        obtain ⟨q', hq', hc'⟩ := h.question
        rw [hq] at hq'
        cases hq'
        exact hc hc'
    · next hq =>
      refine .inl ⟨fun h => ?_, rfl⟩
      obtain ⟨q, hq', -⟩ := h.question
      exact hq q hq'
  · exact .inl ⟨fun h => hid h.id_eq, if_pos hid⟩

/-- What passes validation echoes the query and reports no error. -/
theorem checkResponse_ok {packet : Packet} {id : UInt16} {name : Name} {qtype : TYPE}
    (h : checkResponse packet id name qtype = .ok ()) :
    Echoes packet id name qtype ∧ packet.rcode = .noError := by
  rcases checkResponse_cases packet id name qtype with ⟨-, he⟩ | ⟨hecho, he⟩
  · rw [he] at h
    simp at h
  · rw [he] at h
    refine ⟨hecho, ?_⟩
    split at h
    · assumption
    · simp at h
    · simp at h

/-- NXDOMAIN is reported for an echoing reply with that RCODE only. -/
theorem checkResponse_nxDomain {packet : Packet} {id : UInt16} {name : Name} {qtype : TYPE}
    (h : checkResponse packet id name qtype = .error .nxDomain) :
    Echoes packet id name qtype ∧ packet.rcode = .nameError := by
  rcases checkResponse_cases packet id name qtype with ⟨-, he⟩ | ⟨hecho, he⟩
  · rw [he] at h
    simp at h
  · rw [he] at h
    refine ⟨hecho, ?_⟩
    split at h
    · simp at h
    · assumption
    · simp at h

/-! ## Extraction -/

section Extraction

variable (S : SimpleDns)

/-- `TXT::iter_raw` on one character-string: split on its first `=`. -/
def splitAtEquals (s : Bytes) : Bytes × Option Bytes :=
  match s.span (· ≠ 61) with
  | (key, []) => (key, none)
  | (key, _ :: value) => (key, some value)

/-- `extract_txt_record_data`. -/
def extractTxtRecordData (strings : List Bytes) : List Bytes :=
  strings.map (fun s =>
    match splitAtEquals s with
    | (key, some value) => key ++ [61] ++ value
    | (key, none) => key)

/-- The `extract` closure that `parse_records` picks for a kind. -/
def extractor (kind : RecordKind) (name : Name) (rdata : RData) : Option Record :=
  match kind, rdata with
  | .a, .a address => some (.a ⟨address⟩)
  | .aaaa, .aaaa address => some (.aaaa ⟨address⟩)
  | .txt, .txt strings => some (.txt (extractTxtRecordData strings))
  | .ns, .ns target => some (.ns (S.nameToString target))
  | .srv, .srv priority weight port target =>
    some (.srv ⟨priority, weight, port, S.nameToString target⟩)
  | .mx, .mx preference exchange => some (.mx ⟨preference, S.nameToString exchange⟩)
  | .caa, .caa flag tag value => some (.caa ⟨flag, S.characterStringToString tag, value⟩)
  | .svcb, .svcb data => some (.svcb data)
  | .https, .https data => some (.https ⟨S.nameToString name, data⟩)
  | _, _ => none

/-- `u32::MAX`. -/
def u32Max : Nat := 2 ^ 32 - 1

variable {T : Type}

/-- The loop body of `parse_response`: the results so far and `min_ttl`. -/
def extractStep (chain : List Name) (extract : Name → RData → Option T) (acc : List T × Nat)
    (rr : ResourceRecord) : List T × Nat :=
  if rr.cls ≠ .IN ∨ onChain chain rr.name = false then acc
  else
    match rr.rdata with
    | .cname _ => (acc.1, min acc.2 rr.ttl.toNat)
    | rdata =>
      match extract rr.name rdata with
      | some val => (acc.1 ++ [val], min acc.2 rr.ttl.toNat)
      | none => acc

/-- The chain `parse_response` matches owners against. -/
def questionChain (packet : Packet) : List Name :=
  match packet.questions.head? with
  | some question => cnameChain packet question.qname
  | none => []

/-- What `parse_response` takes out of a parsed packet. -/
def extractAll (extract : Name → RData → Option T) (packet : Packet) : List T × Nat :=
  let (results, minTtl) :=
    packet.answers.foldl (extractStep (questionChain packet) extract) ([], u32Max)
  (results, if minTtl = u32Max then 0 else minTtl)

/-- `parse_response`. -/
def parseResponse (data : Bytes) (extract : Name → RData → Option T) :
    Checked (Except QueryError (List T × Nat)) := do
  match ← parsePacket S data with
  | .error e => .ok (.error e)
  | .ok packet => .ok (.ok (extractAll extract packet))

/-- `parse_records`. -/
def parseRecords (data : Bytes) (kind : RecordKind) :
    Checked (Except QueryError (List Record × Nat)) :=
  parseResponse S data (extractor S kind)

/-- The bound an SOA puts on a negative answer: `min(SOA record TTL, SOA MINIMUM)`. -/
def soaTtl (rr : ResourceRecord) : Option Nat :=
  match rr.rdata with
  | .soa soa => some (min rr.ttl.toNat soa.minimum.toNat)
  | _ => none

/-- `negative_ttl`. -/
def negativeTtl (data : Bytes) : Checked (Option Nat) := do
  match ← parsePacket S data with
  | .error _ => .ok none
  | .ok packet => .ok (packet.nameServers.findSome? soaTtl)

theorem parseResponse_eq (data : Bytes) (extract : Name → RData → Option T) :
    parseResponse S data extract = .ok ((parsedPacket S data).map (extractAll extract)) := by
  unfold parseResponse
  rw [parsePacket_eq]
  cases parsedPacket S data <;> rfl

theorem parseRecords_eq (data : Bytes) (kind : RecordKind) :
    parseRecords S data kind =
      .ok ((parsedPacket S data).map (extractAll (extractor S kind))) :=
  parseResponse_eq S data _

theorem parseRecords_returns (data : Bytes) (kind : RecordKind) :
    (parseRecords S data kind).Returns := ⟨_, parseRecords_eq S data kind⟩

theorem negativeTtl_returns (data : Bytes) : (negativeTtl S data).Returns := by
  unfold negativeTtl
  rw [parsePacket_eq]
  cases parsedPacket S data with
  | error e => exact Checked.returns_ok _
  | ok packet => exact Checked.returns_ok _

/-- `parse_records`, read. -/
def parsedRecords (data : Bytes) (kind : RecordKind) : Except QueryError (List Record × Nat) :=
  (parseRecords S data kind).get (parseRecords_returns S data kind)

/-- `negative_ttl`, read. -/
def negativeTtlOf (data : Bytes) : Option Nat :=
  (negativeTtl S data).get (negativeTtl_returns S data)

theorem parsedRecords_eq (data : Bytes) (kind : RecordKind) :
    parsedRecords S data kind = (parsedPacket S data).map (extractAll (extractor S kind)) :=
  Checked.get_eq_of_eq_ok _ (parseRecords_eq S data kind)

theorem negativeTtlOf_eq {data : Bytes} {packet : Packet} (h : parsedPacket S data = .ok packet) :
    negativeTtlOf S data = packet.nameServers.findSome? soaTtl := by
  refine Checked.get_eq_of_eq_ok _ ?_
  unfold negativeTtl
  rw [parsePacket_eq, h]
  rfl

/-- The records taken out of the answers before `rr`, and what `rr` adds. -/
theorem extractStep_fst (chain : List Name) (extract : Name → RData → Option T)
    (acc : List T × Nat) (rr : ResourceRecord) {v : T}
    (hv : v ∈ (extractStep chain extract acc rr).1) :
    v ∈ acc.1 ∨ (rr.cls = .IN ∧ onChain chain rr.name = true ∧
      extract rr.name rr.rdata = some v) := by
  unfold extractStep at hv
  split at hv
  · exact .inl hv
  · next hc =>
    rw [not_or, not_not, Bool.not_eq_false] at hc
    split at hv
    · exact .inl hv
    · split at hv
      · next val hval =>
        rcases List.mem_append.mp hv with hv | hv
        · exact .inl hv
        · rw [List.mem_singleton] at hv
          subst hv
          exact .inr ⟨hc.1, hc.2, hval⟩
      · exact .inl hv

/-- Every record taken out is that of a class-IN answer whose owner is on the chain. -/
theorem mem_extractAll {extract : Name → RData → Option T} {packet : Packet} {v : T}
    (hv : v ∈ (extractAll extract packet).1) :
    ∃ rr ∈ packet.answers, rr.cls = .IN ∧ onChain (questionChain packet) rr.name = true ∧
      extract rr.name rr.rdata = some v := by
  have main : ∀ (answers : List ResourceRecord) (acc : List T × Nat),
      v ∈ (answers.foldl (extractStep (questionChain packet) extract) acc).1 →
      v ∈ acc.1 ∨ ∃ rr ∈ answers, rr.cls = .IN ∧
        onChain (questionChain packet) rr.name = true ∧ extract rr.name rr.rdata = some v := by
    intro answers
    induction answers with
    | nil => exact fun acc h => .inl h
    | cons rr answers ih =>
      intro acc h
      rcases ih _ h with h | ⟨rr', hm, hrr'⟩
      · rcases extractStep_fst _ _ _ _ h with h | h
        · exact .inl h
        · exact .inr ⟨rr, List.mem_cons_self, h⟩
      · exact .inr ⟨rr', List.mem_cons_of_mem _ hm, hrr'⟩
  rcases main packet.answers ([], u32Max) hv with h | h
  · simp at h
  · exact h

/-- An extracted record is of the kind asked for, and so is its answer's type. -/
theorem extractor_kind {kind : RecordKind} {name : Name} {rdata : RData} {record : Record}
    (h : extractor S kind name rdata = some record) :
    record.kind = kind ∧ rdata.typeCode = kind.dnsType := by
  unfold extractor at h
  split at h <;> first | (cases h; exact ⟨rfl, rfl⟩) | cases h

/-- Splitting a character-string on its first `=` and joining it again changes nothing. -/
theorem extractTxtRecordData_eq (strings : List Bytes) : extractTxtRecordData strings = strings := by
  have hs : ∀ s : Bytes, (match splitAtEquals s with
      | (key, some value) => key ++ [61] ++ value
      | (key, none) => key) = s := by
    intro s
    have happ : s.takeWhile (· ≠ 61) ++ s.dropWhile (· ≠ 61) = s := List.takeWhile_append_dropWhile
    unfold splitAtEquals
    rw [List.span_eq_takeWhile_dropWhile]
    cases hd : s.dropWhile (· ≠ 61) with
    | nil =>
      rw [hd, List.append_nil] at happ
      exact happ
    | cons b value =>
      have hb : b = 61 := by
        have := List.head?_dropWhile_not (· ≠ (61 : UInt8)) s
        rw [hd] at this
        simpa using this
      rw [hd, hb] at happ
      simpa using happ
  unfold extractTxtRecordData
  calc strings.map _ = strings.map id := List.map_congr_left (fun s _ => hs s)
    _ = strings := List.map_id strings

end Extraction

end N0DnsResolver
