/-
  What `parse_records` returns, in terms of the answer section alone.

  The chain is a derivation: each link is the first class-IN answer at its name, and
  there is one chain to a packet. The records are those of the answers on the chain that
  hold data of the kind, each saying what the data says (`RecordOf`); the TTL is the least
  of theirs and of the CNAMEs on the chain, and neither depends on the letter case of the
  reply.
-/
import N0DnsResolver.Theory.AnswerOrder
import Mathlib.Data.List.Forall2

namespace N0DnsResolver

/-! ## The chain -/

/-- The first class-IN answer of the reply that the name owns. -/
def FirstAnswer (packet : Packet) (name : Name) (rr : ResourceRecord) : Prop :=
  ∃ before after, packet.answers = before ++ rr :: after ∧
    (rr.cls = .IN ∧ namesEqual rr.name name = true) ∧
    ∀ rr' ∈ before, ¬ (rr'.cls = .IN ∧ namesEqual rr'.name name = true)

/-- That answer is a CNAME, and `target` is where it points. -/
def LinksTo (packet : Packet) (name target : Name) : Prop :=
  ∃ rr, FirstAnswer packet name rr ∧ rr.rdata = .cname target

/-- The names from `name` on, each the target of the one before, for at most so many links. -/
inductive ChainFrom (packet : Packet) : Nat → Name → List Name → Prop where
  | deepest (name : Name) : ChainFrom packet 0 name [name]
  | ends {depth : Nat} {name : Name} (last : ∀ target, ¬ LinksTo packet name target) :
      ChainFrom packet depth name [name]
  | link {depth : Nat} {name target : Name} {chain : List Name} (first : LinksTo packet name target)
      (rest : ChainFrom packet depth target chain) :
      ChainFrom packet (depth + 1) name (name :: chain)

theorem linksTo_iff {packet : Packet} {name target : Name} :
    LinksTo packet name target ↔ cnameTarget packet name = some target := by
  have hfirst : ∀ rr, FirstAnswer packet name rr ↔
      packet.answers.find? (fun rr => rr.cls == .IN && namesEqual rr.name name) = some rr := by
    intro rr
    rw [List.find?_eq_some_iff_append]
    unfold FirstAnswer
    constructor
    · rintro ⟨before, after, hsplit, hrr, hbefore⟩
      refine ⟨by simpa using hrr, before, after, hsplit, fun rr' hrr' => ?_⟩
      simpa [imp_iff_not_or] using hbefore rr' hrr'
    · rintro ⟨hrr, before, after, hsplit, hbefore⟩
      refine ⟨before, after, hsplit, by simpa using hrr, fun rr' hrr' => ?_⟩
      simpa [imp_iff_not_or] using hbefore rr' hrr'
  unfold LinksTo cnameTarget
  simp only [hfirst]
  constructor
  · rintro ⟨⟨name', cls, ttl, rdata⟩, hfind, hrdata⟩
    simp only at hrdata
    subst hrdata
    rw [hfind]
  · intro h
    split at h
    · next name' cls ttl target' hfind =>
      cases h
      exact ⟨_, hfind, rfl⟩
    · cases h

/-- There is one chain from a name, and it is the one the code collects. -/
theorem chainFrom_iff {packet : Packet} {depth : Nat} {name : Name} {chain : List Name} :
    ChainFrom packet depth name chain ↔ chain = chase (cnameTarget packet) depth name := by
  constructor
  · intro h
    induction h with
    | deepest name => rfl
    | @ends depth name last =>
      cases depth with
      | zero => rfl
      | succ depth =>
        have hnone : cnameTarget packet name = none := by
          rw [Option.eq_none_iff_forall_ne_some]
          exact fun target htarget => last target (linksTo_iff.mpr htarget)
        rw [Chase.chase_succ_none _ hnone]
    | link first rest ih =>
      rw [Chase.chase_succ_some _ (linksTo_iff.mp first), ih]
  · rintro rfl
    induction depth generalizing name with
    | zero => exact .deepest name
    | succ depth ih =>
      cases htarget : cnameTarget packet name with
      | none =>
        rw [Chase.chase_succ_none _ htarget]
        refine .ends fun target hlink => ?_
        rw [linksTo_iff, htarget] at hlink
        cases hlink
      | some target =>
        rw [Chase.chase_succ_some _ htarget]
        exact .link (linksTo_iff.mpr htarget) ih

/-! ## The records -/

/-- The kind of record the data of an answer is; CNAMEs and records without data are of none. -/
def RData.recordKind : RData → Option RecordKind
  | .a _ => some .a
  | .aaaa _ => some .aaaa
  | .txt _ => some .txt
  | .ns _ => some .ns
  | .srv .. => some .srv
  | .mx .. => some .mx
  | .caa .. => some .caa
  | .svcb _ => some .svcb
  | .https _ => some .https
  | .cname _ => none
  | .soa _ => none
  | .empty _ => none
  | .other .. => none

/-- The record that data under an owner comes to: addresses, numbers, values and service parameters
as they are, character-strings byte for byte, names and tags as text, and the owner with HTTPS
data. -/
inductive RecordOf (S : SimpleDns) (owner : Name) : RData → Record → Prop where
  | a (address : UInt32) : RecordOf S owner (.a address) (.a ⟨address⟩)
  | aaaa (address : BitVec 128) : RecordOf S owner (.aaaa address) (.aaaa ⟨address⟩)
  | txt (strings : List Bytes) : RecordOf S owner (.txt strings) (.txt strings)
  | ns (name : Name) : RecordOf S owner (.ns name) (.ns (S.nameToString name))
  | srv (priority weight port : UInt16) (target : Name) :
      RecordOf S owner (.srv priority weight port target)
        (.srv ⟨priority, weight, port, S.nameToString target⟩)
  | mx (preference : UInt16) (exchange : Name) :
      RecordOf S owner (.mx preference exchange) (.mx ⟨preference, S.nameToString exchange⟩)
  | caa (flag : UInt8) (tag value : Bytes) :
      RecordOf S owner (.caa flag tag value) (.caa ⟨flag, S.characterStringToString tag, value⟩)
  | svcb (data : Svcb) : RecordOf S owner (.svcb data) (.svcb data)
  | https (data : Svcb) : RecordOf S owner (.https data) (.https ⟨S.nameToString owner, data⟩)

/-- An answer of class IN, owned by a name of the chain. -/
def alongChain (chain : List Name) (rr : ResourceRecord) : Bool :=
  rr.cls == .IN && onChain chain rr.name

/-- An answer along the chain whose data is of the kind. -/
def ofKind (chain : List Name) (kind : RecordKind) (rr : ResourceRecord) : Bool :=
  alongChain chain rr && rr.rdata.recordKind == some kind

/-- An answer along the chain whose data is of the kind, or a CNAME. -/
def boundsTtl (chain : List Name) (kind : RecordKind) (rr : ResourceRecord) : Bool :=
  alongChain chain rr && (rr.rdata.recordKind == some kind || (cnameOf rr.rdata).isSome)

section Records

variable (S : SimpleDns) (chain : List Name) (kind : RecordKind)

theorem extractor_isSome_eq (name : Name) (rdata : RData) :
    (extractor S kind name rdata).isSome = (rdata.recordKind == some kind) := by
  cases rdata <;> cases kind <;> rfl

/-- The closures read off the data what it says. -/
theorem recordOf_extractor {owner : Name} {rdata : RData} {record : Record}
    (h : extractor S kind owner rdata = some record) : RecordOf S owner rdata record := by
  unfold extractor at h
  split at h <;> cases h
  · exact .a _
  · exact .aaaa _
  · rw [extractTxtRecordData_eq]
    exact .txt _
  · exact .ns _
  · exact .srv _ _ _ _
  · exact .mx _ _
  · exact .caa _ _ _
  · exact .svcb _
  · exact .https _

theorem not_alongChain {rr : ResourceRecord} :
    (rr.cls ≠ .IN ∨ onChain chain rr.name = false) ↔ alongChain chain rr = false := by
  unfold alongChain
  by_cases hcls : rr.cls = .IN <;> simp [hcls]

theorem taken_eq_of_kind (rr : ResourceRecord) :
    taken chain (extractor S kind) rr =
      if ofKind chain kind rr then extractor S kind rr.name rr.rdata else none := by
  unfold ofKind
  cases halong : alongChain chain rr with
  | false =>
    unfold taken
    rw [if_pos ((not_alongChain chain).mpr halong)]
    rfl
  | true =>
    have hon : rr.cls = .IN ∧ onChain chain rr.name = true := by
      unfold alongChain at halong
      simpa using halong
    rw [taken_eq_extractor S hon.1 hon.2, Bool.true_and, ← extractor_isSome_eq S]
    cases extractor S kind rr.name rr.rdata <;> rfl

theorem bounding_eq_of_bounds (rr : ResourceRecord) :
    bounding chain (extractor S kind) rr =
      if boundsTtl chain kind rr then some rr.ttl.toNat else none := by
  unfold boundsTtl bounding
  cases halong : alongChain chain rr with
  | false => rw [if_pos ((not_alongChain chain).mpr halong)]; rfl
  | true =>
    have hon : ¬ (rr.cls ≠ .IN ∨ onChain chain rr.name = false) := by
      rw [not_alongChain, halong]
      decide
    rw [if_neg hon, Bool.true_and, ← extractor_isSome_eq S kind rr.name]
    cases rr.rdata with
    | cname target => cases kind <;> rfl
    | _ =>
      simp only [cnameOf, Option.isSome_none, Bool.or_false]
      cases extractor S kind rr.name _ <;> rfl

/-- The extraction of a kind: for each answer along the chain whose data is of the kind the record
of that data, in their order, and the TTL they and the CNAMEs along the chain bound. -/
structure Extracts (answers : List ResourceRecord) (records : List Record) (ttl : Nat) : Prop where
  records : List.Forall₂
    (fun rr record => RecordOf S rr.name rr.rdata record ∧ record.kind = kind)
    (answers.filter (ofKind chain kind)) records
  ttl_le : ∀ rr ∈ answers, boundsTtl chain kind rr = true → ttl ≤ rr.ttl.toNat
  ttl_least : (∃ rr ∈ answers, boundsTtl chain kind rr = true ∧ rr.ttl.toNat < u32Max) →
    ∃ rr ∈ answers, boundsTtl chain kind rr = true ∧ rr.ttl.toNat = ttl
  ttl_zero : (∀ rr ∈ answers, boundsTtl chain kind rr = true → ¬ rr.ttl.toNat < u32Max) → ttl = 0

theorem taken_records (answers : List ResourceRecord) : List.Forall₂
    (fun rr record => RecordOf S rr.name rr.rdata record ∧ record.kind = kind)
    (answers.filter (ofKind chain kind))
    (answers.filterMap (taken chain (extractor S kind))) := by
  induction answers with
  | nil => exact .nil
  | cons rr answers ih =>
    have htaken := taken_eq_of_kind S chain kind rr
    by_cases hof : ofKind chain kind rr = true
    · rw [if_pos hof] at htaken
      have hsome : (extractor S kind rr.name rr.rdata).isSome = true := by
        rw [extractor_isSome_eq]
        unfold ofKind at hof
        exact (Bool.and_eq_true_iff.mp hof).2
      obtain ⟨record, hrecord⟩ := Option.isSome_iff_exists.mp hsome
      rw [List.filter_cons_of_pos hof, List.filterMap_cons_some (htaken.trans hrecord)]
      exact .cons ⟨recordOf_extractor S kind hrecord, (extractor_kind S hrecord).1⟩ ih
    · rw [if_neg hof] at htaken
      rw [List.filter_cons_of_neg hof, List.filterMap_cons_none htaken]
      exact ih

theorem mem_bounding {answers : List ResourceRecord} {t : Nat} :
    t ∈ answers.filterMap (bounding chain (extractor S kind)) ↔
      ∃ rr ∈ answers, boundsTtl chain kind rr = true ∧ rr.ttl.toNat = t := by
  rw [List.mem_filterMap]
  constructor
  · rintro ⟨rr, hrr, hbound⟩
    rw [bounding_eq_of_bounds] at hbound
    split at hbound
    · next h => exact ⟨rr, hrr, h, Option.some.inj hbound⟩
    · cases hbound
  · rintro ⟨rr, hrr, h, rfl⟩
    exact ⟨rr, hrr, by rw [bounding_eq_of_bounds, if_pos h]⟩

/-- The least TTL is 0 unless one is below `u32::MAX`, and then it is one of them. -/
theorem leastTtl_spec (ttls : List Nat) :
    (∀ t ∈ ttls, leastTtl ttls ≤ t) ∧
      ((∃ t ∈ ttls, t < u32Max) → leastTtl ttls ∈ ttls) ∧
      ((∀ t ∈ ttls, ¬ t < u32Max) → leastTtl ttls = 0) := by
  have hle : ∀ t ∈ ttls, ttls.foldl min u32Max ≤ t := fun t ht =>
    (foldl_min_le_iff _ _ _).mpr (.inr ⟨t, ht, Nat.le_refl t⟩)
  unfold leastTtl
  by_cases hmax : ttls.foldl min u32Max = u32Max
  · rw [if_pos hmax]
    refine ⟨fun t _ => Nat.zero_le t, fun ⟨t, ht, hlt⟩ => ?_, fun _ => rfl⟩
    have hmin := hle t ht
    omega
  · rw [if_neg hmax]
    obtain ⟨x, hx, hxle⟩ : ∃ x ∈ ttls, x ≤ ttls.foldl min u32Max := by
      rcases (foldl_min_le_iff ttls u32Max _).mp (Nat.le_refl _) with h | h
      · have hub : ttls.foldl min u32Max ≤ u32Max :=
          (foldl_min_le_iff _ _ _).mpr (.inl (Nat.le_refl _))
        omega
      · exact h
    have hxeq : x = ttls.foldl min u32Max := Nat.le_antisymm hxle (hle x hx)
    refine ⟨hle, fun _ => hxeq ▸ hx, fun hnone => ?_⟩
    have hub : ttls.foldl min u32Max ≤ u32Max :=
      (foldl_min_le_iff _ _ _).mpr (.inl (Nat.le_refl _))
    have hnot := hnone x hx
    omega

theorem extracts_taken (answers : List ResourceRecord) :
    Extracts S chain kind answers (answers.filterMap (taken chain (extractor S kind)))
      (leastTtl (answers.filterMap (bounding chain (extractor S kind)))) := by
  obtain ⟨hle, hleast, hzero⟩ :=
    leastTtl_spec (answers.filterMap (bounding chain (extractor S kind)))
  refine ⟨taken_records S chain kind answers, fun rr hrr hb => ?_, ?_, fun hnone => ?_⟩
  · exact hle _ ((mem_bounding S chain kind).mpr ⟨rr, hrr, hb, rfl⟩)
  · rintro ⟨rr, hrr, hb, hlt⟩
    exact (mem_bounding S chain kind).mp
      (hleast ⟨_, (mem_bounding S chain kind).mpr ⟨rr, hrr, hb, rfl⟩, hlt⟩)
  · refine hzero fun t ht => ?_
    obtain ⟨rr, hrr, hb, rfl⟩ := (mem_bounding S chain kind).mp ht
    exact hnone rr hrr hb

end Records

/-! ## Letter case -/

theorem namesEqual_equivalence : Equivalence fun a b : Name => namesEqual a b = true where
  refl a := (namesEqual_iff a a).mpr rfl
  symm h := (namesEqual_comm _ _).trans h
  trans h h' := (namesEqual_congr_left h _).trans h'

/-- Two answers that differ in nothing but the letter case of the owner and of the target of a
CNAME. -/
structure SameAnswer (rr rr' : ResourceRecord) : Prop where
  name : namesEqual rr.name rr'.name = true
  cls : rr.cls = rr'.cls
  ttl : rr.ttl = rr'.ttl
  rdata : rr.rdata = rr'.rdata ∨ ∃ target target', rr.rdata = .cname target ∧
    rr'.rdata = .cname target' ∧ namesEqual target target' = true

theorem SameAnswer.recordKind {rr rr' : ResourceRecord} (h : SameAnswer rr rr') :
    rr.rdata.recordKind = rr'.rdata.recordKind ∧
      (cnameOf rr.rdata).isSome = (cnameOf rr'.rdata).isSome := by
  rcases h.rdata with heq | ⟨target, target', ht, ht', -⟩
  · rw [heq]
    exact ⟨rfl, rfl⟩
  · rw [ht, ht']
    exact ⟨rfl, rfl⟩

section Case

variable {packet packet' : Packet}

/-- Names that are equal have targets that are equal, or no targets. -/
theorem cnameTarget_related (h : List.Forall₂ SameAnswer packet.answers packet'.answers)
    {name name' : Name} (hname : namesEqual name name' = true) :
    (cnameTarget packet name = none ∧ cnameTarget packet' name' = none) ∨
      ∃ target target', cnameTarget packet name = some target ∧
        cnameTarget packet' name' = some target' ∧ namesEqual target target' = true := by
  unfold cnameTarget
  generalize packet.answers = answers at h
  generalize packet'.answers = answers' at h
  induction h with
  | nil => exact .inl ⟨rfl, rfl⟩
  | @cons rr rr' answers answers' hrr _ ih =>
    have howner : namesEqual rr.name name = namesEqual rr'.name name' := by
      rw [namesEqual_congr_left hrr.name, namesEqual_congr_right hname]
    rw [List.find?_cons, List.find?_cons, howner, hrr.cls]
    cases hfound : rr'.cls == .IN && namesEqual rr'.name name' with
    | false => exact ih
    | true =>
      obtain ⟨owner, cls, ttl, rdata⟩ := rr
      obtain ⟨owner', cls', ttl', rdata'⟩ := rr'
      rcases hrr.rdata with heq | ⟨target, target', ht, ht', hsame⟩
      · simp only at heq
        subst heq
        cases rdata with
        | cname target => exact .inr ⟨target, target, rfl, rfl, namesEqual_equivalence.refl target⟩
        | _ => exact .inl ⟨rfl, rfl⟩
      · simp only at ht ht'
        subst ht ht'
        exact .inr ⟨target, target', rfl, rfl, hsame⟩

theorem chase_related (h : List.Forall₂ SameAnswer packet.answers packet'.answers) (depth : Nat)
    {name name' : Name} (hname : namesEqual name name' = true) :
    List.Forall₂ (fun a b => namesEqual a b = true) (chase (cnameTarget packet) depth name)
      (chase (cnameTarget packet') depth name') := by
  induction depth generalizing name name' with
  | zero => exact .cons hname .nil
  | succ depth ih =>
    rcases cnameTarget_related h hname with ⟨hn, hn'⟩ | ⟨target, target', ht, ht', hsame⟩
    · rw [Chase.chase_succ_none _ hn, Chase.chase_succ_none _ hn']
      exact .cons hname .nil
    · rw [Chase.chase_succ_some _ ht, Chase.chase_succ_some _ ht']
      exact .cons hname (ih hsame)

theorem onChain_related {chain chain' : List Name}
    (h : List.Forall₂ (fun a b => namesEqual a b = true) chain chain') {name name' : Name}
    (hname : namesEqual name name' = true) : onChain chain name = onChain chain' name' := by
  unfold onChain
  induction h with
  | nil => rfl
  | @cons a b chain chain' hab _ ih =>
    rw [List.any_cons, List.any_cons, ih, namesEqual_congr_left hab, namesEqual_congr_right hname]

variable {chain chain' : List Name} (kind : RecordKind)

theorem ofKind_related (h : List.Forall₂ (fun a b => namesEqual a b = true) chain chain')
    {rr rr' : ResourceRecord} (hrr : SameAnswer rr rr') :
    ofKind chain kind rr = ofKind chain' kind rr' ∧
      boundsTtl chain kind rr = boundsTtl chain' kind rr' := by
  unfold ofKind boundsTtl alongChain
  rw [hrr.cls, onChain_related h hrr.name, hrr.recordKind.1, hrr.recordKind.2]
  exact ⟨rfl, rfl⟩

theorem map_ofKind_related (h : List.Forall₂ (fun a b => namesEqual a b = true) chain chain')
    {answers answers' : List ResourceRecord} (hanswers : List.Forall₂ SameAnswer answers answers') :
    answers.map (ofKind chain kind) = answers'.map (ofKind chain' kind) := by
  induction hanswers with
  | nil => rfl
  | cons hrr _ ih => rw [List.map_cons, List.map_cons, (ofKind_related kind h hrr).1, ih]

theorem filterMap_bounding_related (S : SimpleDns)
    (h : List.Forall₂ (fun a b => namesEqual a b = true) chain chain')
    {answers answers' : List ResourceRecord} (hanswers : List.Forall₂ SameAnswer answers answers') :
    answers.filterMap (bounding chain (extractor S kind)) =
      answers'.filterMap (bounding chain' (extractor S kind)) := by
  induction hanswers with
  | nil => rfl
  | @cons rr rr' answers answers' hrr _ ih =>
    have hbound :
        bounding chain (extractor S kind) rr = bounding chain' (extractor S kind) rr' := by
      rw [bounding_eq_of_bounds, bounding_eq_of_bounds, (ofKind_related kind h hrr).2, hrr.ttl]
    rw [List.filterMap_cons, List.filterMap_cons, hbound, ih]

end Case

/-! ## The specification -/

section Spec

variable (S : SimpleDns) (kind : RecordKind)

/-- `parse_records` returns these for the reply: the extraction along the chain of its question. -/
structure ParsesTo (data : Bytes) (packet : Packet) (q : Question) (chain : List Name)
    (records : List Record) (ttl : Nat) : Prop where
  chain_eq : ∀ chain', ChainFrom packet maxCnameDepth q.qname chain' ↔ chain' = chain
  returned : parseRecords S data kind = .ok (.ok (records, ttl))
  extracts : Extracts S chain kind packet.answers records ttl

theorem parsesTo_taken {data : Bytes} {packet : Packet} {q : Question} {rest : List Question}
    (hpacket : parsedPacket S data = .ok packet) (hq : packet.questions = q :: rest) :
    ParsesTo S kind data packet q (cnameChain packet q.qname)
      (packet.answers.filterMap (taken (cnameChain packet q.qname) (extractor S kind)))
      (leastTtl (packet.answers.filterMap
        (bounding (cnameChain packet q.qname) (extractor S kind)))) := by
  have hchain : questionChain packet = cnameChain packet q.qname := by
    unfold questionChain
    rw [hq]
    rfl
  refine ⟨fun chain' => chainFrom_iff, ?_, extracts_taken S _ kind _⟩
  rw [parseRecords_eq, hpacket, ← hchain]
  exact congrArg (fun p => Except.ok (Except.ok p)) (extractAll_eq _ _)

/-- `parse_records` returns, for each kind and every reply with a question, exactly the records of
the answers along the one chain from the question, in their order, and the TTL they and the CNAMEs
bound. Names are compared by an equivalence: a reply that differs in letter case alone has records
from the same places, and the same TTL. -/
theorem parseRecords_spec {data : Bytes} {packet : Packet} {q : Question} {rest : List Question}
    (hpacket : parsedPacket S data = .ok packet) (hq : packet.questions = q :: rest) :
    Equivalence (fun a b : Name => namesEqual a b = true) ∧
      ∃ chain records ttl, ParsesTo S kind data packet q chain records ttl ∧
        ∀ data' packet' q' rest', parsedPacket S data' = .ok packet' →
          packet'.questions = q' :: rest' → namesEqual q.qname q'.qname = true →
          List.Forall₂ SameAnswer packet.answers packet'.answers →
          ∃ chain' records', ParsesTo S kind data' packet' q' chain' records' ttl ∧
            packet.answers.map (ofKind chain kind) = packet'.answers.map (ofKind chain' kind) := by
  refine ⟨namesEqual_equivalence, _, _, _, parsesTo_taken S kind hpacket hq, ?_⟩
  intro data' packet' q' rest' hpacket' hq' hname hanswers
  have hchain : List.Forall₂ (fun a b => namesEqual a b = true) (cnameChain packet q.qname)
      (cnameChain packet' q'.qname) := chase_related hanswers maxCnameDepth hname
  rw [filterMap_bounding_related kind S hchain hanswers]
  exact ⟨_, _, parsesTo_taken S kind hpacket' hq', map_ofKind_related kind hchain hanswers⟩

end Spec

/-- `fullReply` with the alias and its target in capitals. -/
def loudReply : Packet :=
  let loudAlias : Name := ⟨[asciiBytes "ALIAS"]⟩
  let loudReal : Name := ⟨[asciiBytes "REAL"]⟩
  { fullReply with
    questions := [⟨loudAlias, .TYPE .A, .CLASS .IN⟩]
    answers := [⟨loudAlias, .IN, 60, .cname loudReal⟩, ⟨realName, .IN, 60, .empty .A⟩,
      ⟨loudReal, .IN, 60, .a 7⟩] }

def caseDns : SimpleDns :=
  SimpleDns.ofTable [(fullReply, fullReply.wire), (loudReply, loudReply.wire)]

/-- In both letter cases, the address of the target is extracted, for a minute. -/
theorem parseRecords_spec_loud :
    ∃ chain chain',
      ParsesTo caseDns .a fullReply.wire fullReply ⟨aliasName, .TYPE .A, .CLASS .IN⟩ chain
        [.a ⟨7⟩] 60 ∧
      ParsesTo caseDns .a loudReply.wire loudReply ⟨⟨[asciiBytes "ALIAS"]⟩, .TYPE .A, .CLASS .IN⟩
        chain' [.a ⟨7⟩] 60 := by
  have hpacket : parsedPacket caseDns fullReply.wire = .ok fullReply := by rfl
  have hpacket' : parsedPacket caseDns loudReply.wire = .ok loudReply := by rfl
  have hanswers : List.Forall₂ SameAnswer fullReply.answers loudReply.answers :=
    .cons ⟨by decide, rfl, rfl, .inr ⟨_, _, rfl, rfl, by decide⟩⟩
      (.cons ⟨by decide, rfl, rfl, .inl rfl⟩ (.cons ⟨by decide, rfl, rfl, .inl rfl⟩ .nil))
  obtain ⟨-, chain, records, ttl, hquiet, hloud⟩ := parseRecords_spec caseDns .a hpacket rfl
  obtain ⟨chain', records', hparses, -⟩ := hloud _ _ _ _ hpacket' rfl (by decide) hanswers
  have hone : parseRecords caseDns fullReply.wire .a = .ok (.ok ([.a ⟨7⟩], 60)) := by rfl
  have hone' : parseRecords caseDns loudReply.wire .a = .ok (.ok ([.a ⟨7⟩], 60)) := by rfl
  have hpair := Except.ok.inj (Except.ok.inj (hquiet.returned.symm.trans hone))
  have hpair' := Except.ok.inj (Except.ok.inj (hparses.returned.symm.trans hone'))
  obtain ⟨rfl, rfl⟩ := Prod.mk.inj hpair
  obtain ⟨rfl, -⟩ := Prod.mk.inj hpair'
  exact ⟨chain, chain', hquiet, hparses⟩

end N0DnsResolver
