/-
  A CNAME chain split across replies.

  Each reply carries some of the links that remain, one at the least, and the records
  once it gets to the last name. However the chain is split, following it returns the
  records, if each name it may be cut at reads back from its text as itself or one
  further on. The two limits on the depth agree: a chain of `MAX_CNAME_DEPTH` links is
  walked in one reply, and takes as many iterations with one link per reply.
-/
import N0DnsResolver.Theory.Chain
import N0DnsResolver.Theory.Extraction
import N0DnsResolver.Theory.Targets

namespace N0DnsResolver

/-- An acyclic chain of names, as many links as may be followed, and the records of the kind that
its last name holds: their owner as it is spelled, and their data. -/
structure AliasChain (kind : RecordKind) where
  len : Nat
  name : Nat → Name
  zone : List (Name × RData)
  one_le : 1 ≤ len
  len_le : len ≤ maxCnameDepth
  acyclic : ∀ i ≤ len, ∀ j ≤ len, namesEqual (name i) (name j) = true → i = j
  wire : ∀ i ≤ len, (name i).Wire
  zone_ne_nil : zone ≠ []
  zone_kind : ∀ r ∈ zone, r.2.typeCode = kind.dnsType ∧ r.2 ≠ .empty kind.dnsType

namespace AliasChain

variable {kind : RecordKind} (chain : AliasChain kind)

/-- A class-IN answer of the kind at the last name. -/
def isFinal (rr : ResourceRecord) : Bool :=
  rr.cls == .IN && namesEqual rr.name (chain.name chain.len) && rr.rdata.typeCode == kind.dnsType

/-- The reply carries the links from place `i` to place `j`, and the records if that is the last. The
CNAME is the first answer of its owner. -/
structure Carries (packet : Packet) (i j : Nat) : Prop where
  links : ∀ k, i ≤ k → k < j → cnameTarget packet (chain.name k) = some (chain.name (k + 1))
  ends : cnameTarget packet (chain.name j) = none
  bare : ∀ k < chain.len, ∀ rr ∈ packet.answers, rr.cls = .IN →
    namesEqual rr.name (chain.name k) = true → rr.rdata.typeCode ≠ kind.dnsType
  records : j = chain.len →
    ((packet.answers.filter chain.isFinal).map fun rr => (rr.name, rr.rdata)).Perm chain.zone

/-- The records that a lookup of the chain is to return. -/
def records (S : SimpleDns) : List Record := chain.zone.filterMap fun r => extractor S kind r.1 r.2

/-! ## One reply -/

section Reply

variable {chain} {packet : Packet} {i j : Nat} (hcarries : chain.Carries packet i j) (hij : i < j)
  (hj : j ≤ chain.len) {qname : Name} (hq : namesEqual qname (chain.name i) = true)

/-- The names from place `i` to place `j`, and the last of them from there on. -/
def stretch (chain : AliasChain kind) (i j k : Nat) : Name := chain.name (min (i + k) j)

include hcarries

theorem Carries.exact (k : Nat) (target : Name)
    (h : cnameTarget packet (chain.stretch i j k) = some target) :
    target = chain.stretch i j (k + 1) := by
  unfold stretch at h ⊢
  by_cases hk : i + k < j
  · rw [Nat.min_eq_left (Nat.le_of_lt hk), hcarries.links _ (Nat.le_add_right i k) hk] at h
    rw [show min (i + (k + 1)) j = i + k + 1 by omega]
    exact (Option.some.inj h).symm
  · rw [Nat.min_eq_right (Nat.not_lt.mp hk), hcarries.ends] at h
    simp at h

theorem Carries.walksAlong : WalksAlong packet (chain.stretch i j) := by
  intro k target h
  rw [namesEqual_iff, hcarries.exact k target h]

include hj

theorem Carries.pathLinks_eq : pathLinks packet (chain.stretch i j) 0 = j - i := by
  have hlen := chain.len_le
  refine Chase.linksAlong_eq (by omega) (fun k hk => ?_) ?_
  · have hmin : min (i + (0 + k)) j = i + k := by omega
    simp only [stretch, hmin, hcarries.links (i + k) (Nat.le_add_right i k) (by omega),
      Option.isSome_some]
  · have hmin : min (i + (0 + (j - i))) j = j := by omega
    simp only [stretch, hmin, hcarries.ends, Option.isSome_none]

include hij hq

omit hcarries hj in
theorem stretch_start : namesEqual qname (chain.stretch i j 0) = true := by
  unfold stretch
  rw [Nat.add_zero, Nat.min_eq_left (Nat.le_of_lt hij)]
  exact hq

/-- The chain of the reply is the names it carries. -/
theorem Carries.onChain_iff (owner : Name) :
    onChain (cnameChain packet qname) owner = true ↔
      ∃ k, i ≤ k ∧ k ≤ j ∧ namesEqual owner (chain.name k) = true := by
  have hstart := stretch_start hij hq
  have hlinks := hcarries.pathLinks_eq hj
  constructor
  · intro hon
    obtain ⟨name, hname, hsame⟩ := List.any_eq_true.mp hon
    obtain ⟨k, hk, hpath⟩ := mem_cnameChain hcarries.walksAlong hstart hname
    refine ⟨min (i + (0 + k)) j, by omega, by omega, ?_⟩
    rw [← namesEqual_congr_left hsame]
    exact hpath
  · rintro ⟨k, hik, hkj, howner⟩
    have hon := onChain_path hcarries.walksAlong hstart (j := k - i) (by omega)
    obtain ⟨name, hname, hsame⟩ := List.any_eq_true.mp hon
    refine List.any_eq_true.mpr ⟨name, hname, ?_⟩
    unfold stretch at hsame
    rw [show min (i + (0 + (k - i))) j = k by omega] at hsame
    rw [namesEqual_congr_right howner]
    exact hsame

/-- A reply that stops short of the last name leads to the name it stops at. -/
theorem Carries.followed (hlt : j < chain.len) :
    unresolvedTargetName packet qname kind.dnsType = some (chain.name j) := by
  have hlinks := hcarries.pathLinks_eq hj
  have hans : answered packet qname kind.dnsType = false := by
    rw [← Bool.not_eq_true, answered_iff]
    rintro ⟨rr, hrr⟩
    obtain ⟨k, -, hk, howner⟩ := (hcarries.onChain_iff hij hj hq rr.name).mp hrr.on
    exact hcarries.bare k (by omega) rr hrr.mem hrr.cls howner hrr.type
  have hlast := getLast?_cnameChain_exact hcarries.exact (stretch_start hij hq) (by omega)
  have hend : chain.stretch i j (0 + pathLinks packet (chain.stretch i j) 0) = chain.name j := by
    rw [hlinks]
    unfold stretch
    congr 1
    omega
  rw [hend] at hlast
  have hne : ¬ namesEqual (chain.name j) qname = true := by
    rw [namesEqual_congr_right hq]
    intro hsame
    have hback := chain.acyclic j hj i (by omega) hsame
    omega
  rw [unresolvedTargetName_of_last hans hlast, if_neg hne]

/-- A reply that gets to the last name answers the query with its records. -/
theorem Carries.answers (S : SimpleDns) (hlast : j = chain.len) :
    unresolvedTargetName packet qname kind.dnsType = none ∧
      (packet.answers.filterMap (taken (cnameChain packet qname) (extractor S kind))).Perm
        (chain.records S) := by
  have hrecords := hcarries.records hlast
  have hon : ∀ rr, chain.isFinal rr = true → rr.cls = .IN ∧ rr.rdata.typeCode = kind.dnsType ∧
      onChain (cnameChain packet qname) rr.name = true := by
    intro rr hrr
    simp only [isFinal, Bool.and_eq_true, beq_iff_eq] at hrr
    exact ⟨hrr.1.1, hrr.2, (hcarries.onChain_iff hij hj hq rr.name).mpr
      ⟨j, Nat.le_of_lt hij, Nat.le_refl j, by rw [hlast]; exact hrr.1.2⟩⟩
  constructor
  · refine unresolvedTargetName_of_answered (answered_iff.mpr ?_)
    have hne : packet.answers.filter chain.isFinal ≠ [] := by
      intro hnil
      rw [hnil, List.map_nil, List.nil_perm] at hrecords
      exact chain.zone_ne_nil hrecords
    obtain ⟨rr, hrr⟩ := List.exists_mem_of_ne_nil _ hne
    obtain ⟨hmem, hfinal⟩ := List.mem_filter.mp hrr
    exact ⟨rr, hmem, (hon rr hfinal).1, (hon rr hfinal).2.1, (hon rr hfinal).2.2⟩
  · have htaken : packet.answers.filterMap (taken (cnameChain packet qname) (extractor S kind)) =
        (packet.answers.filter chain.isFinal).filterMap
          fun rr => extractor S kind rr.name rr.rdata := by
      rw [List.filterMap_filter]
      refine List.filterMap_congr fun rr hmem => ?_
      cases hfinal : chain.isFinal rr with
      | true =>
        obtain ⟨hcls, -, hchain⟩ := hon rr hfinal
        rw [if_pos rfl, taken_eq_extractor S hcls hchain]
      | false =>
        rw [if_neg Bool.false_ne_true, ← Option.not_isSome_iff_eq_none, taken_isSome_iff]
        rintro ⟨hcls, htype, -, hchain⟩
        obtain ⟨k, -, hk, howner⟩ := (hcarries.onChain_iff hij hj hq rr.name).mp hchain
        by_cases hend : k = chain.len
        · rw [hend] at howner
          simp [isFinal, hcls, htype, howner] at hfinal
        · exact hcarries.bare k (by omega) rr hmem hcls howner htype
    rw [htaken]
    have hzone := hrecords.filterMap fun r => extractor S kind r.1 r.2
    rw [List.filterMap_map] at hzone
    exact hzone

end Reply

/-! ## Following it -/

section Server

variable (S : SimpleDns)

/-- The server answers every query for a name short of the last with a validated reply that carries
the links from it to one further on. -/
def Served (net : Network) : Prop :=
  ∀ host log x i, Asked S net kind.dnsType host log x → i < chain.len →
    namesEqual x.query.name (chain.name i) = true →
      ∃ j response packet, i < j ∧ j ≤ chain.len ∧ x.result = .ok response ∧
        parsedPacket S response = .ok packet ∧
          checkResponse packet x.query.id x.query.name kind.dnsType = .ok () ∧
            chain.Carries packet i j

/-- The result of following is a reply, read as the records of the last name. -/
def Resolves (result : Except Error Bytes) : Prop :=
  ∃ response rs ttl, result = .ok response ∧ parsedRecords S response kind = .ok (rs, ttl) ∧
    rs.Perm (chain.records S)

/-- Every name strictly inside the chain reads back from its text as itself or one further on, short
of the last. -/
def ReadsBack : Prop :=
  ∀ i, 0 < i → i < chain.len → ∃ j name, i ≤ j ∧ j < chain.len ∧
    S.nameNew (S.nameToString (chain.name i)) = some name ∧
      namesEqual name (chain.name j) = true

variable {chain S} {net : Network}

/-- An iteration for a name of the chain ends with the records, or leads to a name further on. -/
theorem Served.reading (hserved : chain.Served S net) {host : Str} {log : List Exchange}
    {x : Exchange} {i : Nat} (hx : Asked S net kind.dnsType host log x) (hi : i < chain.len)
    (hname : namesEqual x.query.name (chain.name i) = true) :
    (∃ response, x.reading S kind.dnsType = .inl (.ok response) ∧
        chain.Resolves S (.ok response)) ∨
      ∃ j, i < j ∧ j < chain.len ∧
        x.reading S kind.dnsType = .inr (S.nameToString (chain.name j)) := by
  obtain ⟨j, response, packet, hij, hj, hresult, hparsed, hchecked, hcarries⟩ :=
    hserved host log x i hx hi hname
  rw [reading_of_validated S hresult hparsed hchecked]
  by_cases hlast : j = chain.len
  · obtain ⟨hnone, hperm⟩ := hcarries.answers hij hj hname S hlast
    have hrecords : parsedRecords S response kind =
        .ok (extractAll (extractor S kind) packet) := by
      rw [parsedRecords_eq, hparsed]
      rfl
    refine .inl ⟨response, by rw [hnone], response, _, _, rfl, hrecords, ?_⟩
    rw [records_of_validated S hparsed (checkResponse_ok hchecked).1 hrecords]
    exact hperm
  · have hlt : j < chain.len := by omega
    exact .inr ⟨j, hij, hlt, by rw [hcarries.followed hij hj hname hlt]⟩

/-- With an iteration for each link that remains, following ends with the records. -/
theorem ReadsBack.resolves (hreads : chain.ReadsBack S) (hB : S.BuildsQueries)
    (hserved : chain.Served S net) {fuel : Nat} {host : Str} {log : List Exchange} {name : Name}
    {i : Nat} (hname : S.nameNew host = some name)
    (hi : namesEqual name (chain.name i) = true) (hlt : i < chain.len)
    (hfuel : chain.len - i ≤ fuel) :
    chain.Resolves S (followCnames S net kind.dnsType fuel host log).1 := by
  induction fuel generalizing host log name i with
  | zero => omega
  | succ fuel ih =>
    obtain ⟨x, hx, hxname⟩ := exists_asked S net log hname
      (hB (net.randomId log) name kind.dnsType
        (wire_of_namesEqual hi (chain.wire i (Nat.le_of_lt hlt))))
    rw [← hxname] at hi
    rw [(followCnames_of_asked S net hx fuel).1]
    rcases hserved.reading hx hlt hi with ⟨response, hread, hres⟩ | ⟨j, hij, hj, hread⟩
    · rw [hread]
      exact hres
    · rw [hread]
      obtain ⟨k, name', hjk, hk, hname', hsame⟩ := hreads j (Nat.zero_lt_of_lt hij) hj
      exact ih hname' hsame hk (by omega)

/-! ## Where a name does not read back -/

/-- The server cuts the chain at place `i`, and answers no query for a name off the chain. -/
structure CutAt (chain : AliasChain kind) (S : SimpleDns) (net : Network) (i : Nat) : Prop where
  served : chain.Served S net
  cuts : ∀ host log x k, Asked S net kind.dnsType host log x → k < i →
    namesEqual x.query.name (chain.name k) = true →
      x.reading S kind.dnsType = .inr (S.nameToString (chain.name i))
  silent : ∀ host log x, Asked S net kind.dnsType host log x →
    (∀ k < chain.len, namesEqual x.query.name (chain.name k) = false) → ∃ e, x.result = .error e

/-- Every split is some server's. -/
def SplitsExist (chain : AliasChain kind) (S : SimpleDns) : Prop :=
  ∀ i, 0 < i → i < chain.len → ∃ net, chain.CutAt S net i

/-- A place that reads back as one before it is asked for again and again. -/
theorem CutAt.loops {i k : Nat} (hcut : chain.CutAt S net i) (hk : k < i) {name : Name}
    (hname : S.nameNew (S.nameToString (chain.name i)) = some name)
    (hsame : namesEqual name (chain.name k) = true) (fuel : Nat) (log : List Exchange) :
    ∃ e, (followCnames S net kind.dnsType fuel (S.nameToString (chain.name i)) log).1 =
      .error e := by
  induction fuel generalizing log with
  | zero => exact ⟨_, rfl⟩
  | succ fuel ih =>
    rcases asked_or_invalid S net kind.dnsType (S.nameToString (chain.name i)) log with
      ⟨x, hx⟩ | hinvalid
    · rw [← Option.some.inj (hx.name_eq.symm.trans hname)] at hsame
      rw [(followCnames_of_asked S net hx fuel).1, hcut.cuts _ _ x k hx hk hsame]
      exact ih _
    · exact ⟨_, congrArg Prod.fst (hinvalid fuel)⟩

/-- A cut that resolves is made at a name that reads back. -/
theorem CutAt.reads_back {i : Nat} (hcut : chain.CutAt S net i) {fuel : Nat} {log : List Exchange}
    (h : chain.Resolves S
      (followCnames S net kind.dnsType (fuel + 1) (S.nameToString (chain.name i)) log).1) :
    ∃ j name, i ≤ j ∧ j < chain.len ∧ S.nameNew (S.nameToString (chain.name i)) = some name ∧
      namesEqual name (chain.name j) = true := by
  obtain ⟨response, rs, ttl, hok, -⟩ := h
  rcases asked_or_invalid S net kind.dnsType (S.nameToString (chain.name i)) log with
    ⟨x, hx⟩ | hinvalid
  · by_cases hon : ∃ k < chain.len, namesEqual x.query.name (chain.name k) = true
    · obtain ⟨k, hk, hsame⟩ := hon
      refine ⟨k, x.query.name, Nat.not_lt.mp fun hki => ?_, hk, hx.name_eq, hsame⟩
      obtain ⟨e, he⟩ := hcut.loops hki hx.name_eq hsame (fuel + 1) log
      simp [he] at hok
    · obtain ⟨e, he⟩ := hcut.silent _ _ x hx fun k hk => by
        rw [← Bool.not_eq_true]
        exact fun hsame => hon ⟨k, hk, hsame⟩
      have hread : x.reading S kind.dnsType = .inl (.error e) := by
        unfold Exchange.reading
        rw [he]
      rw [(followCnames_of_asked S net hx fuel).1, hread] at hok
      simp at hok
  · rw [hinvalid fuel] at hok
    simp at hok

end Server

end AliasChain

/-- However the servers split the chain, following it from its first name ends with a reply that is
read as the records of its last, exactly when every name strictly inside it reads back from its
text as itself or one further on, short of the last. -/
theorem splits_resolve_iff {kind : RecordKind} (chain : AliasChain kind) {S : SimpleDns}
    (hB : S.BuildsQueries) (hsplits : chain.SplitsExist S) {host : Str} {name : Name}
    (hname : S.nameNew host = some name) (hfirst : namesEqual name (chain.name 0) = true)
    (log : List Exchange) :
    (∀ net, chain.Served S net →
        chain.Resolves S (sendQueryFollowingCnames S net host kind.dnsType log).1) ↔
      chain.ReadsBack S := by
  constructor
  · intro h i hpos hi
    obtain ⟨net, hcut⟩ := hsplits i hpos hi
    have hres := h net hcut.served
    obtain ⟨x, hx, hxname⟩ := exists_asked S net log hname
      (hB (net.randomId log) name kind.dnsType
        (wire_of_namesEqual hfirst (chain.wire 0 (Nat.zero_le _))))
    unfold sendQueryFollowingCnames at hres
    rw [show maxCnameDepth = 6 + 1 + 1 from rfl, (followCnames_of_asked S net hx (6 + 1)).1,
      hcut.cuts _ _ x 0 hx hpos (by rw [hxname]; exact hfirst)] at hres
    exact hcut.reads_back hres
  · intro hreads net hserved
    exact hreads.resolves hB hserved hname hfirst chain.one_le chain.len_le

/-! ## A chain of two links -/

/-- `alias`, a name in between, and `real`. -/
def innerNames (inner : Name) : Nat → Name
  | 0 => aliasName
  | 1 => inner
  | _ => realName

def innerChain (inner : Name)
    (hne : ∀ i ≤ 2, ∀ j ≤ 2, namesEqual (innerNames inner i) (innerNames inner j) = true → i = j)
    (hwire : ∀ i ≤ 2, (innerNames inner i).Wire) : AliasChain .a where
  len := 2
  name := innerNames inner
  zone := [(realName, .a 7)]
  one_le := by decide
  len_le := by decide
  acyclic := hne
  wire := hwire
  zone_ne_nil := by decide
  zone_kind := by decide

/-- One link in the reply to `alias. A`, and the other with the address in the next. -/
def innerReply (inner : Name) (i : Nat) : Packet where
  id := 4660
  flags := [.response, .recursionDesired]
  rcode := .noError
  questions := [⟨innerNames inner i, .TYPE .A, .CLASS .IN⟩]
  answers :=
    if i = 0 then [⟨aliasName, .IN, 60, .cname inner⟩]
    else [⟨inner, .IN, 60, .cname realName⟩, ⟨realName, .IN, 60, .a 7⟩]
  nameServers := []
  opt := none

def innerDns (inner : Name) : SimpleDns :=
  SimpleDns.ofTexts [(innerReply inner 0, (innerReply inner 0).wire),
    (innerReply inner 1, (innerReply inner 1).wire)]

/-- Answers for the two names short of the last, and for no other. -/
def innerNet (inner : Name) : Network where
  randomId _ := 4660
  sendQuery _ q :=
    if namesEqual q.name aliasName then (.ok (innerReply inner 0).wire, 0)
    else if namesEqual q.name inner then (.ok (innerReply inner 1).wire, 0)
    else (.error .timeout, 0)

section Inner

variable {inner : Name}
  (hne : ∀ i ≤ 2, ∀ j ≤ 2, namesEqual (innerNames inner i) (innerNames inner j) = true → i = j)
  (hwire : ∀ i ≤ 2, (innerNames inner i).Wire)

include hne

theorem innerNames_ne {i j : Nat} (hi : i ≤ 2) (hj : j ≤ 2) (hij : i ≠ j) :
    namesEqual (innerNames inner i) (innerNames inner j) = false := by
  rw [← Bool.not_eq_true]
  exact fun h => hij (hne i hi j hj h)

theorem innerReply_carries {i : Nat} (hi : i < 2) :
    (innerChain inner hne hwire).Carries (innerReply inner i) i (i + 1) := by
  have hself : ∀ n, namesEqual n n = true := fun n => (namesEqual_iff n n).mpr rfl
  have h01 : namesEqual aliasName inner = false :=
    innerNames_ne hne (i := 0) (j := 1) (by decide) (by decide) (by decide)
  have h12 : namesEqual inner realName = false :=
    innerNames_ne hne (i := 1) (j := 2) (by decide) (by decide) (by decide)
  have h02 : namesEqual aliasName realName = false := by decide
  have h20 : namesEqual realName aliasName = false := by decide
  have h21 : namesEqual realName inner = false := by
    rw [namesEqual_comm]
    exact h12
  obtain rfl | rfl : i = 0 ∨ i = 1 := by omega
  · refine ⟨fun k _ hk => ?_, ?_, fun k hk rr hrr _ _ => ?_, fun h => absurd h (by simp [innerChain])⟩
    · obtain rfl : k = 0 := by omega
      simp [innerChain, innerNames, cnameTarget, innerReply, hself]
    · simp [innerChain, innerNames, cnameTarget, innerReply, h01]
    · obtain rfl := List.mem_singleton.mp hrr
      simp [RData.typeCode, RecordKind.dnsType]
  · refine ⟨fun k hk hk' => ?_, ?_, fun k hk rr hrr _ howner => ?_, fun _ => ?_⟩
    · obtain rfl : k = 1 := by omega
      simp [innerChain, innerNames, cnameTarget, innerReply, hself]
    · simp [innerChain, innerNames, cnameTarget, innerReply, h12, hself]
    · have hcases : rr = ⟨inner, .IN, 60, .cname realName⟩ ∨ rr = ⟨realName, .IN, 60, .a 7⟩ := by
        simpa [innerReply] using hrr
      rcases hcases with rfl | rfl
      · simp [RData.typeCode, RecordKind.dnsType]
      · obtain rfl | rfl : k = 0 ∨ k = 1 := by
          have hk' : k < 2 := hk
          omega
        · simp [innerChain, innerNames, h20] at howner
        · simp [innerChain, innerNames, h21] at howner
    · simp [innerChain, innerNames, innerReply, AliasChain.isFinal, h12, hself, RData.typeCode,
        RecordKind.dnsType]

/-- What the server says of a name of the chain. -/
theorem inner_answers
    (hparsed : ∀ i < 2, parsedPacket (innerDns inner) (innerReply inner i).wire =
      .ok (innerReply inner i))
    {host : Str} {log : List Exchange} {x : Exchange} {i : Nat}
    (hx : Asked (innerDns inner) (innerNet inner) .A host log x) (hi : i < 2)
    (hname : namesEqual x.query.name (innerNames inner i) = true) :
    x.result = .ok (innerReply inner i).wire ∧
      parsedPacket (innerDns inner) (innerReply inner i).wire = .ok (innerReply inner i) ∧
      checkResponse (innerReply inner i) x.query.id x.query.name .A = .ok () := by
  refine ⟨?_, hparsed i hi, ?_⟩
  · rw [← hx.result_eq]
    obtain rfl | rfl : i = 0 ∨ i = 1 := by omega
    · exact congrArg Prod.fst (if_pos hname)
    · have hno : ¬ namesEqual x.query.name aliasName = true := by
        rw [namesEqual_congr_left hname]
        exact Bool.not_eq_true _ ▸ innerNames_ne hne (i := 1) (j := 0) (by decide) (by decide)
          (by decide)
      exact congrArg Prod.fst ((if_neg hno).trans (if_pos hname))
  · rw [namesEqual_comm] at hname
    rw [hx.id_eq]
    simp [checkResponse, innerReply, innerNet, Packet.hasFlags, hname]

theorem inner_served
    (hparsed : ∀ i < 2, parsedPacket (innerDns inner) (innerReply inner i).wire =
      .ok (innerReply inner i)) :
    (innerChain inner hne hwire).Served (innerDns inner) (innerNet inner) := by
  intro host log x i hx hi hname
  have hlt : i < 2 := hi
  obtain ⟨hresult, hpacket, hchecked⟩ := inner_answers hne hparsed hx hlt hname
  exact ⟨i + 1, _, _, Nat.lt_succ_self i, hlt, hresult, hpacket, hchecked,
    innerReply_carries hne hwire hlt⟩

/-- The one split of the chain. -/
theorem inner_splits
    (hparsed : ∀ i < 2, parsedPacket (innerDns inner) (innerReply inner i).wire =
      .ok (innerReply inner i)) :
    (innerChain inner hne hwire).SplitsExist (innerDns inner) := by
  intro i hpos hi
  have hlt : i < 2 := hi
  obtain rfl : i = 1 := by omega
  refine ⟨innerNet inner, inner_served hne hwire hparsed, ?_, ?_⟩
  · intro host log x k hx hk hname
    obtain rfl : k = 0 := by omega
    obtain ⟨hresult, hpacket, hchecked⟩ := inner_answers hne hparsed hx (by decide) hname
    have hfollowed : unresolvedTargetName (innerReply inner 0) x.query.name .A = some inner :=
      (innerReply_carries hne hwire (i := 0) (by decide)).followed Nat.one_pos (Nat.le_succ 1) hname
        (Nat.lt_succ_self 1)
    exact (reading_of_validated _ hresult hpacket hchecked).trans (by rw [hfollowed]; rfl)
  · intro host log x hx hoff
    have h0 : namesEqual x.query.name aliasName = false := hoff 0 Nat.two_pos
    have h1 : namesEqual x.query.name inner = false := hoff 1 (Nat.lt_succ_self 1)
    refine ⟨.timeout, ?_⟩
    rw [← hx.result_eq]
    simp [innerNet, h0, h1]

end Inner

theorem cdn_distinct : ∀ i ≤ 2, ∀ j ≤ 2,
    namesEqual (innerNames cdnName i) (innerNames cdnName j) = true → i = j := by decide

theorem cdn_wire : ∀ i ≤ 2, (innerNames cdnName i).Wire := by
  have hall : ∀ i ≤ 2, (∀ label ∈ (innerNames cdnName i).labels,
      0 < label.length ∧ label.length ≤ 63) ∧ wireLen (innerNames cdnName i).labels ≤ 255 := by
    decide
  exact fun i hi => ⟨(hall i hi).1, (hall i hi).2⟩

theorem dotted_distinct : ∀ i ≤ 2, ∀ j ≤ 2,
    namesEqual (innerNames dottedName i) (innerNames dottedName j) = true → i = j := by decide

theorem dotted_wire : ∀ i ≤ 2, (innerNames dottedName i).Wire := by
  have hall : ∀ i ≤ 2, (∀ label ∈ (innerNames dottedName i).labels,
      0 < label.length ∧ label.length ≤ 63) ∧ wireLen (innerNames dottedName i).labels ≤ 255 := by
    decide
  exact fun i hi => ⟨(hall i hi).1, (hall i hi).2⟩

/-- With `cdn.example` in between, two replies give the address. -/
theorem splits_resolve_iff_cdn :
    (innerChain cdnName cdn_distinct cdn_wire).Resolves (innerDns cdnName)
      (sendQueryFollowingCnames (innerDns cdnName) (innerNet cdnName) "alias".toList .A []).1 := by
  have hparsed : ∀ i < 2, parsedPacket (innerDns cdnName) (innerReply cdnName i).wire =
      .ok (innerReply cdnName i) := by decide +kernel
  have hname : (innerDns cdnName).nameNew "alias".toList = some aliasName := by rfl
  refine (splits_resolve_iff (innerChain cdnName cdn_distinct cdn_wire) (fun _ _ _ _ => rfl)
    (inner_splits cdn_distinct cdn_wire hparsed) hname (by decide) []).mpr ?_ (innerNet cdnName)
      (inner_served cdn_distinct cdn_wire hparsed)
  intro i hpos hi
  have hlt : i < 2 := hi
  obtain rfl : i = 1 := by omega
  exact ⟨1, cdnName, Nat.le_refl 1, hlt, nameNew_toString (SimpleDns.ofTexts_namesAsText _)
    (cdn_wire 1 (by decide)) cdnName_isText (by decide), by decide⟩

/-- With the one label `a.b` in between, the second query is for two labels, which the server does
not know. -/
theorem dotted_split_fails :
    (innerChain dottedName dotted_distinct dotted_wire).Served (innerDns dottedName)
        (innerNet dottedName) ∧
      (innerDns dottedName).nameNew "alias".toList = some aliasName ∧
      (sendQueryFollowingCnames (innerDns dottedName) (innerNet dottedName) "alias".toList .A
        []).1 = .error .timeout ∧
      ¬ (innerChain dottedName dotted_distinct dotted_wire).Resolves (innerDns dottedName)
        (sendQueryFollowingCnames (innerDns dottedName) (innerNet dottedName) "alias".toList .A
          []).1 := by
  have hparsed : ∀ i < 2, parsedPacket (innerDns dottedName) (innerReply dottedName i).wire =
      .ok (innerReply dottedName i) := by decide +kernel
  have hresult : (sendQueryFollowingCnames (innerDns dottedName) (innerNet dottedName)
      "alias".toList .A []).1 = .error .timeout := by rfl
  refine ⟨inner_served dotted_distinct dotted_wire hparsed, by rfl, hresult, ?_⟩
  rintro ⟨response, rs, ttl, hok, -⟩
  rw [hresult] at hok
  simp at hok

end N0DnsResolver
