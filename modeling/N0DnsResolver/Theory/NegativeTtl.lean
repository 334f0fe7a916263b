/-
  How long a negative answer is kept, against the SOA of its zone.

  The SOA of a NODATA reply reaches the cache. That of an NXDOMAIN reply does not:
  the validation of the reply turns it into an error before its authority section
  is read, and the fixed `NEGATIVE_TTL_SECS` takes the bound's place.
-/
import N0DnsResolver.Model.Follow
import N0DnsResolver.Theory.Loop

namespace N0DnsResolver

/-- The bounds that the SOA records of a reply put on a negative answer. -/
def soaBounds (packet : Packet) : List Nat := packet.nameServers.filterMap soaTtl

/-- The seconds above which no negative answer is kept. -/
def Builder.negativeCap (builder : Builder) : Nat :=
  match builder.negativeMaxTtl with
  | none => 0
  | some max => min (clampSecs max) negativeTtlMaxSecs

/-- The bound the code starts from: a constant for NXDOMAIN, else that of the first SOA. -/
def boundRead (packet : Packet) : Nat :=
  if packet.rcode = .nameError then negativeTtlSecs
  else (soaBounds packet).head?.getD negativeTtlSecs

theorem negativeCacheTtlSecs_eq (builder : Builder) (soaTtl : Option Nat) :
    builder.negativeCacheTtlSecs soaTtl =
      min (soaTtl.getD negativeTtlSecs) builder.negativeCap := by
  unfold Builder.negativeCacheTtlSecs Builder.negativeCap
  cases builder.negativeMaxTtl with
  | none => simp
  | some max =>
    simp only
    split
    · next h => rw [h, Nat.min_zero]
    · rfl

theorem negativeCap_le (builder : Builder) : builder.negativeCap ≤ negativeTtlMaxSecs := by
  unfold Builder.negativeCap
  cases builder.negativeMaxTtl with
  | none => exact Nat.zero_le _
  | some max => exact Nat.min_le_right _ _

theorem clampSecs_le (d : Duration) : clampSecs d * 1000000000 ≤ d.nanos := by
  have h : clampSecs d ≤ d.asSecs := by
    unfold clampSecs
    split <;> omega
  have hsecs : d.asSecs * 1000000000 ≤ d.nanos := Nat.div_mul_le_self _ _
  exact Nat.le_trans (Nat.mul_le_mul_right _ h) hsecs

theorem negativeCap_le_max {builder : Builder} {max : Duration}
    (h : builder.negativeMaxTtl = some max) :
    builder.negativeCap * 1000000000 ≤ max.nanos := by
  unfold Builder.negativeCap
  rw [h]
  exact Nat.le_trans (Nat.mul_le_mul_right _ (Nat.min_le_left _ _)) (clampSecs_le max)

/-- Below the cap, an entry lives for the seconds it was stored with. -/
theorem make_ttl {host : Str} {kind : RecordKind} {result : CachedResult} {now : Instant}
    {ttl : Nat} (h : ttl ≤ maxTtlSecs) :
    (CacheEntry.make host kind result ttl now).ttl.nanos = ttl * 1000000000 := by
  show min ttl maxTtlSecs * 1000000000 = _
  rw [Nat.min_eq_left h]

theorem outcome_of_negative {a : Attempt} (h : a.outcome.negative = true) :
    (∃ ttl, a.res = .ok ([], ttl)) ∨ a.res = .error .nxDomain := by
  obtain ⟨res, soa⟩ := a
  unfold Attempt.outcome Outcome.ofResult at h
  simp only at h ⊢
  split at h
  · split at h
    · cases h
    · next hrs =>
      rw [not_not] at hrs
      exact .inl ⟨_, by rw [hrs]⟩
  · exact .inr rfl
  · split at h <;> cases h

section NegativeTtl

variable (S : SimpleDns) (net : Network) (config : Config) (name : Str) (kind : RecordKind)

/-- The validated reply that gave the first negative answer of a walk: the last one its candidate
received. -/
def FirstNegativeReply (log : List Exchange) (packet : Packet) : Prop :=
  ∃ pre c post x response, searchNames S config name = pre ++ c :: post ∧
    (∀ a ∈ attempts (resolveCandidate S net) kind pre log, a.outcome.cached = none) ∧
    (resolveCandidate S net c kind
      (netAfter (resolveCandidate S net) kind pre log)).1.outcome.negative = true ∧
    (resolveCandidate S net c kind
      (netAfter (resolveCandidate S net) kind pre log)).2.2.getLast? = some x ∧
    x.result = .ok response ∧ parsedPacket S response = .ok packet ∧
    Echoes packet x.query.id x.query.name kind.dnsType

/-- The entry is kept no longer than every SOA of the reply, `negative_max_ttl` and
`NEGATIVE_TTL_MAX_SECS` allow. -/
structure RespectsSoa (builder : Builder) (log : List Exchange) (entry : CacheEntry) : Prop where
  le_max : ∀ max, builder.negativeMaxTtl = some max → entry.ttl.nanos ≤ max.nanos
  le_cap : entry.ttl.nanos ≤ negativeTtlMaxSecs * 1000000000
  le_soa : ∀ packet, FirstNegativeReply S net config name kind log packet →
    ∀ bound ∈ soaBounds packet, entry.ttl.nanos ≤ bound * 1000000000

variable {S net config name kind}

/-- A candidate that was answered ends with the reading of its last exchange. -/
theorem reading_of_last {c : Str} {log : List Exchange} {x : Exchange} {response : Bytes}
    {result : Except Error Bytes}
    (hend : (sendQueryFollowingCnames S net c kind.dnsType log).1 = result)
    (hresult : ∀ e, result = .error e → e = .nxDomain)
    (hx : (sendQueryFollowingCnames S net c kind.dnsType log).2.2.getLast? = some x)
    (hresponse : x.result = .ok response) :
    readReply S x.query.id x.query.name kind.dnsType response = .inl result := by
  unfold sendQueryFollowingCnames at hend hx
  rcases followCnames_cases S net kind.dnsType maxCnameDepth c log with
    ⟨hops, y, -, -, hlog, hy⟩ | ⟨e, he, hne⟩
  · have hxy : y = x := by
      rw [hlog, List.getLast?_append] at hx
      exact Option.some.inj hx
    unfold Exchange.reading at hy
    rw [hxy, hresponse, hend] at hy
    exact hy
  · exact absurd (hresult e (hend.symm.trans he)) hne

/-- The SOA bound that a negative attempt carries, in terms of its candidate's last reply. -/
theorem attempt_soa {c : Str} {log : List Exchange} {x : Exchange} {response : Bytes}
    {packet : Packet} (hneg : (resolveCandidate S net c kind log).1.outcome.negative = true)
    (hx : (resolveCandidate S net c kind log).2.2.getLast? = some x)
    (hresponse : x.result = .ok response) (hpacket : parsedPacket S response = .ok packet) :
    (resolveCandidate S net c kind log).1.soa.getD negativeTtlSecs = boundRead packet := by
  unfold boundRead
  rcases outcome_of_negative hneg with ⟨ttl, hres⟩ | hres
  · obtain ⟨response', hend, -, hsoa⟩ := readAttempt_ok S hres
    have hread := reading_of_last hend (fun e he => nomatch he) hx hresponse
    obtain ⟨rfl, packet', hpacket', hchecked, -⟩ := readReply_ok S hread
    cases hpacket.symm.trans hpacket'
    have hrcode := (checkResponse_ok hchecked).2
    rw [show (resolveCandidate S net c kind log).1.soa = negativeTtlOf S response' from hsoa,
      negativeTtlOf_eq S hpacket, ← List.head?_filterMap, if_neg (by rw [hrcode]; decide)]
    rfl
  · obtain ⟨hend, hsoa⟩ := readAttempt_nxDomain S hres
    have hread := reading_of_last hend (fun e he => (Except.error.inj he).symm) hx hresponse
    obtain ⟨packet', hpacket', hrcode⟩ := readReply_nxDomain S hread
    cases hpacket.symm.trans hpacket'
    rw [show (resolveCandidate S net c kind log).1.soa = none from hsoa, if_pos hrcode]
    rfl

/-- What the first absence of a walk is stored with: the bound its reply gives, capped. -/
theorem stored_ttl {log : List Exchange} {pre post : List Str} {c : Str} {res : CachedResult}
    (hn : searchNames S config name = pre ++ c :: post)
    (hpre : ∀ a ∈ attempts (resolveCandidate S net) kind pre log, a.outcome.cached = none)
    (hc : (resolveCandidate S net c kind
      (netAfter (resolveCandidate S net) kind pre log)).1.outcome.cached = some res)
    {packet : Packet} (hreply : FirstNegativeReply S net config name kind log packet) :
    (resolveCandidate S net c kind
      (netAfter (resolveCandidate S net) kind pre log)).1.soa.getD negativeTtlSecs =
        boundRead packet := by
  obtain ⟨pre', c', post', x, response, hn', hpre', hneg', hx, hresponse, hpacket, -⟩ := hreply
  rw [← attempt_soa hneg' hx hresponse hpacket]
  obtain ⟨res', hc'⟩ := Option.isSome_iff_exists.mp ((cached_isSome _).trans hneg')
  have hfind := find_negative (resolveCandidate S net) kind hn hpre hc
  have hfind' := find_negative (resolveCandidate S net) kind hn' hpre' hc'
  rw [Option.some.inj (hfind.symm.trans hfind')]

/-- A stored absence respects the SOA exactly when the bound the code starts from, capped, is
within every SOA of the reply that gave it. -/
theorem negative_ttl_iff {L : Type} [LruMap L UInt64 CacheEntry] [LawfulLruMap L]
    {cacheKey : Str → RecordKind → UInt64} {builder : Builder} {w w' : World (List Exchange) L}
    {r : Except Error (List Record)} {entry : CacheEntry}
    (hrun : lookupRecord S net cacheKey builder config name kind w = .ok (r, w'))
    (hstore : w'.inserts = w.inserts ++ [entry]) (hneg : entry.result.negative = true) :
    RespectsSoa S net config name kind builder w.net entry ↔
      ∀ packet, FirstNegativeReply S net config name kind w.net packet →
        ∀ bound ∈ soaBounds packet, min (boundRead packet) builder.negativeCap ≤ bound := by
  rcases lookup_inserts (resolveCandidate S net) kind cacheKey builder S config hrun with
    hsame | ⟨pre, c, post, rs, ttl, -, -, -, -, -, hins⟩ | ⟨pre, c, post, res, hn, hpre, hc, -, hins⟩
  · rw [hsame] at hstore
    simp at hstore
  · cases List.append_cancel_left (hins.symm.trans hstore)
    cases hneg
  · cases List.append_cancel_left (hins.symm.trans hstore)
    rw [negativeCacheTtlSecs_eq]
    have hcap : ∀ base, min base builder.negativeCap ≤ maxTtlSecs := fun base =>
      Nat.le_trans (Nat.min_le_right _ _) (Nat.le_trans (negativeCap_le builder) (by decide))
    have hsoa : ∀ packet, FirstNegativeReply S net config name kind w.net packet → _ :=
      fun packet h => stored_ttl hn hpre hc h
    constructor
    · intro h packet hreply bound hbound
      have hle := h.le_soa packet hreply bound hbound
      rw [make_ttl (hcap _), hsoa packet hreply] at hle
      omega
    · intro h
      refine ⟨fun max hmax => ?_, ?_, fun packet hreply bound hbound => ?_⟩
      · rw [make_ttl (hcap _)]
        exact Nat.le_trans (Nat.mul_le_mul_right _ (Nat.min_le_right _ _))
          (negativeCap_le_max hmax)
      · rw [make_ttl (hcap _)]
        exact Nat.mul_le_mul_right _ (Nat.le_trans (Nat.min_le_right _ _) (negativeCap_le builder))
      · rw [make_ttl (hcap _), hsoa packet hreply]
        exact Nat.mul_le_mul_right _ (h packet hreply bound hbound)

end NegativeTtl

/-! ## A name that does not exist, in a zone that allows five seconds -/

def goneName : Name := ⟨[asciiBytes "gone", asciiBytes "test"]⟩

def goneQuery : Bytes :=
  [18, 52, 1, 0, 0, 1, 0, 0, 0, 0, 0, 1] ++ 4 :: asciiBytes "gone" ++ 4 :: asciiBytes "test" ++
    [0, 0, 1, 0, 1] ++ [0, 0, 41, 4, 208, 0, 0, 0, 0, 0, 0]

def goneZone : Name := ⟨[asciiBytes "test"]⟩

def gonePacket : Packet where
  id := 4660
  flags := [.response, .recursionDesired]
  rcode := .nameError
  questions := [⟨goneName, .TYPE .A, .CLASS .IN⟩]
  answers := []
  nameServers := [⟨goneZone, .IN, 5, .soa ⟨goneZone, goneZone, 1, 60, 60, 60, 5⟩⟩]
  opt := none

def goneReply : Bytes :=
  [18, 52, 129, 131, 0, 1, 0, 0, 0, 1, 0, 0] ++ 4 :: asciiBytes "gone" ++
    4 :: asciiBytes "test" ++ [0, 0, 1, 0, 1] ++
    4 :: asciiBytes "test" ++ [0, 0, 6, 0, 1, 0, 0, 0, 5, 0, 32] ++
    4 :: asciiBytes "test" ++ [0] ++ 4 :: asciiBytes "test" ++ [0] ++
    [0, 0, 0, 1, 0, 0, 0, 60, 0, 0, 0, 60, 0, 0, 0, 60, 0, 0, 0, 5]

def goneDns : SimpleDns :=
  SimpleDns.ofTable [(queryPacket 4660 goneName .A, goneQuery), (gonePacket, goneReply)]

def goneNetwork : Network where
  randomId _ := 4660
  sendQuery _ _ := (.ok goneReply, 1000000)

/-- Absences are kept for up to five minutes. -/
def goneBuilder : Builder := { negativeMaxTtl := some (Duration.fromSecs 300 (by decide)) }

def goneWorld : World (List Exchange) Table := ⟨0, [], LruMap.new, []⟩

def goneLookup : Checked (Except Error (List Record) × World (List Exchange) Table) :=
  lookupRecord goneDns goneNetwork sampleKey goneBuilder {} "gone.test.".toList .a goneWorld

/-- The entry the lookup stores. -/
def goneEntry : CacheEntry := CacheEntry.make "gone.test.".toList .a .nxDomain 30 1000000

theorem gone_reply :
    FirstNegativeReply goneDns goneNetwork {} "gone.test.".toList .a [] gonePacket :=
  ⟨[], "gone.test.".toList, [], ⟨⟨"gone.test.".toList, goneName, .A, 4660, goneQuery⟩,
    .ok goneReply⟩, goneReply, rfl, fun _ ha => (nomatch ha), rfl, rfl, rfl, rfl,
    ⟨rfl, rfl, _, rfl, rfl, rfl, rfl⟩⟩

theorem negative_ttl_gone :
    RespectsSoa goneDns goneNetwork {} "gone.test.".toList .a goneBuilder [] goneEntry ↔
      ∀ packet, FirstNegativeReply goneDns goneNetwork {} "gone.test.".toList .a [] packet →
        ∀ bound ∈ soaBounds packet, min (boundRead packet) goneBuilder.negativeCap ≤ bound :=
  negative_ttl_iff (w := goneWorld) (Checked.eq_ok_get goneLookup ⟨_, rfl⟩) rfl rfl

/-- The absence is stored for 30 seconds. -/
theorem nxDomain_outlives_soa :
    (goneLookup.get ⟨_, rfl⟩).2.inserts = [goneEntry] ∧ goneEntry.result = .nxDomain ∧
      ¬ RespectsSoa goneDns goneNetwork {} "gone.test.".toList .a goneBuilder [] goneEntry := by
  refine ⟨rfl, rfl, fun h => ?_⟩
  have hle := h.le_soa gonePacket gone_reply 5 (by decide)
  exact absurd hle (by decide)

end N0DnsResolver
