/-
  Cache transparency.

  An oracle fixes what every DNS name holds, ASCII case and one trailing dot aside.
  Over it, a lookup with a cached answer is compared with the same lookup and an
  empty cache. They need not agree: the cache is read under the name as it was
  asked for, before the search list is applied, while the entry found may be that
  of a candidate (`Unmasked` says when they do agree).
-/
import N0DnsResolver.Model.Session
import N0DnsResolver.Theory.Precedence

namespace N0DnsResolver

/-- What a name holds of a kind. -/
inductive OracleAnswer where
  | records (rs : List Record) (ne : rs ≠ [])
  | noData
  | nxDomain

/-- The outcome of a query for the name. -/
def OracleAnswer.outcome : OracleAnswer → Outcome
  | .records rs _ => .records rs
  | .noData => .noData
  | .nxDomain => .nxDomain

/-- What all names hold, and what else shows in the replies, by the number of the query: the TTL
of a positive answer, the bound of a negative one's SOA, and how long the reply takes. -/
structure Oracle where
  answer : Str → RecordKind → OracleAnswer
  ttl : Nat → Nat
  ttl_pos : ∀ n, 1 ≤ ttl n
  soa : Nat → Option Nat
  delay : Nat → Nat

namespace Oracle

variable (oracle : Oracle) (S : SimpleDns)

def outcome (name : Str) (kind : RecordKind) : Outcome :=
  (oracle.answer (normalize name) kind).outcome

/-- The outcome of a candidate. A string that is no name cannot be queried. -/
def candidate (kind : RecordKind) (name : Str) : Outcome :=
  match S.nameNew name with
  | none => .fatal (.invalidName name)
  | some _ => oracle.outcome name kind

def attempt (kind : RecordKind) (name : Str) (n : Nat) : Attempt :=
  match S.nameNew name with
  | none => ⟨.error (.invalidName name), none⟩
  | some _ =>
    match oracle.answer (normalize name) kind with
    | .records rs _ => ⟨.ok (rs, oracle.ttl n), none⟩
    | .noData => ⟨.ok ([], 0), oracle.soa n⟩
    | .nxDomain => ⟨.error .nxDomain, oracle.soa n⟩

/-- Resolving a candidate by asking the oracle; the state counts the queries. -/
def stage : Stage Nat := fun name kind n => (oracle.attempt S kind name n, oracle.delay n, n + 1)

theorem attempt_outcome (kind : RecordKind) (name : Str) (n : Nat) :
    (oracle.attempt S kind name n).outcome = oracle.candidate S kind name := by
  unfold attempt candidate outcome
  cases S.nameNew name with
  | none => rfl
  | some _ =>
    simp only
    cases oracle.answer (normalize name) kind with
    | records rs ne => exact if_pos ne
    | noData => rfl
    | nxDomain => rfl

/-- A candidate's outcome is never indeterminate. -/
theorem candidate_known (kind : RecordKind) (name : Str) :
    ((oracle.candidate S kind name).decisive = false ∧
        ∃ r, (oracle.candidate S kind name).cached = some r) ∨
      (∃ rs, oracle.candidate S kind name = .records rs ∧ rs ≠ []) ∨
        oracle.candidate S kind name = .fatal (.invalidName name) := by
  unfold candidate outcome
  cases S.nameNew name with
  | none => exact .inr (.inr rfl)
  | some _ =>
    simp only
    cases oracle.answer (normalize name) kind with
    | records rs ne => exact .inr (.inl ⟨rs, rfl, ne⟩)
    | noData => exact .inl ⟨rfl, _, rfl⟩
    | nxDomain => exact .inl ⟨rfl, _, rfl⟩

theorem outcomes_eq (kind : RecordKind) (names : List Str) (n : Nat) :
    outcomes (oracle.stage S) kind names n = names.map (oracle.candidate S kind) := by
  induction names generalizing n with
  | nil => rfl
  | cons name names ih =>
    have hrest := ih (n + 1)
    have hhead := oracle.attempt_outcome S kind name n
    show (oracle.attempt S kind name n).outcome ::
      outcomes (oracle.stage S) kind names (n + 1) = _
    rw [hhead, hrest, List.map_cons]

/-- An attempt that returned records returned those of the name. -/
theorem attempt_ok {kind : RecordKind} {name : Str} {n : Nat} {rs : List Record} {ttl : Nat}
    (h : (oracle.attempt S kind name n).res = .ok (rs, ttl)) (hrs : rs ≠ []) :
    oracle.outcome name kind = .records rs := by
  have hout := ofResult_records h hrs
  rw [show Outcome.ofResult _ = oracle.candidate S kind name from
    oracle.attempt_outcome S kind name n] at hout
  unfold candidate at hout
  cases hn : S.nameNew name with
  | none => rw [hn] at hout; cases hout
  | some _ => rw [hn] at hout; exact hout

end Oracle

section Transparency

variable {L : Type} [LruMap L UInt64 CacheEntry] (cacheKey : Str → RecordKind → UInt64)
variable (oracle : Oracle) (builder : Builder) (S : SimpleDns)

/-- The result of a lookup, without its effects. -/
def Session.result (s : Session Nat L) (name : Str) (kind : RecordKind) :
    Checked (Except Error (List Record)) :=
  (s.lookup cacheKey (oracle.stage S) builder S name kind).map Prod.fst

/-- The session with an empty cache. -/
def Session.uncached (s : Session Nat L) : Session Nat L :=
  { s with world := { s.world with cache := LruMap.new } }

/-- What walking the search list answers. -/
def Oracle.walk (config : Config) (name : Str) (kind : RecordKind) : Option Outcome :=
  choose Outcome.decisive Outcome.negative
    ((searchNames S config name).map (oracle.candidate S kind))

/-- A live entry for the name does not hide what walking the search list would find: for a
positive one, the first candidate that ends the walk holds the name's own records; for an absence,
no candidate ends the walk and it is what the first one reports. -/
def Unmasked (s : Session Nat L) (name : Str) (kind : RecordKind) : Prop :=
  ∀ entry, DnsCache.entryOf cacheKey s.world.cache name kind = some entry →
    entry.isExpired s.world.now = false →
    if entry.result.negative then
      (∀ c ∈ searchNames S s.config name, (oracle.candidate S kind c).decisive = false) ∧
        ∃ c, (searchNames S s.config name).head? = some c ∧
          (oracle.candidate S kind c).cached = some entry.result
    else ((searchNames S s.config name).map (oracle.candidate S kind)).find? Outcome.decisive =
      some (oracle.outcome name kind)

variable {cacheKey oracle builder S}

/-- Without a cached answer the walk's answer is returned. -/
theorem result_of_miss [LawfulLruMap L] {s : Session Nat L} {name : Str} {kind : RecordKind}
    (hmiss : (DnsCache.get cacheKey s.world.cache s.world.now name kind).1 = none) :
    ∃ o, oracle.walk S s.config name kind = some o ∧
      s.result cacheKey oracle builder S name kind = .ok (o.answer none) := by
  have hknown : ∀ o ∈ outcomes (oracle.stage S) kind (searchNames S s.config name) s.world.net,
      ∀ e, o ≠ .indeterminate e := by
    intro o ho e he
    rw [oracle.outcomes_eq] at ho
    obtain ⟨c, -, hc⟩ := List.mem_map.mp ho
    rw [he] at hc
    rcases oracle.candidate_known S kind c with ⟨-, r, hr⟩ | ⟨rs, hrs, -⟩ | hf
    · rw [hc] at hr
      cases hr
    · exact nomatch hc.symm.trans hrs
    · exact nomatch hc.symm.trans hf
  have hok : ¬ ((∀ o ∈ outcomes (oracle.stage S) kind (searchNames S s.config name) s.world.net,
        ∃ e, o = .indeterminate e) ∧
      StaleOverflow builder (DnsCache.entryOf cacheKey s.world.cache name kind)) := by
    rintro ⟨hall, -⟩
    obtain ⟨c, hc⟩ := List.exists_mem_of_ne_nil _ (searchNames_ne_nil S name s.config)
    have hmem : oracle.candidate S kind c ∈
        outcomes (oracle.stage S) kind (searchNames S s.config name) s.world.net := by
      rw [oracle.outcomes_eq]
      exact List.mem_map_of_mem hc
    obtain ⟨e, he⟩ := hall _ hmem
    exact hknown _ hmem e he
  have hfollows : FollowsPrecedence (oracle.stage S) kind cacheKey builder S s.config name
      s.world := follows_of_miss hmiss hok
  obtain ⟨o, w', hch, hrun, -⟩ := hfollows
  refine ⟨o, ?_, ?_⟩
  · unfold Oracle.walk
    rw [← oracle.outcomes_eq S kind _ s.world.net, hch]
  · have hans : o.answer (staleRecords builder
        (DnsCache.entryOf cacheKey s.world.cache name kind)
        (s.world.resolveAll (oracle.stage S) kind (searchNames S s.config name)).now) =
          o.answer none := by
      cases o with
      | indeterminate e => exact absurd rfl (hknown _ (Choice.choose_mem hch) e)
      | records rs => rfl
      | noData => rfl
      | nxDomain => rfl
      | fatal e => rfl
    unfold Session.result Session.lookup
    rw [hrun, hans]
    rfl

/-- A positive entry holds the records of the name it is for. -/
def Oracle.Truthful (oracle : Oracle) (entry : CacheEntry) : Prop :=
  ∀ rs, entry.result = .positive rs →
    (oracle.answer entry.host entry.kind).outcome = .records rs ∧ rs ≠ []

/-- Every lookup writes truthful entries only. -/
theorem lookup_truthful [LawfulLruMap L] (s : Session Nat L) (name : Str) (kind : RecordKind)
    (r : Except Error (List Record)) (w : World Nat L)
    (hrun : s.lookup cacheKey (oracle.stage S) builder S name kind = .ok (r, w)) (k : UInt64)
    (entry : CacheEntry) (hk : LruMap.peek w.cache k = some entry) :
    LruMap.peek s.world.cache k = some entry ∨ oracle.Truthful entry := by
  rcases lookup_entries (oracle.stage S) kind cacheKey builder S s.config hrun hk with
    hold | ⟨pre, c, post, rs, ttl, -, hres, hrs, -, rfl⟩ | ⟨res, ttl, now, hneg, rfl⟩
  · exact .inl hold
  · right
    intro rs' hrs'
    cases hrs'
    exact ⟨oracle.attempt_ok S hres hrs, hrs⟩
  · right
    intro rs' hrs'
    have hres : res = .positive rs' := hrs'
    rw [hres] at hneg
    cases hneg

/-- After any run of calls on a new resolver, the positive entries are truthful. -/
theorem run_truthful [LawfulLruMap L] {config : Config} {n : Nat} {calls : List Call}
    {s : Session Nat L}
    (hrun : Machine.run (Session.call cacheKey (oracle.stage S) builder S)
      (Session.start config n) calls = some s) {k : UInt64} {entry : CacheEntry}
    (hk : LruMap.peek s.world.cache k = some entry) : oracle.Truthful entry := by
  refine Session.run_entries (P := fun _ entry => oracle.Truthful entry) ?_ hrun k entry hk
  intro s name kind r w hlookup hs k entry hk
  rcases lookup_truthful s name kind r w hlookup k entry hk with hold | hnew
  · exact hs k entry hold
  · exact hnew

/-- Records cached for the name are what the walk finds when the first candidate that ends it
holds them. -/
theorem positive_agrees_iff {config : Config} {name : Str} {kind : RecordKind} {o : Outcome}
    {rs : List Record} (hwalk : oracle.walk S config name kind = some o) (hrs : rs ≠ []) :
    (Except.ok rs : Except Error (List Record)) = o.answer none ↔
      ((searchNames S config name).map (oracle.candidate S kind)).find? Outcome.decisive =
        some (.records rs) := by
  have hchoose : choose Outcome.decisive Outcome.negative
      ((searchNames S config name).map (oracle.candidate S kind)) = some (.records rs) ↔ _ :=
    Choice.choose_eq_some_iff_of_decides rfl
  rw [← hchoose]
  unfold Oracle.walk at hwalk
  rw [hwalk]
  constructor
  · intro h
    cases o with
    | records rs' => cases h; rfl
    | noData => cases h; exact absurd rfl hrs
    | nxDomain => cases h
    | indeterminate e => cases h
    | fatal e => cases h
  · intro h
    cases h
    rfl

theorem negative_answer_inj {r r' : CachedResult} (hr : r.negative = true)
    (hr' : r'.negative = true) (h : r.answer = r'.answer) : r = r' := by
  cases r <;> cases r' <;> simp_all [CachedResult.negative, CachedResult.answer]

/-- Where no candidate ends the walk, its first candidate's absence is reported. -/
theorem walk_eq_head {config : Config} {name : Str} {kind : RecordKind}
    (hd : ∀ c ∈ searchNames S config name, (oracle.candidate S kind c).decisive = false) :
    oracle.walk S config name kind =
      (searchNames S config name).head?.map (oracle.candidate S kind) := by
  unfold Oracle.walk
  rw [← List.head?_map]
  refine Choice.choose_eq_head? ?_ ?_
  · intro o ho
    obtain ⟨c, hc, rfl⟩ := List.mem_map.mp ho
    exact hd c hc
  · intro o ho
    obtain ⟨c, hc, rfl⟩ := List.mem_map.mp ho
    have hdc := hd c hc
    rcases oracle.candidate_known S kind c with ⟨-, r, hr⟩ | ⟨rs, hrs, -⟩ | hf
    · rw [← cached_isSome, hr]
      rfl
    · rw [hrs] at hdc
      cases hdc
    · rw [hf] at hdc
      cases hdc

/-- A cached absence is what the walk reports when nothing ends it and its first candidate reports
that absence. -/
theorem negative_agrees_iff {config : Config} {name : Str} {kind : RecordKind} {o : Outcome}
    {r : CachedResult} (hwalk : oracle.walk S config name kind = some o)
    (hr : r.negative = true) :
    r.answer = o.answer none ↔
      (∀ c ∈ searchNames S config name, (oracle.candidate S kind c).decisive = false) ∧
        ∃ c, (searchNames S config name).head? = some c ∧
          (oracle.candidate S kind c).cached = some r := by
  constructor
  · intro h
    obtain ⟨c, -, hc⟩ := List.mem_map.mp (Choice.choose_mem hwalk)
    rcases oracle.candidate_known S kind c with ⟨hdec, r', hr'⟩ | ⟨rs, hrs, hne⟩ | hf
    · rw [hc] at hdec hr'
      have hd : ∀ c ∈ searchNames S config name,
          (oracle.candidate S kind c).decisive = false := fun c hc =>
        Choice.forall_of_choose hwalk hdec _ (List.mem_map_of_mem hc)
      rw [walk_eq_head hd] at hwalk
      obtain ⟨c₀, hc₀, rfl⟩ := Option.map_eq_some_iff.mp hwalk
      rw [Outcome.answer_of_cached hr'] at h
      rw [negative_answer_inj hr (cached_ne_positive hr') h]
      exact ⟨hd, c₀, hc₀, hr'⟩
    · rw [← hc, hrs] at h
      cases r <;> cases h
      · cases hr
      · exact absurd rfl hne
    · rw [← hc, hf] at h
      cases r <;> cases h
  · rintro ⟨hd, c, hc, hcr⟩
    rw [walk_eq_head hd, hc] at hwalk
    cases hwalk
    exact (Outcome.answer_of_cached hcr none).symm

/-- Over every run of lookups, resets and idle gaps from an empty cache, a lookup returns what it
returns with an empty cache exactly when no live entry for the name hides the walk. -/
theorem lookup_transparent_iff [LawfulLruMap L] {config : Config} {n : Nat} {calls : List Call}
    {s : Session Nat L}
    (hrun : Machine.run (Session.call cacheKey (oracle.stage S) builder S)
      (Session.start config n) calls = some s) (name : Str) (kind : RecordKind) :
    s.result cacheKey oracle builder S name kind =
        s.uncached.result cacheKey oracle builder S name kind ↔
      Unmasked cacheKey oracle S s name kind := by
  have hmiss : (DnsCache.get cacheKey s.uncached.world.cache s.uncached.world.now name kind).1 =
      none := by
    rw [DnsCache.get_fst, DnsCache.entryOf_eq_none cacheKey
      (show LruMap.peek s.uncached.world.cache _ = none from LawfulLruMap.peek_new _)]
  have huncached : ∃ o, oracle.walk S s.uncached.config name kind = some o ∧
      s.uncached.result cacheKey oracle builder S name kind = .ok (o.answer none) :=
    result_of_miss hmiss
  obtain ⟨o, hwalk, hunc⟩ := huncached
  cases hget : (DnsCache.get cacheKey s.world.cache s.world.now name kind).1 with
  | none =>
    have hcached : ∃ o, oracle.walk S s.config name kind = some o ∧
        s.result cacheKey oracle builder S name kind = .ok (o.answer none) := result_of_miss hget
    obtain ⟨o', hwalk', hres⟩ := hcached
    refine iff_of_true ?_ fun entry he hlive => ?_
    · rw [hres, hunc, Option.some.inj (hwalk'.symm.trans hwalk)]
    · exact nomatch hget.symm.trans ((DnsCache.get_eq_some cacheKey).mpr ⟨entry, he, hlive, rfl⟩)
  | some r =>
    have hres : s.result cacheKey oracle builder S name kind = .ok r.answer := by
      unfold Session.result Session.lookup
      rw [lookup_hit (oracle.stage S) kind cacheKey builder S s.config hget]
      rfl
    obtain ⟨entry, hfound, hlive, rfl⟩ := (DnsCache.get_eq_some cacheKey).mp hget
    obtain ⟨hpeek, hfor⟩ := (DnsCache.entryOf_eq_some cacheKey).mp hfound
    have hunmasked : Unmasked cacheKey oracle S s name kind ↔
        if entry.result.negative then
          (∀ c ∈ searchNames S s.config name, (oracle.candidate S kind c).decisive = false) ∧
            ∃ c, (searchNames S s.config name).head? = some c ∧
              (oracle.candidate S kind c).cached = some entry.result
        else ((searchNames S s.config name).map (oracle.candidate S kind)).find?
          Outcome.decisive = some (oracle.outcome name kind) := by
      refine ⟨fun h => h entry hfound hlive, fun h e he _ => ?_⟩
      cases hfound.symm.trans he
      exact h
    rw [hres, hunc, hunmasked, Except.ok.injEq]
    cases hr : entry.result with
    | noData => exact negative_agrees_iff hwalk rfl
    | nxDomain => exact negative_agrees_iff hwalk rfl
    | positive rs =>
      obtain ⟨hans, hne⟩ := run_truthful hrun hpeek rs hr
      have hname : oracle.outcome name kind = .records rs := by
        unfold CacheEntry.isFor at hfor
        rw [Bool.and_eq_true, beq_iff_eq, beq_iff_eq] at hfor
        unfold Oracle.outcome
        rw [← hfor.1, ← hfor.2, hans]
      rw [hname]
      exact positive_agrees_iff hwalk hne

end Transparency

/-- `db` is one host at the root and another in the `corp` domain; nothing else exists. -/
def officeOracle : Oracle where
  answer name _ :=
    if name = "db".toList then .records [.a ⟨7⟩] (List.cons_ne_nil _ _)
    else if name = "db.corp".toList then .records [.a ⟨8⟩] (List.cons_ne_nil _ _)
    else .nxDomain
  ttl _ := 300
  ttl_pos _ := by decide
  soa _ := none
  delay _ := 1000000

def officeConfig : Config := { searchDomains := ["corp".toList] }

/-- `db.` was looked up once. -/
def officeSession : Option (Session Nat Table) :=
  Machine.run (Session.call sampleKey (officeOracle.stage (SimpleDns.ofTable [])) {}
    (SimpleDns.ofTable [])) (Session.start officeConfig 0) [.lookup "db.".toList .a]

theorem lookup_transparent_office :
    (officeSession.get rfl).result sampleKey officeOracle {} (SimpleDns.ofTable [])
        "db.".toList .a =
      (officeSession.get rfl).uncached.result sampleKey officeOracle {} (SimpleDns.ofTable [])
        "db.".toList .a ↔
      Unmasked sampleKey officeOracle (SimpleDns.ofTable []) (officeSession.get rfl)
        "db.".toList .a :=
  lookup_transparent_iff (Option.some_get rfl).symm "db.".toList .a

/-- The root's `db`, in the cache, is returned for the name `db`, which the search list completes
to the `db` of `corp`. -/
theorem absolute_masks_relative :
    (officeSession.get rfl).result sampleKey officeOracle {} (SimpleDns.ofTable [])
        "db".toList .a ≠
      (officeSession.get rfl).uncached.result sampleKey officeOracle {} (SimpleDns.ofTable [])
        "db".toList .a := by
  have hcached : (officeSession.get rfl).result sampleKey officeOracle {} (SimpleDns.ofTable [])
      "db".toList .a = .ok (.ok [.a ⟨7⟩]) := rfl
  have hwalked : (officeSession.get rfl).uncached.result sampleKey officeOracle {}
      (SimpleDns.ofTable []) "db".toList .a = .ok (.ok [.a ⟨8⟩]) := rfl
  rw [hcached, hwalked]
  decide

end N0DnsResolver
