/-
  The names that the candidates of a lookup denote.

  `search_names` keeps each candidate once as a text. Two texts denote one name when
  their labels are the same up to ASCII case, so no name is asked for twice exactly when
  the entries of the search list that apply to the name are not two spellings of one
  domain, and none of them is the root (`searchNames_distinct_iff`, `walk_asks_once`).
-/
import N0DnsResolver.Lib.Fields
import N0DnsResolver.Theory.Localhost
import N0DnsResolver.Theory.SearchList
import Mathlib.Data.List.Nodup

namespace N0DnsResolver

/-! ## What a text denotes -/

/-- The labels of the name that a text denotes, in lower case. A dot at the end makes no label. -/
def nameLabels (s : Str) : List Str := (fields (· == '.') s).map (·.map Char.toLower)

/-- The texts denote one DNS name. -/
def SameName (s t : Str) : Prop := nameLabels s = nameLabels t

theorem nameLabels_expand (host domain : Str) :
    nameLabels (expand host domain) = nameLabels host ++ nameLabels domain := by
  unfold nameLabels expand
  rw [Fields.fields_append_cons (by rfl), List.map_append]

/-- The labels of a text are those of the name it parses as. -/
theorem folded_nameNew {S : SimpleDns} (hS : S.SplitsAtDots) {s : Str} {name : Name}
    (h : S.nameNew s = some name) :
    name.folded = (nameLabels s).map Utf8.encode := by
  have hpieces : (s.splitOn '.').filter (· ≠ []) = fields (· == '.') s := by
    unfold fields
    rw [List.splitOn_eq_splitOnP]
    apply List.filter_congr
    intro piece _
    cases piece <;> rfl
  unfold Name.folded nameLabels
  rw [hS s name h, hpieces, List.map_map, List.map_map]
  apply List.map_congr_left
  intro label _
  exact (encode_toLower label).symm

/-- Of two texts that parse, the names are equal for `names_equal` exactly when the texts denote one
name. -/
theorem namesEqual_iff_sameName {S : SimpleDns} (hS : S.SplitsAtDots) {s t : Str} {m n : Name}
    (hs : S.nameNew s = some m) (ht : S.nameNew t = some n) :
    namesEqual m n = true ↔ SameName s t := by
  have hinj : Function.Injective (List.map Utf8.encode) :=
    List.map_injective_iff.mpr fun _ _ h => Utf8.encode_injective h
  rw [namesEqual_iff, folded_nameNew hS hs, folded_nameNew hS ht]
  exact hinj.eq_iff

/-! ## The candidates -/

section Search

variable (S : SimpleDns) (config : Config) (host : Str)

/-- The entries of the search list that make a valid name of the host. -/
def appliedDomains : List Str :=
  config.searchDomains.filter fun domain => (S.nameNew (expand host domain)).isSome

theorem mem_validExpansions {x : Str} :
    x ∈ validExpansions S config host ↔ ∃ d ∈ appliedDomains S config host, x = expand host d := by
  unfold validExpansions appliedDomains
  simp only [List.mem_filter, List.mem_map]
  constructor
  · rintro ⟨⟨d, hd, rfl⟩, hvalid⟩
    exact ⟨d, ⟨hd, hvalid⟩, rfl⟩
  · rintro ⟨d, ⟨hd, hvalid⟩, rfl⟩
    exact ⟨⟨d, hd, rfl⟩, hvalid⟩

variable {config host}

theorem mem_searchNames (hrel : host.getLast? ≠ some '.') (hsearch : config.searchDomains ≠ [])
    {x : Str} :
    x ∈ searchNames S config host ↔
      x = host ∨ ∃ d ∈ appliedDomains S config host, x = expand host d := by
  rw [searchNames_eq S hrel hsearch, ← mem_validExpansions]
  split
  · rw [List.mem_cons, List.mem_eraseDups]
  · rw [List.mem_append, List.mem_singleton, List.mem_eraseDups]
    exact or_comm

variable (config host)

/-- The entries that apply to the host are not two spellings of one domain, and none is the root. -/
structure DistinctDomains : Prop where
  root : ∀ d ∈ appliedDomains S config host, nameLabels d ≠ []
  spelling : ∀ d ∈ appliedDomains S config host, ∀ e ∈ appliedDomains S config host,
    nameLabels d = nameLabels e → d = e

/-- Between an expansion and the host, and between two expansions, the name is the same when the
domains add the same labels. -/
theorem inj_on_iff_distinctDomains :
    (∀ x, (x = host ∨ ∃ d ∈ appliedDomains S config host, x = expand host d) →
        ∀ y, (y = host ∨ ∃ d ∈ appliedDomains S config host, y = expand host d) →
          nameLabels x = nameLabels y → x = y) ↔
      DistinctDomains S config host := by
  constructor
  · intro h
    refine ⟨fun d hd hroot => ?_, fun d hd e he hlabels => ?_⟩
    · apply expand_ne host d
      apply h _ (.inr ⟨d, hd, rfl⟩) _ (.inl rfl)
      rw [nameLabels_expand, hroot, List.append_nil]
    · have hexpand := h _ (.inr ⟨d, hd, rfl⟩) _ (.inr ⟨e, he, rfl⟩)
        (by rw [nameLabels_expand, nameLabels_expand, hlabels])
      exact (List.cons.inj (List.append_cancel_left hexpand)).2
  · intro h
    have hroot : ∀ d ∈ appliedDomains S config host,
        nameLabels host ≠ nameLabels (expand host d) := by
      intro d hd heq
      rw [nameLabels_expand] at heq
      exact h.root d hd (List.self_eq_append_right.mp heq)
    rintro x (rfl | ⟨d, hd, rfl⟩) y (rfl | ⟨e, he, rfl⟩) hlabels
    · rfl
    · exact absurd hlabels (hroot e he)
    · exact absurd hlabels.symm (hroot d hd)
    · rw [nameLabels_expand, nameLabels_expand] at hlabels
      rw [h.spelling d hd e he (List.append_cancel_left hlabels)]

/-- No two candidates denote one name. -/
def DistinctNames (names : List Str) : Prop := names.Pairwise fun s t => ¬ SameName s t

theorem distinctNames_iff_nodup (names : List Str) :
    DistinctNames names ↔ (names.map nameLabels).Nodup := by
  unfold DistinctNames
  rw [List.Nodup, List.pairwise_map]
  rfl

theorem distinctNames_singleton (name : Str) : DistinctNames [name] := List.pairwise_singleton _ _

/-- No two candidates denote one name exactly when the host is absolute or the entries of the search
list that apply to it are distinct domains. -/
theorem searchNames_distinct_iff :
    DistinctNames (searchNames S config host) ↔
      host.getLast? = some '.' ∨ DistinctDomains S config host := by
  by_cases habs : host.getLast? = some '.'
  · rw [searchNames_eq_singleton S host (.inl habs)]
    exact iff_of_true (distinctNames_singleton host) (.inl habs)
  rw [or_iff_right habs]
  by_cases hsearch : config.searchDomains = []
  · have hnone : ∀ d, d ∉ appliedDomains S config host := by
      intro d hd
      have hmem := (List.mem_filter.mp hd).1
      rw [hsearch] at hmem
      cases hmem
    rw [searchNames_eq_singleton S host (.inr hsearch)]
    exact iff_of_true (distinctNames_singleton host)
      ⟨fun d hd => absurd hd (hnone d), fun d hd => absurd hd (hnone d)⟩
  · rw [distinctNames_iff_nodup, List.nodup_map_iff_inj_on (searchNames_nodup S habs hsearch),
      ← inj_on_iff_distinctDomains]
    simp only [mem_searchNames S habs hsearch]

/-- Then the names that a lookup asks for, one for each candidate that parses, are pairwise
different for `names_equal`. -/
theorem asked_names_differ (hS : S.SplitsAtDots)
    (h : DistinctNames (searchNames S config host)) :
    ((searchNames S config host).filterMap S.nameNew).Pairwise
      fun m n => namesEqual m n = false := by
  rw [List.pairwise_filterMap]
  apply h.imp
  intro s t hne m hm n hn
  rw [Bool.eq_false_iff]
  intro hequal
  exact hne ((namesEqual_iff_sameName hS hm hn).mp hequal)

end Search

/-! ## The questions of a lookup -/

section Questions

variable {S : SimpleDns} {net : Network}

/-- No reply leads on to an alias. -/
def NoAliases (S : SimpleDns) (net : Network) : Prop :=
  ∀ log query response target, (net.sendQuery log query).1 = .ok response →
    readReply S query.id query.name query.qtype response ≠ .inr target

/-- A candidate is asked for at most once, by its own name. -/
theorem followCnames_names (h : NoAliases S net) (qtype : TYPE) (fuel : Nat) (host : Str)
    (log : List Exchange) :
    ∃ asked, (followCnames S net qtype fuel host log).2.2 = log ++ asked ∧
      (asked.map fun x => x.query.name).Sublist (S.nameNew host).toList := by
  have hquiet : ∃ asked, log = log ++ asked ∧
      (asked.map fun x => x.query.name).Sublist (S.nameNew host).toList :=
    ⟨[], (List.append_nil log).symm, List.nil_sublist _⟩
  cases fuel with
  | zero => exact hquiet
  | succ fuel =>
    unfold followCnames
    cases hname : S.nameNew host with
    | none =>
      rw [hname] at hquiet
      exact hquiet
    | some name =>
      rw [hname] at hquiet
      simp only
      cases hbytes : buildQuery S (net.randomId log) host qtype with
      | error e => exact hquiet
      | ok bytes =>
        simp only
        cases hsent : (net.sendQuery log ⟨host, name, qtype, net.randomId log, bytes⟩).1 with
        | error e => exact ⟨_, rfl, List.Sublist.refl _⟩
        | ok response =>
          simp only
          cases hread : readReply S (net.randomId log) name qtype response with
          | inl r => exact ⟨_, rfl, List.Sublist.refl _⟩
          | inr target => exact absurd hread (h log _ response target hsent)

/-- So are candidates, one after the other. -/
theorem netAfter_names (h : NoAliases S net) (kind : RecordKind) (names : List Str)
    (log : List Exchange) :
    ∃ asked, netAfter (resolveCandidate S net) kind names log = log ++ asked ∧
      (asked.map fun x => x.query.name).Sublist (names.filterMap S.nameNew) := by
  induction names generalizing log with
  | nil => exact ⟨[], (List.append_nil log).symm, List.nil_sublist _⟩
  | cons name names ih =>
    obtain ⟨first, hfirst, hname⟩ := followCnames_names h kind.dnsType maxCnameDepth name log
    obtain ⟨rest, hrest, hnames⟩ := ih (log ++ first)
    have hstep : (resolveCandidate S net name kind log).2.2 = log ++ first := hfirst
    refine ⟨first ++ rest, ?_, ?_⟩
    · rw [netAfter_cons, hstep, hrest, List.append_assoc]
    · rw [List.map_append]
      cases hnew : S.nameNew name with
      | none =>
        rw [hnew] at hname
        rw [List.filterMap_cons_none hnew]
        exact hname.append hnames
      | some n =>
        rw [hnew] at hname
        rw [List.filterMap_cons_some hnew]
        exact hname.append hnames

variable {L : Type} [LruMap L UInt64 CacheEntry] (cacheKey : Str → RecordKind → UInt64)
variable (builder : Builder)

/-- Where the candidates denote distinct names, a lookup that is led to no alias asks for no name
twice, however its queries end. -/
theorem walk_asks_once (hS : S.SplitsAtDots) (h : NoAliases S net) {config : Config} {host : Str}
    (hnames : DistinctNames (searchNames S config host))
    (kind : RecordKind) (st : LoopState) (w : World (List Exchange) L) :
    ∃ asked, (candidateLoop cacheKey (resolveCandidate S net) builder kind
        (searchNames S config host) st w).2.net = w.net ++ asked ∧
      (asked.map fun x => x.query.name).Pairwise fun m n => namesEqual m n = false := by
  obtain ⟨tried, hprefix, hnet⟩ := candidateLoop_net (resolveCandidate S net) kind cacheKey builder
    (searchNames S config host) st w
  obtain ⟨asked, hasked, hsub⟩ := netAfter_names h kind tried w.net
  refine ⟨asked, hnet.trans hasked, ?_⟩
  have htried := List.Sublist.filterMap S.nameNew hprefix.sublist
  exact (asked_names_differ S config host hS hnames).sublist (hsub.trans htried)

end Questions

/-! ## A domain in two spellings -/

def twiceConfig : Config := { searchDomains := ["corp.lan".toList, "Corp.LAN.".toList] }

/-- No query is answered. -/
def silentNet : Network where
  randomId _ := 4660
  sendQuery _ _ := (.error .noResponse, 0)

/-- The names of the queries of `lookup_ipv4` for `db`, when no query is answered. -/
def failedNames : List Name :=
  (addressLog (SimpleDns.ofTexts []) silentNet sampleKey {} twiceConfig .a (Hosts.lookupIpv4 {})
    "db".toList newWorld).map fun x => x.query.name

/-- Both spellings make a candidate, and a lookup that fails asks for the same name twice. -/
theorem searchNames_repeats :
    searchNames (SimpleDns.ofTexts []) twiceConfig "db".toList =
        ["db.corp.lan".toList, "db.Corp.LAN.".toList, "db".toList] ∧
      ¬ DistinctNames (searchNames (SimpleDns.ofTexts []) twiceConfig "db".toList) ∧
      failedNames = [⟨[asciiBytes "db", asciiBytes "corp", asciiBytes "lan"]⟩,
        ⟨[asciiBytes "db", asciiBytes "Corp", asciiBytes "LAN"]⟩, ⟨[asciiBytes "db"]⟩] ∧
      namesEqual ⟨[asciiBytes "db", asciiBytes "corp", asciiBytes "lan"]⟩
        ⟨[asciiBytes "db", asciiBytes "Corp", asciiBytes "LAN"]⟩ = true := by
  have hnames : searchNames (SimpleDns.ofTexts []) twiceConfig "db".toList =
      ["db.corp.lan".toList, "db.Corp.LAN.".toList, "db".toList] := by decide +kernel
  refine ⟨hnames, ?_, by rfl, by decide⟩
  rw [hnames, distinctNames_iff_nodup]
  decide

end N0DnsResolver
