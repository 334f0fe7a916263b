/-
  Answer precedence of the search walk.

  The outcomes of the candidates, in search order, decide what a lookup returns:
  `choose` picks the first that is records or a fatal error, else the first NODATA
  or NXDOMAIN, else the last. `FollowsPrecedence` says that the lookup returns the
  answer of the outcome chosen and queries no candidate after a deciding one.
-/
import N0DnsResolver.Lib.Choice
import N0DnsResolver.Theory.Loop

namespace N0DnsResolver

/-- What an outcome answers, given the stale records that are left. -/
def Outcome.answer (stale : Option (List Record)) : Outcome → Except Error (List Record)
  | .records rs => .ok rs
  | .noData => .ok []
  | .nxDomain => .error .nxDomain
  | .fatal e => .error e
  | .indeterminate e => stale.elim (.error e) .ok

theorem Outcome.answer_of_cached {o : Outcome} {r : CachedResult} (h : o.cached = some r)
    (stale : Option (List Record)) : o.answer stale = r.answer := by
  cases o <;> cases h <;> rfl

section Precedence

variable {N L : Type} (stage : Stage N) (kind : RecordKind)

/-- The outcomes of the candidates, each queried after the ones before it. -/
def outcomes (names : List Str) (net : N) : List Outcome :=
  (attempts stage kind names net).map Attempt.outcome

/-- The candidates up to the first that decides. -/
def asked : List Str → N → List Str
  | [], _ => []
  | name :: names, net =>
    if (stage name kind net).1.outcome.decisive then [name]
    else name :: asked names (stage name kind net).2.2

theorem asked_of_decisive {pre : List Str} {c : Str} (post : List Str) {net : N}
    (hpre : ∀ a ∈ attempts stage kind pre net, a.outcome.decisive = false)
    (hc : (stage c kind (netAfter stage kind pre net)).1.outcome.decisive = true) :
    asked stage kind (pre ++ c :: post) net = pre ++ [c] := by
  induction pre generalizing net with
  | nil => exact if_pos hc
  | cons name pre ih =>
    have hn : (stage name kind net).1.outcome.decisive = false := hpre _ List.mem_cons_self
    have hrest := ih (fun a ha => hpre a (List.mem_cons_of_mem _ ha)) hc
    show (if _ then _ else _) = _
    rw [hn, if_neg Bool.false_ne_true]
    exact congrArg (name :: ·) hrest

theorem asked_of_none {names : List Str} {net : N}
    (h : ∀ a ∈ attempts stage kind names net, a.outcome.decisive = false) :
    asked stage kind names net = names := by
  induction names generalizing net with
  | nil => rfl
  | cons name names ih =>
    have hn : (stage name kind net).1.outcome.decisive = false := h _ List.mem_cons_self
    have hrest := ih (fun a ha => h a (List.mem_cons_of_mem _ ha))
    show (if _ then _ else _) = _
    rw [hn, if_neg Bool.false_ne_true, hrest]

theorem outcomes_append (pre : List Str) (c : Str) (post : List Str) (net : N) :
    ∃ rest, outcomes stage kind (pre ++ c :: post) net =
      outcomes stage kind pre net ++
        (stage c kind (netAfter stage kind pre net)).1.outcome :: rest := by
  unfold outcomes
  rw [attempts_append, List.map_append]
  exact ⟨_, rfl⟩

theorem forall_outcomes {P : Outcome → Prop} {names : List Str} {net : N}
    (h : ∀ a ∈ attempts stage kind names net, P a.outcome) :
    ∀ o ∈ outcomes stage kind names net, P o := by
  intro o ho
  obtain ⟨a, ha, rfl⟩ := List.mem_map.mp ho
  exact h a ha

variable [LruMap L UInt64 CacheEntry] (cacheKey : Str → RecordKind → UInt64) (builder : Builder)
variable (S : SimpleDns) (config : Config) (name : Str)

/-- The lookup returns the answer of the outcome its precedence chooses, with the stale records
read at the end of the walk, after querying the candidates up to the first that decides. -/
def FollowsPrecedence (w : World N L) : Prop :=
  let names := searchNames S config name
  ∃ o w', choose Outcome.decisive Outcome.negative (outcomes stage kind names w.net) = some o ∧
    lookupRecordImpl cacheKey stage builder S config name kind w =
      .ok (o.answer (staleRecords builder (DnsCache.entryOf cacheKey w.cache name kind)
        (w.resolveAll stage kind names).now), w') ∧
    w'.net = netAfter stage kind (asked stage kind names w.net) w.net

variable {cacheKey builder S config name stage kind}

/-- A walk that ends at a candidate follows the precedence. -/
theorem follows_of_decisive {w w' : World N L} {pre : List Str} {c : Str} {post : List Str}
    {o : Outcome} (hn : searchNames S config name = pre ++ c :: post)
    (hpre : ∀ a ∈ attempts stage kind pre w.net, a.outcome.decisive = false)
    (hc : (stage c kind (netAfter stage kind pre w.net)).1.outcome = o) (ho : o.decisive = true)
    (hrun : ∀ stale, lookupRecordImpl cacheKey stage builder S config name kind w =
      .ok (o.answer stale, w'))
    (hnet : w'.net = netAfter stage kind (pre ++ [c]) w.net) :
    FollowsPrecedence stage kind cacheKey builder S config name w := by
  obtain ⟨rest, hout⟩ := outcomes_append stage kind pre c post w.net
  rw [hc] at hout
  refine ⟨o, w', ?_, hrun _, ?_⟩
  · rw [hn, hout]
    exact Choice.choose_of_decides rest (forall_outcomes stage kind hpre) ho
  · rw [hn, asked_of_decisive stage kind post hpre (by rw [hc, ho]), hnet]

/-- A walk that did not decide asked every candidate. -/
theorem follows_of_none {w w' : World N L} {o : Outcome}
    (hall : ∀ a ∈ attempts stage kind (searchNames S config name) w.net,
      a.outcome.decisive = false)
    (hch : choose Outcome.decisive Outcome.negative
      (outcomes stage kind (searchNames S config name) w.net) = some o)
    (hrun : lookupRecordImpl cacheKey stage builder S config name kind w =
      .ok (o.answer (staleRecords builder (DnsCache.entryOf cacheKey w.cache name kind)
        (w.resolveAll stage kind (searchNames S config name)).now), w'))
    (hnet : w'.net = netAfter stage kind (searchNames S config name) w.net) :
    FollowsPrecedence stage kind cacheKey builder S config name w := by
  refine ⟨o, w', hch, hrun, ?_⟩
  rw [asked_of_none stage kind hall, hnet]

/-- An entry that is there and was not returned is past its TTL. -/
theorem expired_of_miss [LawfulLruMap L] {w : World N L}
    (hmiss : (DnsCache.get cacheKey w.cache w.now name kind).1 = none) {entry : CacheEntry}
    (he : DnsCache.entryOf cacheKey w.cache name kind = some entry) {now : Instant}
    (hnow : w.now ≤ now) : entry.isExpired now = true := by
  rw [DnsCache.get_fst, he] at hmiss
  have hexp : entry.isExpired w.now = true := by
    by_contra hne
    simp [hne] at hmiss
  unfold CacheEntry.isExpired CacheEntry.age at hexp ⊢
  have hlt := of_decide_eq_true hexp
  exact decide_eq_true (Nat.lt_of_lt_of_le hlt (Nat.sub_le_sub_right hnow _))

/-- Unless nothing was learned and the window of the expired entry overflows, a lookup that misses
the cache follows the precedence. -/
theorem follows_of_miss [LawfulLruMap L] {w : World N L}
    (hmiss : (DnsCache.get cacheKey w.cache w.now name kind).1 = none)
    (hok : ¬ ((∀ o ∈ outcomes stage kind (searchNames S config name) w.net,
            ∃ e, o = .indeterminate e) ∧
          StaleOverflow builder (DnsCache.entryOf cacheKey w.cache name kind))) :
    FollowsPrecedence stage kind cacheKey builder S config name w := by
  obtain ⟨cache, -, hcases⟩ := lookup_cases stage kind cacheKey builder S config hmiss
  rcases hcases with
    ⟨pre, c, post, rs, ttl, hn, hpre, hres, hrs, hrun⟩ | ⟨pre, c, post, e, hn, hpre, hout, hrun⟩ |
      ⟨pre, c, post, r, hn, hall, hpre, hr, hrun⟩ | ⟨as, a, e, has, hind, ha, hrun⟩
  · -- records
    exact follows_of_decisive hn hpre (ofResult_records hres hrs) rfl (fun _ => hrun)
      (resolveAll_net ..)
  · -- a fatal error
    exact follows_of_decisive hn hpre hout rfl (fun _ => hrun) (resolveAll_net ..)
  · -- the first negative answer
    have hch : choose Outcome.decisive Outcome.negative
        (outcomes stage kind (searchNames S config name) w.net) =
          some (stage c kind (netAfter stage kind pre w.net)).1.outcome := by
      obtain ⟨rest, hout⟩ := outcomes_append stage kind pre c post w.net
      rw [hn] at hall ⊢
      rw [hout]
      refine Choice.choose_of_accepts rest (hout ▸ forall_outcomes stage kind hall)
        (forall_outcomes stage kind fun b hb => ?_) (by rw [← cached_isSome, hr]; rfl)
      rw [← cached_isSome, hpre b hb]
      rfl
    rw [← Outcome.answer_of_cached hr] at hrun
    refine follows_of_none hall hch hrun ?_
    split
    · exact resolveAll_net ..
    · exact resolveAll_net ..
  · -- nothing learned
    have hall : ∀ o ∈ outcomes stage kind (searchNames S config name) w.net,
        ∃ e, o = .indeterminate e :=
      forall_outcomes stage kind (has ▸ hind)
    have hdecides : ∀ o ∈ outcomes stage kind (searchNames S config name) w.net,
        o.decisive = false := by
      intro o ho
      obtain ⟨e', rfl⟩ := hall o ho
      rfl
    have hnegative : ∀ o ∈ outcomes stage kind (searchNames S config name) w.net,
        o.negative = false := by
      intro o ho
      obtain ⟨e', rfl⟩ := hall o ho
      rfl
    have hlast : (outcomes stage kind (searchNames S config name) w.net).getLast? =
        some (.indeterminate e) := by
      unfold outcomes
      rw [has, List.map_append, List.map_singleton, ha, List.getLast?_append]
      rfl
    rw [staleRead_eq builder fun hover => hok ⟨hall, hover⟩] at hrun
    exact follows_of_none (fun a' ha' => hdecides _ (List.mem_map_of_mem ha'))
      ((Choice.choose_last hdecides hnegative).trans hlast) hrun (resolveAll_net ..)

/-- Where nothing was learned and the window overflows, the lookup panics. -/
theorem lookup_panics [LawfulLruMap L] {w : World N L}
    (hmiss : (DnsCache.get cacheKey w.cache w.now name kind).1 = none)
    (hind : ∀ o ∈ outcomes stage kind (searchNames S config name) w.net,
      ∃ e, o = .indeterminate e)
    (hover : StaleOverflow builder (DnsCache.entryOf cacheKey w.cache name kind)) :
    lookupRecordImpl cacheKey stage builder S config name kind w = .error .overflow := by
  obtain ⟨cache, e, -, hrun⟩ := lookup_indeterminate stage kind cacheKey builder S config hmiss
    fun a ha => hind _ (List.mem_map_of_mem ha)
  rw [hrun, staleRead_overflow builder hover fun e' he' =>
    expired_of_miss hmiss he' (resolveAll_now_le stage kind w _)]
  rfl

/-- With no cached answer for the name, a lookup follows the precedence unless nothing was learned
and the window of the expired entry left for the name is out of range. -/
theorem lookup_precedence [LawfulLruMap L] {w : World N L}
    (hmiss : (DnsCache.get cacheKey w.cache w.now name kind).1 = none) :
    FollowsPrecedence stage kind cacheKey builder S config name w ↔
      ¬ ((∀ o ∈ outcomes stage kind (searchNames S config name) w.net,
            ∃ e, o = .indeterminate e) ∧
          StaleOverflow builder (DnsCache.entryOf cacheKey w.cache name kind)) := by
  refine ⟨?_, follows_of_miss hmiss⟩
  rintro ⟨o, w', -, hrun, -⟩ ⟨hind, hover⟩
  exact nomatch (lookup_panics hmiss hind hover).symm.trans hrun

end Precedence

/-- A stage that learns nothing, after five seconds each time. -/
def unreachableStage : Stage Unit := fun _ _ _ => (⟨.error .noResponse, none⟩, 5000000000, ())

/-- An answer for `db.` that left its TTL of one second a second ago. -/
def expiredWorld : World Unit Table where
  now := 2000000000
  net := ()
  cache := DnsCache.insert sampleKey LruMap.new 0 "db.".toList .a (.positive [.a ⟨7⟩]) 1
  inserts := []

theorem lookup_precedence_expired :
    FollowsPrecedence unreachableStage .a sampleKey
      { serveStale := some (Duration.fromSecs 9 (by decide)) } (SimpleDns.ofTable []) {}
      "db.".toList expiredWorld :=
  (lookup_precedence rfl).mpr fun h => by
    obtain ⟨-, maxAge, e, hm, he, hlt⟩ := h
    cases hm
    cases he
    exact absurd hlt (by decide)

/-- With a window of `Duration::MAX`, the lookup does not return. -/
theorem unbounded_window_panics :
    (DnsCache.get sampleKey expiredWorld.cache expiredWorld.now "db.".toList .a).1 = none ∧
      ¬ FollowsPrecedence unreachableStage .a sampleKey { serveStale := some Duration.max }
        (SimpleDns.ofTable []) {} "db.".toList expiredWorld := by
  refine ⟨rfl, ?_⟩
  rintro ⟨o, w', -, hrun, -⟩
  have hpanic : lookupRecordImpl sampleKey unreachableStage { serveStale := some Duration.max }
      (SimpleDns.ofTable []) {} "db.".toList .a expiredWorld = .error .overflow := rfl
  exact nomatch hpanic.symm.trans hrun

end N0DnsResolver
