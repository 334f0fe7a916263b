/-
  What lookups under way at the same time can do to each other.

  `Turn` says once what a step can do. A lookup that goes on from the cache walks its own
  candidates and nobody else's: `Task.Follows` says how far it has come, and nothing another
  lookup does changes that. The cache is where they meet. Every entry written to it is
  vouched for by a lookup that is over (`Task.Vouches`), and what is read from it is the
  latest entry of the name and kind since the cache was last cleared (`inquiries_answered`).
-/
import N0DnsResolver.Model.Concurrent
import N0DnsResolver.Theory.Precedence
import N0DnsResolver.Theory.SharedCache

namespace N0DnsResolver

/-! ## Calls on the shared cache -/

/-- The stale records a call found. -/
def CacheAnswer.staleRecords : CacheAnswer → Option (List Record)
  | .stale records => records
  | _ => none

section Cache

variable {L : Type} [LruMap L UInt64 CacheEntry] {cacheKey : Str → RecordKind → UInt64}
variable {shared : SharedCache L} {now : Instant} {host : Str} {kind : RecordKind}

/-- A call that returns found the mutex sound, unless it did not take it. -/
theorem call_of_returns (op : CacheOp) (hlock : op.skipsLock = false)
    (h : (shared.call cacheKey now op).1 ≠ .panicked) :
    shared.poisoned = false ∧
      op.underLock cacheKey now shared.inner =
        .ok ((shared.call cacheKey now op).1, (shared.call cacheKey now op).2.inner) := by
  cases hp : shared.poisoned with
  | true => exact absurd (congrArg Prod.fst (SharedCache.call_poisoned cacheKey hp now hlock)) h
  | false =>
    refine ⟨rfl, ?_⟩
    cases hop : op.underLock cacheKey now shared.inner with
    | error p => exact absurd (SharedCache.call_error cacheKey hlock hop).1 h
    | ok r =>
      rw [SharedCache.call_ok cacheKey hlock hp hop]

theorem call_get_found {result : Option CachedResult}
    (h : (shared.call cacheKey now (.get host kind)).1 = .found result) :
    shared.poisoned = false ∧ (DnsCache.get cacheKey shared.inner now host kind).1 = result := by
  obtain ⟨hsound, hlock⟩ := call_of_returns (.get host kind) rfl
    (by rw [h]; exact fun hp => nomatch hp)
  refine ⟨hsound, ?_⟩
  have hanswer := congrArg Prod.fst (Except.ok.inj hlock)
  rw [h] at hanswer
  exact CacheAnswer.found.inj hanswer

/-- A read of the cache finds something, finds nothing or panics. -/
theorem call_get_cases (shared : SharedCache L) (now : Instant) (host : Str) (kind : RecordKind) :
    (∃ result, (shared.call cacheKey now (.get host kind)).1 = .found (some result)) ∨
      (shared.call cacheKey now (.get host kind)).1 = .found none ∨
      (shared.call cacheKey now (.get host kind)).1 = .panicked := by
  by_cases h : (shared.call cacheKey now (.get host kind)).1 = .panicked
  · exact .inr (.inr h)
  · obtain ⟨-, hlock⟩ := call_of_returns (.get host kind) rfl h
    have hanswer : .found (DnsCache.get cacheKey shared.inner now host kind).1 =
        (shared.call cacheKey now (.get host kind)).1 := congrArg Prod.fst (Except.ok.inj hlock)
    cases hget : (DnsCache.get cacheKey shared.inner now host kind).1 with
    | none => exact .inr (.inl (hanswer.symm.trans (congrArg _ hget)))
    | some result => exact .inl ⟨result, hanswer.symm.trans (congrArg _ hget)⟩

variable [LawfulLruMap L]

theorem call_getStale_found {maxStale : Duration} {records : List Record}
    (h : (shared.call cacheKey now (.getStale host kind maxStale)).1.staleRecords = some records) :
    shared.poisoned = false ∧
      (DnsCache.getStaleExact cacheKey shared.inner now host kind maxStale).1 = some records := by
  obtain ⟨hsound, hlock⟩ := call_of_returns (.getStale host kind maxStale) rfl
    (fun hp => by rw [hp] at h; exact nomatch h)
  refine ⟨hsound, ?_⟩
  obtain ⟨p, hp, hpair⟩ := Checked.map_eq_ok hlock
  have hanswer := congrArg (fun r => CacheAnswer.staleRecords r.1) hpair
  rw [← DnsCache.getStale_ok hp]
  exact hanswer.trans h

/-- Every call keeps the cache within the ideal one, as long as the mutex is sound. -/
theorem refines_call {calls : List (Instant × CacheOp)} {op : CacheOp}
    (h : shared.poisoned = false → Refines cacheKey shared.inner (idealCache calls))
    (hsound : (shared.call cacheKey now op).2.poisoned = false) :
    Refines cacheKey (shared.call cacheKey now op).2.inner (idealCache (calls ++ [(now, op)])) := by
  cases hlock : op.skipsLock with
  | true =>
    rw [SharedCache.call_skips cacheKey hlock] at hsound ⊢
    cases op with
    | insert host kind result ttl =>
      have httl : ttl = 0 := of_decide_eq_true hlock
      rw [httl, idealCache_insert_zero]
      exact h hsound
    | _ => cases hlock
  | false =>
    cases hp : shared.poisoned with
    | true =>
      rw [SharedCache.call_poisoned cacheKey hp now hlock, hp] at hsound
      cases hsound
    | false =>
      have hrefines := h hp
      cases hop : op.underLock cacheKey now shared.inner with
      | error p =>
        rw [(SharedCache.call_error cacheKey hlock hop).2] at hsound
        cases hsound
      | ok r =>
        obtain ⟨answer, inner⟩ := r
        rw [SharedCache.call_ok cacheKey hlock hp hop]
        cases op with
        | insert host kind result ttl =>
          cases hop
          exact refines_insert hrefines now host kind result ttl
        | get host kind =>
          cases hop
          rw [idealCache_read rfl]
          exact hrefines.dropped fun k => .inl (DnsCache.peek_get cacheKey _ _ host kind k)
        | getStale host kind maxStale =>
          obtain ⟨p, hp, hpair⟩ := Checked.map_eq_ok hop
          cases hpair
          rw [idealCache_read rfl, DnsCache.getStale_ok hp, DnsCache.getStaleExact_eq]
          exact hrefines.dropped fun k => .inl (LawfulLruMap.peek_get _ _ k)
        | clear =>
          cases hop
          intro host kind entry hentry
          obtain ⟨hpeek, -⟩ := (DnsCache.entryOf_eq_some cacheKey).mp hentry
          rw [LawfulLruMap.peek_clear] at hpeek
          cases hpeek

end Cache

/-! ## What the queries of a lookup came to -/

section Attempts

variable (builder : Builder) {as : List Attempt}

/-- After the loop the answer is that of the outcome the precedence chooses. -/
theorem concludingAnswer_eq (hne : as ≠ []) (hund : ∀ a ∈ as, a.outcome.decisive = false)
    (stale : Option (List Record)) :
    ∃ o, choose Outcome.decisive Outcome.negative (as.map Attempt.outcome) = some o ∧
      Inquiries.concludingAnswer (afterAll builder {} as) stale = o.answer stale := by
  have hdecides : ∀ o ∈ as.map Attempt.outcome, o.decisive = false := by
    intro o ho
    obtain ⟨a, ha, rfl⟩ := List.mem_map.mp ho
    exact hund a ha
  have hfirst : (afterAll builder {} as).firstNegative =
      as.findSome? fun a => a.outcome.cached := afterAll_firstNegative builder as {}
  cases hneg : as.findSome? fun a => a.outcome.cached with
  | some r =>
    -- The first absence is chosen.
    obtain ⟨before, a, after, hsplit, hr, hbefore⟩ := List.findSome?_eq_some_iff.mp hneg
    have hmap : as.map Attempt.outcome =
        before.map Attempt.outcome ++ a.outcome :: after.map Attempt.outcome := by
      rw [hsplit, List.map_append, List.map_cons]
    refine ⟨a.outcome, ?_, ?_⟩
    · rw [hmap]
      apply Choice.choose_of_accepts
      · exact hmap ▸ hdecides
      · intro o ho
        obtain ⟨b, hb, rfl⟩ := List.mem_map.mp ho
        rw [← cached_isSome, hbefore b hb]
        rfl
      · rw [← cached_isSome, hr]
        rfl
    · rw [hneg] at hfirst
      rw [Outcome.answer_of_cached hr]
      unfold Inquiries.concludingAnswer
      rw [hfirst]
      cases r with
      | positive rs => exact nomatch cached_ne_positive hr
      | noData => rfl
      | nxDomain => rfl
  | none =>
    -- Nothing was learned: the last failure is chosen.
    have hnone : ∀ a ∈ as, a.outcome.cached = none := List.findSome?_eq_none_iff.mp hneg
    obtain ⟨before, a, rfl⟩ := (List.eq_nil_or_concat' as).resolve_left hne
    have hmem : a ∈ before ++ [a] := List.mem_append_right _ (List.mem_singleton_self a)
    obtain ⟨e, he⟩ := transient_of_not (hund a hmem) (hnone a hmem)
    refine ⟨a.outcome, ?_, ?_⟩
    · rw [Choice.choose_last hdecides]
      · rw [List.map_append, List.map_singleton, List.getLast?_concat]
      · intro o ho
        obtain ⟨b, hb, rfl⟩ := List.mem_map.mp ho
        rw [← cached_isSome, hnone b hb]
        rfl
    · have hlast := afterAll_lastErr builder before a {} he
      rw [hneg] at hfirst
      unfold Inquiries.concludingAnswer
      rw [hfirst, hlast, he]
      cases stale <;> rfl

/-- An absence is stored when every query came to an absence, under the TTL of the first. -/
theorem concluding_negative {r : CachedResult} (hund : ∀ a ∈ as, a.outcome.decisive = false)
    (hfirst : (afterAll builder {} as).firstNegative = some r)
    (hsaw : (afterAll builder {} as).sawTransient = false) :
    (∀ a ∈ as, a.outcome.negative = true) ∧
      ∃ a rest, as = a :: rest ∧ a.outcome.cached = some r ∧
        (afterAll builder {} as).negativeTtl = builder.negativeCacheTtlSecs a.soa := by
  have hsteady : ∀ a ∈ as, a.transient = false := by
    have hany : as.any Attempt.transient = false :=
      (afterAll_sawTransient builder as {}).symm.trans hsaw
    intro a ha
    simpa using List.any_eq_false.mp hany a ha
  have hall : ∀ a ∈ as, a.outcome.negative = true := by
    intro a ha
    rw [← cached_isSome]
    by_contra hnone
    obtain ⟨e, he⟩ := transient_of_not (hund a ha) (by simpa using hnone)
    have htransient : a.transient = true := by
      unfold Attempt.transient
      rw [he]
    rw [hsteady a ha] at htransient
    cases htransient
  refine ⟨hall, ?_⟩
  cases as with
  | nil => cases hfirst
  | cons a rest =>
    have hneg : a.outcome.negative = true := hall a List.mem_cons_self
    have hcached : a.outcome.cached.isSome = true := (cached_isSome _).trans hneg
    obtain ⟨r', hr'⟩ := Option.isSome_iff_exists.mp hcached
    have hkept := afterAll_firstNegative builder (a :: rest) {}
    have hfound : (a :: rest).findSome? (fun a => a.outcome.cached) = some r' := by
      rw [List.findSome?_cons, hr']
    rw [hfound, hfirst] at hkept
    cases hkept
    refine ⟨a, rest, rfl, hr', ?_⟩
    have httl := afterAll_negativeTtl builder (a :: rest) {}
    have hfind : (a :: rest).find? (fun a => a.outcome.negative) = some a :=
      List.find?_cons_of_pos hneg
    rw [hfind] at httl
    exact httl

end Attempts

namespace Inquiries

/-- The lookup is over. -/
def Phase.ended : Phase → Bool
  | .returned _ | .panicked | .dropped => true
  | _ => false

section Walk

variable (builder : Builder) (S : SimpleDns) (config : Config) (name : Str)

/-- The candidates up to these were asked for, and none decided. -/
structure Undecided (answered : List (Str × Attempt)) (names : List Str) (st : LoopState) :
    Prop where
  order : searchNames S config name = answered.map Prod.fst ++ names
  undecided : ∀ p ∈ answered, p.2.outcome.decisive = false
  state : st = afterAll builder {} (answered.map Prod.snd)

/-- The candidates were asked for up to this one, whose query came to this attempt; none before it
decided. -/
structure AskedTo (answered : List (Str × Attempt)) (candidate : Str) (attempt : Attempt) :
    Prop where
  before : ∃ before, answered = before ++ [(candidate, attempt)] ∧
    ∀ p ∈ before, p.2.outcome.decisive = false
  order : answered.map Prod.fst <+: searchNames S config name

/-- The lookup asked for its candidates in order, for none after one that decided and for all of
them if none did; it returned what the precedence makes of what its queries came to. -/
structure Walked (answered : List (Str × Attempt)) (stale : Option (List Record))
    (r : Except Error (List Record)) : Prop where
  order : answered.map Prod.fst <+: searchNames S config name
  stops : ∀ p ∈ answered.dropLast, p.2.outcome.decisive = false
  answer : ∃ o, choose Outcome.decisive Outcome.negative (answered.map fun p => p.2.outcome) =
    some o ∧ r = o.answer stale ∧
      (o.decisive = false → answered.map Prod.fst = searchNames S config name)

/-- What the lookup was told is what it stores: the records by the candidate they are stored under,
under their TTL or the configured minimum; an absence by every candidate of its search list, under
the TTL of the first. -/
def Vouches (kind : RecordKind) (answered : List (Str × Attempt)) (host : Str)
    (kind' : RecordKind) (result : CachedResult) (ttl : Nat) : Prop :=
  kind' = kind ∧
    match result with
    | .positive records => ∃ attempt ttl₀, AskedTo S config name answered host attempt ∧
        attempt.res = .ok (records, ttl₀) ∧ records ≠ [] ∧ ttl = max ttl₀ builder.cacheMinTtlSecs
    | result => host = name ∧ answered.map Prod.fst = searchNames S config name ∧
        (∀ p ∈ answered, p.2.outcome.negative = true) ∧
        ∃ p rest, answered = p :: rest ∧ p.2.outcome.cached = some result ∧
          ttl = builder.negativeCacheTtlSecs p.2.soa

variable {builder S config name} {answered : List (Str × Attempt)}

theorem Undecided.answer {candidate : Str} {names : List Str} {st : LoopState} {attempt : Attempt}
    (h : Undecided builder S config name answered (candidate :: names) st)
    (hdecides : attempt.outcome.decisive = false) :
    Undecided builder S config name (answered ++ [(candidate, attempt)]) names
      (st.after builder attempt) := by
  refine ⟨?_, ?_, ?_⟩
  · rw [h.order, List.map_append, List.append_assoc]
    rfl
  · intro p hp
    rcases List.mem_append.mp hp with hold | hnew
    · exact h.undecided p hold
    · rw [List.mem_singleton.mp hnew]
      exact hdecides
  · rw [h.state, List.map_append]
    unfold afterAll
    rw [List.foldl_append]
    rfl

theorem Undecided.askedTo {candidate : Str} {names : List Str} {st : LoopState}
    (h : Undecided builder S config name answered (candidate :: names) st) (attempt : Attempt) :
    AskedTo S config name (answered ++ [(candidate, attempt)]) candidate attempt := by
  refine ⟨⟨answered, rfl, h.undecided⟩, names, ?_⟩
  rw [h.order, List.map_append, List.append_assoc]
  rfl

/-- A candidate that decides decides the answer. -/
theorem AskedTo.walked {candidate : Str} {attempt : Attempt}
    (h : AskedTo S config name answered candidate attempt)
    (hdecides : attempt.outcome.decisive = true) (stale : Option (List Record)) :
    Walked S config name answered stale (attempt.outcome.answer stale) := by
  obtain ⟨before, rfl, hbefore⟩ := h.before
  refine ⟨h.order, ?_, attempt.outcome, ?_, rfl, fun hnot => ?_⟩
  · rw [List.dropLast_concat]
    exact hbefore
  · rw [List.map_append]
    apply Choice.choose_of_decides []
    · intro o ho
      obtain ⟨p, hp, rfl⟩ := List.mem_map.mp ho
      exact hbefore p hp
    · exact hdecides
  · rw [hdecides] at hnot
    cases hnot

/-- Where no candidate decided, the answer is that of the end of the loop. -/
theorem Undecided.walked {st : LoopState} (h : Undecided builder S config name answered [] st)
    (stale : Option (List Record)) :
    Walked S config name answered stale (concludingAnswer st stale) := by
  have hall : searchNames S config name = answered.map Prod.fst :=
    h.order.trans (List.append_nil _)
  have hne : answered.map Prod.snd ≠ [] := by
    intro hnil
    apply searchNames_ne_nil S name config
    rw [hall, List.map_eq_nil_iff.mp hnil]
    rfl
  obtain ⟨o, ho, hanswer⟩ := concludingAnswer_eq builder hne (fun a ha => by
    obtain ⟨p, hp, rfl⟩ := List.mem_map.mp ha
    exact h.undecided p hp) stale
  rw [List.map_map] at ho
  exact ⟨hall ▸ List.prefix_refl _, fun p hp => h.undecided p (List.dropLast_subset _ hp),
    o, ho, by rw [h.state, hanswer], fun _ => hall.symm⟩

/-- An absence is stored on the word of every candidate. -/
theorem Undecided.vouches {st : LoopState} {r : CachedResult} (kind : RecordKind)
    (h : Undecided builder S config name answered [] st) (hfirst : st.firstNegative = some r)
    (hsaw : st.sawTransient = false) :
    Vouches builder S config name kind answered name kind r st.negativeTtl := by
  rw [h.state] at hfirst hsaw
  obtain ⟨hall, a, rest, hanswered, hcached, httl⟩ := concluding_negative builder (fun a ha => by
    obtain ⟨p, hp, rfl⟩ := List.mem_map.mp ha
    exact h.undecided p hp) hfirst hsaw
  obtain ⟨p, ps, hsplit, rfl, -⟩ := List.map_eq_cons_iff.mp hanswered
  have horder : answered.map Prod.fst = searchNames S config name :=
    (h.order.trans (List.append_nil _)).symm
  have hneg : ∀ p ∈ answered, p.2.outcome.negative = true := fun p hp =>
    hall p.2 (List.mem_map_of_mem hp)
  refine ⟨rfl, ?_⟩
  cases r with
  | positive rs => exact nomatch cached_ne_positive hcached
  | noData => exact ⟨rfl, horder, hneg, p, ps, hsplit, hcached, by rw [h.state, httl]⟩
  | nxDomain => exact ⟨rfl, horder, hneg, p, ps, hsplit, hcached, by rw [h.state, httl]⟩

end Walk

/-! ## What a step can do -/

section Turn

variable {L : Type} [LruMap L UInt64 CacheEntry] (cacheKey : Str → RecordKind → UInt64)
variable (builder : Builder) (S : SimpleDns)

/-- The state after a call on the cache, at a later instant. -/
def calledAt (s : Inquiries L) (time now : Instant) (op : CacheOp) : Inquiries L :=
  { s.called cacheKey time op with clock := now }

/-- What a step of the lookups changes. -/
inductive Turn (s : Inquiries L) : Inquiries L → Prop where
  | calls {id resolver name kind} (hnew : s.tasks id = none) :
      Turn s (s.put id ⟨resolver, name, kind, .begun, s.clock, []⟩)
  | hits {id now task result} (htask : s.tasks id = some task) (hclock : s.clock ≤ now)
      (hphase : task.phase = .begun)
      (hfound : (s.cache.call cacheKey now (.get task.name task.kind)).1 = .found (some result)) :
      Turn s ((s.calledAt cacheKey now now (.get task.name task.kind)).put id
        { task with phase := .returned result.answer, since := now })
  | misses {id now task system} (htask : s.tasks id = some task) (hclock : s.clock ≤ now)
      (hphase : task.phase = .begun)
      (hfound : (s.cache.call cacheKey now (.get task.name task.kind)).1 = .found none) :
      Turn s (((s.calledAt cacheKey now now (.get task.name task.kind)).built task.resolver
        system).put id { task with
          phase := .proceed (searchNames S (s.configOf task.resolver system) task.name) {}
          since := now })
  | panics {id time now op task} (htask : s.tasks id = some task) (hclock : s.clock ≤ now)
      (htime : time ≤ now) (hends : task.phase.ended = false)
      (hcall : task.phase = .begun ∧ op = .get task.name task.kind ∨
        task.lastCall builder = some (some op))
      (hpanic : (s.cache.call cacheKey time op).1 = .panicked) :
      Turn s ((s.calledAt cacheKey time now op).put id
        { task with phase := .panicked, since := now })
  | asks {id now task name names st attempt} (htask : s.tasks id = some task)
      (hclock : s.clock ≤ now) (hphase : task.phase = .awaiting name names st) :
      Turn s ({ s with clock := now }.put id { task with
        phase := .queried builder name names st attempt
        since := now
        answered := task.answered ++ [(name, attempt)] })
  | returns {id now task} (htask : s.tasks id = some task) (hclock : s.clock ≤ now)
      (hlast : task.lastCall builder = some none) :
      Turn s ({ s with clock := now }.put id
        { task with phase := .returned (task.phase.result none), since := now })
  | finishes {id stamp now task op} (htask : s.tasks id = some task) (hclock : s.clock ≤ now)
      (hstamp : stamp ≤ now) (hlast : task.lastCall builder = some (some op))
      (hreturns : (s.cache.call cacheKey (callTime stamp now op) op).1 ≠ .panicked) :
      Turn s ((s.calledAt cacheKey (callTime stamp now op) now op).put id { task with
        phase := .returned (task.phase.result
          (s.cache.call cacheKey (callTime stamp now op) op).1.staleRecords)
        since := now })
  | drops {id task} (htask : s.tasks id = some task) (hends : task.phase.ended = false) :
      Turn s (s.put id { task with phase := .dropped })
  | clears {now} (hclock : s.clock ≤ now) : Turn s (s.calledAt cacheKey now now .clear)

variable {cacheKey builder S} {s s' : Inquiries L}

omit [LruMap L UInt64 CacheEntry] in
theorem guard_bind {p : Prop} [Decidable p] {x : Option (Inquiries L)} :
    ((guard p : Option Unit) >>= fun _ => x) = some s' ↔ p ∧ x = some s' := by
  by_cases h : p <;> simp [guard, h]

theorem callTime_le {stamp now : Instant} (h : stamp ≤ now) (op : CacheOp) :
    callTime stamp now op ≤ now := by
  cases op with
  | insert host kind result ttl => exact h
  | _ => exact Nat.le_refl now

theorem ended_of_lastCall {task : Task} {call : Option CacheOp}
    (h : task.lastCall builder = some call) : task.phase.ended = false := by
  unfold Task.lastCall at h
  cases hphase : task.phase with
  | storing candidate records ttl => rfl
  | concluding st => rfl
  | _ => rw [hphase] at h; cases h

theorem looked_found (config : Config) (name : Str) (result : CachedResult) :
    Phase.looked S config name (.found (some result)) = .returned result.answer := by
  cases result <;> rfl

theorem finished_eq {phase : Phase} {answer : CacheAnswer} (hreturns : answer ≠ .panicked) :
    phase.finished answer = .returned (phase.result answer.staleRecords) := by
  cases answer with
  | panicked => exact absurd rfl hreturns
  | _ => rfl

theorem step_turn {e : Event} (hs : s.step cacheKey builder S e = some s') :
    Turn cacheKey builder S s s' := by
  cases e with
  | call id resolver name kind =>
    obtain ⟨hnew, hs⟩ := guard_bind.mp hs
    cases hs
    exact .calls (Option.isNone_iff_eq_none.mp hnew)
  | look id now system =>
    obtain ⟨task, htask, hs⟩ := Option.bind_eq_some_iff.mp hs
    obtain ⟨hclock, hs⟩ := guard_bind.mp hs
    cases hphase : task.phase with
    | begun =>
      simp only [hphase] at hs
      cases hs
      rcases call_get_cases s.cache now task.name task.kind with ⟨result, hfound⟩ | hnone | hpanic
      · rw [hfound]
        rw [looked_found]
        exact .hits htask hclock hphase hfound
      · rw [hnone]
        exact .misses htask hclock hphase hnone
      · rw [hpanic]
        exact .panics htask hclock (Nat.le_refl now) (by rw [hphase]; rfl) (.inl ⟨hphase, rfl⟩)
          hpanic
    | _ => simp [hphase] at hs
  | answer id now attempt =>
    obtain ⟨task, htask, hs⟩ := Option.bind_eq_some_iff.mp hs
    obtain ⟨hclock, hs⟩ := guard_bind.mp hs
    cases hphase : task.phase with
    | awaiting name names st =>
      simp only [hphase] at hs
      cases hs
      exact .asks htask hclock hphase
    | _ => simp [hphase] at hs
  | finish id stamp now =>
    obtain ⟨task, htask, hs⟩ := Option.bind_eq_some_iff.mp hs
    obtain ⟨⟨hclock, -, hstamp⟩, hs⟩ := guard_bind.mp hs
    cases hlast : task.lastCall builder with
    | none => simp [hlast] at hs
    | some call =>
      cases call with
      | none =>
        simp only [hlast] at hs
        cases hs
        exact .returns htask hclock hlast
      | some op =>
        simp only [hlast] at hs
        cases hs
        by_cases hpanic : (s.cache.call cacheKey (callTime stamp now op) op).1 = .panicked
        · rw [hpanic]
          exact .panics htask hclock (callTime_le hstamp op) (ended_of_lastCall hlast)
            (.inr hlast) hpanic
        · rw [finished_eq hpanic]
          exact .finishes htask hclock hstamp hlast hpanic
  | drop id =>
    obtain ⟨task, htask, hs⟩ := Option.bind_eq_some_iff.mp hs
    cases hphase : task.phase with
    | begun =>
      simp only [hphase] at hs
      cases hs
      exact .drops htask (by rw [hphase]; rfl)
    | awaiting name names st =>
      simp only [hphase] at hs
      cases hs
      exact .drops htask (by rw [hphase]; rfl)
    | _ => simp [hphase] at hs
  | clearCache now =>
    obtain ⟨hclock, hs⟩ := guard_bind.mp hs
    cases hs
    exact .clears hclock

end Turn

/-! ## The invariant -/

section Invariant

variable {L : Type} [LruMap L UInt64 CacheEntry] (cacheKey : Str → RecordKind → UInt64)
variable (builder : Builder) (S : SimpleDns)

/-- A read found the latest insert of the name and kind, while it lived. -/
def ReadFresh (calls : List (Instant × CacheOp)) (name : Str) (kind : RecordKind)
    (result : CachedResult) : Prop :=
  ∃ before now after, calls = before ++ (now, .get name kind) :: after ∧
    LatestFresh before now name kind result

/-- A read found the latest insert of the name and kind, within the window of stale data. -/
def ReadStale (calls : List (Instant × CacheOp)) (name : Str) (kind : RecordKind)
    (records : List Record) : Prop :=
  ∃ before now after maxAge, builder.serveStale = some maxAge ∧
    calls = before ++ (now, .getStale name kind maxAge) :: after ∧
    LatestStale before now name kind maxAge records

/-- What the lookup returned: what it found in the cache, or the answer of its own walk. -/
def Task.Answered (states : ResolverId → Option Config) (calls : List (Instant × CacheOp))
    (task : Task) (r : Except Error (List Record)) : Prop :=
  (task.answered = [] ∧ ∃ result, ReadFresh calls task.name task.kind result ∧
    r = result.answer) ∨
  ∃ config stale, states task.resolver = some config ∧
    Walked S config task.name task.answered stale r ∧
    ∀ records, stale = some records → ReadStale builder calls task.name task.kind records

/-- How far the lookup has come, by what its own queries came to. -/
def Task.Follows (states : ResolverId → Option Config) (calls : List (Instant × CacheOp))
    (task : Task) : Prop :=
  match task.phase with
  | .begun => task.answered = []
  | .awaiting name names st => ∃ config, states task.resolver = some config ∧
      Undecided builder S config task.name task.answered (name :: names) st
  | .storing candidate records ttl => ∃ config attempt ttl₀,
      states task.resolver = some config ∧
      AskedTo S config task.name task.answered candidate attempt ∧
      attempt.res = .ok (records, ttl₀) ∧ records ≠ [] ∧ ttl = max ttl₀ builder.cacheMinTtlSecs
  | .concluding st => ∃ config, states task.resolver = some config ∧
      Undecided builder S config task.name task.answered [] st
  | .returned r => task.Answered builder S states calls r
  | .panicked => True
  | .dropped => True

/-- The cache is what its calls make of a new one, and none of them is in the future. -/
structure Recorded (s : Inquiries L) : Prop where
  cache_eq : s.cache = .after cacheKey ⟨LruMap.new, false⟩ s.calls
  refines : s.cache.poisoned = false → Refines cacheKey s.cache.inner (idealCache s.calls)
  calls_le : ∀ c ∈ s.calls, c.1 ≤ s.clock

/-- The insert is vouched for by a lookup that is over. -/
def Vouched (s : Inquiries L) (host : Str) (kind : RecordKind) (result : CachedResult)
    (ttl : Nat) : Prop :=
  ∃ id task config, s.tasks id = some task ∧ task.phase.ended = true ∧
    s.states task.resolver = some config ∧
    Vouches builder S config task.name task.kind task.answered host kind result ttl

structure Inv (s : Inquiries L) : Prop extends Recorded cacheKey s where
  follows : ∀ id task, s.tasks id = some task → task.Follows builder S s.states s.calls
  vouched : ∀ time host kind result ttl, (time, .insert host kind result ttl) ∈ s.calls →
    s.Vouched builder S host kind result ttl

variable {cacheKey builder S} {s s' : Inquiries L}

/-- States are built once, and calls are only added. -/
structure Extends (s s' : Inquiries L) : Prop where
  states : ∀ resolver config, s.states resolver = some config → s'.states resolver = some config
  calls : s.calls <+: s'.calls
  tasks : s'.tasks = s.tasks

theorem ReadFresh.mono {calls calls' : List (Instant × CacheOp)} {name : Str} {kind : RecordKind}
    {result : CachedResult} (h : ReadFresh calls name kind result) (hpre : calls <+: calls') :
    ReadFresh calls' name kind result := by
  obtain ⟨before, now, after, rfl, hfresh⟩ := h
  obtain ⟨rest, rfl⟩ := hpre
  exact ⟨before, now, after ++ rest, by simp, hfresh⟩

theorem ReadStale.mono {calls calls' : List (Instant × CacheOp)} {name : Str} {kind : RecordKind}
    {records : List Record} (h : ReadStale builder calls name kind records)
    (hpre : calls <+: calls') : ReadStale builder calls' name kind records := by
  obtain ⟨before, now, after, maxAge, hmax, rfl, hstale⟩ := h
  obtain ⟨rest, rfl⟩ := hpre
  exact ⟨before, now, after ++ rest, maxAge, hmax, by simp, hstale⟩

omit [LruMap L UInt64 CacheEntry] in
/-- Nothing another lookup does changes how far this one has come. -/
theorem Task.Follows.mono {task : Task} (hext : s.Extends s')
    (h : task.Follows builder S s.states s.calls) : task.Follows builder S s'.states s'.calls := by
  unfold Task.Follows at h ⊢
  cases hphase : task.phase with
  | begun =>
    rw [hphase] at h
    exact h
  | awaiting name names st =>
    rw [hphase] at h
    obtain ⟨config, hstate, hund⟩ := h
    exact ⟨config, hext.states _ _ hstate, hund⟩
  | storing candidate records ttl =>
    rw [hphase] at h
    obtain ⟨config, attempt, ttl₀, hstate, hrest⟩ := h
    exact ⟨config, attempt, ttl₀, hext.states _ _ hstate, hrest⟩
  | concluding st =>
    rw [hphase] at h
    obtain ⟨config, hstate, hund⟩ := h
    exact ⟨config, hext.states _ _ hstate, hund⟩
  | returned r =>
    rw [hphase] at h
    rcases h with ⟨hnil, result, hread, hr⟩ | ⟨config, stale, hstate, hwalked, hstale⟩
    · exact .inl ⟨hnil, result, hread.mono hext.calls, hr⟩
    · exact .inr ⟨config, stale, hext.states _ _ hstate, hwalked,
        fun records hrec => (hstale records hrec).mono hext.calls⟩
  | panicked => trivial
  | dropped => trivial

/-- A call on the cache, at a time between the last step and now. -/
theorem Recorded.calledAt [LawfulLruMap L] (h : s.Recorded cacheKey) {time now : Instant}
    (hclock : s.clock ≤ now) (htime : time ≤ now) (op : CacheOp) :
    (s.calledAt cacheKey time now op).Recorded cacheKey := by
  refine ⟨?_, fun hsound => refines_call h.refines hsound, ?_⟩
  · show (s.cache.call cacheKey time op).2 = _
    rw [h.cache_eq]
    exact (SharedCache.after_concat cacheKey _ s.calls (time, op)).symm
  · intro c hc
    rcases List.mem_append.mp hc with hold | hnew
    · exact Nat.le_trans (h.calls_le c hold) hclock
    · rw [List.mem_singleton.mp hnew]
      exact htime

variable (cacheKey) in
theorem calledAt_extends (s : Inquiries L) (time now : Instant) (op : CacheOp) :
    s.Extends (s.calledAt cacheKey time now op) :=
  ⟨fun _ _ h => h, List.prefix_append _ _, rfl⟩

/-- What is put in the place of a lookup that is not over keeps the invariant, if it follows its own
queries and vouches for what it wrote. -/
theorem Inv.put {s₁ : Inquiries L} (h : s.Inv cacheKey builder S)
    (hrec : s₁.Recorded cacheKey) (hext : s.Extends s₁) {id : LookupId} {task : Task}
    (hlive : ∀ old, s.tasks id = some old → old.phase.ended = false)
    (hfollows : task.Follows builder S s₁.states s₁.calls)
    (hvouches : ∀ time host kind result ttl, (time, .insert host kind result ttl) ∈ s₁.calls →
      (time, .insert host kind result ttl) ∈ s.calls ∨
        task.phase.ended = true ∧ ∃ config, s₁.states task.resolver = some config ∧
          Vouches builder S config task.name task.kind task.answered host kind result ttl) :
    (s₁.put id task).Inv cacheKey builder S := by
  refine ⟨⟨hrec.cache_eq, hrec.refines, hrec.calls_le⟩, ?_, ?_⟩
  · intro id' task' htask'
    by_cases hid : id' = id
    · subst hid
      cases (tasks_put_self s₁ id' task).symm.trans htask'
      exact hfollows
    · have hold := (tasks_put_of_ne s₁ hid task).symm.trans htask'
      rw [hext.tasks] at hold
      show task'.Follows builder S s₁.states s₁.calls
      exact (h.follows id' task' hold).mono hext
  · intro time host kind result ttl hmem
    rcases hvouches time host kind result ttl hmem with hold | ⟨hended, config, hstate, hv⟩
    · obtain ⟨id', task', config, htask', hended, hstate, hv⟩ :=
        h.vouched time host kind result ttl hold
      have hid : id' ≠ id := by
        rintro rfl
        rw [hlive task' htask'] at hended
        cases hended
      refine ⟨id', task', config, ?_, hended, hext.states _ _ hstate, hv⟩
      exact (tasks_put_of_ne s₁ hid task).trans (hext.tasks ▸ htask')
    · exact ⟨id, task, config, tasks_put_self s₁ id task, hended, hstate, hv⟩

/-- A lookup goes on with the candidates left. -/
theorem Undecided.follows {states : ResolverId → Option Config}
    {calls : List (Instant × CacheOp)} {task : Task} {config : Config} {names : List Str}
    {st : LoopState} (hstate : states task.resolver = some config)
    (h : Undecided builder S config task.name task.answered names st)
    (hphase : task.phase = .proceed names st) : task.Follows builder S states calls := by
  unfold Task.Follows
  rw [hphase]
  cases names with
  | nil => exact ⟨config, hstate, h⟩
  | cons name names => exact ⟨config, hstate, h⟩

/-- A query for a candidate ends the walk, or leaves it at the next candidate. -/
theorem Undecided.queried {states : ResolverId → Option Config}
    {calls : List (Instant × CacheOp)} {task : Task} {config : Config} {name : Str}
    {names : List Str} {st : LoopState} {attempt : Attempt} {answered : List (Str × Attempt)}
    (hstate : states task.resolver = some config)
    (h : Undecided builder S config task.name answered (name :: names) st)
    (hanswered : task.answered = answered ++ [(name, attempt)])
    (hphase : task.phase = .queried builder name names st attempt) :
    task.Follows builder S states calls := by
  have hasked : AskedTo S config task.name task.answered name attempt :=
    hanswered ▸ h.askedTo attempt
  unfold Phase.queried at hphase
  rcases judge_cases builder st attempt with
    ⟨rs, ttl, hres, hne, -, hj⟩ | ⟨e, -, hout, hj⟩ | ⟨hdec, hj⟩
  · rw [hj] at hphase
    unfold Task.Follows
    rw [hphase]
    exact ⟨config, attempt, ttl, hstate, hasked, hres, hne, rfl⟩
  · rw [hj] at hphase
    unfold Task.Follows
    rw [hphase]
    have hwalked := hasked.walked (by rw [hout]; rfl) none
    rw [hout] at hwalked
    exact .inr ⟨config, none, hstate, hwalked, fun _ hnone => nomatch hnone⟩
  · rw [hj] at hphase
    exact Undecided.follows hstate (hanswered ▸ h.answer hdec) hphase

/-- After the loop, the absence that was first decides what is called and what is returned. -/
theorem concluding_cases {name : Str} {kind : RecordKind} {st : LoopState} {op : CacheOp}
    (h : concludingCall builder name kind st = some op) :
    (∃ r, st.firstNegative = some r ∧ st.sawTransient = false ∧
        op = .insert name kind r st.negativeTtl ∧
        ∀ stale, concludingAnswer st stale = concludingAnswer st none) ∨
      ∃ maxAge, builder.serveStale = some maxAge ∧ op = .getStale name kind maxAge := by
  unfold concludingCall at h
  unfold concludingAnswer
  split at h
  · next hfirst =>
    split at h
    · cases h
    · next hsaw =>
      cases h
      exact .inl ⟨.noData, hfirst, by simpa using hsaw, rfl, fun _ => rfl⟩
  · next hfirst =>
    split at h
    · cases h
    · next hsaw =>
      cases h
      exact .inl ⟨.nxDomain, hfirst, by simpa using hsaw, rfl, fun _ => rfl⟩
  · obtain ⟨maxAge, hmax, rfl⟩ := Option.map_eq_some_iff.mp h
    exact .inr ⟨maxAge, hmax, rfl⟩

/-- The lookup vouches for the call it ends with, and returns what its walk came to. -/
theorem Task.Follows.ends [LawfulLruMap L] {task : Task} {op : CacheOp} (stamp : Instant)
    {now : Instant} (h : task.Follows builder S s.states s.calls) (hrec : s.Recorded cacheKey)
    (hclock : s.clock ≤ now) (hlast : task.lastCall builder = some (some op)) :
    (∃ config, s.states task.resolver = some config ∧
      ∀ host kind result ttl, op = .insert host kind result ttl →
        Vouches builder S config task.name task.kind task.answered host kind result ttl) ∧
      task.Answered builder S s.states (s.calls ++ [(callTime stamp now op, op)])
        (task.phase.result (s.cache.call cacheKey (callTime stamp now op) op).1.staleRecords) := by
  unfold Task.lastCall at hlast
  unfold Task.Follows at h
  cases hphase : task.phase with
  | storing candidate records ttl =>
    rw [hphase] at hlast h
    cases hlast
    obtain ⟨config, attempt, ttl₀, hstate, hasked, hres, hne, httl⟩ := h
    have hout : attempt.outcome = .records records := ofResult_records hres hne
    have hwalked := hasked.walked (by rw [hout]; rfl) none
    rw [hout] at hwalked
    refine ⟨⟨config, hstate, ?_⟩, .inr ⟨config, none, hstate, hwalked, fun _ hnone => nomatch hnone⟩⟩
    intro host kind result ttl' hop
    cases hop
    exact ⟨rfl, attempt, ttl₀, hasked, hres, hne, httl⟩
  | concluding st =>
    rw [hphase] at hlast h
    obtain ⟨config, hstate, hund⟩ := h
    rcases concluding_cases (Option.some.inj hlast) with
      ⟨r, hfirst, hsaw, rfl, hanswer⟩ | ⟨maxAge, hmax, rfl⟩
    · refine ⟨⟨config, hstate, ?_⟩, ?_⟩
      · intro host kind result ttl hop
        cases hop
        exact hund.vouches task.kind hfirst hsaw
      · refine .inr ⟨config, none, hstate, ?_, fun _ hnone => nomatch hnone⟩
        show Walked S config task.name task.answered none (concludingAnswer st _)
        rw [hanswer]
        exact hund.walked none
    · refine ⟨⟨config, hstate, fun _ _ _ _ hop => nomatch hop⟩, ?_⟩
      refine .inr ⟨config, _, hstate, hund.walked _, fun records hfound => ?_⟩
      obtain ⟨hsound, hread⟩ := call_getStale_found hfound
      have hideal := (hrec.refines hsound).getStale hread
      exact ⟨s.calls, now, [], maxAge, hmax, rfl, (ideal_stale hrec.calls_le hclock).mp hideal⟩
  | _ => rw [hphase] at hlast; cases hlast

/-- Where the loop ends without a call, the answer is that of the walk. -/
theorem Task.Follows.returns {states : ResolverId → Option Config}
    {calls : List (Instant × CacheOp)} {task : Task} (h : task.Follows builder S states calls)
    (hlast : task.lastCall builder = some none) :
    task.Answered builder S states calls (task.phase.result none) := by
  unfold Task.lastCall at hlast
  unfold Task.Follows at h
  cases hphase : task.phase with
  | concluding st =>
    rw [hphase] at h
    obtain ⟨config, hstate, hund⟩ := h
    exact .inr ⟨config, none, hstate, hund.walked none, fun _ hnone => nomatch hnone⟩
  | _ => rw [hphase] at hlast; cases hlast

theorem new_inv [LawfulLruMap L] : (new : Inquiries L).Inv cacheKey builder S := by
  refine ⟨⟨rfl, fun _ => ?_, fun c hc => (nomatch hc)⟩, fun id task htask => (nomatch htask),
    fun _ _ _ _ _ hmem => (nomatch hmem)⟩
  exact run_refines (.new 0 : CacheRun cacheKey true [] 0 (LruMap.new : L))

/-- The state at a later instant. -/
theorem Recorded.later (h : s.Recorded cacheKey) {now : Instant} (hclock : s.clock ≤ now) :
    ({ s with clock := now } : Inquiries L).Recorded cacheKey :=
  ⟨h.cache_eq, h.refines, fun c hc => Nat.le_trans (h.calls_le c hc) hclock⟩

omit [LruMap L UInt64 CacheEntry] in
theorem built_extends (s : Inquiries L) (resolver : ResolverId) (system : Config) :
    s.Extends (s.built resolver system) := by
  refine ⟨?_, List.prefix_refl _, rfl⟩
  intro resolver' config hstate
  show Function.update s.states resolver (some (s.configOf resolver system)) resolver' = some config
  by_cases heq : resolver' = resolver
  · subst heq
    rw [Function.update_self, ← hstate]
    unfold configOf
    rw [hstate]
    rfl
  · rw [Function.update_of_ne heq]
    exact hstate

omit [LruMap L UInt64 CacheEntry] in
theorem Extends.trans {s₁ s₂ : Inquiries L} (h : s.Extends s₁) (h' : s₁.Extends s₂) :
    s.Extends s₂ :=
  ⟨fun resolver config hstate => h'.states _ _ (h.states resolver config hstate),
    h.calls.trans h'.calls, h'.tasks.trans h.tasks⟩

/-- An insert among these calls was there before or is the last. -/
theorem insert_mem_concat {calls : List (Instant × CacheOp)} {time time' : Instant} {op : CacheOp}
    {host : Str} {kind : RecordKind} {result : CachedResult} {ttl : Nat}
    (hmem : (time, .insert host kind result ttl) ∈ calls ++ [(time', op)]) :
    (time, .insert host kind result ttl) ∈ calls ∨ op = .insert host kind result ttl := by
  rcases List.mem_append.mp hmem with hold | hnew
  · exact .inl hold
  · exact .inr (congrArg Prod.snd (List.mem_singleton.mp hnew)).symm

/-- Every step keeps the invariant. -/
theorem step_inv [LawfulLruMap L] {e : Event} (h : s.Inv cacheKey builder S)
    (hs : s.step cacheKey builder S e = some s') : s'.Inv cacheKey builder S := by
  have hlive : ∀ {id : LookupId} {task : Task}, s.tasks id = some task →
      task.phase.ended = false → ∀ old, s.tasks id = some old → old.phase.ended = false := by
    intro id task htask hends old hold
    cases htask.symm.trans hold
    exact hends
  cases step_turn hs with
  | @calls id resolver name kind hnew =>
    refine h.put h.toRecorded ⟨fun _ _ hstate => hstate, List.prefix_refl _, rfl⟩ ?_ rfl
      fun _ _ _ _ _ hmem => .inl hmem
    intro old hold
    rw [hnew] at hold
    cases hold
  | @hits id now task result htask hclock hphase hfound =>
    have hfollows := h.follows id task htask
    unfold Task.Follows at hfollows
    rw [hphase] at hfollows
    refine h.put (h.calledAt hclock (Nat.le_refl now) _) (calledAt_extends cacheKey s now now _)
      (hlive htask (by rw [hphase]; rfl)) ?_ fun _ _ _ _ _ hmem =>
        .inl ((insert_mem_concat hmem).resolve_right CacheOp.noConfusion)
    obtain ⟨hsound, hget⟩ := call_get_found hfound
    have hideal := (h.refines hsound).get hget
    exact .inl ⟨hfollows, result, ⟨s.calls, now, [], rfl, (ideal_fresh h.calls_le hclock).mp hideal⟩,
      rfl⟩
  | @misses id now task system htask hclock hphase hfound =>
    have hfollows := h.follows id task htask
    unfold Task.Follows at hfollows
    rw [hphase] at hfollows
    have hrec := h.calledAt hclock (Nat.le_refl now) (.get task.name task.kind)
    have hext := (calledAt_extends cacheKey s now now (.get task.name task.kind)).trans
      (built_extends _ task.resolver system)
    have hbuilt : ((s.calledAt cacheKey now now (.get task.name task.kind)).built task.resolver
        system).Recorded cacheKey := ⟨hrec.cache_eq, hrec.refines, hrec.calls_le⟩
    refine h.put hbuilt hext (hlive htask (by rw [hphase]; rfl)) ?_ fun _ _ _ _ _ hmem =>
        .inl ((insert_mem_concat hmem).resolve_right CacheOp.noConfusion)
    have hund : Undecided builder S (s.configOf task.resolver system) task.name task.answered
        (searchNames S (s.configOf task.resolver system) task.name) {} := by
      rw [show task.answered = [] from hfollows]
      exact ⟨rfl, fun p hp => (nomatch hp), rfl⟩
    exact Undecided.follows (Function.update_self task.resolver _ s.states) hund rfl
  | @panics id time now op task htask hclock htime hends hcall hpanic =>
    refine h.put (h.calledAt hclock htime op) (calledAt_extends cacheKey s time now op)
      (hlive htask hends) trivial ?_
    intro time' host kind result ttl hmem
    rcases insert_mem_concat hmem with hold | hop
    · exact .inl hold
    · rcases hcall with ⟨-, hget⟩ | hlast
      · cases hop.symm.trans hget
      · obtain ⟨⟨config, hstate, hvouches⟩, -⟩ :=
          (h.follows id task htask).ends time h.toRecorded hclock hlast
        exact .inr ⟨rfl, config, hstate, hvouches host kind result ttl hop⟩
  | @asks id now task name names st attempt htask hclock hphase =>
    have hfollows := h.follows id task htask
    unfold Task.Follows at hfollows
    rw [hphase] at hfollows
    obtain ⟨config, hstate, hund⟩ := hfollows
    refine h.put (h.later hclock) ⟨fun _ _ hstate => hstate, List.prefix_refl _, rfl⟩
      (hlive htask (by rw [hphase]; rfl)) ?_ fun _ _ _ _ _ hmem => .inl hmem
    exact Undecided.queried hstate hund rfl rfl
  | @returns id now task htask hclock hlast =>
    refine h.put (h.later hclock) ⟨fun _ _ hstate => hstate, List.prefix_refl _, rfl⟩
      (hlive htask (ended_of_lastCall hlast)) ?_ fun _ _ _ _ _ hmem => .inl hmem
    exact (h.follows id task htask).returns hlast
  | @finishes id stamp now task op htask hclock hstamp hlast hreturns =>
    obtain ⟨⟨config, hstate, hvouches⟩, hanswered⟩ :=
      (h.follows id task htask).ends stamp h.toRecorded hclock hlast
    refine h.put (h.calledAt hclock (callTime_le hstamp op) op)
      (calledAt_extends cacheKey s _ now op) (hlive htask (ended_of_lastCall hlast)) hanswered ?_
    intro time host kind result ttl hmem
    rcases insert_mem_concat hmem with hold | hop
    · exact .inl hold
    · exact .inr ⟨rfl, config, hstate, hvouches host kind result ttl hop⟩
  | @drops id task htask hends =>
    exact h.put h.toRecorded ⟨fun _ _ hstate => hstate, List.prefix_refl _, rfl⟩
      (hlive htask hends) trivial fun _ _ _ _ _ hmem => .inl hmem
  | @clears now hclock =>
    have hext := calledAt_extends cacheKey s now now .clear
    refine ⟨h.calledAt hclock (Nat.le_refl now) .clear,
      fun id task htask => (h.follows id task htask).mono hext, ?_⟩
    intro time host kind result ttl hmem
    exact h.vouched time host kind result ttl
      ((insert_mem_concat hmem).resolve_right CacheOp.noConfusion)

variable (builder S) in
/-- The entry was written by a lookup of the kind that is over and that vouches for it, under a name
of the same normal form. -/
def Certified (s : Inquiries L) (name : Str) (kind : RecordKind) (result : CachedResult) : Prop :=
  ∃ host ttl, normalize host = normalize name ∧ s.Vouched builder S host kind result ttl

/-- The latest insert of a run is certified. -/
theorem Inv.certified (h : s.Inv cacheKey builder S) {before after : List (Instant × CacheOp)}
    {name : Str} {kind : RecordKind} {result : CachedResult} {since : Instant} {ttl : Nat}
    (hcalls : s.calls = before ++ after) (hlatest : LatestInsert before name kind result since ttl) :
    s.Certified builder S name kind result := by
  obtain ⟨before', host, after', rfl, -, hname, -⟩ := hlatest
  refine ⟨host, ttl, hname, h.vouched since host kind result ttl ?_⟩
  rw [hcalls]
  simp

theorem Inv.certified_fresh (h : s.Inv cacheKey builder S) {name : Str} {kind : RecordKind}
    {result : CachedResult} (hread : ReadFresh s.calls name kind result) :
    s.Certified builder S name kind result := by
  obtain ⟨before, now, after, hcalls, since, ttl, hlatest, -⟩ := hread
  exact h.certified hcalls hlatest

theorem Inv.certified_stale (h : s.Inv cacheKey builder S) {name : Str} {kind : RecordKind}
    {records : List Record} (hread : ReadStale builder s.calls name kind records) :
    s.Certified builder S name kind (.positive records) := by
  obtain ⟨before, now, after, maxAge, -, hcalls, since, ttl, hlatest, -⟩ := hread
  exact h.certified hcalls hlatest

end Invariant

end Inquiries

section Contract

variable {L : Type} [LruMap L UInt64 CacheEntry] [LawfulLruMap L]
variable {cacheKey : Str → RecordKind → UInt64} {builder : Builder} {S : SimpleDns}

open Inquiries

/-- However lookups interleave, each returns what it found in the cache, or what its own queries
came to. What it found there, fresh or stale, was the latest entry of the name and kind since the
cache was cleared, and a lookup that is over was told so. -/
theorem inquiries_answered {events : List Event} {s : Inquiries L} (id : LookupId) {task : Task}
    {r : Except Error (List Record)}
    (hrun : Machine.run (step cacheKey builder S) (new : Inquiries L) events = some s)
    (htask : s.tasks id = some task) (hreturned : task.phase = .returned r) :
    (task.answered = [] ∧ ∃ result, r = result.answer ∧
      ReadFresh s.calls task.name task.kind result ∧
      s.Certified builder S task.name task.kind result) ∨
    ∃ config stale, s.states task.resolver = some config ∧
      Walked S config task.name task.answered stale r ∧
      ∀ records, stale = some records → ReadStale builder s.calls task.name task.kind records ∧
        s.Certified builder S task.name task.kind (.positive records) := by
  have hinv : s.Inv cacheKey builder S :=
    Machine.run_invariant (fun _ _ _ h hs => step_inv h hs) new_inv hrun
  have hfollows := hinv.follows id task htask
  unfold Task.Follows at hfollows
  rw [hreturned] at hfollows
  rcases hfollows with ⟨hnil, result, hread, hr⟩ | ⟨config, stale, hstate, hwalked, hstale⟩
  · exact .inl ⟨hnil, result, hr, hread, hinv.certified_fresh hread⟩
  · exact .inr ⟨config, stale, hstate, hwalked, fun records hrecords =>
      ⟨hstale records hrecords, hinv.certified_stale (hstale records hrecords)⟩⟩

/-- A call that leaves room for the longest TTL neither panics nor poisons the mutex. -/
theorem call_of_leavesRoom {shared : SharedCache L} (hsound : shared.poisoned = false)
    (hcapped : Capped shared.inner) {time : Instant} {op : CacheOp} (hroom : op.LeavesRoom) :
    (shared.call cacheKey time op).1 ≠ .panicked ∧
      (shared.call cacheKey time op).2.poisoned = false := by
  have hfits : WindowFits cacheKey shared.inner time op := by
    cases op with
    | getStale host kind maxStale =>
      intro entry hentry _
      have hpeek := ((DnsCache.entryOf_eq_some cacheKey).mp hentry).1
      exact Nat.le_trans (Nat.add_le_add_right (hcapped _ _ hpeek) _) hroom
    | _ => trivial
  obtain ⟨hexact, hafter⟩ := call_of_fits cacheKey hsound hfits
  refine ⟨fun hpanic => ?_, hafter⟩
  rw [hpanic] at hexact
  cases op with
  | getStale host kind maxStale => cases hexact
  | _ => cases hexact

/-- The window of stale data leaves room for the longest TTL. -/
def Builder.LeavesRoom (builder : Builder) : Prop :=
  ∀ maxAge, builder.serveStale = some maxAge →
    maxTtlSecs * 1000000000 + maxAge.nanos ≤ Duration.maxNanos

theorem lastCall_leavesRoom (hroom : builder.LeavesRoom) {task : Task} {op : CacheOp}
    (hlast : task.lastCall builder = some (some op)) : op.LeavesRoom := by
  unfold Task.lastCall at hlast
  cases hphase : task.phase with
  | storing candidate records ttl =>
    rw [hphase] at hlast
    cases hlast
    trivial
  | concluding st =>
    rw [hphase] at hlast
    rcases concluding_cases (Option.some.inj hlast) with ⟨r, -, -, rfl, -⟩ | ⟨maxAge, hmax, rfl⟩
    · trivial
    · exact hroom maxAge hmax
  | _ => rw [hphase] at hlast; cases hlast

/-- The mutex is sound, no entry has a TTL above the cap, and no lookup panicked. -/
structure Inquiries.Sound (s : Inquiries L) : Prop where
  sound : s.cache.poisoned = false
  capped : Capped s.cache.inner
  running : ∀ id task, s.tasks id = some task → task.phase ≠ .panicked

omit [LawfulLruMap L] in
/-- What is put in the place of a lookup leaves the rest sound, if it did not panic. -/
theorem Inquiries.Sound.put {s s₁ : Inquiries L} (h : s.Sound)
    (hcache : s₁.cache.poisoned = false ∧ Capped s₁.cache.inner) (htasks : s₁.tasks = s.tasks)
    {id : LookupId} {task : Task} (hphase : task.phase ≠ .panicked) : (s₁.put id task).Sound := by
  refine ⟨hcache.1, hcache.2, fun id' task' htask' => ?_⟩
  by_cases hid : id' = id
  · subst hid
    cases (tasks_put_self s₁ id' task).symm.trans htask'
    exact hphase
  · apply h.running id'
    rw [← htasks, ← tasks_put_of_ne s₁ hid task]
    exact htask'

theorem proceed_ne_panicked (names : List Str) (st : LoopState) :
    Phase.proceed names st ≠ .panicked := by
  cases names <;> exact Phase.noConfusion

theorem queried_ne_panicked (candidate : Str) (names : List Str) (st : LoopState)
    (attempt : Attempt) : Phase.queried builder candidate names st attempt ≠ .panicked := by
  unfold Phase.queried
  split
  · exact Phase.noConfusion
  · exact Phase.noConfusion
  · exact proceed_ne_panicked _ _

theorem step_sound {s s' : Inquiries L} {e : Event} (hroom : builder.LeavesRoom) (h : s.Sound)
    (hs : s.step cacheKey builder S e = some s') : s'.Sound := by
  have hcalled : ∀ (time now : Instant) (op : CacheOp), op.LeavesRoom →
      (s.calledAt cacheKey time now op).cache.poisoned = false ∧
        Capped (s.calledAt cacheKey time now op).cache.inner := fun time now op hop =>
    ⟨(call_of_leavesRoom h.sound h.capped hop).2, capped_call cacheKey h.capped time op⟩
  cases step_turn hs with
  | calls hnew =>
    apply h.put
    · exact ⟨h.sound, h.capped⟩
    · rfl
    · exact Phase.noConfusion
  | @hits id now task result htask hclock hphase hfound =>
    apply h.put
    · exact hcalled now now (.get task.name task.kind) trivial
    · rfl
    · exact Phase.noConfusion
  | @misses id now task system htask hclock hphase hfound =>
    apply h.put
    · exact hcalled now now (.get task.name task.kind) trivial
    · rfl
    · exact proceed_ne_panicked _ _
  | @panics id time now op task htask hclock htime hends hcall hpanic =>
    have hop : op.LeavesRoom := by
      rcases hcall with ⟨-, rfl⟩ | hlast
      · trivial
      · exact lastCall_leavesRoom hroom hlast
    exact absurd hpanic (call_of_leavesRoom h.sound h.capped hop).1
  | asks htask hclock hphase =>
    apply h.put
    · exact ⟨h.sound, h.capped⟩
    · rfl
    · exact queried_ne_panicked _ _ _ _
  | returns htask hclock hlast =>
    apply h.put
    · exact ⟨h.sound, h.capped⟩
    · rfl
    · exact Phase.noConfusion
  | @finishes id stamp now task op htask hclock hstamp hlast hreturns =>
    apply h.put
    · exact hcalled (callTime stamp now op) now op (lastCall_leavesRoom hroom hlast)
    · rfl
    · exact Phase.noConfusion
  | drops htask hends =>
    apply h.put
    · exact ⟨h.sound, h.capped⟩
    · rfl
    · exact Phase.noConfusion
  | @clears now hclock =>
    obtain ⟨hsound, hcapped⟩ := hcalled now now .clear trivial
    exact ⟨hsound, hcapped, h.running⟩

/-- Unless the window of stale data and the longest TTL are together longer than the longest
`Duration`, no lookup panics and the mutex is never poisoned, however lookups interleave. -/
theorem no_inquiry_panics (hroom : builder.LeavesRoom) {events : List Event} {s : Inquiries L}
    (hrun : Machine.run (step cacheKey builder S) (new : Inquiries L) events = some s) :
    s.cache.poisoned = false ∧ ∀ id task, s.tasks id = some task → task.phase ≠ .panicked := by
  have hnew : (new : Inquiries L).Sound := by
    refine ⟨rfl, fun k entry hk => ?_, fun id task htask => (nomatch htask)⟩
    rw [show (new : Inquiries L).cache.inner = LruMap.new from rfl, LawfulLruMap.peek_new] at hk
    cases hk
  have h : s.Sound := Machine.run_invariant (fun _ _ _ h hs => step_sound hroom h hs) hnew hrun
  exact ⟨h.sound, h.running⟩

end Contract

/-! ## Two resolvers, one query -/

/-- Stale data is served for an hour. -/
def sharedBuilder : Builder := { serveStale := some (Duration.fromSecs 3600 (by decide)) }

/-- A lookup asks for a name; another one, of a resolver after a reset, finds the answer. -/
def sharedEvents : List Inquiries.Event :=
  [.call 0 0 "db.".toList .a, .call 1 1 "DB.".toList .a, .look 0 0 {},
    .answer 0 1000 ⟨.ok ([.a ⟨7⟩], 60), none⟩, .finish 0 1000 1500, .look 1 2000 {}]

def sharedRun : Option (Inquiries Table) :=
  Machine.run (Inquiries.step sampleKey sharedBuilder (.ofTable [])) Inquiries.new sharedEvents

theorem sharedRun_eq : Machine.run (Inquiries.step sampleKey sharedBuilder (.ofTable []))
    (Inquiries.new : Inquiries Table) sharedEvents = some (sharedRun.get rfl) :=
  (Option.some_get (rfl : sharedRun.isSome = true)).symm

/-- What the second lookup was given was certified by the first. -/
theorem inquiries_answered_shared : (sharedRun.get rfl).Certified sharedBuilder (.ofTable [])
    "DB.".toList .a (.positive [.a ⟨7⟩]) := by
  rcases inquiries_answered 1 sharedRun_eq rfl rfl with
    ⟨-, result, hr, -, hcertified⟩ | ⟨config, stale, hstate, -⟩
  · cases result with
    | positive records =>
      cases hr
      exact hcertified
    | noData => cases hr
    | nxDomain => cases hr
  · cases hstate

theorem no_inquiry_panics_shared : (sharedRun.get rfl).cache.poisoned = false := by
  have hroom : sharedBuilder.LeavesRoom := by
    intro maxAge hmax
    cases hmax
    decide
  exact (no_inquiry_panics hroom sharedRun_eq).1

end N0DnsResolver
