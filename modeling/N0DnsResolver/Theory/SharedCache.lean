/-
  The cache behind its mutex, under any window of stale data.

  A resolver and its clones share one cache, and `get_stale` adds the window to the TTL
  while it holds the lock. A panic there poisons the mutex for all of them. A run of
  calls goes well exactly when no call finds an expired entry whose TTL and window
  together are longer than the longest `Duration` (`windows_fit_iff`).
-/
import N0DnsResolver.Theory.CacheRefinement
import Mathlib.Data.List.Induction

namespace N0DnsResolver

section Shared

variable {L : Type} [LruMap L UInt64 CacheEntry] (cacheKey : Str → RecordKind → UInt64)

namespace SharedCache

/-- The cache after these calls, each at its instant. -/
def after (shared : SharedCache L) (events : List (Instant × CacheOp)) : SharedCache L :=
  events.foldl (fun shared e => (shared.call cacheKey e.1 e.2).2) shared

theorem after_concat (shared : SharedCache L) (events : List (Instant × CacheOp))
    (e : Instant × CacheOp) : shared.after cacheKey (events ++ [e]) =
      ((shared.after cacheKey events).call cacheKey e.1 e.2).2 := by
  unfold after
  rw [List.foldl_append]
  rfl

theorem after_append (shared : SharedCache L) (events events' : List (Instant × CacheOp)) :
    shared.after cacheKey (events ++ events') =
      (shared.after cacheKey events).after cacheKey events' :=
  List.foldl_append

theorem call_skips {op : CacheOp} (h : op.skipsLock = true) (shared : SharedCache L)
    (now : Instant) : shared.call cacheKey now op = (.done, shared) := if_pos h

theorem call_ok {shared : SharedCache L} {now : Instant} {op : CacheOp} {answer : CacheAnswer}
    {inner : L} (hlock : op.skipsLock = false) (hsound : shared.poisoned = false)
    (hok : op.underLock cacheKey now shared.inner = .ok (answer, inner)) :
    shared.call cacheKey now op = (answer, ⟨inner, false⟩) := by
  unfold call
  rw [hlock, hsound, hok]
  rfl

theorem call_error {shared : SharedCache L} {now : Instant} {op : CacheOp} {p : Panic}
    (hlock : op.skipsLock = false) (herr : op.underLock cacheKey now shared.inner = .error p) :
    (shared.call cacheKey now op).1 = .panicked ∧
      (shared.call cacheKey now op).2.poisoned = true := by
  unfold call
  rw [hlock, herr]
  cases hp : shared.poisoned with
  | true => exact ⟨rfl, hp⟩
  | false => exact ⟨rfl, rfl⟩

/-- Once the mutex is poisoned, every call that takes the lock panics. -/
theorem call_poisoned {shared : SharedCache L} (h : shared.poisoned = true) (now : Instant)
    {op : CacheOp} (hlock : op.skipsLock = false) :
    shared.call cacheKey now op = (.panicked, shared) := by
  unfold call
  rw [hlock, h]
  rfl

/-- A call leaves the map as it was, or as its operation under the lock does. -/
theorem call_inner (shared : SharedCache L) (now : Instant) (op : CacheOp) :
    (shared.call cacheKey now op).2.inner = shared.inner ∨
      ∃ answer, op.underLock cacheKey now shared.inner =
        .ok (answer, (shared.call cacheKey now op).2.inner) := by
  unfold call
  cases op.skipsLock with
  | true => exact .inl rfl
  | false =>
    cases shared.poisoned with
    | true => exact .inl rfl
    | false =>
      cases hlock : op.underLock cacheKey now shared.inner with
      | error p => exact .inl rfl
      | ok r => exact .inr ⟨r.1, rfl⟩

theorem after_poisoned {shared : SharedCache L} (h : shared.poisoned = true)
    (events : List (Instant × CacheOp)) : shared.after cacheKey events = shared := by
  induction events using List.reverseRecOn with
  | nil => rfl
  | append_singleton events e ih =>
    rw [after_concat, ih]
    cases hlock : e.2.skipsLock with
    | true => rw [call_skips cacheKey hlock]
    | false => rw [call_poisoned cacheKey h e.1 hlock]

end SharedCache

/-! ## Exact answers -/

/-- The answer does not panic, and stale data is the records of a positive entry that left its TTL
and is within the window, in arithmetic without a bound. -/
def ExactAnswer (cache : L) (now : Instant) (op : CacheOp) (answer : CacheAnswer) : Prop :=
  match op with
  | .insert .. => answer = .done
  | .get host kind => answer = .found (DnsCache.get cacheKey cache now host kind).1
  | .getStale host kind maxStale =>
    answer = .stale ((DnsCache.entryOf cacheKey cache host kind).bind
      fun entry => entry.staleRecords now maxStale)
  | .clear => answer = .done

/-- If the call reads stale data of an entry past its TTL, the TTL and the window together are a
`Duration`. -/
def WindowFits (cache : L) (now : Instant) : CacheOp → Prop
  | .getStale host kind maxStale =>
    ∀ entry, DnsCache.entryOf cacheKey cache host kind = some entry →
      entry.ttl.nanos < entry.age now → entry.ttl.nanos + maxStale.nanos ≤ Duration.maxNanos
  | _ => True

variable [LawfulLruMap L]

/-- `get_stale` returns the exact stale data exactly when the window fits, and panics otherwise. -/
theorem getStale_cases (cache : L) (now : Instant) (host : Str) (kind : RecordKind)
    (maxStale : Duration) :
    (WindowFits cacheKey cache now (.getStale host kind maxStale) ∧
      DnsCache.getStale cacheKey cache now host kind maxStale =
        .ok ((DnsCache.entryOf cacheKey cache host kind).bind
            fun entry => entry.staleRecords now maxStale,
          (LruMap.get cache (DnsCache.slot cacheKey host kind)).2)) ∨
    (¬ WindowFits cacheKey cache now (.getStale host kind maxStale) ∧
      DnsCache.getStale cacheKey cache now host kind maxStale = .error .overflow) := by
  have hstale := DnsCache.getStale_eq cacheKey cache now host kind maxStale
  cases he : DnsCache.entryOf cacheKey cache host kind with
  | none =>
    rw [he] at hstale
    refine .inl ⟨fun entry hentry => ?_, hstale⟩
    rw [he] at hentry
    cases hentry
  | some entry =>
    rw [he] at hstale
    by_cases hfits : entry.ttl.nanos < entry.age now →
        entry.ttl.nanos + maxStale.nanos ≤ Duration.maxNanos
    · refine .inl ⟨fun entry' hentry => ?_, ?_⟩
      · rw [he] at hentry
        cases hentry
        exact hfits
      · have hok : DnsCache.staleOf entry now maxStale = .ok (entry.staleRecords now maxStale) := by
          by_cases hold : entry.ttl.nanos < entry.age now
          · exact DnsCache.staleOf_eq (hfits hold) now
          · have hnone : entry.staleRecords now maxStale = none := if_neg fun h => hold h.1
            rw [hnone]
            exact if_pos (Nat.not_lt.mp hold)
        exact hstale.trans (congrArg (Except.map _) hok)
    · rw [Classical.not_imp, Nat.not_le] at hfits
      refine .inr ⟨fun h => Nat.not_le.mpr hfits.2 (h entry he hfits.1), ?_⟩
      exact hstale.trans
        (congrArg (Except.map _) (DnsCache.staleOf_overflow hfits.1 hfits.2))

/-- Under the lock, a call whose window fits returns the exact answer. -/
theorem underLock_of_fits {cache : L} {now : Instant} {op : CacheOp}
    (hfits : WindowFits cacheKey cache now op) :
    ∃ answer inner, op.underLock cacheKey now cache = .ok (answer, inner) ∧
      ExactAnswer cacheKey cache now op answer := by
  cases op with
  | insert host kind result ttl => exact ⟨_, _, rfl, rfl⟩
  | get host kind => exact ⟨_, _, rfl, rfl⟩
  | getStale host kind maxStale =>
    rcases getStale_cases cacheKey cache now host kind maxStale with ⟨-, hok⟩ | ⟨hnot, -⟩
    · exact ⟨_, _, congrArg (Except.map _) hok, rfl⟩
    · exact absurd hfits hnot
  | clear => exact ⟨_, _, rfl, rfl⟩

/-- A call on a sound mutex whose window fits is answered exactly and leaves the mutex sound. -/
theorem call_of_fits {shared : SharedCache L} (h : shared.poisoned = false) {now : Instant}
    {op : CacheOp} (hfits : WindowFits cacheKey shared.inner now op) :
    ExactAnswer cacheKey shared.inner now op (shared.call cacheKey now op).1 ∧
      (shared.call cacheKey now op).2.poisoned = false := by
  cases hlock : op.skipsLock with
  | true =>
    rw [SharedCache.call_skips cacheKey hlock]
    refine ⟨?_, h⟩
    cases op with
    | insert host kind result ttl => rfl
    | _ => cases hlock
  | false =>
    obtain ⟨answer, inner, hok, hexact⟩ := underLock_of_fits cacheKey hfits
    rw [SharedCache.call_ok cacheKey hlock h hok]
    exact ⟨hexact, rfl⟩

/-- A call whose window does not fit takes the lock and panics under it. -/
theorem skipsLock_of_not_fits {cache : L} {now : Instant} {op : CacheOp}
    (hfits : ¬ WindowFits cacheKey cache now op) :
    op.skipsLock = false ∧ op.underLock cacheKey now cache = .error .overflow := by
  cases op with
  | getStale host kind maxStale =>
    rcases getStale_cases cacheKey cache now host kind maxStale with ⟨hf, -⟩ | ⟨-, herr⟩
    · exact absurd hf hfits
    · exact ⟨rfl, congrArg (Except.map _) herr⟩
  | _ => exact absurd trivial hfits

theorem call_of_not_fits (shared : SharedCache L) {now : Instant} {op : CacheOp}
    (hfits : ¬ WindowFits cacheKey shared.inner now op) :
    (shared.call cacheKey now op).1 = .panicked ∧
      (shared.call cacheKey now op).2.poisoned = true := by
  obtain ⟨hlock, herr⟩ := skipsLock_of_not_fits cacheKey hfits
  exact SharedCache.call_error cacheKey hlock herr

/-! ## Runs -/

variable (cache : L) (events : List (Instant × CacheOp))

/-- Every call of the run is answered exactly. -/
def RunsExactly : Prop :=
  ∀ before now op rest, events = before ++ (now, op) :: rest →
    ExactAnswer cacheKey (SharedCache.after cacheKey ⟨cache, false⟩ before).inner now op
      ((SharedCache.after cacheKey ⟨cache, false⟩ before).call cacheKey now op).1

/-- The window of every call of the run fits the entry the call finds. -/
def WindowsFit : Prop :=
  ∀ before now op rest, events = before ++ (now, op) :: rest →
    WindowFits cacheKey (SharedCache.after cacheKey ⟨cache, false⟩ before).inner now op

variable {cacheKey cache events}

/-- While the windows fit, the mutex is sound. -/
theorem WindowsFit.sound (h : WindowsFit cacheKey cache events) {before rest}
    (hsplit : events = before ++ rest) :
    (SharedCache.after cacheKey ⟨cache, false⟩ before).poisoned = false := by
  induction before using List.reverseRecOn generalizing rest with
  | nil => rfl
  | append_singleton before e ih =>
    have hsplit' : events = before ++ e :: rest := by
      rw [hsplit, List.append_assoc]
      rfl
    rw [SharedCache.after_concat]
    exact (call_of_fits cacheKey (ih hsplit') (h before e.1 e.2 rest hsplit')).2

theorem WindowsFit.runsExactly (h : WindowsFit cacheKey cache events) :
    RunsExactly cacheKey cache events := fun before now op rest hsplit =>
  (call_of_fits cacheKey (h.sound hsplit) (h before now op rest hsplit)).1

variable (cacheKey cache events)

/-- A run of calls on a shared cache, at whatever instants and with whatever windows, is answered
exactly, without a panic, if and only if no call reads stale data of an entry past its TTL that is
too long for the window. -/
theorem windows_fit_iff : RunsExactly cacheKey cache events ↔ WindowsFit cacheKey cache events := by
  refine ⟨fun h => ?_, WindowsFit.runsExactly⟩
  intro before now op rest hsplit
  by_contra hfits
  have hexact := h before now op rest hsplit
  rw [(call_of_not_fits cacheKey _ hfits).1] at hexact
  cases op with
  | getStale host kind maxStale => cases hexact
  | _ => exact hfits trivial

/-- After a call whose window does not fit, no call that takes the lock returns. -/
theorem panics_after_overflow {before : List (Instant × CacheOp)} {now : Instant} {op : CacheOp}
    (hfits : ¬ WindowFits cacheKey (SharedCache.after cacheKey ⟨cache, false⟩ before).inner now op)
    (between : List (Instant × CacheOp)) (now' : Instant) {op' : CacheOp}
    (hlock : op'.skipsLock = false) :
    ((SharedCache.after cacheKey ⟨cache, false⟩ (before ++ (now, op) :: between)).call cacheKey
      now' op').1 = .panicked := by
  have hpoisoned := (call_of_not_fits cacheKey _ hfits).2
  have hafter : SharedCache.after cacheKey ⟨cache, false⟩ (before ++ (now, op) :: between) =
      ((SharedCache.after cacheKey ⟨cache, false⟩ before).call cacheKey now op).2 := by
    rw [SharedCache.after_append]
    exact SharedCache.after_poisoned cacheKey hpoisoned between
  rw [hafter, SharedCache.call_poisoned cacheKey hpoisoned now' hlock]

/-! ## Windows that always fit -/

/-- No entry has a TTL above the cap of `insert`. -/
def Capped (cache : L) : Prop :=
  ∀ k entry, LruMap.peek cache k = some entry → entry.ttl.nanos ≤ maxTtlSecs * 1000000000

theorem capped_underLock {cache cache' : L} (h : Capped cache) {now : Instant} {op : CacheOp}
    {answer : CacheAnswer} (hlock : op.underLock cacheKey now cache = .ok (answer, cache')) :
    Capped cache' := by
  intro k entry hk
  cases op with
  | insert host kind result ttl =>
    cases hlock
    rcases DnsCache.peek_insert cacheKey hk with ⟨-, rfl⟩ | hold
    · have hmin : min ttl maxTtlSecs ≤ maxTtlSecs := Nat.min_le_right _ _
      exact Nat.mul_le_mul_right _ hmin
    · exact h k entry hold
  | get host kind =>
    cases hlock
    have hpeek : LruMap.peek (DnsCache.get cacheKey cache now host kind).2 k = some entry := hk
    rw [DnsCache.peek_get] at hpeek
    exact h k entry hpeek
  | getStale host kind maxStale =>
    obtain ⟨p, hp, hpair⟩ := Checked.map_eq_ok hlock
    cases hpair
    rw [DnsCache.getStale_ok hp, DnsCache.getStaleExact_eq] at hk
    simp only [LawfulLruMap.peek_get] at hk
    exact h k entry hk
  | clear =>
    cases hlock
    rw [LawfulLruMap.peek_clear] at hk
    cases hk

theorem capped_call {shared : SharedCache L} (h : Capped shared.inner) (now : Instant)
    (op : CacheOp) : Capped (shared.call cacheKey now op).2.inner := by
  rcases SharedCache.call_inner cacheKey shared now op with hsame | ⟨answer, hlock⟩
  · rw [hsame]
    exact h
  · exact capped_underLock cacheKey h hlock

theorem capped_after {cache : L} (h : Capped cache) (events : List (Instant × CacheOp)) :
    Capped (SharedCache.after cacheKey ⟨cache, false⟩ events).inner := by
  induction events using List.reverseRecOn with
  | nil => exact h
  | append_singleton events e ih =>
    rw [SharedCache.after_concat]
    exact capped_call cacheKey ih e.1 e.2

/-- The window of a read leaves room for the longest TTL. -/
def CacheOp.LeavesRoom : CacheOp → Prop
  | .getStale _ _ maxStale =>
    maxTtlSecs * 1000000000 + maxStale.nanos ≤ Duration.maxNanos
  | _ => True

/-- Windows that leave room for the longest TTL fit in every run from a new cache. -/
theorem windowsFit_of_leavesRoom {events : List (Instant × CacheOp)}
    (h : ∀ e ∈ events, e.2.LeavesRoom) : WindowsFit cacheKey (LruMap.new : L) events := by
  intro before now op rest hsplit
  have hroom : op.LeavesRoom := h (now, op) (by rw [hsplit]; simp)
  have hnew : Capped (LruMap.new : L) := by
    intro k entry hk
    rw [LawfulLruMap.peek_new] at hk
    cases hk
  have hcapped := capped_after cacheKey hnew before
  cases op with
  | getStale host kind maxStale =>
    intro entry hentry _
    have hpeek := ((DnsCache.entryOf_eq_some cacheKey).mp hentry).1
    exact Nat.le_trans (Nat.add_le_add_right (hcapped _ _ hpeek) _) hroom
  | _ => trivial

end Shared

/-! ## A window of `Duration::MAX` -/

/-- An insert for a second, and two reads of stale data a second after it ran out. -/
def outageEvents (maxStale : Duration) : List (Instant × CacheOp) :=
  [(0, .insert "db".toList .a (.positive [.a ⟨7⟩]) 1),
    (2000000000, .getStale "db".toList .a maxStale), (2000000000, .get "db".toList .a)]

theorem windows_fit_iff_outage :
    RunsExactly sampleKey (LruMap.new : Table) (outageEvents (Duration.fromSecs 9 (by decide))) :=
  (windows_fit_iff sampleKey (LruMap.new : Table) _).mpr
    (windowsFit_of_leavesRoom sampleKey (by simp [outageEvents, CacheOp.LeavesRoom]; decide))

/-- With a window of `Duration::MAX`, the read of stale data panics, and so does the lookup after
it. -/
theorem max_window_poisons :
    let shared : SharedCache Table :=
      SharedCache.after sampleKey ⟨LruMap.new, false⟩ ((outageEvents Duration.max).take 1)
    (shared.call sampleKey 2000000000 (.getStale "db".toList .a Duration.max)).1 = .panicked ∧
      ((shared.call sampleKey 2000000000 (.getStale "db".toList .a Duration.max)).2.call sampleKey
        2000000000 (.get "db".toList .a)).1 = .panicked ∧
      ¬ ∀ events, RunsExactly sampleKey (LruMap.new : Table) events := by
  intro shared
  have hpanic :
      (shared.call sampleKey 2000000000 (.getStale "db".toList .a Duration.max)).1 = .panicked := by
    rfl
  refine ⟨hpanic, by rfl, fun h => ?_⟩
  have hexact := h (outageEvents Duration.max) ((outageEvents Duration.max).take 1) 2000000000
    (.getStale "db".toList .a Duration.max) _ rfl
  exact nomatch hpanic.symm.trans hexact

end N0DnsResolver
