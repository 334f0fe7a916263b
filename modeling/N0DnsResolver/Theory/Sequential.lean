/-
  One lookup at a time.

  The machine of `Model/Concurrent` splits `lookup_record_impl` where other lookups may come
  in between. Left to itself, a lookup takes it to exactly where the function of
  `Model/Lookup` ends (`lookup_runs`), and so does a program that makes one call after the
  other (`session_runs`): what is proved of every interleaving holds of the sequential runs.
-/
import N0DnsResolver.Model.Session
import N0DnsResolver.Theory.Concurrent

namespace N0DnsResolver

namespace Inquiries

section Alone

variable {N L : Type} [LruMap L UInt64 CacheEntry] (cacheKey : Str → RecordKind → UInt64)
variable (stage : Stage N) (builder : Builder) (S : SimpleDns)

/-- The end of a walk, from the end of its loop. -/
def afterLoop (name : Str) (kind : RecordKind) :
    LoopExit × World N L → Checked (Except Error (List Record) × World N L)
  | (.returned r, w) => .ok (r, w)
  | (.finished st, w) => conclude cacheKey builder name kind st w

theorem walk_eq (names : List Str) (name : Str) (kind : RecordKind) (w : World N L) :
    walk cacheKey stage builder names name kind w =
      afterLoop cacheKey builder name kind
        (candidateLoop cacheKey stage builder kind names {} w) := by
  unfold walk
  rcases candidateLoop cacheKey stage builder kind names {} w with ⟨exit, w'⟩
  cases exit <;> rfl

/-- The lookup at a later step of its own. -/
def Task.goneOn (task : Task) (phase : Phase) (since : Instant) (answered : List (Str × Attempt)) :
    Task := { task with phase := phase, since := since, answered := answered }

/-- Steps of this lookup alone bring the machine to where the sequential lookup ends, with the states
of the resolvers as given. -/
def RunsTo (s : Inquiries L) (id : LookupId) (task : Task) (states : ResolverId → Option Config) :
    Checked (Except Error (List Record) × World N L) → Prop
  | .ok (r, w) => ∃ events t since answered,
      Machine.run (step cacheKey builder S) s events = some t ∧
      t.tasks = Function.update s.tasks id (some (task.goneOn (.returned r) since answered)) ∧
      t.states = states ∧ t.cache = ⟨w.cache, false⟩ ∧ t.clock ≤ w.now
  | .error _ => ∃ events t since answered,
      Machine.run (step cacheKey builder S) s events = some t ∧
      t.tasks = Function.update s.tasks id (some (task.goneOn .panicked since answered)) ∧
      t.cache.poisoned = true

/-- Some run of the machine has a lookup of the name and kind that ended so. -/
def Reaches (name : Str) (kind : RecordKind) :
    Checked (Except Error (List Record) × World N L) → Prop
  | .ok (r, w) => ∃ events t id task,
      Machine.run (step cacheKey builder S) (new : Inquiries L) events = some t ∧
      t.tasks id = some task ∧ task.name = name ∧ task.kind = kind ∧ task.phase = .returned r ∧
      t.cache = ⟨w.cache, false⟩
  | .error _ => ∃ events t id task,
      Machine.run (step cacheKey builder S) (new : Inquiries L) events = some t ∧
      t.tasks id = some task ∧ task.name = name ∧ task.kind = kind ∧ task.phase = .panicked ∧
      t.cache.poisoned = true

variable {cacheKey stage builder S} {s s₁ : Inquiries L} {id : LookupId}
variable {task : Task} {w : World N L} {states : ResolverId → Option Config}

/-- One step, and the rest of them. -/
theorem RunsTo.cons {e : Event} {out : Checked (Except Error (List Record) × World N L)}
    {phase : Phase} {since : Instant} {answered : List (Str × Attempt)}
    (hs : s.step cacheKey builder S e = some s₁)
    (htasks : s₁.tasks = Function.update s.tasks id (some (task.goneOn phase since answered)))
    (h : s₁.RunsTo cacheKey builder S id (task.goneOn phase since answered) states out) :
    s.RunsTo cacheKey builder S id task states out := by
  have hupdate : ∀ task' : Task, Function.update s₁.tasks id (some task') =
      Function.update s.tasks id (some task') := by
    intro task'
    rw [htasks, Function.update_idem]
  cases out with
  | ok p =>
    obtain ⟨events, t, since', answered', hrun, htask, hrest⟩ := h
    exact ⟨e :: events, t, since', answered', (Machine.run_cons_some hs events).trans hrun,
      htask.trans (hupdate _), hrest⟩
  | error p =>
    obtain ⟨events, t, since', answered', hrun, htask, hpoisoned⟩ := h
    exact ⟨e :: events, t, since', answered', (Machine.run_cons_some hs events).trans hrun,
      htask.trans (hupdate _), hpoisoned⟩

/-- An insert on a sound mutex. -/
theorem call_insert (cache : L) (now : Instant) (host : Str) (kind : RecordKind)
    (result : CachedResult) (ttl : Nat) :
    SharedCache.call cacheKey ⟨cache, false⟩ now (.insert host kind result ttl) =
      (.done, ⟨DnsCache.insert cacheKey cache now host kind result ttl, false⟩) := by
  by_cases httl : ttl = 0
  · subst httl
    rfl
  · exact SharedCache.call_ok cacheKey (decide_eq_false httl) rfl rfl

/-- The machine and the sequential lookup are at the same point. -/
structure At (s : Inquiries L) (w : World N L) (id : LookupId) (task : Task) : Prop where
  task_eq : s.tasks id = some task
  cache_eq : s.cache = ⟨w.cache, false⟩
  clock_le : s.clock ≤ w.now
  since_le : task.since ≤ w.now

variable (cacheKey S) in
/-- A lookup that has no call left to make returns. -/
theorem At.returns (h : s.At w id task) (hlast : task.lastCall builder = some none) :
    s.RunsTo cacheKey builder S id task s.states (.ok (task.phase.result none, w)) := by
  have hstep : s.step cacheKey builder S (.finish id w.now w.now) =
      some ({ s with clock := w.now }.put id
        { task with phase := .returned (task.phase.result none), since := w.now }) := by
    refine Option.bind_eq_some_iff.mpr ⟨task, h.task_eq, ?_⟩
    refine guard_bind.mpr ⟨⟨h.clock_le, h.since_le, Nat.le_refl _⟩, ?_⟩
    rw [hlast]
  exact ⟨[.finish id w.now w.now], _, w.now, task.answered, Machine.run_cons_some hstep [], rfl, rfl,
    h.cache_eq, Nat.le_refl _⟩

/-- A lookup that has returned. -/
theorem At.over {r : Except Error (List Record)} (h : s.At w id task)
    (hphase : task.phase = .returned r) :
    s.RunsTo cacheKey builder S id task s.states (.ok (r, w)) := by
  have hsame : task.goneOn (.returned r) task.since task.answered = task := by
    unfold Task.goneOn
    rw [← hphase]
  refine ⟨[], s, task.since, task.answered, rfl, ?_, rfl, h.cache_eq, h.clock_le⟩
  rw [hsame, ← h.task_eq, Function.update_eq_self]

variable (cacheKey S) in
/-- A lookup makes its last call and returns, or panics in it. -/
theorem At.finishes {op : CacheOp} (h : s.At w id task)
    (hlast : task.lastCall builder = some (some op)) :
    s.step cacheKey builder S (.finish id w.now w.now) =
      some ({ s.called cacheKey w.now op with clock := w.now }.put id { task with
        phase := task.phase.finished (s.cache.call cacheKey w.now op).1, since := w.now }) := by
  have htime : callTime w.now w.now op = w.now := by
    cases op <;> rfl
  refine Option.bind_eq_some_iff.mpr ⟨task, h.task_eq, ?_⟩
  refine guard_bind.mpr ⟨⟨h.clock_le, h.since_le, Nat.le_refl _⟩, ?_⟩
  simp only [hlast, htime]

variable (cacheKey S) in
/-- A lookup stores a result and returns. -/
theorem At.inserts {host : Str} {kind : RecordKind} {result : CachedResult} {ttl : Nat}
    (h : s.At w id task) (hlast : task.lastCall builder = some (some (.insert host kind result ttl))) :
    s.RunsTo cacheKey builder S id task s.states
      (.ok (task.phase.result none, w.insert cacheKey host kind result ttl)) := by
  have hstep := h.finishes cacheKey S hlast
  rw [h.cache_eq, call_insert] at hstep
  refine ⟨[_], _, w.now, task.answered, Machine.run_cons_some hstep [], rfl, rfl, ?_, Nat.le_refl _⟩
  show (SharedCache.call cacheKey s.cache w.now _).2 = _
  rw [h.cache_eq, call_insert]
  rfl

variable (cacheKey S) in
/-- A lookup reads stale data and returns, or panics. -/
theorem At.readsStale {st : LoopState} {maxAge : Duration} (h : s.At w id task)
    (hphase : task.phase = .concluding st)
    (hlast : task.lastCall builder = some (some (.getStale task.name task.kind maxAge))) :
    s.RunsTo cacheKey builder S id task s.states
      ((DnsCache.getStale cacheKey w.cache w.now task.name task.kind maxAge).map
        fun (found, cache) => (concludingAnswer st found, { w with cache := cache })) := by
  have hstep := h.finishes cacheKey S hlast
  have hskip : (CacheOp.getStale task.name task.kind maxAge).skipsLock = false := rfl
  have hsound : s.cache.poisoned = false := by rw [h.cache_eq]
  have hlock : CacheOp.underLock cacheKey w.now s.cache.inner
      (.getStale task.name task.kind maxAge) =
      (DnsCache.getStale cacheKey w.cache w.now task.name task.kind maxAge).map
        fun (records, cache) => (.stale records, cache) := by
    rw [h.cache_eq]
    rfl
  cases hread : DnsCache.getStale cacheKey w.cache w.now task.name task.kind maxAge with
  | ok p =>
    obtain ⟨found, cache⟩ := p
    rw [hread] at hlock
    have hcall := SharedCache.call_ok cacheKey hskip hsound hlock
    rw [hcall, hphase] at hstep
    refine ⟨[_], _, w.now, task.answered, Machine.run_cons_some hstep [], rfl, rfl, ?_,
      Nat.le_refl _⟩
    exact congrArg Prod.snd hcall
  | error p =>
    rw [hread] at hlock
    have hcall := SharedCache.call_error cacheKey hskip hlock
    rw [hcall.1] at hstep
    exact ⟨[_], _, w.now, task.answered, Machine.run_cons_some hstep [], rfl, hcall.2⟩

/-- The end of a walk without an absence: the last error, or stale data. -/
theorem At.concludes_failed {st : LoopState} (h : s.At w id task)
    (hphase : task.phase = .concluding st)
    (hneg : ∀ r, st.firstNegative = some r → r.negative = false) :
    s.RunsTo cacheKey builder S id task s.states
      (conclude cacheKey builder task.name task.kind st w) := by
  have hnoData : st.firstNegative ≠ some .noData := fun hn => nomatch hneg _ hn
  have hnxDomain : st.firstNegative ≠ some .nxDomain := fun hn => nomatch hneg _ hn
  have hcall : concludingCall builder task.name task.kind st =
      builder.serveStale.map fun maxAge => .getStale task.name task.kind maxAge := by
    unfold concludingCall
    split <;> [contradiction; contradiction; rfl]
  have hanswer : ∀ stale, concludingAnswer st stale =
      stale.elim (.error (st.lastErr.getD .noResponse)) .ok := by
    intro stale
    unfold concludingAnswer
    split <;> [contradiction; contradiction; (cases stale <;> rfl)]
  have hlast : task.lastCall builder = some (concludingCall builder task.name task.kind st) := by
    unfold Task.lastCall
    rw [hphase]
  rw [hcall] at hlast
  unfold conclude
  split <;> [contradiction; contradiction; skip]
  cases hmax : builder.serveStale with
  | none =>
    rw [hmax] at hlast
    have hrun := h.returns cacheKey S hlast
    rw [hphase, show Phase.result none (.concluding st) = _ from hanswer none] at hrun
    exact hrun
  | some maxAge =>
    rw [hmax] at hlast
    have hrun := h.readsStale cacheKey S hphase hlast
    simp only
    cases hread : DnsCache.getStale cacheKey w.cache w.now task.name task.kind maxAge with
    | error p =>
      rw [hread] at hrun
      exact hrun
    | ok p =>
      obtain ⟨found, cache⟩ := p
      rw [hread] at hrun
      simp only [Except.map, hanswer] at hrun
      cases found with
      | none => exact hrun
      | some records => exact hrun

/-- The end of the walk. -/
theorem At.concludes {st : LoopState} (h : s.At w id task) (hphase : task.phase = .concluding st) :
    s.RunsTo cacheKey builder S id task s.states
      (conclude cacheKey builder task.name task.kind st w) := by
  by_cases hneg : ∃ r, st.firstNegative = some r ∧ r.negative = true
  · obtain ⟨r, hfirst, hr⟩ := hneg
    have hlast : task.lastCall builder = some (if st.sawTransient then none
        else some (.insert task.name task.kind r st.negativeTtl)) := by
      unfold Task.lastCall concludingCall
      rw [hphase]
      simp only [hfirst]
      cases r with
      | positive rs => cases hr
      | _ => rfl
    have hresult : task.phase.result none = r.answer := by
      rw [hphase]
      show concludingAnswer st none = r.answer
      unfold concludingAnswer
      rw [hfirst]
      cases r with
      | positive rs => cases hr
      | _ => rfl
    rw [conclude_negative task.kind cacheKey builder hr hfirst, ← hresult]
    split
    · next hsaw =>
      rw [if_pos hsaw] at hlast
      exact h.returns cacheKey S hlast
    · next hsaw =>
      rw [if_neg hsaw] at hlast
      exact h.inserts cacheKey S hlast
  · apply h.concludes_failed hphase
    intro r hfirst
    exact Bool.eq_false_iff.mpr fun hr => hneg ⟨r, hfirst, hr⟩

/-- The steps of one candidate after the other. -/
theorem At.loops {names : List Str} {st : LoopState} (h : s.At w id task)
    (hphase : task.phase = .proceed names st) :
    s.RunsTo cacheKey builder S id task s.states
      (afterLoop cacheKey builder task.name task.kind (candidateLoop cacheKey stage builder task.kind
        names st w)) := by
  induction names generalizing st w s task with
  | nil => exact h.concludes hphase
  | cons name names ih =>
    let attempt := (stage name task.kind w.net).1
    let now := (w.resolve stage name task.kind).now
    let task₁ := task.goneOn (.queried builder name names st attempt) now
      (task.answered ++ [(name, attempt)])
    have hlater : w.now ≤ now := Nat.le_add_right _ _
    have hstep : s.step cacheKey builder S (.answer id now attempt) =
        some ({ s with clock := now }.put id task₁) := by
      refine Option.bind_eq_some_iff.mpr ⟨task, h.task_eq, ?_⟩
      refine guard_bind.mpr ⟨Nat.le_trans h.clock_le hlater, ?_⟩
      rw [show task.phase = .awaiting name names st from hphase]
      rfl
    have hat : ({ s with clock := now }.put id task₁).At (w.resolve stage name task.kind) id task₁ :=
      ⟨tasks_put_self _ id task₁, h.cache_eq, Nat.le_refl _, Nat.le_refl _⟩
    refine RunsTo.cons hstep rfl ?_
    cases hj : judge builder st (stage name task.kind w.net).1 with
    | answered results ttl =>
      have hqueried : task₁.phase = .storing name results ttl := by
        show Phase.queried builder name names st (stage name task.kind w.net).1 = _
        unfold Phase.queried
        rw [hj]
      have hlast : task₁.lastCall builder =
          some (some (.insert name task.kind (.positive results) ttl)) := by
        unfold Task.lastCall
        rw [hqueried]
        rfl
      have hrun := hat.inserts cacheKey S hlast
      rw [hqueried, show Phase.result none (.storing name results ttl) = .ok results from rfl] at hrun
      unfold candidateLoop
      rw [hj]
      exact hrun
    | failed e =>
      have hqueried : task₁.phase = .returned (.error e) := by
        show Phase.queried builder name names st (stage name task.kind w.net).1 = _
        unfold Phase.queried
        rw [hj]
      unfold candidateLoop
      rw [hj]
      exact hat.over hqueried
    | next st' =>
      have hqueried : task₁.phase = .proceed names st' := by
        show Phase.queried builder name names st (stage name task.kind w.net).1 = _
        unfold Phase.queried
        rw [hj]
      unfold candidateLoop
      rw [hj]
      exact ih hat hqueried

/-- What the states of the resolvers are once one of them may have been asked for its own. -/
def Consulted (states states' : ResolverId → Option Config) (resolver : ResolverId)
    (config : Config) : Prop :=
  states' = states ∨ states' = Function.update states resolver (some config)

/-- Left to itself from the start, a lookup ends where the sequential one does, and so does the
cache. -/
theorem lookup_runs {config : Config} (h : s.At w id task) (hphase : task.phase = .begun)
    (hconfig : s.configOf task.resolver config = config) :
    ∃ states, Consulted s.states states task.resolver config ∧
      s.RunsTo cacheKey builder S id task states
        (lookupRecordImpl cacheKey stage builder S config task.name task.kind w) := by
  have hcall : s.cache.call cacheKey w.now (.get task.name task.kind) =
      (.found (DnsCache.get cacheKey w.cache w.now task.name task.kind).1,
        ⟨(DnsCache.get cacheKey w.cache w.now task.name task.kind).2, false⟩) := by
    rw [h.cache_eq]
    exact SharedCache.call_ok cacheKey rfl rfl rfl
  have hanswer := congrArg Prod.fst hcall
  have hcache : (s.cache.call cacheKey w.now (.get task.name task.kind)).2 =
      ⟨(DnsCache.get cacheKey w.cache w.now task.name task.kind).2, false⟩ :=
    congrArg Prod.snd hcall
  cases hget : (DnsCache.get cacheKey w.cache w.now task.name task.kind).1 with
  | some result =>
    let task₁ := task.goneOn (.returned result.answer) w.now task.answered
    let s₁ : Inquiries L :=
      ({ s.called cacheKey w.now (.get task.name task.kind) with clock := w.now }).put id task₁
    have hstep : s.step cacheKey builder S (.look id w.now config) = some s₁ := by
      refine Option.bind_eq_some_iff.mpr ⟨task, h.task_eq, ?_⟩
      refine guard_bind.mpr ⟨h.clock_le, ?_⟩
      simp only [hphase, hanswer, hget, looked_found]
      rfl
    have hat : s₁.At { w with cache := (DnsCache.get cacheKey w.cache w.now task.name task.kind).2 }
        id task₁ := ⟨tasks_put_self _ id task₁, hcache, Nat.le_refl _, Nat.le_refl _⟩
    rw [lookup_hit stage task.kind cacheKey builder S config hget]
    exact ⟨s.states, .inl rfl, RunsTo.cons hstep rfl (hat.over rfl)⟩
  | none =>
    let task₁ := task.goneOn (.proceed (searchNames S config task.name) {}) w.now task.answered
    let s₁ : Inquiries L :=
      (({ s.called cacheKey w.now (.get task.name task.kind) with clock := w.now }).built
        task.resolver config).put id task₁
    have hstep : s.step cacheKey builder S (.look id w.now config) = some s₁ := by
      refine Option.bind_eq_some_iff.mpr ⟨task, h.task_eq, ?_⟩
      refine guard_bind.mpr ⟨h.clock_le, ?_⟩
      simp only [hphase, hanswer, hget, hconfig]
      rfl
    have hat : s₁.At { w with cache := (DnsCache.get cacheKey w.cache w.now task.name task.kind).2 }
        id task₁ := ⟨tasks_put_self _ id task₁, hcache, Nat.le_refl _, Nat.le_refl _⟩
    rw [lookup_miss stage task.kind cacheKey builder S config hget, walk_eq]
    refine ⟨s₁.states, .inr ?_, RunsTo.cons hstep rfl (hat.loops rfl)⟩
    show Function.update s.states task.resolver (some (s.configOf task.resolver config)) = _
    rw [hconfig]

/-! ## One call after the other -/

/-- The machine stands where the session does: its current resolver has this number, and the lookups
from this number on have not begun. -/
structure Mirrors (s : Inquiries L) (session : Session N L) (resolver : ResolverId)
    (next : LookupId) : Prop where
  cache_eq : s.cache = ⟨session.world.cache, false⟩
  clock_le : s.clock ≤ session.world.now
  state_eq : s.configOf resolver session.config = session.config
  unread : ∀ r, resolver < r → s.states r = none
  free : ∀ id, next ≤ id → s.tasks id = none

variable {session session' : Session N L} {resolver : ResolverId} {next : LookupId}

omit [LruMap L UInt64 CacheEntry] in
/-- The state of a resolver is the session's, whether it was just built or not. -/
theorem Mirrors.consulted {t : Inquiries L} {states : ResolverId → Option Config}
    (h : s.Mirrors session resolver next)
    (hconsulted : Consulted s.states states resolver session.config) (ht : t.states = states) :
    t.configOf resolver session.config = session.config ∧
      ∀ r, resolver < r → t.states r = none := by
  have hstate := h.state_eq
  unfold configOf at hstate ⊢
  rcases hconsulted with rfl | rfl
  · rw [ht]
    exact ⟨hstate, h.unread⟩
  · rw [ht, Function.update_self]
    refine ⟨rfl, fun r hr => ?_⟩
    rw [Function.update_of_ne (Nat.ne_of_gt hr)]
    exact h.unread r hr

variable (cacheKey stage builder S) in
/-- A lookup of the session begins, and left to itself ends as that does. -/
theorem Mirrors.begins (h : s.Mirrors session resolver next) (name : Str) (kind : RecordKind) :
    ∃ s₁ task, s.step cacheKey builder S (.call next resolver name kind) = some s₁ ∧
      s₁.tasks = Function.update s.tasks next (some task) ∧ task.resolver = resolver ∧
      task.name = name ∧ task.kind = kind ∧ ∃ states,
        Consulted s.states states resolver session.config ∧
        s₁.RunsTo cacheKey builder S next task states
          (session.lookup cacheKey stage builder S name kind) := by
  let task : Task := ⟨resolver, name, kind, .begun, s.clock, []⟩
  have hstep : s.step cacheKey builder S (.call next resolver name kind) =
      some (s.put next task) :=
    guard_bind.mpr ⟨by rw [h.free next (Nat.le_refl next)]; rfl, rfl⟩
  have hat : (s.put next task).At session.world next task :=
    ⟨tasks_put_self s next task, h.cache_eq, h.clock_le, h.clock_le⟩
  exact ⟨_, task, hstep, rfl, rfl, rfl, rfl, lookup_runs hat rfl h.state_eq⟩

/-- Every call of a session takes some steps of the machine. -/
theorem Mirrors.call {c : Call} (h : s.Mirrors session resolver next)
    (hc : session.call cacheKey stage builder S c = some session') :
    ∃ events t resolver' next', Machine.run (step cacheKey builder S) s events = some t ∧
      t.Mirrors session' resolver' next' := by
  cases c with
  | lookup name kind =>
    obtain ⟨r, hlookup, hconfig⟩ := Session.call_lookup_eq_some hc
    obtain ⟨s₁, task, hstep, htasks, -, -, -, states, hconsulted, hruns⟩ :=
      h.begins cacheKey stage builder S name kind
    rw [hlookup] at hruns
    obtain ⟨events, t, since, answered, hrun, htask, hstates, hcache, hclock⟩ := hruns
    refine ⟨_ :: events, t, resolver, next + 1, (Machine.run_cons_some hstep events).trans hrun, ?_⟩
    obtain ⟨hstate, hunread⟩ := h.consulted hconsulted hstates
    refine ⟨hcache, hclock, hconfig ▸ hstate, hunread, fun id hid => ?_⟩
    have hne : id ≠ next := Nat.ne_of_gt hid
    rw [htask, Function.update_of_ne hne, htasks, Function.update_of_ne hne]
    exact h.free id (Nat.le_of_succ_le hid)
  | reset config =>
    cases hc
    refine ⟨[], s, resolver + 1, next, rfl, h.cache_eq, h.clock_le, ?_, ?_, h.free⟩
    · unfold configOf
      rw [h.unread (resolver + 1) (Nat.lt_succ_self resolver)]
      rfl
    · exact fun r hr => h.unread r (Nat.lt_of_succ_lt hr)
  | clearCache =>
    cases hc
    have hstep : s.step cacheKey builder S (.clearCache session.world.now) =
        some (s.calledAt cacheKey session.world.now session.world.now .clear) :=
      guard_bind.mpr ⟨h.clock_le, rfl⟩
    refine ⟨[_], _, resolver, next, Machine.run_cons_some hstep [], ?_, Nat.le_refl _, h.state_eq,
      h.unread, h.free⟩
    show (s.cache.call cacheKey session.world.now .clear).2 = _
    rw [h.cache_eq]
    exact congrArg Prod.snd (SharedCache.call_ok cacheKey rfl rfl rfl)
  | wait nanos =>
    cases hc
    exact ⟨[], s, resolver, next, rfl, h.cache_eq, Nat.le_trans h.clock_le (Nat.le_add_right _ _),
      h.state_eq, h.unread, h.free⟩

/-- A session is a run of the machine. -/
theorem session_mirrored {config : Config} {net : N} {calls : List Call}
    (hrun : Machine.run (Session.call cacheKey stage builder S) (Session.start config net) calls =
      some session) :
    ∃ events t resolver next,
      Machine.run (step cacheKey builder S) (new : Inquiries L) events = some t ∧
      t.Mirrors session resolver next := by
  refine Machine.run_invariant (P := fun session : Session N L => ∃ events t resolver next,
    Machine.run (step cacheKey builder S) (new : Inquiries L) events = some t ∧
      t.Mirrors session resolver next) ?_ ?_ hrun
  · rintro session c session' ⟨events, s, resolver, next, hrun, hmirrors⟩ hc
    obtain ⟨events', t, resolver', next', hrun', hmirrors'⟩ := hmirrors.call hc
    exact ⟨events ++ events', t, resolver', next', (Machine.run_append hrun events').trans hrun',
      hmirrors'⟩
  · exact ⟨[], new, 0, 0, rfl, rfl, Nat.le_refl _, rfl, fun _ _ => rfl, fun _ _ => rfl⟩

/-- Whatever a program that makes one call after the other gets from a lookup, some interleaving of
lookups gives, with the same cache after it. -/
theorem session_runs {config : Config} {net : N} (calls : List Call)
    (hrun : Machine.run (Session.call cacheKey stage builder S) (Session.start config net) calls =
      some session) (name : Str) (kind : RecordKind) :
    Reaches cacheKey builder S name kind
      (session.lookup cacheKey stage builder S name kind) := by
  obtain ⟨events, s, resolver, next, hrun, hmirrors⟩ := session_mirrored hrun
  obtain ⟨s₁, task, hstep, -, -, hname, hkind, states, -, hruns⟩ :=
    hmirrors.begins cacheKey stage builder S name kind
  cases hlookup : session.lookup cacheKey stage builder S name kind with
  | ok p =>
    rw [hlookup] at hruns
    obtain ⟨events', t, since, answered, hrun', htask, -, hcache, -⟩ := hruns
    refine ⟨_, t, next, task.goneOn (.returned p.1) since answered, (Machine.run_append hrun _).trans
      ((Machine.run_cons_some hstep events').trans hrun'), ?_, hname, hkind, rfl, hcache⟩
    rw [htask, Function.update_self]
  | error p =>
    rw [hlookup] at hruns
    obtain ⟨events', t, since, answered, hrun', htask, hpoisoned⟩ := hruns
    refine ⟨_, t, next, task.goneOn .panicked since answered, (Machine.run_append hrun _).trans
      ((Machine.run_cons_some hstep events').trans hrun'), ?_, hname, hkind, rfl, hpoisoned⟩
    rw [htask, Function.update_self]

end Alone

/-! ## A session -/

/-- Answers two queries, and no more. -/
def twiceStage : Stage Nat := fun _ _ asked =>
  (⟨if asked < 2 then .ok ([.a ⟨7⟩], 60) else .error .noResponse, none⟩, 1000, asked + 1)

/-- A lookup, and another one once its answer has expired, the cache was cleared and the resolver
was reset. -/
def sampleCalls : List Call :=
  [.lookup "db.".toList .a, .wait (61 * 1000000000), .clearCache,
    .reset { searchDomains := ["corp".toList] }, .lookup "db.".toList .a]

def sampleSession : Option (Session Nat Table) :=
  Machine.run (Session.call sampleKey twiceStage {} (.ofTable [])) (Session.start {} 0) sampleCalls

theorem sampleSession_isSome : sampleSession.isSome = true := by decide +kernel

/-- The lookup that comes next finds what the second one stored. -/
theorem session_runs_stored :
    Reaches sampleKey {} (.ofTable []) "db.".toList .a
        ((sampleSession.get sampleSession_isSome).lookup sampleKey twiceStage {} (.ofTable [])
          "db.".toList .a) ∧
      ((sampleSession.get sampleSession_isSome).lookup sampleKey twiceStage {} (.ofTable [])
          "db.".toList .a).map Prod.fst = .ok (.ok [.a ⟨7⟩]) :=
  ⟨session_runs sampleCalls (Option.some_get sampleSession_isSome).symm "db.".toList .a,
    by decide +kernel⟩

end Inquiries

end N0DnsResolver
