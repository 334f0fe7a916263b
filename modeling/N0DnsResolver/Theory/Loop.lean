/-
  What the candidate loop does, in terms of the outcomes of its candidates.

  `candidateLoop_cases` is the only place where the loop is unfolded: it returns at
  the first candidate that decides (`Outcome.decisive`), or runs through all of
  them and leaves `afterAll`. `lookup_hit` and `lookup_cases` say what a whole lookup
  returns and stores, with and without a cached answer.
-/
import N0DnsResolver.Model.Lookup

namespace N0DnsResolver

/-- The five classes of outcome of one candidate. -/
inductive Outcome where
  | records (rs : List Record)
  | noData
  | nxDomain
  | indeterminate (e : Error)
  | fatal (e : Error)
  deriving DecidableEq, Repr

namespace Outcome

/-- Records and fatal errors end the walk. -/
def decisive : Outcome → Bool
  | .records _ => true
  | .fatal _ => true
  | _ => false

/-- The authoritative absences. -/
def negative : Outcome → Bool
  | .noData => true
  | .nxDomain => true
  | _ => false

/-- The class of a result: an empty answer is NODATA. -/
def ofResult : Except Error (List Record × Nat) → Outcome
  | .ok (results, _) => if results ≠ [] then .records results else .noData
  | .error .nxDomain => .nxDomain
  | .error e => if e.indeterminate then .indeterminate e else .fatal e

end Outcome

def Attempt.outcome (attempt : Attempt) : Outcome := Outcome.ofResult attempt.res

/-- The accumulators after one more attempt that does not decide. -/
def LoopState.after (builder : Builder) (st : LoopState) (attempt : Attempt) : LoopState :=
  match attempt.outcome with
  | .noData => st.noteNegative .noData (builder.negativeCacheTtlSecs attempt.soa)
  | .nxDomain => { st.noteNegative .nxDomain (builder.negativeCacheTtlSecs attempt.soa) with
      lastErr := some .nxDomain }
  | .indeterminate e => { st with sawTransient := true, lastErr := some e }
  | _ => st

/-- The loop body, by the class of the attempt. -/
theorem judge_cases (builder : Builder) (st : LoopState) (attempt : Attempt) :
    (∃ rs ttl, attempt.res = .ok (rs, ttl) ∧ rs ≠ [] ∧ attempt.outcome = .records rs ∧
        judge builder st attempt = .answered rs (max ttl builder.cacheMinTtlSecs)) ∨
      (∃ e, attempt.res = .error e ∧ attempt.outcome = .fatal e ∧
        judge builder st attempt = .failed e) ∨
      (attempt.outcome.decisive = false ∧
        judge builder st attempt = .next (st.after builder attempt)) := by
  obtain ⟨res, soa⟩ := attempt
  cases res with
  | ok p =>
    obtain ⟨rs, ttl⟩ := p
    by_cases h : rs = []
    · right; right
      simp [judge, Attempt.outcome, Outcome.ofResult, LoopState.after, Outcome.decisive, h]
    · left
      exact ⟨rs, ttl, rfl, h, by simp [Attempt.outcome, Outcome.ofResult, h],
        by simp [judge, h]⟩
  | error e =>
    right
    cases e <;>
      simp [judge, Attempt.outcome, Outcome.ofResult, LoopState.after, Outcome.decisive,
        Error.indeterminate]

theorem ofResult_records {res : Except Error (List Record × Nat)} {rs : List Record} {ttl : Nat}
    (h : res = .ok (rs, ttl)) (hrs : rs ≠ []) : Outcome.ofResult res = .records rs := by
  rw [h]
  exact if_pos hrs

section Loop

variable {N L : Type} (stage : Stage N) (kind : RecordKind)

/-- The network once the candidates have been resolved, one after the other. -/
def netAfter (names : List Str) (net : N) : N :=
  names.foldl (fun net name => (stage name kind net).2.2) net

/-- The attempts of the candidates, resolved one after the other. -/
def attempts : List Str → N → List Attempt
  | [], _ => []
  | name :: names, net => (stage name kind net).1 :: attempts names (stage name kind net).2.2

/-- The world once the candidates have been resolved, one after the other. -/
def World.resolveAll (w : World N L) (names : List Str) : World N L :=
  names.foldl (fun w name => w.resolve stage name kind) w

@[simp] theorem netAfter_cons (name : Str) (names : List Str) (net : N) :
    netAfter stage kind (name :: names) net =
      netAfter stage kind names (stage name kind net).2.2 := rfl

theorem attempts_append (names names' : List Str) (net : N) :
    attempts stage kind (names ++ names') net =
      attempts stage kind names net ++
        attempts stage kind names' (netAfter stage kind names net) := by
  induction names generalizing net with
  | nil => rfl
  | cons name names ih => simp [attempts, ih]

theorem attempt_mem (pre : List Str) (c : Str) (post : List Str) (net : N) :
    (stage c kind (netAfter stage kind pre net)).1 ∈
      attempts stage kind (pre ++ c :: post) net := by
  rw [attempts_append]
  exact List.mem_append_right _ List.mem_cons_self

theorem attempts_ne_nil {names : List Str} (h : names ≠ []) (net : N) :
    attempts stage kind names net ≠ [] := by
  cases names with
  | nil => exact absurd rfl h
  | cons name names => exact List.cons_ne_nil _ _

/-- Where an attempt of the walk comes from. -/
theorem attempts_eq_append {names : List Str} {net : N} {as bs : List Attempt} {a : Attempt}
    (h : attempts stage kind names net = as ++ a :: bs) :
    ∃ pre c post, names = pre ++ c :: post ∧ attempts stage kind pre net = as ∧
      a = (stage c kind (netAfter stage kind pre net)).1 := by
  induction names generalizing net as with
  | nil => cases as <;> cases h
  | cons name names ih =>
    cases as with
    | nil =>
      obtain ⟨rfl, -⟩ := List.cons.inj h
      exact ⟨[], name, names, rfl, rfl, rfl⟩
    | cons b as =>
      obtain ⟨rfl, ht⟩ := List.cons.inj h
      obtain ⟨pre, c, post, rfl, hp, ha⟩ := ih ht
      exact ⟨name :: pre, c, post, rfl, congrArg _ hp, ha⟩

@[simp] theorem resolveAll_cons (w : World N L) (name : Str) (names : List Str) :
    w.resolveAll stage kind (name :: names) =
      (w.resolve stage name kind).resolveAll stage kind names := rfl

@[simp] theorem resolveAll_net (w : World N L) (names : List Str) :
    (w.resolveAll stage kind names).net = netAfter stage kind names w.net := by
  induction names generalizing w with
  | nil => rfl
  | cons name names ih => rw [resolveAll_cons, ih, netAfter_cons, World.resolve]

/-- Where the network is once a candidate has answered. -/
theorem net_of_answer (w : World N L) (pre : List Str) (c : Str) :
    (w.resolveAll stage kind (pre ++ [c])).net =
      (stage c kind (netAfter stage kind pre w.net)).2.2 := by
  rw [resolveAll_net]
  unfold netAfter
  rw [List.foldl_append]
  rfl

@[simp] theorem resolveAll_inserts (w : World N L) (names : List Str) :
    (w.resolveAll stage kind names).inserts = w.inserts := by
  induction names generalizing w with
  | nil => rfl
  | cons name names ih => rw [resolveAll_cons, ih, World.resolve]

/-- Resolving candidates neither reads nor writes the cache. -/
theorem resolveAll_withCache (w : World N L) (cache : L) (names : List Str) :
    World.resolveAll stage kind { w with cache := cache } names =
      { w.resolveAll stage kind names with cache := cache } := by
  induction names generalizing w with
  | nil => rfl
  | cons name names ih => exact ih (w.resolve stage name kind)

theorem resolveAll_now_le (w : World N L) (names : List Str) :
    w.now ≤ (w.resolveAll stage kind names).now := by
  induction names generalizing w with
  | nil => exact Nat.le_refl _
  | cons name names ih =>
    exact Nat.le_trans (Nat.le_add_right _ _) (ih (w.resolve stage name kind))

/-- The accumulators after all the attempts, none of which decides. -/
def afterAll (builder : Builder) (st : LoopState) (as : List Attempt) : LoopState :=
  as.foldl (fun st a => st.after builder a) st

variable [LruMap L UInt64 CacheEntry] (cacheKey : Str → RecordKind → UInt64) (builder : Builder)

/-- The three ways the loop ends. -/
theorem candidateLoop_cases (names : List Str) (st : LoopState) (w : World N L) :
    (∃ pre c post rs ttl, names = pre ++ c :: post ∧
        (∀ a ∈ attempts stage kind pre w.net, a.outcome.decisive = false) ∧
        (stage c kind (netAfter stage kind pre w.net)).1.res = .ok (rs, ttl) ∧ rs ≠ [] ∧
        candidateLoop cacheKey stage builder kind names st w =
          (.returned (.ok rs), (w.resolveAll stage kind (pre ++ [c])).insert cacheKey c kind
            (.positive rs) (max ttl builder.cacheMinTtlSecs))) ∨
      (∃ pre c post e, names = pre ++ c :: post ∧
        (∀ a ∈ attempts stage kind pre w.net, a.outcome.decisive = false) ∧
        (stage c kind (netAfter stage kind pre w.net)).1.outcome = .fatal e ∧
        candidateLoop cacheKey stage builder kind names st w =
          (.returned (.error e), w.resolveAll stage kind (pre ++ [c]))) ∨
      ((∀ a ∈ attempts stage kind names w.net, a.outcome.decisive = false) ∧
        candidateLoop cacheKey stage builder kind names st w =
          (.finished (afterAll builder st (attempts stage kind names w.net)),
            w.resolveAll stage kind names)) := by
  induction names generalizing st w with
  | nil =>
    right; right
    exact ⟨fun _ ha => (nomatch ha), rfl⟩
  | cons name names ih =>
    rcases judge_cases builder st (stage name kind w.net).1 with
      ⟨rs, ttl, hres, hne, -, hj⟩ | ⟨e, -, hout, hj⟩ | ⟨hdec, hj⟩
    · refine .inl ⟨[], name, names, rs, ttl, rfl, fun _ ha => (nomatch ha), hres, hne, ?_⟩
      simp [candidateLoop, hj, World.resolveAll]
    · refine .inr (.inl ⟨[], name, names, e, rfl, fun _ ha => (nomatch ha), hout, ?_⟩)
      simp [candidateLoop, hj, World.resolveAll]
    · have hloop : candidateLoop cacheKey stage builder kind (name :: names) st w =
          candidateLoop cacheKey stage builder kind names
            (st.after builder (stage name kind w.net).1) (w.resolve stage name kind) := by
        simp [candidateLoop, hj]
      have hpre : ∀ pre : List Str,
          (∀ a ∈ attempts stage kind pre (w.resolve stage name kind).net,
            a.outcome.decisive = false) →
          ∀ a ∈ attempts stage kind (name :: pre) w.net, a.outcome.decisive = false := by
        intro pre h a ha
        rcases List.mem_cons.mp ha with rfl | ha
        · exact hdec
        · exact h a ha
      rw [hloop]
      rcases ih (st.after builder (stage name kind w.net).1) (w.resolve stage name kind) with
        ⟨pre, c, post, rs, ttl, rfl, hp, hres, hne, he⟩ | ⟨pre, c, post, e, rfl, hp, hout, he⟩ |
          ⟨hall, he⟩
      · exact .inl ⟨name :: pre, c, post, rs, ttl, rfl, hpre pre hp, hres, hne, he⟩
      · exact .inr (.inl ⟨name :: pre, c, post, e, rfl, hpre pre hp, hout, he⟩)
      · exact .inr (.inr ⟨hpre names hall, he⟩)

/-- The walk resolves the candidates it tries, one after the other. -/
theorem candidateLoop_net (names : List Str) (st : LoopState) (w : World N L) :
    ∃ tried, tried <+: names ∧
      (candidateLoop cacheKey stage builder kind names st w).2.net =
        netAfter stage kind tried w.net := by
  rcases candidateLoop_cases stage kind cacheKey builder names st w with
    ⟨pre, c, post, _, _, hnames, -, -, -, h⟩ | ⟨pre, c, post, _, hnames, -, -, h⟩ | ⟨-, h⟩
  · refine ⟨pre ++ [c], ⟨post, by rw [hnames, List.append_assoc]; rfl⟩, ?_⟩
    rw [h, ← resolveAll_net]
    rfl
  · refine ⟨pre ++ [c], ⟨post, by rw [hnames, List.append_assoc]; rfl⟩, ?_⟩
    rw [h, resolveAll_net]
  · exact ⟨names, List.prefix_refl names, by rw [h, resolveAll_net]⟩

/-! ## The accumulators -/

/-- An outcome as the cached result it may become. -/
def Outcome.cached : Outcome → Option CachedResult
  | .noData => some .noData
  | .nxDomain => some .nxDomain
  | _ => none

theorem cached_isSome (o : Outcome) : o.cached.isSome = o.negative := by cases o <;> rfl

theorem after_firstNegative (st : LoopState) (a : Attempt) :
    (st.after builder a).firstNegative = st.firstNegative.or a.outcome.cached := by
  unfold LoopState.after LoopState.noteNegative
  cases a.outcome <;> cases h : st.firstNegative <;> simp [Outcome.cached, h]

theorem after_negativeTtl (st : LoopState) (a : Attempt) :
    (st.after builder a).negativeTtl =
      if st.firstNegative.isNone && a.outcome.negative then builder.negativeCacheTtlSecs a.soa
      else st.negativeTtl := by
  unfold LoopState.after LoopState.noteNegative
  cases a.outcome <;> cases st.firstNegative <;> simp [Outcome.negative]

/-- The attempt learned nothing. -/
def Attempt.transient (a : Attempt) : Bool :=
  match a.outcome with
  | .indeterminate _ => true
  | _ => false

theorem after_sawTransient (st : LoopState) (a : Attempt) :
    (st.after builder a).sawTransient = (st.sawTransient || a.transient) := by
  unfold LoopState.after LoopState.noteNegative Attempt.transient
  cases a.outcome <;> cases st.firstNegative <;> simp

theorem after_lastErr (st : LoopState) (a : Attempt) :
    (st.after builder a).lastErr =
      match a.outcome with
      | .nxDomain => some .nxDomain
      | .indeterminate e => some e
      | _ => st.lastErr := by
  unfold LoopState.after LoopState.noteNegative
  cases a.outcome <;> cases st.firstNegative <;> simp

/-- The first negative answer is kept. -/
theorem afterAll_firstNegative (as : List Attempt) (st : LoopState) :
    (afterAll builder st as).firstNegative =
      st.firstNegative.or (as.findSome? (fun a => a.outcome.cached)) := by
  induction as generalizing st with
  | nil => simp [afterAll]
  | cons a as ih =>
    change (afterAll builder (st.after builder a) as).firstNegative = _
    rw [ih, after_firstNegative, List.findSome?_cons]
    cases st.firstNegative <;> cases a.outcome.cached <;> rfl

/-- The TTL is that of the first negative answer. -/
theorem afterAll_negativeTtl (as : List Attempt) (st : LoopState) :
    (afterAll builder st as).negativeTtl =
      if st.firstNegative.isNone then
        match as.find? (fun a => a.outcome.negative) with
        | some a => builder.negativeCacheTtlSecs a.soa
        | none => st.negativeTtl
      else st.negativeTtl := by
  induction as generalizing st with
  | nil => simp [afterAll]
  | cons a as ih =>
    change (afterAll builder (st.after builder a) as).negativeTtl = _
    rw [ih, after_firstNegative, after_negativeTtl, List.find?_cons]
    rw [← cached_isSome]
    cases st.firstNegative <;> cases a.outcome.cached <;> rfl

theorem afterAll_sawTransient (as : List Attempt) (st : LoopState) :
    (afterAll builder st as).sawTransient = (st.sawTransient || as.any Attempt.transient) := by
  induction as generalizing st with
  | nil => simp [afterAll]
  | cons a as ih =>
    change (afterAll builder (st.after builder a) as).sawTransient = _
    rw [ih, after_sawTransient, List.any_cons, Bool.or_assoc]

/-- The last error is the last attempt's, when that is one. -/
theorem afterAll_lastErr (as : List Attempt) (a : Attempt) (st : LoopState) {e : Error}
    (h : a.outcome = .indeterminate e) :
    (afterAll builder st (as ++ [a])).lastErr = some e := by
  unfold afterAll
  rw [List.foldl_append]
  simp [after_lastErr, h]

/-! ## Whole walks -/

/-- What a cached result answers. -/
def CachedResult.answer : CachedResult → Except Error (List Record)
  | .positive records => .ok records
  | .noData => .ok []
  | .nxDomain => .error .nxDomain

theorem cached_ne_positive {o : Outcome} {r : CachedResult} (h : o.cached = some r) :
    r.negative = true := by
  cases o <;> cases h <;> rfl

theorem indeterminate_of_transient {a : Attempt} (h : a.transient = true) :
    ∃ e, a.outcome = .indeterminate e := by
  unfold Attempt.transient at h
  split at h
  · next e he => exact ⟨e, he⟩
  · simp at h

theorem transient_of_not {a : Attempt} (hd : a.outcome.decisive = false)
    (hn : a.outcome.cached = none) : ∃ e, a.outcome = .indeterminate e := by
  cases h : a.outcome with
  | indeterminate e => exact ⟨e, rfl⟩
  | records rs => rw [h] at hd; cases hd
  | fatal e => rw [h] at hd; cases hd
  | noData => rw [h] at hn; cases hn
  | nxDomain => rw [h] at hn; cases hn

/-- The first attempt with a negative outcome, by its candidate. -/
theorem find_negative {names pre post : List Str} {c : Str} {net : N} {r : CachedResult}
    (hn : names = pre ++ c :: post)
    (hpre : ∀ a ∈ attempts stage kind pre net, a.outcome.cached = none)
    (hc : (stage c kind (netAfter stage kind pre net)).1.outcome.cached = some r) :
    (attempts stage kind names net).find? (fun a => a.outcome.negative) =
      some (stage c kind (netAfter stage kind pre net)).1 := by
  rw [hn, attempts_append, List.find?_append, List.find?_eq_none.mpr, Option.none_or]
  · exact List.find?_cons_of_pos (by rw [← cached_isSome, hc]; rfl)
  · intro a ha
    rw [← cached_isSome, hpre a ha]
    decide

/-- The end of a walk that found a negative answer. -/
theorem conclude_negative {st : LoopState} {r : CachedResult} (hr : r.negative = true)
    (h : st.firstNegative = some r) (name : Str) (w : World N L) :
    conclude cacheKey builder name kind st w =
      .ok (r.answer, if st.sawTransient then w
        else w.insert cacheKey name kind r st.negativeTtl) := by
  unfold conclude
  rw [h]
  cases r with
  | positive rs => cases hr
  | noData => rfl
  | nxDomain => rfl

/-- The end of a walk that learned nothing depends on the last error only. -/
theorem conclude_lastErr {st : LoopState} {e : Error} (h : st.firstNegative = none)
    (he : st.lastErr = some e) (name : Str) (w : World N L) :
    conclude cacheKey builder name kind st w =
      conclude cacheKey builder name kind { lastErr := some e } w := by
  unfold conclude
  rw [h, he]

/-- The four ways a walk ends: records, a fatal error, a negative answer, or nothing learned. -/
theorem walk_cases {names : List Str} (hne : names ≠ []) (name : Str) (w : World N L) :
    (∃ pre c post rs ttl, names = pre ++ c :: post ∧
        (∀ a ∈ attempts stage kind pre w.net, a.outcome.decisive = false) ∧
        (stage c kind (netAfter stage kind pre w.net)).1.res = .ok (rs, ttl) ∧ rs ≠ [] ∧
        walk cacheKey stage builder names name kind w =
          .ok (.ok rs, (w.resolveAll stage kind (pre ++ [c])).insert cacheKey c kind
            (.positive rs) (max ttl builder.cacheMinTtlSecs))) ∨
      (∃ pre c post e, names = pre ++ c :: post ∧
        (∀ a ∈ attempts stage kind pre w.net, a.outcome.decisive = false) ∧
        (stage c kind (netAfter stage kind pre w.net)).1.outcome = .fatal e ∧
        walk cacheKey stage builder names name kind w =
          .ok (.error e, w.resolveAll stage kind (pre ++ [c]))) ∨
      (∃ pre c post r, names = pre ++ c :: post ∧
        (∀ a ∈ attempts stage kind names w.net, a.outcome.decisive = false) ∧
        (∀ a ∈ attempts stage kind pre w.net, a.outcome.cached = none) ∧
        (stage c kind (netAfter stage kind pre w.net)).1.outcome.cached = some r ∧
        walk cacheKey stage builder names name kind w =
          .ok (r.answer,
            if (attempts stage kind names w.net).any Attempt.transient
            then w.resolveAll stage kind names
            else (w.resolveAll stage kind names).insert cacheKey name kind r
              (builder.negativeCacheTtlSecs
                (stage c kind (netAfter stage kind pre w.net)).1.soa))) ∨
      (∃ as a e, attempts stage kind names w.net = as ++ [a] ∧
        (∀ b ∈ as ++ [a], ∃ e, b.outcome = .indeterminate e) ∧ a.outcome = .indeterminate e ∧
        walk cacheKey stage builder names name kind w =
          conclude cacheKey builder name kind { lastErr := some e }
            (w.resolveAll stage kind names)) := by
  rcases candidateLoop_cases stage kind cacheKey builder names {} w with
    ⟨pre, c, post, rs, ttl, hn, hp, hres, hrs, he⟩ | ⟨pre, c, post, e, hn, hp, hout, he⟩ |
      ⟨hall, he⟩
  · refine .inl ⟨pre, c, post, rs, ttl, hn, hp, hres, hrs, ?_⟩
    rw [walk, he]
  · refine .inr (.inl ⟨pre, c, post, e, hn, hp, hout, ?_⟩)
    rw [walk, he]
  · right; right
    have hw : walk cacheKey stage builder names name kind w =
        conclude cacheKey builder name kind
          (afterAll builder {} (attempts stage kind names w.net))
          (w.resolveAll stage kind names) := by rw [walk, he]
    have hfirst := afterAll_firstNegative builder (attempts stage kind names w.net) {}
    rw [Option.none_or] at hfirst
    cases hf : (attempts stage kind names w.net).findSome? (fun a => a.outcome.cached) with
    | some r =>
      left
      obtain ⟨as, a, bs, has, hr, hnone⟩ := List.findSome?_eq_some_iff.mp hf
      obtain ⟨pre, c, post, hn, rfl, rfl⟩ := attempts_eq_append stage kind has
      refine ⟨pre, c, post, r, hn, hall, hnone, hr, ?_⟩
      rw [hw, conclude_negative kind cacheKey builder (cached_ne_positive hr) (hfirst.trans hf),
        afterAll_sawTransient, Bool.false_or, afterAll_negativeTtl]
      simp [find_negative stage kind hn hnone hr]
    | none =>
      right
      have hind : ∀ b ∈ attempts stage kind names w.net, ∃ e, b.outcome = .indeterminate e :=
        fun b hb => transient_of_not (hall b hb) (List.findSome?_eq_none_iff.mp hf b hb)
      obtain ⟨as, a, has⟩ := (List.eq_nil_or_concat' _).resolve_left
        (attempts_ne_nil stage kind hne w.net)
      rw [has] at hind hw hfirst
      obtain ⟨e, ha⟩ := hind a (by simp)
      refine ⟨as, a, e, has, hind, ha, ?_⟩
      rw [hw, conclude_lastErr kind cacheKey builder (hfirst.trans (has ▸ hf))
        (afterAll_lastErr builder as a {} ha)]

/-! ## Whole lookups -/

section Lookup

variable (S : SimpleDns) (config : Config)

/-- A cached answer is returned and nothing is asked. -/
theorem lookup_hit {name : Str} {w : World N L} {r : CachedResult}
    (h : (DnsCache.get cacheKey w.cache w.now name kind).1 = some r) :
    lookupRecordImpl cacheKey stage builder S config name kind w =
      .ok (r.answer, { w with cache := (DnsCache.get cacheKey w.cache w.now name kind).2 }) := by
  unfold lookupRecordImpl
  cases hg : DnsCache.get cacheKey w.cache w.now name kind with
  | mk found cache =>
    rw [hg] at h
    cases h
    cases r <;> rfl

/-- Without one, the search list is walked. -/
theorem lookup_miss {name : Str} {w : World N L}
    (h : (DnsCache.get cacheKey w.cache w.now name kind).1 = none) :
    lookupRecordImpl cacheKey stage builder S config name kind w =
      walk cacheKey stage builder (searchNames S config name) name kind
        { w with cache := (DnsCache.get cacheKey w.cache w.now name kind).2 } := by
  unfold lookupRecordImpl
  cases hg : DnsCache.get cacheKey w.cache w.now name kind with
  | mk found cache =>
    rw [hg] at h
    cases h
    rfl

/-- What `serve_stale` reads from an entry. -/
def staleRead (entry : Option CacheEntry) (now : Instant) : Checked (Option (List Record)) :=
  match builder.serveStale, entry with
  | some maxAge, some entry => DnsCache.staleOf entry now maxAge
  | _, _ => .ok none

/-- What is read was stored, and the window is set and not over. -/
theorem staleRead_eq_some {entry : Option CacheEntry} {now : Instant} {rs : List Record}
    (h : staleRead builder entry now = .ok (some rs)) :
    ∃ maxAge e, builder.serveStale = some maxAge ∧ entry = some e ∧ e.result = .positive rs ∧
      e.age now ≤ e.ttl.nanos + maxAge.nanos := by
  unfold staleRead at h
  cases hs : builder.serveStale with
  | none =>
    rw [hs] at h
    simp at h
  | some maxAge =>
    cases entry with
    | none =>
      rw [hs] at h
      simp at h
    | some e =>
      rw [hs] at h
      obtain ⟨hr, -, hage⟩ := DnsCache.staleOf_eq_some h
      exact ⟨maxAge, e, rfl, rfl, hr, hage⟩

/-- What `serve_stale` is to find, in unbounded arithmetic: the records of a positive entry that
left its TTL no more than the window ago. -/
def staleRecords (entry : Option CacheEntry) (now : Instant) : Option (List Record) :=
  match builder.serveStale, entry with
  | some maxAge, some entry =>
    if entry.ttl.nanos < entry.age now ∧ entry.age now ≤ entry.ttl.nanos + maxAge.nanos
    then entry.result.records else none
  | _, _ => none

/-- The entry is there and its window is out of the range of `Duration`. -/
def StaleOverflow (entry : Option CacheEntry) : Prop :=
  ∃ maxAge e, builder.serveStale = some maxAge ∧ entry = some e ∧
    Duration.maxNanos < e.ttl.nanos + maxAge.nanos

/-- Where the window fits, the read finds what it is to find. -/
theorem staleRead_eq {entry : Option CacheEntry} (h : ¬ StaleOverflow builder entry)
    (now : Instant) : staleRead builder entry now = .ok (staleRecords builder entry now) := by
  unfold staleRead staleRecords
  cases hs : builder.serveStale with
  | none => rfl
  | some maxAge =>
    cases entry with
    | none => rfl
    | some e => exact DnsCache.staleOf_eq (Nat.not_lt.mp fun hlt => h ⟨maxAge, e, hs, rfl, hlt⟩) now

/-- Where it does not, the read of an entry past its TTL panics. -/
theorem staleRead_overflow {entry : Option CacheEntry} (h : StaleOverflow builder entry)
    {now : Instant} (hold : ∀ e, entry = some e → e.isExpired now = true) :
    staleRead builder entry now = .error .overflow := by
  obtain ⟨maxAge, e, hs, rfl, hlt⟩ := h
  unfold staleRead
  rw [hs]
  have hexp := hold e rfl
  unfold CacheEntry.isExpired at hexp
  exact DnsCache.staleOf_overflow (of_decide_eq_true hexp) hlt

/-- The fallback of a lookup that learned nothing: stale records, or the error. -/
theorem conclude_stale [LawfulLruMap L] (e : Error) (name : Str) (w : World N L) :
    ∃ cache : L, (∀ k, LruMap.peek cache k = LruMap.peek w.cache k) ∧
      conclude cacheKey builder name kind { lastErr := some e } w =
        (staleRead builder (DnsCache.entryOf cacheKey w.cache name kind) w.now).map
          (fun found => (found.elim (.error e) .ok, { w with cache := cache })) := by
  unfold conclude staleRead
  cases builder.serveStale with
  | none => exact ⟨w.cache, fun _ => rfl, rfl⟩
  | some maxAge =>
    refine ⟨(LruMap.get w.cache (DnsCache.slot cacheKey name kind)).2,
      fun k => LawfulLruMap.peek_get _ _ k, ?_⟩
    simp only [DnsCache.getStale_eq, Option.getD_some]
    cases DnsCache.entryOf cacheKey w.cache name kind with
    | none => rfl
    | some entry =>
      simp only
      cases DnsCache.staleOf entry w.now maxAge with
      | error p => rfl
      | ok found => cases found <;> rfl

/-- The ways a lookup without a cached answer ends. `cache` is the cache after the reads, which
hold what they held before. -/
theorem lookup_cases [LawfulLruMap L] {name : Str} {w : World N L}
    (hmiss : (DnsCache.get cacheKey w.cache w.now name kind).1 = none) :
    ∃ cache : L, (∀ k, LruMap.peek cache k = LruMap.peek w.cache k) ∧
      ((∃ pre c post rs ttl, searchNames S config name = pre ++ c :: post ∧
          (∀ a ∈ attempts stage kind pre w.net, a.outcome.decisive = false) ∧
          (stage c kind (netAfter stage kind pre w.net)).1.res = .ok (rs, ttl) ∧ rs ≠ [] ∧
          lookupRecordImpl cacheKey stage builder S config name kind w =
            .ok (.ok rs, World.insert cacheKey
              { w.resolveAll stage kind (pre ++ [c]) with cache := cache } c kind
              (.positive rs) (max ttl builder.cacheMinTtlSecs))) ∨
        (∃ pre c post e, searchNames S config name = pre ++ c :: post ∧
          (∀ a ∈ attempts stage kind pre w.net, a.outcome.decisive = false) ∧
          (stage c kind (netAfter stage kind pre w.net)).1.outcome = .fatal e ∧
          lookupRecordImpl cacheKey stage builder S config name kind w =
            .ok (.error e, { w.resolveAll stage kind (pre ++ [c]) with cache := cache })) ∨
        (∃ pre c post r, searchNames S config name = pre ++ c :: post ∧
          (∀ a ∈ attempts stage kind (searchNames S config name) w.net,
            a.outcome.decisive = false) ∧
          (∀ a ∈ attempts stage kind pre w.net, a.outcome.cached = none) ∧
          (stage c kind (netAfter stage kind pre w.net)).1.outcome.cached = some r ∧
          lookupRecordImpl cacheKey stage builder S config name kind w =
            .ok (r.answer,
              if (attempts stage kind (searchNames S config name) w.net).any Attempt.transient
              then { w.resolveAll stage kind (searchNames S config name) with cache := cache }
              else World.insert cacheKey
                { w.resolveAll stage kind (searchNames S config name) with cache := cache }
                name kind r (builder.negativeCacheTtlSecs
                  (stage c kind (netAfter stage kind pre w.net)).1.soa))) ∨
        (∃ as a e, attempts stage kind (searchNames S config name) w.net = as ++ [a] ∧
          (∀ b ∈ as ++ [a], ∃ e, b.outcome = .indeterminate e) ∧ a.outcome = .indeterminate e ∧
          lookupRecordImpl cacheKey stage builder S config name kind w =
            (staleRead builder (DnsCache.entryOf cacheKey w.cache name kind)
                (w.resolveAll stage kind (searchNames S config name)).now).map
              (fun found => (found.elim (.error e) .ok,
                { w.resolveAll stage kind (searchNames S config name) with cache := cache })))) := by
  have hlook := lookup_miss stage kind cacheKey builder S config hmiss
  have hpeek := DnsCache.peek_get cacheKey w.cache w.now name kind
  rcases walk_cases stage kind cacheKey builder (searchNames_ne_nil S name config) name
      { w with cache := (DnsCache.get cacheKey w.cache w.now name kind).2 } with
    ⟨pre, c, post, rs, ttl, hn, hpre, hres, hrs, hw⟩ | ⟨pre, c, post, e, hn, hpre, hout, hw⟩ |
      ⟨pre, c, post, r, hn, hall, hpre, hr, hw⟩ | ⟨as, a, e, has, hind, ha, hw⟩
  · rw [resolveAll_withCache] at hw
    exact ⟨_, hpeek, .inl ⟨pre, c, post, rs, ttl, hn, hpre, hres, hrs, hlook.trans hw⟩⟩
  · rw [resolveAll_withCache] at hw
    exact ⟨_, hpeek, .inr (.inl ⟨pre, c, post, e, hn, hpre, hout, hlook.trans hw⟩)⟩
  · rw [resolveAll_withCache] at hw
    exact ⟨_, hpeek, .inr (.inr (.inl ⟨pre, c, post, r, hn, hall, hpre, hr, hlook.trans hw⟩))⟩
  · rw [resolveAll_withCache] at hw
    obtain ⟨cache, hcache, hc⟩ := conclude_stale kind cacheKey builder e name
      { w.resolveAll stage kind (searchNames S config name) with
        cache := (DnsCache.get cacheKey w.cache w.now name kind).2 }
    rw [DnsCache.entryOf_get] at hc
    exact ⟨cache, fun k => (hcache k).trans (hpeek k),
      .inr (.inr (.inr ⟨as, a, e, has, hind, ha, hlook.trans (hw.trans hc)⟩))⟩

/-- A lookup that misses the cache and learns nothing falls back to the stale read. -/
theorem lookup_indeterminate [LawfulLruMap L] {name : Str} {w : World N L}
    (hmiss : (DnsCache.get cacheKey w.cache w.now name kind).1 = none)
    (hind : ∀ a ∈ attempts stage kind (searchNames S config name) w.net,
      ∃ e, a.outcome = .indeterminate e) :
    ∃ (cache : L) (e : Error), (∀ k, LruMap.peek cache k = LruMap.peek w.cache k) ∧
      lookupRecordImpl cacheKey stage builder S config name kind w =
        (staleRead builder (DnsCache.entryOf cacheKey w.cache name kind)
            (w.resolveAll stage kind (searchNames S config name)).now).map
          (fun found => (found.elim (.error e) .ok,
            { w.resolveAll stage kind (searchNames S config name) with cache := cache })) := by
  obtain ⟨cache, hcache, hcases⟩ := lookup_cases stage kind cacheKey builder S config hmiss
  rcases hcases with
    ⟨pre, c, post, rs, ttl, hn, -, hres, hrs, -⟩ | ⟨pre, c, post, e, hn, -, hout, -⟩ |
      ⟨pre, c, post, r, hn, -, -, hr, -⟩ | ⟨as, a, e, -, -, -, hrun⟩
  · obtain ⟨e, he⟩ := hind _ (hn ▸ attempt_mem stage kind pre c post w.net)
    exact nomatch (ofResult_records hres hrs).symm.trans he
  · obtain ⟨e', he⟩ := hind _ (hn ▸ attempt_mem stage kind pre c post w.net)
    exact nomatch hout.symm.trans he
  · obtain ⟨e', he⟩ := hind _ (hn ▸ attempt_mem stage kind pre c post w.net)
    rw [he] at hr
    exact nomatch hr
  · exact ⟨cache, e, hcache, hrun⟩

/-- What an entry was written for: records for the candidate that holds them, or an absence for the
name looked up. -/
def WrittenBy (name : Str) (w w' : World N L) (entry : CacheEntry) : Prop :=
  (∃ pre c post rs ttl, searchNames S config name = pre ++ c :: post ∧
      (stage c kind (netAfter stage kind pre w.net)).1.res = .ok (rs, ttl) ∧ rs ≠ [] ∧
      w'.net = (stage c kind (netAfter stage kind pre w.net)).2.2 ∧
      entry = CacheEntry.make c kind (.positive rs)
        (max ttl builder.cacheMinTtlSecs) (w.resolveAll stage kind (pre ++ [c])).now) ∨
    ∃ r ttl now, r.negative = true ∧ entry = CacheEntry.make name kind r ttl now

/-- An entry found after a lookup was there before, or the lookup wrote it. -/
theorem lookup_entries [LawfulLruMap L] {name : Str} {w w' : World N L}
    {r : Except Error (List Record)}
    (hrun : lookupRecordImpl cacheKey stage builder S config name kind w = .ok (r, w'))
    {k : UInt64} {entry : CacheEntry} (hk : LruMap.peek w'.cache k = some entry) :
    LruMap.peek w.cache k = some entry ∨
      WrittenBy stage kind builder S config name w w' entry := by
  cases hg : (DnsCache.get cacheKey w.cache w.now name kind).1 with
  | some res =>
    rw [lookup_hit stage kind cacheKey builder S config hg] at hrun
    cases hrun
    rw [DnsCache.peek_get] at hk
    exact .inl hk
  | none =>
    obtain ⟨cache, hcache, hcases⟩ := lookup_cases stage kind cacheKey builder S config hg
    rcases hcases with ⟨pre, c, post, rs, ttl, hn, -, hres, hrs, h⟩ | ⟨_, _, _, _, -, -, -, h⟩ |
        ⟨pre, c, post, res, -, -, -, hr, h⟩ | ⟨_, _, e, -, -, -, h⟩
    · rw [h] at hrun
      cases hrun
      rcases DnsCache.peek_insert cacheKey hk with ⟨-, rfl⟩ | hk
      · exact .inr (.inl ⟨pre, c, post, rs, ttl, hn, hres, hrs, net_of_answer stage kind w pre c, rfl⟩)
      · exact .inl ((hcache k).symm.trans hk)
    · rw [h] at hrun
      cases hrun
      exact .inl ((hcache k).symm.trans hk)
    · rw [h] at hrun
      cases hrun
      split at hk
      · exact .inl ((hcache k).symm.trans hk)
      · rcases DnsCache.peek_insert cacheKey hk with ⟨-, rfl⟩ | hk
        · exact .inr (.inr ⟨res, _, _, cached_ne_positive hr, rfl⟩)
        · exact .inl ((hcache k).symm.trans hk)
    · rw [h] at hrun
      obtain ⟨found, -, hf⟩ := Checked.map_eq_ok hrun
      cases hf
      exact .inl ((hcache k).symm.trans hk)

theorem insert_inserts (w : World N L) (host : Str) (result : CachedResult) (ttl : Nat) :
    (ttl = 0 ∧ (w.insert cacheKey host kind result ttl).inserts = w.inserts) ∨
      (ttl ≠ 0 ∧ (w.insert cacheKey host kind result ttl).inserts =
        w.inserts ++ [CacheEntry.make host kind result ttl w.now]) := by
  by_cases h : ttl = 0
  · exact .inl ⟨h, if_pos h⟩
  · exact .inr ⟨h, if_neg h⟩

/-- A lookup stores nothing, the records it returns, or the first absence of its walk. -/
theorem lookup_inserts [LawfulLruMap L] {name : Str} {w w' : World N L}
    {r : Except Error (List Record)}
    (hrun : lookupRecordImpl cacheKey stage builder S config name kind w = .ok (r, w')) :
    w'.inserts = w.inserts ∨
      (∃ pre c post rs ttl, searchNames S config name = pre ++ c :: post ∧
        (stage c kind (netAfter stage kind pre w.net)).1.res = .ok (rs, ttl) ∧ rs ≠ [] ∧
        r = .ok rs ∧ max ttl builder.cacheMinTtlSecs ≠ 0 ∧
        w'.inserts = w.inserts ++ [CacheEntry.make c kind (.positive rs)
          (max ttl builder.cacheMinTtlSecs) (w.resolveAll stage kind (pre ++ [c])).now]) ∨
      (∃ pre c post res, searchNames S config name = pre ++ c :: post ∧
        (∀ a ∈ attempts stage kind pre w.net, a.outcome.cached = none) ∧
        (stage c kind (netAfter stage kind pre w.net)).1.outcome.cached = some res ∧
        r = res.answer ∧ w'.inserts = w.inserts ++ [CacheEntry.make name kind res
          (builder.negativeCacheTtlSecs (stage c kind (netAfter stage kind pre w.net)).1.soa)
          (w.resolveAll stage kind (searchNames S config name)).now]) := by
  cases hg : (DnsCache.get cacheKey w.cache w.now name kind).1 with
  | some res =>
    rw [lookup_hit stage kind cacheKey builder S config hg] at hrun
    cases hrun
    exact .inl rfl
  | none =>
    obtain ⟨cache, -, hcases⟩ := lookup_cases stage kind cacheKey builder S config hg
    rcases hcases with ⟨pre, c, post, rs, ttl, hn, -, hres, hrs, h⟩ | ⟨_, _, _, _, -, -, -, h⟩ |
        ⟨pre, c, post, res, hn, -, hpre, hr, h⟩ | ⟨_, _, e, -, -, -, h⟩
    · rw [h] at hrun
      cases hrun
      rcases insert_inserts kind cacheKey { w.resolveAll stage kind (pre ++ [c]) with cache := cache }
        c (.positive rs) (max ttl builder.cacheMinTtlSecs) with ⟨-, hi⟩ | ⟨ht, hi⟩
      · rw [hi]
        exact .inl (resolveAll_inserts stage kind w _)
      · rw [hi]
        exact .inr (.inl ⟨pre, c, post, rs, ttl, hn, hres, hrs, rfl, ht,
          congrArg (· ++ _) (resolveAll_inserts stage kind w _)⟩)
    · rw [h] at hrun
      cases hrun
      exact .inl (resolveAll_inserts stage kind w _)
    · rw [h] at hrun
      cases hrun
      split
      · exact .inl (resolveAll_inserts stage kind w _)
      · rcases insert_inserts kind cacheKey
          { w.resolveAll stage kind (searchNames S config name) with cache := cache } name res
          (builder.negativeCacheTtlSecs (stage c kind (netAfter stage kind pre w.net)).1.soa) with
          ⟨-, hi⟩ | ⟨-, hi⟩
        · rw [hi]
          exact .inl (resolveAll_inserts stage kind w _)
        · rw [hi]
          exact .inr (.inr ⟨pre, c, post, res, hn, hpre, hr, rfl,
            congrArg (· ++ _) (resolveAll_inserts stage kind w _)⟩)
    · rw [h] at hrun
      obtain ⟨found, -, hf⟩ := Checked.map_eq_ok hrun
      cases hf
      exact .inl (resolveAll_inserts stage kind w _)

/-- Records are returned from the entry of the name or from a candidate that holds them. -/
theorem lookup_records [LawfulLruMap L] {name : Str} {w w' : World N L} {rs : List Record}
    (hrun : lookupRecordImpl cacheKey stage builder S config name kind w = .ok (.ok rs, w'))
    (hrs : rs ≠ []) :
    (∃ entry, DnsCache.entryOf cacheKey w.cache name kind = some entry ∧
        entry.result = .positive rs) ∨
      ∃ pre c post ttl, searchNames S config name = pre ++ c :: post ∧
        (stage c kind (netAfter stage kind pre w.net)).1.res = .ok (rs, ttl) ∧
        w'.net = (stage c kind (netAfter stage kind pre w.net)).2.2 := by
  cases hg : (DnsCache.get cacheKey w.cache w.now name kind).1 with
  | some res =>
    rw [lookup_hit stage kind cacheKey builder S config hg] at hrun
    obtain ⟨entry, he, -, rfl⟩ := (DnsCache.get_eq_some cacheKey).mp hg
    refine .inl ⟨entry, he, ?_⟩
    have hans : entry.result.answer = .ok rs := (Prod.mk.inj (Except.ok.inj hrun)).1
    cases hr : entry.result with
    | positive rs' =>
      rw [hr] at hans
      exact congrArg CachedResult.positive (Except.ok.inj hans)
    | noData =>
      rw [hr] at hans
      exact absurd (Except.ok.inj hans).symm hrs
    | nxDomain =>
      rw [hr] at hans
      cases hans
  | none =>
    obtain ⟨cache, -, hcases⟩ := lookup_cases stage kind cacheKey builder S config hg
    rcases hcases with ⟨pre, c, post, rs', ttl, hn, -, hres, -, h⟩ | ⟨_, _, _, _, -, -, -, h⟩ |
        ⟨_, _, _, res, -, -, -, hr, h⟩ | ⟨_, _, e, -, -, -, h⟩
    · cases h.symm.trans hrun
      exact .inr ⟨pre, c, post, ttl, hn, hres, net_of_answer stage kind w pre c⟩
    · exact nomatch (Prod.mk.inj (Except.ok.inj (h.symm.trans hrun))).1
    · have hans : res.answer = .ok rs := (Prod.mk.inj (Except.ok.inj (h.symm.trans hrun))).1
      have hneg := cached_ne_positive hr
      cases res with
      | positive rs' => cases hneg
      | noData => exact absurd (Except.ok.inj hans).symm hrs
      | nxDomain => cases hans
    · rw [h] at hrun
      obtain ⟨found, hread, hf⟩ := Checked.map_eq_ok hrun
      have helim : found.elim (.error e) .ok = Except.ok rs := (Prod.mk.inj hf).1
      cases found with
      | none => cases helim
      | some rs' =>
        cases helim
        obtain ⟨_, entry, -, he, hpos, -⟩ := staleRead_eq_some builder hread
        exact .inl ⟨entry, he, hpos⟩

end Lookup

end Loop

end N0DnsResolver
