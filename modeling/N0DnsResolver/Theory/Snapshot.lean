/-
  The order of the nameservers, under concurrent writes to the estimates.

  The comparator of `order_indices` locks the map for each reading and not for the sort. So
  the estimates that it compares may belong to two instants, and those of two comparisons to
  more. As long as no event of the sort changes how the estimates compare, the result is the
  order at the first reading; two writes between the two readings of one comparison are
  enough for an order that no instant has.
-/
import N0DnsResolver.Theory.Decay

namespace N0DnsResolver

/-! ## One snapshot -/

section Snapshot

variable {K : Type} [NatCast K] [Add K] [Sub K] [Mul K] [Div K] [LinearOrder K] {n : Nat}
variable (decay : Nat → K)

/-- The order of the estimates of one state. -/
def SortState.le (s : SortState K n) (a b : Fin n) : Bool :=
  decide (s.estimate decay a ≤ s.estimate decay b)

/-- What a sort promises after a run: the answers so far are those of one total preorder, and a
sort that is done gave the order of `indices` by the estimates of one state of the run. -/
structure OneSnapshot (indices : List (Fin n)) (visited : List (SortState K n))
    (s : SortState K n) : Prop where
  consistent : ∃ le, TotalPreorder le ∧
    ∀ c ∈ s.answers, c.2.2 = TotalPreorder.cmp le c.1 c.2.1
  sorted : ∀ order, s.sorting = .done order →
    ∃ u ∈ visited, order = some (orderIndices decay u.rtt u.now indices)

/-- Between two states, the listed estimates compare as they did, also with a reading that awaits
the second one. -/
structure KeepsOrder (indices : List (Fin n)) (s s' : SortState K n) : Prop where
  listed : ∀ a ∈ indices, ∀ b ∈ indices, compare (s'.estimate decay a) (s'.estimate decay b) =
    compare (s.estimate decay a) (s.estimate decay b)
  pending : ∀ reading a b next, s.first = some reading → s.sorting = .compare a b next →
    b ∈ indices → compare reading (s'.estimate decay b) = compare reading (s.estimate decay b)

/-- The comparator has read the map. -/
def SortState.Started (s : SortState K n) : Prop := s.first ≠ none ∨ s.answers ≠ []

/-- Once the comparator has read the map, neither time nor a write changes how the listed estimates
compare. -/
def Undisturbed (indices : List (Fin n)) (s : SortState K n) (event : SortEvent n) : Prop :=
  event ≠ .read → s.Started → ∀ s', s.step decay event = some s' → KeepsOrder decay indices s s'

variable {decay} {indices : List (Fin n)} {s s' : SortState K n}

omit [Div K] in
theorem SortState.totalPreorder_le (s : SortState K n) : TotalPreorder (s.le decay) where
  trans a b c hab hbc :=
    decide_eq_true (le_trans (of_decide_eq_true hab) (of_decide_eq_true hbc))
  total a b := by simpa [SortState.le] using le_total (s.estimate decay a) (s.estimate decay b)

omit [Div K] in
theorem SortState.cmp_le (s : SortState K n) (a b : Fin n) :
    TotalPreorder.cmp (s.le decay) a b = compare (s.estimate decay a) (s.estimate decay b) := by
  unfold TotalPreorder.cmp SortState.le
  rcases lt_trichotomy (s.estimate decay a) (s.estimate decay b) with h | h | h
  · rw [if_neg (by simpa using h), compare_lt_iff_lt.mpr h]
  · rw [if_pos (by simp [h]), if_pos (by simp [h]), compare_eq_iff_eq.mpr h]
  · rw [if_pos (by simpa using h.le), if_neg (by simpa using h), compare_gt_iff_gt.mpr h]

theorem step_tick {dt : Nat} (h : s.step decay (.tick dt) = some s') :
    s' = { s with now := s.now + dt } := by
  unfold SortState.step at h
  split at h
  · cases h
  · exact (Option.some.inj h).symm

theorem step_record {call : RttCall n} (h : s.step decay (.record call) = some s') :
    s' = { s with rtt := s.rtt.record decay s.now call } := by
  unfold SortState.step at h
  split at h
  · cases h
  · exact (Option.some.inj h).symm

/-- What an event leaves of a sort, unless it is a reading: the sort itself. -/
theorem step_outside {event : SortEvent n} (hevent : event ≠ .read)
    (h : s.step decay event = some s') :
    s'.sorting = s.sorting ∧ s'.first = s.first ∧ s'.answers = s.answers := by
  cases event with
  | tick dt =>
    rw [step_tick h]
    exact ⟨rfl, rfl, rfl⟩
  | record call =>
    rw [step_record h]
    exact ⟨rfl, rfl, rfl⟩
  | read => exact absurd rfl hevent

/-- A reading is the first of a comparison, or the second and gives its answer. -/
theorem step_read (h : s.step decay .read = some s') :
    ∃ a b next, s.sorting = .compare a b next ∧
      ((s.first = none ∧ s' = { s with first := some (s.estimate decay a) }) ∨
        ∃ reading, s.first = some reading ∧
          s' = { s with
            sorting := next (compare reading (s.estimate decay b))
            first := none
            answers := s.answers ++ [(a, b, compare reading (s.estimate decay b))] }) := by
  unfold SortState.step at h
  cases hsorting : s.sorting with
  | done order =>
    rw [hsorting] at h
    cases h
  | compare a b next =>
    rw [hsorting] at h
    refine ⟨a, b, next, rfl, ?_⟩
    cases hfirst : s.first with
    | none =>
      rw [hfirst] at h
      exact .inl ⟨rfl, (Option.some.inj h).symm⟩
    | some reading =>
      rw [hfirst] at h
      exact .inr ⟨reading, rfl, (Option.some.inj h).symm⟩

/-- The sort goes as if every comparison were made in the state `s₀`. -/
structure Since (decay : Nat → K) (indices : List (Fin n)) (s₀ s : SortState K n) : Prop where
  listed : ∀ a ∈ indices, ∀ b ∈ indices, compare (s.estimate decay a) (s.estimate decay b) =
    compare (s₀.estimate decay a) (s₀.estimate decay b)
  pending : ∀ reading a b next, s.first = some reading → s.sorting = .compare a b next →
    compare reading (s.estimate decay b) = compare (s₀.estimate decay a) (s₀.estimate decay b)
  answers : ∀ c ∈ s.answers, c.2.2 = TotalPreorder.cmp (s₀.le decay) c.1 c.2.1
  asks : s.sorting.Asks (· ∈ indices)
  outcome : s.sorting.run (TotalPreorder.cmp (s₀.le decay)) =
    some (orderIndices decay s₀.rtt s₀.now indices)

variable {s₀ : SortState K n}

omit [Div K] in
/-- A sort that has read nothing goes as from its own state. -/
theorem since_self {sort : List (Fin n) → Sorting (Fin n)} (hsort : LawfulSort sort)
    (hsorting : s.sorting = sort indices) (hstarted : ¬ s.Started) :
    Since decay indices s s where
  listed _ _ _ _ := rfl
  pending reading _ _ _ hfirst _ := by
    have hsome : s.first ≠ none := by
      rw [hfirst]
      exact Option.some_ne_none reading
    exact absurd (.inl hsome) hstarted
  answers c hc := by
    have hsome : s.answers ≠ [] := List.ne_nil_of_mem hc
    exact absurd (.inr hsome) hstarted
  asks := by
    rw [hsorting]
    exact hsort.asks indices
  outcome := by
    rw [hsorting]
    exact hsort.sorts _ s.totalPreorder_le indices

/-- An event that keeps the order. -/
theorem Since.outside (h : Since decay indices s₀ s) {event : SortEvent n}
    (hevent : event ≠ .read) (hstep : s.step decay event = some s')
    (hkeeps : KeepsOrder decay indices s s') : Since decay indices s₀ s' := by
  obtain ⟨hsorting, hfirst, hanswers⟩ := step_outside hevent hstep
  refine ⟨?_, ?_, ?_, ?_, ?_⟩
  · intro a ha b hb
    rw [hkeeps.listed a ha b hb, h.listed a ha b hb]
  · intro reading a b next hreading hcompare
    rw [hfirst] at hreading
    rw [hsorting] at hcompare
    have hasks := h.asks
    rw [hcompare] at hasks
    rw [hkeeps.pending reading a b next hreading hcompare hasks.2.1,
      h.pending reading a b next hreading hcompare]
  · rw [hanswers]
    exact h.answers
  · rw [hsorting]
    exact h.asks
  · rw [hsorting]
    exact h.outcome

/-- A reading. The second of a comparison answers as `s₀` does. -/
theorem Since.read (h : Since decay indices s₀ s) (hstep : s.step decay .read = some s') :
    Since decay indices s₀ s' := by
  obtain ⟨a, b, next, hsorting, hcases⟩ := step_read hstep
  have hasks := h.asks
  have houtcome := h.outcome
  rw [hsorting] at hasks houtcome
  rcases hcases with ⟨-, rfl⟩ | ⟨reading, hfirst, rfl⟩
  · refine ⟨h.listed, ?_, h.answers, h.asks, h.outcome⟩
    intro reading a' b' next' hreading hcompare
    have hsame : Sorting.compare a b next = .compare a' b' next' := hsorting.symm.trans hcompare
    cases hsame
    cases hreading
    exact h.listed a hasks.1 b hasks.2.1
  · have hanswer : compare reading (s.estimate decay b) = TotalPreorder.cmp (s₀.le decay) a b := by
      rw [h.pending reading a b next hfirst hsorting, SortState.cmp_le]
    refine ⟨h.listed, ?_, ?_, hasks.2.2 _, ?_⟩
    · intro reading' a' b' next' hreading _
      cases hreading
    · intro c hc
      rcases List.mem_append.mp hc with hc | hc
      · exact h.answers c hc
      · obtain rfl := List.mem_singleton.mp hc
        exact hanswer
    · show (next (compare reading (s.estimate decay b))).run _ = _
      rw [hanswer]
      exact houtcome

theorem started_of_read (hstep : s.step decay .read = some s') : s'.Started := by
  obtain ⟨a, b, next, -, ⟨-, rfl⟩ | ⟨reading, -, rfl⟩⟩ := step_read hstep
  · exact .inl (Option.some_ne_none _)
  · exact .inr (by simp)

/-- Every event of an undisturbed sort that has begun to read. -/
theorem Since.step (h : Since decay indices s₀ s) (hstarted : s.Started) {event : SortEvent n}
    (hevent : Undisturbed decay indices s event) (hstep : s.step decay event = some s') :
    Since decay indices s₀ s' ∧ s'.Started := by
  by_cases hread : event = .read
  · subst hread
    exact ⟨h.read hstep, started_of_read hstep⟩
  · obtain ⟨-, hfirst, hanswers⟩ := step_outside hread hstep
    refine ⟨h.outside hread hstep (hevent hread hstarted s' hstep), ?_⟩
    unfold SortState.Started at hstarted ⊢
    rwa [hfirst, hanswers]

omit [Div K] in
theorem Since.oneSnapshot (h : Since decay indices s₀ s) {visited : List (SortState K n)}
    (hvisited : s₀ ∈ visited) : OneSnapshot decay indices visited s where
  consistent := ⟨s₀.le decay, s₀.totalPreorder_le, h.answers⟩
  sorted order horder := by
    have houtcome := h.outcome
    rw [horder] at houtcome
    exact ⟨s₀, hvisited, houtcome⟩

/-- Whatever the algorithm of `sort_by`, the estimates and the list are: in every run without an
event that, after the first reading, changes how the listed estimates compare, the answers are those
of one total preorder and the result is the order of the list at one state of the run. -/
theorem one_snapshot {sort : List (Fin n) → Sorting (Fin n)} (hsort : LawfulSort sort)
    (rtt : RttMap K n) (now : Instant) (indices : List (Fin n)) (events : List (SortEvent n))
    {s : SortState K n}
    (hrun : Machine.run (SortState.step decay) (.start sort rtt now indices) events = some s)
    (hsteps : Machine.Along (SortState.step decay) (Undisturbed decay indices)
      (.start sort rtt now indices) events) :
    OneSnapshot decay indices
      (Machine.trace (SortState.step decay) (.start sort rtt now indices) events) s := by
  have hsorting : (SortState.start sort rtt now indices).sorting = sort indices := rfl
  have hstarted : ¬ (SortState.start sort rtt now indices).Started := by
    rintro (h | h)
    · exact h rfl
    · exact h rfl
  -- up to the first reading, the sort is as at its start; from then on, it goes as in the
  -- state that reading was made in
  generalize SortState.start sort rtt now indices = s₀ at *
  induction events generalizing s₀ with
  | nil =>
    cases hrun
    exact (since_self hsort hsorting hstarted).oneSnapshot (Machine.mem_trace_self s [])
  | cons event events ih =>
    obtain ⟨u, hu, hrest⟩ := Machine.run_cons_eq_some hrun
    by_cases hread : event = .read
    · subst hread
      have hself : Since decay indices s₀ s₀ := since_self hsort hsorting hstarted
      have hsince := hself.read hu
      have hfinal := Machine.run_invariant_along
        (P := fun t => Since decay indices s₀ t ∧ t.Started)
        (fun t e t' ht he hstep => ht.1.step ht.2 he hstep) ⟨hsince, started_of_read hu⟩
        (hsteps.2 u hu) hrest
      exact hfinal.1.oneSnapshot (Machine.mem_trace_self s₀ _)
    · obtain ⟨hsorting', hfirst, hanswers⟩ := step_outside hread hu
      have hsnapshot := ih u hrest (hsteps.2 u hu) (hsorting'.trans hsorting) (by
        unfold SortState.Started at hstarted ⊢
        rwa [hfirst, hanswers])
      refine ⟨hsnapshot.consistent, fun order horder => ?_⟩
      obtain ⟨v, hv, hvorder⟩ := hsnapshot.sorted order horder
      exact ⟨v, Machine.mem_trace_cons hu hv, hvorder⟩

/-- A write to a nameserver that is not listed leaves the listed estimates alone. -/
theorem undisturbed_record (s : SortState K n) {call : RttCall n} (h : call.idx ∉ indices) :
    Undisturbed decay indices s (.record call) := by
  intro _ _ s' hstep
  have hs' : ∀ a ∈ indices, s'.estimate decay a = s.estimate decay a := by
    intro a ha
    have hne : call.idx ≠ a := fun heq => h (heq ▸ ha)
    rw [step_record hstep]
    show Srtt.decayed decay (s.rtt.record decay s.now call a) s.now = _
    rw [RttMap.record_of_ne decay s.rtt s.now hne]
    rfl
  refine ⟨?_, ?_⟩
  · intro a ha b hb
    rw [hs' a ha, hs' b hb]
  · intro reading a b next _ _ hb
    rw [hs' b hb]

end Snapshot

/-! ## Quiet sorts -/

section Quiet

variable {n : Nat} {indices : List (Fin n)}

/-- No listed nameserver is written to, and time goes by only between comparisons. -/
def Quiet (indices : List (Fin n)) (s : SortState ℝ n) : SortEvent n → Prop
  | .tick _ => s.first = none
  | .record call => call.idx ∉ indices
  | .read => True

/-- No entry is newer than the clock. -/
def SortState.Timely (s : SortState ℝ n) : Prop := ∀ idx, (s.rtt idx).updated ≤ s.now

theorem timely_step {s s' : SortState ℝ n} {event : SortEvent n} (h : s.Timely)
    (hstep : s.step expDecay event = some s') : s'.Timely := by
  cases event with
  | tick dt =>
    rw [step_tick hstep]
    exact fun idx => Nat.le_trans (h idx) (Nat.le_add_right _ _)
  | record call =>
    rw [step_record hstep]
    intro idx
    show (s.rtt.record expDecay s.now call idx).updated ≤ s.now
    by_cases hidx : call.idx = idx
    · subst hidx
      have hupdated : (s.rtt.record expDecay s.now call call.idx).updated = s.now := by
        cases call <;> simp [RttMap.record, RttCall.idx, RttMap.recordSuccess,
          RttMap.recordFailure, Srtt.recordSuccess, Srtt.recordFailure]
      exact Nat.le_of_eq hupdated
    · rw [RttMap.record_of_ne expDecay s.rtt s.now hidx]
      exact h idx
  | read =>
    obtain ⟨a, b, next, -, ⟨-, rfl⟩ | ⟨reading, -, rfl⟩⟩ := step_read hstep
    · exact h
    · exact h

/-- Time between two comparisons leaves the order of the estimates as it is. -/
theorem undisturbed_tick {s : SortState ℝ n} (h : s.Timely) (hfirst : s.first = none) (dt : Nat) :
    Undisturbed expDecay indices s (.tick dt) := by
  intro _ _ s' hstep
  have hlater : s.now ≤ s.now + dt := Nat.le_add_right _ _
  have hle : ∀ a b, s'.le expDecay a b = s.le expDecay a b := by
    intro a b
    rw [step_tick hstep]
    exact decide_eq_decide.mpr
      (decayed_le_decayed_iff (s.rtt a) (s.rtt b) (h a) (h b) hlater).symm
  refine ⟨?_, ?_⟩
  · intro a _ b _
    rw [← SortState.cmp_le, ← SortState.cmp_le]
    unfold TotalPreorder.cmp
    rw [hle, hle]
  · intro reading a b next hreading
    rw [hfirst] at hreading
    cases hreading

/-- In exact arithmetic, only writes to listed nameservers and time within a comparison can disturb
a sort. -/
theorem one_snapshot_of_quiet {sort : List (Fin n) → Sorting (Fin n)} (hsort : LawfulSort sort)
    {rtt : RttMap ℝ n} {now : Instant} (hupdated : ∀ idx, (rtt idx).updated ≤ now)
    {events : List (SortEvent n)} {s : SortState ℝ n}
    (hrun : Machine.run (SortState.step expDecay) (.start sort rtt now indices) events = some s)
    (hquiet : Machine.Along (SortState.step expDecay) (Quiet indices)
      (.start sort rtt now indices) events) :
    OneSnapshot expDecay indices
      (Machine.trace (SortState.step expDecay) (.start sort rtt now indices) events) s := by
  have hstart : SortState.Timely (.start sort rtt now indices) := hupdated
  apply one_snapshot hsort rtt now indices events hrun
  apply Machine.along_of_invariant (fun s e s' => timely_step) _ hstart hquiet
  intro s event htimely hevent
  cases event with
  | tick dt => exact undisturbed_tick htimely hevent dt
  | record call => exact undisturbed_record s hevent
  | read => exact fun h => absurd rfl h

end Quiet

/-! ## A third server that fails during a comparison -/

/-- The two readings of the sort, and a failure of the server not listed between them. -/
def unlistedBetween : List (SortEvent 3) := [.read, .record (.failure 2), .read]

theorem unlistedBetween_run :
    ∃ s, Machine.run (SortState.step expDecay) (.start insertionSort (RttMap.new 0) 0 [0, 1])
      unlistedBetween = some s := by
  simp [Machine.run, unlistedBetween, SortState.step, SortState.start, insertionSort, insertAll,
    insertTail]

theorem one_snapshot_unlisted :
    ∃ s, Machine.run (SortState.step expDecay) (.start insertionSort (RttMap.new 0) 0 [0, 1])
        unlistedBetween = some s ∧
      OneSnapshot expDecay [0, 1]
        (Machine.trace (SortState.step expDecay) (.start insertionSort (RttMap.new 0) 0 [0, 1])
          unlistedBetween) s := by
  obtain ⟨s, hrun⟩ := unlistedBetween_run
  have hread : ∀ s, Undisturbed expDecay [0, 1] s (.read : SortEvent 3) :=
    fun s h => absurd rfl h
  have hrecord : ∀ s, Undisturbed expDecay [0, 1] s (.record (.failure 2) : SortEvent 3) :=
    fun s => undisturbed_record s (by decide)
  refine ⟨s, hrun, one_snapshot lawfulSort_insertionSort _ _ _ _ hrun ?_⟩
  exact ⟨hread _, fun s _ => ⟨hrecord s, fun s _ => ⟨hread s, fun _ _ => trivial⟩⟩⟩

/-! ## Two servers that fail during a comparison -/

/-- One server that was never asked, and one that answered its only query in 100 ms. -/
def twoServers : RttMap ℝ 2 := fun idx =>
  ⟨if idx = serverA then 50000 else 65000, 0, 50000⟩

/-- The sort of the two begins, by insertion, as short lists are sorted. -/
def twoServersStart : SortState ℝ 2 := .start insertionSort twoServers 0 [serverA, serverB]

/-- The second server is read, both fail, and the first one is read. -/
def failuresBetween : List (SortEvent 2) :=
  [.tick 1000, .read, .tick 1000, .record (.failure serverB), .tick 1000,
    .record (.failure serverA), .tick 1000, .read]

theorem one_sub_le_expDecay (dt : Nat) : 1 - (dt : ℝ) / 1000000000 / 180 ≤ expDecay dt := by
  unfold expDecay
  have h := Real.add_one_le_exp (-((dt : ℝ) / 1000000000) / 180)
  linarith

/-- In every state of the run, the first server is not behind the second one. -/
theorem failuresBetween_order :
    ∀ u ∈ Machine.trace (SortState.step expDecay) twoServersStart failuresBetween,
      u.estimate expDecay serverA ≤ u.estimate expDecay serverB := by
  have h1 := one_sub_le_expDecay 1000
  have h2 := one_sub_le_expDecay 2000
  have h1' := expDecay_le_one 1000
  have h2' := expDecay_le_one 2000
  norm_num at h1 h2
  have h0 : expDecay 0 = 1 := by simp [expDecay]
  have hfirst : min ((50000 : ℝ) + 150000) 5000000 = 200000 := by norm_num
  have hsecond : min (50000 + (65000 - 50000) * expDecay 2000 + 150000) 5000000 =
      200000 + 15000 * expDecay 2000 := by
    rw [min_eq_left (by linarith)]
    ring
  -- the estimates of the second server where the first one is at its baseline, and both
  -- estimates after the failures
  suffices h : 0 ≤ (65000 - 50000) * expDecay 0 ∧ 0 ≤ (65000 - 50000) * expDecay 1000 ∧
      0 ≤ (65000 - 50000) * expDecay 2000 ∧
      0 ≤ (min (50000 + (65000 - 50000) * expDecay 2000 + 150000) 5000000 - 50000) *
        expDecay 0 ∧
      0 ≤ (min (50000 + (65000 - 50000) * expDecay 2000 + 150000) 5000000 - 50000) *
        expDecay 1000 ∧
      (min (50000 + 150000) 5000000 - 50000) * expDecay 0 ≤
        (min (50000 + (65000 - 50000) * expDecay 2000 + 150000) 5000000 - 50000) *
          expDecay 1000 ∧
      (min (50000 + 150000) 5000000 - 50000) * expDecay 1000 ≤
        (min (50000 + (65000 - 50000) * expDecay 2000 + 150000) 5000000 - 50000) *
          expDecay 2000 by
    simpa [Machine.trace, failuresBetween, twoServersStart, twoServers, serverA, serverB,
      SortState.step, SortState.start, insertionSort, insertAll, insertTail, SortState.estimate,
      RttMap.getDecayed, Srtt.decayed, RttMap.record, RttMap.recordFailure, Srtt.recordFailure,
      baseline_eq, max_eq, srttFailurePenaltyMicros] using h
  rw [h0, hfirst, hsecond]
  refine ⟨by norm_num, by linarith, by linarith, by linarith, ?_, ?_, ?_⟩
  · nlinarith
  · nlinarith
  · nlinarith

/-- The run gives the second server first. -/
theorem failuresBetween_run :
    ∃ s, Machine.run (SortState.step expDecay) twoServersStart failuresBetween = some s ∧
      s.sorting = .done (some [serverB, serverA]) := by
  have h1 := expDecay_pos 1000
  have hanswer : compare (50000 + (65000 - 50000) * expDecay 1000)
      (50000 + (min (50000 + 150000) 5000000 - 50000) * expDecay 1000) = .lt := by
    rw [compare_lt_iff_lt, min_eq_left (by norm_num)]
    linarith
  simp [Machine.run, failuresBetween, twoServersStart, twoServers, serverA, serverB,
    SortState.step, SortState.start, insertionSort, insertAll, insertTail, SortState.estimate,
    RttMap.getDecayed, Srtt.decayed, RttMap.record, RttMap.recordFailure, Srtt.recordFailure,
    baseline_eq, max_eq, srttFailurePenaltyMicros, hanswer]

/-- In the result, the server that comes first is behind the other one in every state of the run. -/
theorem failures_between_readings :
    ¬ ∀ (n : Nat) (rtt : RttMap ℝ n) (now : Instant) (indices : List (Fin n))
        (events : List (SortEvent n)) (s : SortState ℝ n),
      Machine.run (SortState.step expDecay) (.start insertionSort rtt now indices) events = some s →
        OneSnapshot expDecay indices
          (Machine.trace (SortState.step expDecay) (.start insertionSort rtt now indices) events)
          s := by
  intro h
  obtain ⟨s, hrun, hdone⟩ := failuresBetween_run
  have hsnapshot := h 2 twoServers 0 [serverA, serverB] failuresBetween s hrun
  obtain ⟨u, hu, horder⟩ := hsnapshot.sorted _ hdone
  have hle := failuresBetween_order u hu
  have hsorted : orderIndices expDecay u.rtt u.now [serverA, serverB] = [serverA, serverB] := by
    apply List.mergeSort_of_pairwise
    apply List.pairwise_pair.mpr
    exact decide_eq_true hle
  rw [hsorted] at horder
  cases horder

end N0DnsResolver
