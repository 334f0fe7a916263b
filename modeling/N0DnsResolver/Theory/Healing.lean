/-
  Whether the order of the nameservers heals.

  Two servers: `serverA` never answers, `serverB` answers every attempt `r` after it was
  dialled. What happens is what is due first (`Punctual`), and lookups follow each other
  with any idle time between them (`Lookups`). A race ends with the answer of `serverB`,
  and an attempt at `serverA` is dropped with it, so only the estimate of `serverB` ever
  moves: `serverB` goes ahead exactly when its sample is below the neutral baseline.

  The estimates are real numbers here.
-/
import N0DnsResolver.Lib.Machine
import N0DnsResolver.Model.Race
import Mathlib.Analysis.SpecialFunctions.Exp

namespace N0DnsResolver

/-- The decay of `Srtt::decayed`: `SRTT_DECAY_SECS` is 180. -/
noncomputable def expDecay (dt : Nat) : ℝ := Real.exp (-(dt / 1000000000) / 180)

/-! ## Estimates against the baseline -/

section Estimates

theorem baseline_eq : (srttBaselineMicros : ℝ) = 50000 := by
  unfold srttBaselineMicros
  norm_num

theorem max_eq : (srttMaxMicros : ℝ) = 5000000 := by
  unfold srttMaxMicros
  norm_num

theorem alpha_eq : (srttAlpha : ℝ) = 3 / 10 := by
  unfold srttAlpha
  norm_num

theorem sub_decayed (srtt : Srtt ℝ) (now : Instant) : 50000 - srtt.decayed expDecay now =
    (50000 - srtt.attemptMicros) * expDecay (now - srtt.updated) := by
  unfold Srtt.decayed
  rw [baseline_eq]
  ring

theorem expDecay_pos (dt : Nat) : 0 < expDecay dt := Real.exp_pos _

/-- Decay moves an estimate towards the baseline and never across it. -/
theorem decayed_lt_iff (srtt : Srtt ℝ) (now : Instant) :
    srtt.decayed expDecay now < 50000 ↔ srtt.attemptMicros < 50000 := by
  rw [← sub_pos, sub_decayed, mul_pos_iff_of_pos_right (expDecay_pos _), sub_pos]

theorem decayed_le_iff (srtt : Srtt ℝ) (now : Instant) :
    srtt.decayed expDecay now ≤ 50000 ↔ srtt.attemptMicros ≤ 50000 := by
  rw [← sub_nonneg, sub_decayed, mul_nonneg_iff_of_pos_right (expDecay_pos _), sub_nonneg]

theorem decayed_new (born now : Instant) : (Srtt.new born : Srtt ℝ).decayed expDecay now = 50000 := by
  unfold Srtt.decayed Srtt.new
  rw [sub_self, zero_mul, add_zero, baseline_eq]

/-- Servers with the estimate of a server never tried keep the order they are listed in. -/
theorem orderIndices_untried {n : Nat} {rtt : RttMap ℝ n} {now : Instant} {indices : List (Fin n)}
    (h : ∀ idx ∈ indices, ∃ born, rtt idx = .new born) :
    orderIndices expDecay rtt now indices = indices := by
  have hbase : ∀ idx ∈ indices, rtt.getDecayed expDecay now idx = 50000 := by
    intro idx hidx
    obtain ⟨born, hborn⟩ := h idx hidx
    unfold RttMap.getDecayed
    rw [hborn, decayed_new]
  refine List.mergeSort_of_pairwise (List.pairwise_of_forall_mem_list fun a ha b hb => ?_)
  rw [decide_eq_true_iff, hbase a ha, hbase b hb]

theorem blend_eq (sample : Nat) (base : ℝ) :
    Srtt.blend sample base = min (3 / 10 * sample + 7 / 10 * base) 5000000 := by
  unfold Srtt.blend
  rw [alpha_eq, max_eq]
  norm_num

theorem blend_lt {sample : Nat} {base : ℝ} (hs : sample < 50000) (hb : base ≤ 50000) :
    Srtt.blend sample base < 50000 := by
  have hs' : (sample : ℝ) < 50000 := by exact_mod_cast hs
  rw [blend_eq]
  exact lt_of_le_of_lt (min_le_left _ _) (by linarith)

theorem le_blend {sample : Nat} {base : ℝ} (hs : 50000 ≤ sample) (hb : 50000 ≤ base) :
    50000 ≤ Srtt.blend sample base := by
  have hs' : (50000 : ℝ) ≤ sample := by exact_mod_cast hs
  rw [blend_eq]
  exact le_min (by linarith) (by norm_num)

end Estimates

/-! ## The two servers -/

def serverA : Fin 2 := 0

def serverB : Fin 2 := 1

section Servers

variable (S : SimpleDns) (r : Nat)

/-- When an attempt completes. -/
def dueAt (d : Dial 2) : Instant :=
  if d.idx = serverA then d.start + udpNameserverTimeout else d.start + r

/-- The attempt completed as its server has it: with the timeout, or with an answer after `r`. -/
def Faithful (c : Completion 2) : Prop :=
  c.now = dueAt r c.dial ∧
    if c.dial.idx = serverA then c.res = .error .timeout else ∃ resp, c.Won S resp

/-- What wakes the race is what is due first; an attempt goes before the start timer. -/
def Punctual (s : Race ℝ 2) : Wake 2 → Prop
  | .completed c =>
    Faithful S r c ∧ (∀ d ∈ s.dials, c.now ≤ dueAt r d) ∧
      ∀ deadline, s.nextAttempt = some deadline → c.now ≤ deadline
  | .due now => s.nextAttempt = some now ∧ ∀ d ∈ s.dials, now < dueAt r d

/-- The race of a lookup that starts at `now` from the estimates `rtt` and ends in `s`. -/
def Raced (rtt : RttMap ℝ 2) (now : Instant) (s : Race ℝ 2) : Prop :=
  let s₀ := Race.start (orderIndices expDecay rtt now [serverA, serverB]) rtt now
  ∃ events, Machine.run (Race.step S expDecay) s₀ events = some s ∧
    Machine.Along (Race.step S expDecay) (Punctual S r) s₀ events ∧ s.result.isSome

/-- The last race of so many lookups in sequence, from a fresh map. -/
inductive Lookups : Nat → Race ℝ 2 → Prop where
  | first {born now s} (fresh : born ≤ now) (raced : Raced S r (.new born) now s) : Lookups 1 s
  | next {k s now s'} (before : Lookups k s) (idle : s.clock ≤ now)
      (raced : Raced S r s.rtt now s') : Lookups (k + 1) s'

end Servers

/-! ## One race -/

section OneRace

variable {S : SimpleDns} {r : Nat}

/-- The sort keeps the list order unless the second estimate is the smaller. -/
theorem orderIndices_pair (rtt : RttMap ℝ 2) (now : Instant) :
    orderIndices expDecay rtt now [serverA, serverB] =
      if rtt.getDecayed expDecay now serverA ≤ rtt.getDecayed expDecay now serverB then
        [serverA, serverB] else [serverB, serverA] := by
  unfold orderIndices
  simp [List.mergeSort, List.MergeSort.Internal.splitInTwo, List.merge]

/-- The order is one of the two. -/
def PairOrder (order : List (Fin 2)) : Prop :=
  order = [serverA, serverB] ∨ order = [serverB, serverA]

theorem pairOrder_orderIndices (rtt : RttMap ℝ 2) (now : Instant) :
    PairOrder (orderIndices expDecay rtt now [serverA, serverB]) := by
  rw [orderIndices_pair]
  split
  · exact .inl rfl
  · exact .inr rfl

/-- The race after its first wait ran out: both servers are dialled. -/
def bothDialled (x y : Fin 2) (rtt : RttMap ℝ 2) (now : Instant) : Race ℝ 2 where
  order := [x, y]
  next := 2
  dials := [⟨x, now⟩, ⟨y, now + queryAttemptDelay⟩]
  lastErr := none
  nextAttempt := none
  rtt := rtt
  clock := now + queryAttemptDelay
  result := none
  dialled := [x, y]
  completed := []

/-- The race is over and `serverB` won it. -/
structure Answered (x : Fin 2) (r : Nat) (rtt : RttMap ℝ 2) (s : Race ℝ 2) : Prop where
  ended : s.result.isSome
  head : s.dialled.head? = some x
  estimates : ∃ datagramRtt, s.rtt = rtt.recordSuccess expDecay serverB r datagramRtt s.clock

/-- A race of two: it waits for its first attempt, or for both, or `serverB` has answered. -/
inductive Course (x y : Fin 2) (r : Nat) (rtt : RttMap ℝ 2) (now : Instant) (s : Race ℝ 2) :
    Prop where
  | one (eq : s = Race.start [x, y] rtt now)
  | both (eq : s = bothDialled x y rtt now)
  | ended (answered : Answered x r rtt s)

theorem start_due (x y : Fin 2) (rtt : RttMap ℝ 2) (now : Instant) :
    Race.top (now + queryAttemptDelay)
      { Race.start [x, y] rtt now with nextAttempt := none, clock := now + queryAttemptDelay } =
    bothDialled x y rtt now := rfl

theorem dueAt_serverA {d : Dial 2} (h : d.idx = serverA) :
    dueAt r d = d.start + udpNameserverTimeout := if_pos h

theorem dueAt_serverB {d : Dial 2} (h : d.idx = serverB) : dueAt r d = d.start + r := by
  unfold dueAt
  rw [h]
  rfl

/-- The answer of `serverB` ends the race with one success for it. -/
theorem answered_of_won {x : Fin 2} {s : Race ℝ 2} {rtt : RttMap ℝ 2} {c : Completion 2}
    {resp : Bytes} (hw : c.Won S resp) (hidx : c.dial.idx = serverB)
    (hnow : c.now = c.dial.start + r) (hrtt : s.rtt = rtt) (hhead : s.dialled.head? = some x) :
    Answered x r rtt (s.complete S expDecay c) := by
  rw [Race.complete_won S expDecay hw]
  refine ⟨rfl, hhead, c.datagramRtt, ?_⟩
  have hrec : c.record S expDecay (rtt serverB) =
      (rtt serverB).recordSuccess expDecay r c.datagramRtt c.now := by
    unfold Completion.record
    rw [hw.failure, if_neg (by decide), hnow, Nat.add_sub_cancel_left]
  show Function.update s.rtt c.dial.idx (c.record S expDecay (s.rtt c.dial.idx)) = _
  rw [hidx, hrtt, hrec]
  rfl

/-- An attempt that completes while something else is due before `serverA` times out is at
`serverB`, and wins. -/
theorem step_completed {x : Fin 2} {s s' : Race ℝ 2} {rtt : RttMap ℝ 2} {c : Completion 2}
    (hs : s.step S expDecay (.completed c) = some s') (hp : Punctual S r s (.completed c))
    (hearlier : c.dial ∈ s.dials → c.dial.idx = serverA →
      (∃ d ∈ s.dials, dueAt r d < dueAt r c.dial) ∨
        ∃ deadline, s.nextAttempt = some deadline ∧ deadline < dueAt r c.dial)
    (hrtt : s.rtt = rtt) (hhead : s.dialled.head? = some x) : Answered x r rtt s' := by
  obtain ⟨⟨hnow, hres⟩, hdials, htimer⟩ := hp
  have hB : c.dial ∈ s.dials → c.dial.idx ≠ serverA := by
    intro hmem hA
    rcases hearlier hmem hA with ⟨d, hd, hlt⟩ | ⟨deadline, ht, hlt⟩
    · exact absurd (hdials d hd) (Nat.not_le.mpr (hnow ▸ hlt))
    · exact absurd (htimer deadline ht) (Nat.not_le.mpr (hnow ▸ hlt))
  obtain ⟨-, ⟨c', err, hc, hmem, -, he, -⟩ | ⟨c', resp, hc, hmem, -, hw, rfl⟩ |
    ⟨t, deadline, hc, -⟩⟩ := Race.step_cases S expDecay hs
  · cases hc
    rw [if_neg (hB hmem)] at hres
    obtain ⟨resp, hw⟩ := hres
    rw [hw.failure] at he
    simp at he
  · cases hc
    have hidx : c.dial.idx = serverB := by
      have hne := hB hmem
      have hlt := c.dial.idx.isLt
      simp only [serverA, serverB, ne_eq, Fin.ext_iff] at hne ⊢
      have h0 : ((0 : Fin 2) : Nat) = 0 := rfl
      have h1 : ((1 : Fin 2) : Nat) = 1 := rfl
      omega
    exact answered_of_won hw hidx (hnow.trans (if_neg (hB hmem))) hrtt hhead
  · simp at hc

/-- One of the two attempts is at `serverB`. -/
theorem bothDialled_serverB {x y : Fin 2} (hxy : PairOrder [x, y]) (rtt : RttMap ℝ 2)
    (now : Instant) : ∃ d ∈ (bothDialled x y rtt now).dials, d.idx = serverB ∧
      d.start ≤ now + queryAttemptDelay ∧
      ∀ d' ∈ (bothDialled x y rtt now).dials, d'.idx ≠ serverA → d' = d := by
  rcases hxy with h | h
  · cases h
    refine ⟨_, List.mem_cons_of_mem _ List.mem_cons_self, rfl, Nat.le_refl _, ?_⟩
    intro d' hd' hne
    rcases List.mem_cons.mp hd' with rfl | hd'
    · exact absurd rfl hne
    · exact List.mem_singleton.mp hd'
  · cases h
    refine ⟨_, List.mem_cons_self, rfl, Nat.le_add_right _ _, ?_⟩
    intro d' hd' hne
    rcases List.mem_cons.mp hd' with rfl | hd'
    · rfl
    · exact absurd (List.mem_singleton.mp hd' ▸ rfl) hne

theorem bothDialled_start {x y : Fin 2} {rtt : RttMap ℝ 2} {now : Instant} {d : Dial 2}
    (hd : d ∈ (bothDialled x y rtt now).dials) : now ≤ d.start := by
  rcases List.mem_cons.mp hd with rfl | hd
  · exact Nat.le_refl _
  · rw [List.mem_singleton.mp hd]
    exact Nat.le_add_right _ _

/-- One turn of a race of two. -/
theorem course_step {x y : Fin 2} (hxy : PairOrder [x, y]) {rtt : RttMap ℝ 2} {now : Instant}
    (hr : queryAttemptDelay + r < udpNameserverTimeout) {s s' : Race ℝ 2} {e : Wake 2}
    (h : Course x y r rtt now s) (hp : Punctual S r s e)
    (hs : s.step S expDecay e = some s') : Course x y r rtt now s' := by
  cases h with
  | one heq =>
    subst heq
    cases e with
    | completed c =>
      refine .ended (step_completed hs hp ?_ rfl rfl)
      -- The start timer is due long before the timeout.
      intro hmem hA
      refine .inr ⟨now + queryAttemptDelay, rfl, ?_⟩
      have hdial : c.dial = ⟨x, now⟩ := List.mem_singleton.mp hmem
      rw [dueAt_serverA hA, hdial]
      exact Nat.add_lt_add_left (by omega) now
    | due t =>
      obtain ⟨hnext, -⟩ := hp
      obtain ⟨-, ⟨c, _, hc, -⟩ | ⟨c, _, hc, -⟩ | ⟨t', deadline, ht, -, -, -, rfl⟩⟩ :=
        Race.step_cases S expDecay hs
      · simp at hc
      · simp at hc
      · cases ht
        have ht : t = now + queryAttemptDelay := (Option.some.inj hnext).symm
        rw [ht]
        exact .both (start_due x y rtt now)
  | both heq =>
    subst heq
    cases e with
    | completed c =>
      refine .ended (step_completed hs hp ?_ rfl rfl)
      -- So is the answer of `serverB`, whichever of the two was dialled first.
      intro hmem hA
      left
      obtain ⟨d, hd, hB, hstart, -⟩ := bothDialled_serverB hxy rtt now
      have hle : now ≤ c.dial.start := bothDialled_start hmem
      refine ⟨d, hd, ?_⟩
      rw [dueAt_serverA hA, dueAt_serverB hB]
      calc d.start + r ≤ now + queryAttemptDelay + r := Nat.add_le_add_right hstart r
        _ = now + (queryAttemptDelay + r) := Nat.add_assoc _ _ _
        _ < c.dial.start + udpNameserverTimeout := Nat.add_lt_add_of_le_of_lt hle hr
    | due t =>
      obtain ⟨hnext, -⟩ := hp
      cases hnext
  | ended answered =>
    obtain ⟨hrun, -⟩ := Race.step_cases S expDecay hs
    have hended := answered.ended
    rw [hrun] at hended
    simp at hended

/-- A race of two ends with one success for `serverB`, and begins with the first in order. -/
theorem raced_answered (hr : queryAttemptDelay + r < udpNameserverTimeout) {rtt : RttMap ℝ 2}
    {now : Instant} {s : Race ℝ 2} (h : Raced S r rtt now s) :
    ∃ x y, orderIndices expDecay rtt now [serverA, serverB] = [x, y] ∧ Answered x r rtt s := by
  obtain ⟨events, hrun, halong, hended⟩ := h
  have horder := pairOrder_orderIndices rtt now
  have hpair : ∃ x y, orderIndices expDecay rtt now [serverA, serverB] = [x, y] := by
    rcases horder with h | h <;> exact ⟨_, _, h⟩
  obtain ⟨x, y, hxy⟩ := hpair
  rw [hxy] at hrun halong horder
  refine ⟨x, y, hxy, ?_⟩
  have hcourse : Course x y r rtt now s := by
    refine Machine.run_invariant_along (P := Course x y r rtt now) ?_ (.one rfl) halong hrun
    intro s e s' h hp hs
    exact course_step horder hr h hp hs
  cases hcourse with
  | one heq =>
    rw [heq] at hended
    cases hended
  | both heq =>
    rw [heq] at hended
    cases hended
  | ended answered => exact answered

end OneRace

/-! ## Lookups in sequence -/

section Sequence

variable {S : SimpleDns} {r : Nat}

/-- The estimates of a sequence of lookups: `serverA` is as it was, and `serverB` is on the side of
the baseline its samples are on. -/
structure Settled (r : Nat) (rtt : RttMap ℝ 2) : Prop where
  serverA_fresh : ∃ born, rtt serverA = .new born
  serverB_below : asMicros r < 50000 → (rtt serverB).attemptMicros < 50000
  serverB_above : 50000 ≤ asMicros r → 50000 ≤ (rtt serverB).attemptMicros

/-- `serverB` goes first when its estimate is below the baseline. -/
theorem order_below {rtt : RttMap ℝ 2} (now : Instant) {born : Instant}
    (hA : rtt serverA = .new born) (hB : (rtt serverB).attemptMicros < 50000) :
    orderIndices expDecay rtt now [serverA, serverB] = [serverB, serverA] := by
  have hlt := (decayed_lt_iff (rtt serverB) now).mpr hB
  rw [orderIndices_pair]
  refine if_neg (not_le.mpr ?_)
  unfold RttMap.getDecayed
  rw [hA, decayed_new]
  exact hlt

/-- `serverA` goes first as long as the estimate of `serverB` is not below the baseline. -/
theorem order_above {rtt : RttMap ℝ 2} (now : Instant) {born : Instant}
    (hA : rtt serverA = .new born) (hB : 50000 ≤ (rtt serverB).attemptMicros) :
    orderIndices expDecay rtt now [serverA, serverB] = [serverA, serverB] := by
  have hle := not_lt.mp (mt (decayed_lt_iff (rtt serverB) now).mp (not_lt.mpr hB))
  rw [orderIndices_pair]
  refine if_pos ?_
  unfold RttMap.getDecayed
  rw [hA, decayed_new]
  exact hle

/-- One success of `serverB` settles the estimates, from settled or fresh ones. -/
theorem Settled.recordSuccess {rtt : RttMap ℝ 2} {datagramRtt : Option Nat} {now : Instant}
    (hA : ∃ born, rtt serverA = .new born)
    (hbelow : asMicros r < 50000 → (rtt serverB).attemptMicros ≤ 50000)
    (habove : 50000 ≤ asMicros r → 50000 ≤ (rtt serverB).attemptMicros) :
    Settled r (rtt.recordSuccess expDecay serverB r datagramRtt now) := by
  have hself : (rtt.recordSuccess expDecay serverB r datagramRtt now) serverB =
      (rtt serverB).recordSuccess expDecay r datagramRtt now := Function.update_self _ _ _
  have hother : (rtt.recordSuccess expDecay serverB r datagramRtt now) serverA = rtt serverA :=
    Function.update_of_ne (by decide) _ _
  refine ⟨hother ▸ hA, ?_, ?_⟩
  · intro hs
    rw [hself]
    exact blend_lt hs ((decayed_le_iff _ _).mpr (hbelow hs))
  · intro hs
    rw [hself]
    exact le_blend hs (not_lt.mp (mt (decayed_lt_iff _ _).mp (not_lt.mpr (habove hs))))

/-- The estimates are settled after every lookup. -/
theorem Lookups.settled (hr : queryAttemptDelay + r < udpNameserverTimeout) {k : Nat}
    {s : Race ℝ 2} (h : Lookups S r k s) : Settled r s.rtt := by
  induction h with
  | @first born now s fresh raced =>
    obtain ⟨x, y, -, answered⟩ := raced_answered hr raced
    obtain ⟨d, hrtt⟩ := answered.estimates
    have hB : (RttMap.new born serverB : Srtt ℝ).attemptMicros = 50000 := baseline_eq
    rw [hrtt]
    exact .recordSuccess ⟨born, rfl⟩ (fun _ => hB.le) (fun _ => hB.ge)
  | next before idle raced ih =>
    obtain ⟨x, y, -, answered⟩ := raced_answered hr raced
    obtain ⟨d, hrtt⟩ := answered.estimates
    rw [hrtt]
    exact .recordSuccess ih.serverA_fresh (fun hs => (ih.serverB_below hs).le) ih.serverB_above

/-- From the second lookup on, the first server dialled is the first by the settled estimates. -/
theorem Lookups.head (hr : queryAttemptDelay + r < udpNameserverTimeout) {k : Nat}
    {s : Race ℝ 2} (h : Lookups S r k s) (hk : 2 ≤ k) :
    s.dialled.head? = some (if asMicros r < 50000 then serverB else serverA) := by
  cases h with
  | first => exact absurd hk (by decide)
  | @next k s₀ now s before idle raced =>
    obtain ⟨x, y, horder, answered⟩ := raced_answered hr raced
    obtain ⟨⟨born, hA⟩, hbelow, habove⟩ := before.settled hr
    rw [answered.head]
    by_cases hs : asMicros r < 50000
    · rw [order_below now hA (hbelow hs)] at horder
      cases horder
      rw [if_pos hs]
    · rw [order_above now hA (habove (Nat.not_lt.mp hs))] at horder
      cases horder
      rw [if_neg hs]

/-! ## A run of every length -/

/-- An attempt at `serverB` is answered with an empty body, which no header marks as a failure. -/
def answerTo (d : Dial 2) (r : Nat) : Completion 2 := ⟨d, d.start + r, .ok ([], none)⟩

theorem answerTo_won (S : SimpleDns) (d : Dial 2) (r : Nat) : (answerTo d r).Won S [] :=
  ⟨⟨none, rfl⟩, retryable_short S (Nat.succ_pos 11)⟩

theorem answerTo_ends (s : Race ℝ 2) (d : Dial 2) :
    (s.complete S expDecay (answerTo d r)).result.isSome := by
  rw [Race.complete_won S expDecay (answerTo_won S d r)]
  rfl

theorem faithful_answerTo {d : Dial 2} (hd : d.idx = serverB) : Faithful S r (answerTo d r) := by
  refine ⟨(dueAt_serverB (r := r) hd).symm, ?_⟩
  have hne : (answerTo d r).dial.idx ≠ serverA := by
    show d.idx ≠ serverA
    rw [hd]
    decide
  rw [if_neg hne]
  exact ⟨[], answerTo_won S d r⟩

/-- A race in which `serverB` answers before the start timer. -/
theorem raced_one {rtt : RttMap ℝ 2} {now : Instant}
    (horder : orderIndices expDecay rtt now [serverA, serverB] = [serverB, serverA])
    (hr : r ≤ queryAttemptDelay) : ∃ s, Raced S r rtt now s := by
  have hwon : (Race.start [serverB, serverA] rtt now).step S expDecay
      (.completed (answerTo ⟨serverB, now⟩ r)) =
        some ((Race.start [serverB, serverA] rtt now).complete S expDecay
          (answerTo ⟨serverB, now⟩ r)) :=
    Race.step_won S expDecay rfl List.mem_cons_self (Nat.le_add_right _ _) (answerTo_won S _ r)
  have hanswer : Punctual S r (Race.start [serverB, serverA] rtt now)
      (.completed (answerTo ⟨serverB, now⟩ r)) := by
    refine ⟨faithful_answerTo rfl, ?_, ?_⟩
    · intro d hd
      rw [List.mem_singleton.mp hd, dueAt_serverB rfl]
      exact Nat.le_refl _
    · intro deadline ht
      cases ht
      exact Nat.add_le_add_left hr now
  refine ⟨(Race.start [serverB, serverA] rtt now).complete S expDecay (answerTo ⟨serverB, now⟩ r),
    [.completed (answerTo ⟨serverB, now⟩ r)], ?_, ?_, answerTo_ends _ _⟩
  · rw [horder, Machine.run_cons_some hwon, Machine.run_nil]
  · rw [horder]
    exact ⟨hanswer, fun _ _ => trivial⟩

/-- A race in which the start timer runs out before `serverB` answers. -/
theorem raced_both (hr : queryAttemptDelay + r < udpNameserverTimeout) {x y : Fin 2}
    {rtt : RttMap ℝ 2} {now : Instant}
    (horder : orderIndices expDecay rtt now [serverA, serverB] = [x, y]) (hxy : PairOrder [x, y])
    (hwait : now + queryAttemptDelay < dueAt r ⟨x, now⟩) : ∃ s, Raced S r rtt now s := by
  obtain ⟨d, hd, hB, hstart, honly⟩ := bothDialled_serverB hxy rtt now
  have hlate : now + queryAttemptDelay ≤ d.start + r := by
    rcases List.mem_cons.mp hd with rfl | hd
    · rw [dueAt_serverB hB] at hwait
      exact hwait.le
    · rw [List.mem_singleton.mp hd]
      exact Nat.le_add_right _ _
  have hstep : (Race.start [x, y] rtt now).step S expDecay (.due (now + queryAttemptDelay)) =
      some (bothDialled x y rtt now) :=
    Race.step_due S expDecay rfl rfl (Nat.le_refl _) (Nat.le_add_right _ _)
  have hwon : (bothDialled x y rtt now).step S expDecay (.completed (answerTo d r)) =
      some ((bothDialled x y rtt now).complete S expDecay (answerTo d r)) :=
    Race.step_won S expDecay rfl hd hlate (answerTo_won S d r)
  have hdue : Punctual S r (Race.start [x, y] rtt now) (.due (now + queryAttemptDelay)) := by
    refine ⟨rfl, ?_⟩
    intro d' hd'
    rw [List.mem_singleton.mp hd']
    exact hwait
  have hanswer : Punctual S r (bothDialled x y rtt now) (.completed (answerTo d r)) := by
    refine ⟨faithful_answerTo hB, ?_, fun _ h => (nomatch h)⟩
    intro d' hd'
    show d.start + r ≤ dueAt r d'
    by_cases hA : d'.idx = serverA
    · rw [dueAt_serverA hA]
      calc d.start + r ≤ now + queryAttemptDelay + r := Nat.add_le_add_right hstart r
        _ = now + (queryAttemptDelay + r) := Nat.add_assoc _ _ _
        _ ≤ d'.start + udpNameserverTimeout := Nat.add_le_add (bothDialled_start hd') hr.le
    · rw [honly d' hd' hA, dueAt_serverB hB]
  refine ⟨(bothDialled x y rtt now).complete S expDecay (answerTo d r),
    [.due (now + queryAttemptDelay), .completed (answerTo d r)], ?_, ?_, answerTo_ends _ _⟩
  · rw [horder, Machine.run_cons_some hstep, Machine.run_cons_some hwon, Machine.run_nil]
  · rw [horder]
    refine ⟨hdue, fun s' hs' => ?_⟩
    rw [hstep] at hs'
    cases hs'
    exact ⟨hanswer, fun _ _ => trivial⟩

/-- Whatever the order, there is a race. -/
theorem raced_exists (hr : queryAttemptDelay + r < udpNameserverTimeout) (rtt : RttMap ℝ 2)
    (now : Instant) : ∃ s, Raced S r rtt now s := by
  rcases pairOrder_orderIndices rtt now with horder | horder
  · refine raced_both hr horder (.inl rfl) ?_
    rw [dueAt_serverA rfl]
    exact Nat.add_lt_add_left (by omega) now
  · by_cases hwait : r ≤ queryAttemptDelay
    · exact raced_one horder hwait
    · refine raced_both hr horder (.inr rfl) ?_
      rw [dueAt_serverB rfl]
      exact Nat.add_lt_add_left (Nat.not_le.mp hwait) now

/-- There are sequences of lookups of every length. -/
theorem lookups_exist (hr : queryAttemptDelay + r < udpNameserverTimeout) (k : Nat) :
    ∃ s, Lookups S r (k + 1) s := by
  induction k with
  | zero =>
    obtain ⟨s, raced⟩ := raced_exists (S := S) hr (.new 0) 0
    exact ⟨s, .first (Nat.le_refl 0) raced⟩
  | succ k ih =>
    obtain ⟨s, before⟩ := ih
    obtain ⟨s', raced⟩ := raced_exists (S := S) hr s.rtt s.clock
    exact ⟨s', .next before (Nat.le_refl _) raced⟩

end Sequence

/-! ## When the order heals -/

/-- The dead server is passed in every long run of lookups exactly when the round trip of the live
one, in whole microseconds, is below the baseline. -/
theorem heals_iff (S : SimpleDns) (r : Nat)
    (htimeout : queryAttemptDelay + r < udpNameserverTimeout) :
    (∀ k s, 100 ≤ k → Lookups S r k s → s.dialled.head? = some serverB) ↔
      asMicros r < 50000 := by
  constructor
  · intro h
    by_contra hs
    obtain ⟨s, hlast⟩ := lookups_exist (S := S) htimeout 99
    have hhead := hlast.head htimeout (by decide)
    rw [if_neg hs, h 100 s (Nat.le_refl _) hlast] at hhead
    exact absurd (Option.some.inj hhead) (by decide)
  · intro hs k s hk hlast
    rw [hlast.head htimeout (Nat.le_trans (by decide) hk), if_pos hs]

/-- A live server 20 ms away. -/
theorem heals_iff_20ms : queryAttemptDelay + 20000000 < udpNameserverTimeout ∧
    ((∀ k s, 100 ≤ k → Lookups (.ofTable []) 20000000 k s → s.dialled.head? = some serverB) ↔
      asMicros 20000000 < 50000) :=
  ⟨by decide, heals_iff (.ofTable []) 20000000 (by decide)⟩

/-- A live server 60 ms away never goes ahead of the dead one. -/
theorem not_healed_60ms : ¬ ∀ (S : SimpleDns) (r : Nat), 0 < r →
    queryAttemptDelay + r < udpNameserverTimeout →
    ∀ k s, 100 ≤ k → Lookups S r k s → s.dialled.head? = some serverB := by
  intro h
  have hr : queryAttemptDelay + 60000000 < udpNameserverTimeout := by decide
  obtain ⟨s, hlast⟩ := lookups_exist (S := .ofTable []) hr 99
  have hhead := hlast.head hr (by decide)
  rw [h _ _ (by decide) hr 100 s (Nat.le_refl _) hlast] at hhead
  exact absurd (Option.some.inj hhead) (by decide)

end N0DnsResolver
