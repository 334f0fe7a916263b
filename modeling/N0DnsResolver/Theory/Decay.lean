/-
  The range of the estimates, and their order as time goes by.

  Blends, penalties and decay all keep an estimate between 0 and `SRTT_MAX_MICROS`.
  Decay scales the distance of every estimate to the baseline by the same factor, so
  time alone never changes which of two is the smaller.
-/
import N0DnsResolver.Model.Ordering
import N0DnsResolver.Theory.Healing

namespace N0DnsResolver

/-! ## The range -/

/-- A number of microseconds an estimate may be. -/
def InRange (micros : ℝ) : Prop := 0 ≤ micros ∧ micros ≤ srttMaxMicros

theorem inRange_iff (micros : ℝ) : InRange micros ↔ 0 ≤ micros ∧ micros ≤ 5000000 := by
  unfold InRange
  rw [max_eq]

theorem expDecay_le_one (dt : Nat) : expDecay dt ≤ 1 := by
  unfold expDecay
  rw [Real.exp_le_one_iff]
  have hdt : (0 : ℝ) ≤ dt := Nat.cast_nonneg dt
  have hage : 0 ≤ (dt : ℝ) / 1000000000 / 180 := by positivity
  linarith

/-- A decayed estimate lies between the estimate and the baseline. -/
theorem decayed_inRange {srtt : Srtt ℝ} (h : InRange srtt.attemptMicros) (now : Instant) :
    InRange (srtt.decayed expDecay now) := by
  rw [inRange_iff] at h ⊢
  have hpos := expDecay_pos (now - srtt.updated)
  have hle := expDecay_le_one (now - srtt.updated)
  unfold Srtt.decayed
  rw [baseline_eq]
  constructor
  · nlinarith [mul_nonneg h.1 hpos.le]
  · nlinarith [mul_nonneg (sub_nonneg.mpr h.2) hpos.le]

theorem blend_inRange {base : ℝ} (h : InRange base) (sample : Nat) :
    InRange (Srtt.blend sample base) := by
  rw [inRange_iff] at h ⊢
  have hsample : (0 : ℝ) ≤ sample := Nat.cast_nonneg sample
  rw [blend_eq]
  exact ⟨le_min (by linarith) (by norm_num), min_le_right _ _⟩

theorem penalty_inRange {base : ℝ} (h : InRange base) :
    InRange (min (base + srttFailurePenaltyMicros) srttMaxMicros) := by
  have hpenalty : (0 : ℝ) ≤ srttFailurePenaltyMicros := by
    unfold srttFailurePenaltyMicros
    norm_num
  have hmax : (0 : ℝ) ≤ srttMaxMicros := by
    rw [max_eq]
    norm_num
  exact ⟨le_min (add_nonneg h.1 hpenalty) hmax, min_le_right _ _⟩

/-- Both estimates of an entry are in range. -/
structure Srtt.Bounded (srtt : Srtt ℝ) : Prop where
  attempt : InRange srtt.attemptMicros
  datagram : InRange srtt.datagramMicros

theorem Srtt.bounded_new (now : Instant) : (Srtt.new now : Srtt ℝ).Bounded := by
  have hbase : InRange (srttBaselineMicros : ℝ) := by
    rw [inRange_iff, baseline_eq]
    norm_num
  exact ⟨hbase, hbase⟩

theorem Srtt.Bounded.recordSuccess {srtt : Srtt ℝ} (h : srtt.Bounded) (attempt : Nat)
    (datagram : Option Nat) (now : Instant) :
    (srtt.recordSuccess expDecay attempt datagram now).Bounded := by
  refine ⟨blend_inRange (decayed_inRange h.attempt now) _, ?_⟩
  cases datagram with
  | none => exact h.datagram
  | some datagram => exact blend_inRange h.datagram _

theorem Srtt.Bounded.recordFailure {srtt : Srtt ℝ} (h : srtt.Bounded) (now : Instant) :
    (srtt.recordFailure expDecay now).Bounded :=
  ⟨penalty_inRange (decayed_inRange h.attempt now), h.datagram⟩

section Map

variable {n : Nat}

/-- A call keeps every entry in range. -/
theorem bounded_record {rtt : RttMap ℝ n} (h : ∀ idx, (rtt idx).Bounded) (now : Instant)
    (call : RttCall n) (idx : Fin n) : (rtt.record expDecay now call idx).Bounded := by
  by_cases hidx : call.idx = idx
  · subst hidx
    cases call with
    | success i attempt datagram =>
      show (Function.update rtt i _ i).Bounded
      rw [Function.update_self]
      exact (h i).recordSuccess attempt datagram now
    | failure i =>
      show (Function.update rtt i _ i).Bounded
      rw [Function.update_self]
      exact (h i).recordFailure now
  · rw [RttMap.record_of_ne expDecay rtt now hidx]
    exact h idx

theorem bounded_records (calls : List (Instant × RttCall n)) {rtt : RttMap ℝ n}
    (h : ∀ idx, (rtt idx).Bounded) (idx : Fin n) : (rtt.records expDecay calls idx).Bounded := by
  induction calls generalizing rtt with
  | nil => exact h idx
  | cons call calls ih => exact ih (bounded_record h call.1 call.2)

/-! ## The order -/

theorem expDecay_add (dt dt' : Nat) : expDecay (dt + dt') = expDecay dt * expDecay dt' := by
  unfold expDecay
  rw [← Real.exp_add]
  congr 1
  push_cast
  ring

/-- Some time later, the distance to the baseline has shrunk by a factor of that time alone. -/
theorem decayed_later (srtt : Srtt ℝ) {t₁ t₂ : Instant} (hupdated : srtt.updated ≤ t₁)
    (hle : t₁ ≤ t₂) : srtt.decayed expDecay t₂ =
      50000 + (srtt.decayed expDecay t₁ - 50000) * expDecay (t₂ - t₁) := by
  have hage : t₂ - srtt.updated = (t₁ - srtt.updated) + (t₂ - t₁) := by
    rw [Nat.add_comm]
    exact (Nat.sub_add_sub_cancel hle hupdated).symm
  unfold Srtt.decayed
  rw [hage, expDecay_add, baseline_eq]
  ring

/-- Time alone leaves the order of two entries as it is. -/
theorem decayed_le_decayed_iff (a b : Srtt ℝ) {t₁ t₂ : Instant} (ha : a.updated ≤ t₁)
    (hb : b.updated ≤ t₁) (hle : t₁ ≤ t₂) :
    a.decayed expDecay t₁ ≤ b.decayed expDecay t₁ ↔
      a.decayed expDecay t₂ ≤ b.decayed expDecay t₂ := by
  rw [decayed_later a ha hle, decayed_later b hb hle, add_le_add_iff_left,
    mul_le_mul_iff_left₀ (expDecay_pos _), sub_le_sub_iff_right]

/-- After any calls, at any instants and with any durations, the estimates and their decayed values
are in range; and from then on, without a further call, the order of two nameservers is the same at
any two instants not before the last update of either. -/
theorem estimates_bounded_and_order_kept (born : Fin n → Instant)
    (calls : List (Instant × RttCall n)) :
    let rtt : RttMap ℝ n := RttMap.records expDecay (fun idx => .new (born idx)) calls
    (∀ idx, InRange (rtt idx).attemptMicros ∧ InRange (rtt idx).datagramMicros ∧
        ∀ now, InRange (rtt.getDecayed expDecay now idx)) ∧
      ∀ a b t₁ t₂, (rtt a).updated ≤ t₁ → (rtt b).updated ≤ t₁ → t₁ ≤ t₂ →
        (rtt.getDecayed expDecay t₁ a ≤ rtt.getDecayed expDecay t₁ b ↔
          rtt.getDecayed expDecay t₂ a ≤ rtt.getDecayed expDecay t₂ b) := by
  intro rtt
  have hbounded : ∀ idx, (rtt idx).Bounded :=
    bounded_records calls fun idx => Srtt.bounded_new (born idx)
  refine ⟨fun idx => ?_, fun a b t₁ t₂ ha hb hle => ?_⟩
  · have h := hbounded idx
    exact ⟨h.attempt, h.datagram, fun now => decayed_inRange h.attempt now⟩
  · exact decayed_le_decayed_iff (rtt a) (rtt b) ha hb hle

/-- The order of a nameserver that failed once and one never tried is the same a day later. -/
theorem estimates_bounded_and_order_kept_failure :
    let rtt : RttMap ℝ 2 :=
      RttMap.records expDecay (fun _ => .new 0) [(1000000000, .failure 0)]
    (rtt.getDecayed expDecay 1000000000 0 ≤ rtt.getDecayed expDecay 1000000000 1 ↔
      rtt.getDecayed expDecay 86400000000000 0 ≤ rtt.getDecayed expDecay 86400000000000 1) :=
  (estimates_bounded_and_order_kept (fun _ => 0) [(1000000000, .failure 0)]).2 0 1 _ _
    (by simp [RttMap.records, RttMap.record, RttMap.recordFailure, Srtt.recordFailure])
    (by simp [RttMap.records, RttMap.record, RttMap.recordFailure, Srtt.new])
    (by decide)

end Map

end N0DnsResolver
