/-
  Runs that keep to their deadlines.

  `Timing` says when an event happens and what is due in a state. A run is timely, up to a
  lag, if no event of it happens more than the lag after something that was due before it:
  whoever serves the timers is never later than that. A machine that always has something
  due before a bound then never gets past the bound (`clock_le`).

  `startBy` bounds the starts of tasks that are begun one by one, a delay apart, with no
  more than `width` of them at a time.
-/
import N0DnsResolver.Lib.Machine
import Mathlib.Order.Monotone.Basic

/-- The instants of a machine: those of its events, and those at which something is due. -/
structure Timing (σ ε : Type) where
  time : ε → Nat
  due : σ → List Nat

namespace Timing

variable {σ ε : Type} (T : Timing σ ε) (lag : Nat)

/-- Nothing that is due in the state is passed over for longer than the lag. -/
def OnTime (s : σ) (e : ε) : Prop := ∀ d ∈ T.due s, T.time e ≤ d + lag

/-- Every event of the run is on time. -/
def Timely (step : σ → ε → Option σ) (s : σ) (es : List ε) : Prop :=
  Machine.Along step (T.OnTime lag) s es

instance (s : σ) (e : ε) : Decidable (T.OnTime lag s e) :=
  inferInstanceAs (Decidable (∀ d ∈ T.due s, T.time e ≤ d + lag))

instance (step : σ → ε → Option σ) (s : σ) (es : List ε) :
    Decidable (T.Timely lag step s es) :=
  inferInstanceAs (Decidable (Machine.Along step (T.OnTime lag) s es))

variable {T lag}

/-- A run is timely when its first event is on time and the rest is timely from there. -/
theorem timely_cons {step : σ → ε → Option σ} {s s' : σ} {e : ε} {ds : List Nat} {es : List ε}
    (hs : step s e = some s') (hdue : T.due s = ds) (hon : ∀ d ∈ ds, T.time e ≤ d + lag)
    (hrest : T.Timely lag step s' es) : T.Timely lag step s (e :: es) := by
  refine ⟨fun d hd => hon d (hdue ▸ hd), fun u hu => ?_⟩
  cases hs.symm.trans hu
  exact hrest

theorem timely_singleton {step : σ → ε → Option σ} {s : σ} {e : ε} {ds : List Nat}
    (hdue : T.due s = ds) (hon : ∀ d ∈ ds, T.time e ≤ d + lag) : T.Timely lag step s [e] :=
  ⟨fun d hd => hon d (hdue ▸ hd), fun _ _ => trivial⟩

/-- A machine that has something due by the bound whenever it takes an event stays within it. -/
theorem clock_le {step : σ → ε → Option σ} {P : σ → Prop} {C : σ → ε → Prop} {clock : σ → Nat}
    {bound : Nat} (hon : ∀ s e, C s e → T.OnTime lag s e)
    (hstep : ∀ s e s', P s → C s e → step s e = some s' →
      P s' ∧ clock s' = T.time e ∧ ∃ d ∈ T.due s, d + lag ≤ bound)
    {s t : σ} {es : List ε} (hs : P s) (hclock : clock s ≤ bound)
    (hc : Machine.Along step C s es) (hrun : Machine.run step s es = some t) :
    P t ∧ clock t ≤ bound := by
  refine Machine.run_invariant_along (P := fun s => P s ∧ clock s ≤ bound) ?_ ⟨hs, hclock⟩ hc hrun
  intro s e s' hps hce hse
  obtain ⟨hps', htime, d, hd, hle⟩ := hstep s e s' hps.1 hce hse
  have hlate : T.time e ≤ d + lag := hon s e hce d hd
  exact ⟨hps', htime ▸ Nat.le_trans hlate hle⟩

end Timing

/-! ## Tasks begun one by one -/

/-- When the task with number `k` has begun, counted from the first, if a task begins a `delay` after
the one before it or once there is room, and each takes `length` at most. -/
def startBy (width delay length k : Nat) : Nat :=
  k / width * max length (width * delay) + k % width * delay

section StartBy

variable {width : Nat} (hwidth : 0 < width) (delay length k : Nat)

/-- The first `width` tasks wait for the delays only. -/
theorem startBy_of_lt {k : Nat} (h : k < width) : startBy width delay length k = k * delay := by
  unfold startBy
  rw [Nat.div_eq_of_lt h, Nat.mod_eq_of_lt h, Nat.zero_mul, Nat.zero_add]

include hwidth

theorem startBy_add_delay :
    startBy width delay length k + delay ≤ startBy width delay length (k + 1) := by
  have hmod : k % width < width := Nat.mod_lt k hwidth
  have hdiv : k % width + width * (k / width) = k := Nat.mod_add_div k width
  unfold startBy
  by_cases hroom : k % width + 1 < width
  · obtain ⟨hq, hr⟩ := (Nat.div_mod_unique (a := k + 1) (c := k % width + 1) (d := k / width)
      hwidth).mpr ⟨by omega, hroom⟩
    rw [hq, hr, Nat.add_mul, Nat.one_mul, Nat.add_assoc]
  · have hlast : k % width + 1 = width := by omega
    obtain ⟨hq, hr⟩ := (Nat.div_mod_unique (a := k + 1) (c := 0) (d := k / width + 1)
      hwidth).mpr ⟨by rw [Nat.mul_add, Nat.mul_one]; omega, hwidth⟩
    have hwave : k % width * delay + delay ≤ max length (width * delay) := by
      rw [← Nat.succ_mul, Nat.succ_eq_add_one, hlast]
      exact Nat.le_max_right _ _
    rw [hq, hr, Nat.add_mul, Nat.one_mul, Nat.zero_mul]
    omega

theorem startBy_add_length :
    startBy width delay length k + length ≤ startBy width delay length (k + width) := by
  have hmax : length ≤ max length (width * delay) := Nat.le_max_left _ _
  unfold startBy
  rw [Nat.add_div_right k hwidth, Nat.add_mod_right, Nat.succ_mul]
  omega

theorem startBy_mono : Monotone (startBy width delay length) :=
  monotone_nat_of_le_succ fun k =>
    Nat.le_trans (Nat.le_add_right _ _) (startBy_add_delay hwidth delay length k)

end StartBy
