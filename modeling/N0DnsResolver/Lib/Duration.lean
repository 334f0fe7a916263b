/-
  Durations of bounded range, as `core::time::Duration` has them: 64 bits of
  seconds and a nanosecond part. Instants are nanoseconds of a monotone clock.
-/
import N0DnsResolver.Lib.Checked
import Mathlib.Algebra.Group.Nat.Defs
import Mathlib.Tactic.Ext

/-- The longest duration, in nanoseconds. -/
def Duration.maxNanos : Nat := (2 ^ 64 - 1) * 1000000000 + 999999999

/-- A duration, with the bound its type imposes. -/
@[ext]
structure Duration where
  nanos : Nat
  le_max : nanos ≤ Duration.maxNanos
  deriving DecidableEq

/-- An instant of a monotone clock, in nanoseconds. -/
abbrev Instant := Nat

namespace Duration

/-- `Duration::MAX`. -/
def max : Duration := ⟨maxNanos, Nat.le_refl _⟩

/-- `Duration::from_secs`. -/
def fromSecs (secs : Nat) (h : secs < 2 ^ 64) : Duration :=
  ⟨secs * 1000000000, by unfold maxNanos; omega⟩

/-- `Duration::as_secs`. -/
def asSecs (d : Duration) : Nat := d.nanos / 1000000000

/-- `Duration::add`, which panics when the sum is out of range. -/
def add (a b : Duration) : Checked Duration :=
  if h : a.nanos + b.nanos ≤ maxNanos then .ok ⟨a.nanos + b.nanos, h⟩ else .error .overflow

theorem add_eq_ok {a b : Duration} (h : a.nanos + b.nanos ≤ maxNanos) :
    add a b = .ok ⟨a.nanos + b.nanos, h⟩ := dif_pos h

theorem add_eq_overflow {a b : Duration} (h : maxNanos < a.nanos + b.nanos) :
    add a b = .error .overflow := dif_neg (Nat.not_le.mpr h)

end Duration
