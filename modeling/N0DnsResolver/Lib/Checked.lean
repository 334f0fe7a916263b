/-
  Computations that may panic.

  `Checked α` is either the value a computation returns or the panic that ended
  it. A computation proved to return (`Checked.Returns`) is read with
  `Checked.get`, so callers of a guarded read work with plain values.
-/
import Mathlib.Tactic.Basic

/-- Why a computation panicked. -/
inductive Panic where
  /-- A slice was indexed past its end. -/
  | indexOutOfBounds
  /-- An addition left the range of its type. -/
  | overflow
  deriving DecidableEq, Repr

/-- A computation that returns an `α` or panics. -/
abbrev Checked (α : Type) := Except Panic α

namespace Checked

variable {α β : Type}

/-- The computation returns. -/
def Returns (c : Checked α) : Prop := ∃ a, c = .ok a

theorem returns_ok (a : α) : Returns (.ok a) := ⟨a, rfl⟩

theorem not_returns_error (p : Panic) : ¬ Returns (.error p : Checked α) := by
  rintro ⟨a, h⟩
  simp at h

instance (c : Checked α) : Decidable (Returns c) :=
  match c with
  | .ok a => isTrue (returns_ok a)
  | .error p => isFalse (not_returns_error p)

/-- The value of a computation that returns. -/
def get : (c : Checked α) → Returns c → α
  | .ok a, _ => a
  | .error p, h => absurd h (not_returns_error p)

theorem eq_ok_get (c : Checked α) (h : Returns c) : c = .ok (get c h) := by
  obtain ⟨a, rfl⟩ := h
  rfl

theorem get_eq_of_eq_ok {c : Checked α} {a : α} (h : Returns c) (hc : c = .ok a) :
    get c h = a := by
  subst hc
  rfl

theorem map_eq_ok {f : α → β} {c : Checked α} {b : β} (h : c.map f = .ok b) :
    ∃ a, c = .ok a ∧ f a = b := by
  cases c with
  | error p => cases h
  | ok a => exact ⟨a, rfl, Except.ok.inj h⟩

/-- A read that needs the first `n` of `len` bytes: it panics when they are not there. -/
def needs (n len : Nat) (value : α) : Checked α :=
  if len < n then .error .indexOutOfBounds else .ok value

theorem needs_eq_ok {n len : Nat} (h : n ≤ len) (value : α) : needs n len value = .ok value :=
  if_neg (Nat.not_lt.mpr h)

theorem needs_eq_error {n len : Nat} (h : len < n) (value : α) :
    needs n len value = .error .indexOutOfBounds := if_pos h

end Checked
