/-
  Folds by the parts of their state: a part that each step appends to, and a part that
  each step overwrites or keeps.

  `lastWrite write l` is what the last element of `l` that writes has written. A part
  that is overwritten ends with it, so only that element counts, and replacing an
  element before it changes nothing.
-/
import Mathlib.Data.List.Basic

variable {α β σ : Type}

/-- What the last element that writes has written. -/
def lastWrite (write : α → Option β) (l : List α) : Option β := (l.filterMap write).getLast?

namespace Overwrite

variable {write : α → Option β}

theorem lastWrite_append (l l' : List α) :
    lastWrite write (l ++ l') = (lastWrite write l').or (lastWrite write l) := by
  unfold lastWrite
  rw [List.filterMap_append, List.getLast?_append]

theorem lastWrite_singleton (a : α) : lastWrite write [a] = write a := by
  unfold lastWrite
  cases h : write a <;> simp [h]

theorem lastWrite_cons (a : α) (l : List α) :
    lastWrite write (a :: l) = (lastWrite write l).or (write a) := by
  rw [← List.singleton_append, lastWrite_append, lastWrite_singleton]

theorem lastWrite_eq_none {l : List α} : lastWrite write l = none ↔ ∀ a ∈ l, write a = none := by
  unfold lastWrite
  rw [List.getLast?_eq_none_iff, List.filterMap_eq_nil_iff]

theorem isSome_lastWrite {l : List α} :
    (lastWrite write l).isSome = true ↔ ∃ a ∈ l, (write a).isSome = true := by
  rw [← not_iff_not, Bool.not_eq_true, Option.isSome_eq_false_iff, Option.isNone_iff_eq_none,
    lastWrite_eq_none]
  simp

/-- A part of the state that each step overwrites or keeps holds the last write, or what it held at
the start. -/
theorem foldl_overwrite {step : σ → α → σ} {get : σ → β}
    (hstep : ∀ s a, get (step s a) = (write a).getD (get s)) (l : List α) (s : σ) :
    get (l.foldl step s) = (lastWrite write l).getD (get s) := by
  induction l generalizing s with
  | nil => rfl
  | cons a l ih =>
    rw [List.foldl_cons, ih, hstep, lastWrite_cons]
    cases lastWrite write l <;> rfl

/-- The same for a part that is empty until the first write. -/
theorem foldl_or {step : σ → α → σ} {get : σ → Option β}
    (hstep : ∀ s a, get (step s a) = (write a).or (get s)) (l : List α) (s : σ) :
    get (l.foldl step s) = (lastWrite write l).or (get s) := by
  induction l generalizing s with
  | nil => rfl
  | cons a l ih => rw [List.foldl_cons, ih, hstep, lastWrite_cons, Option.or_assoc]

/-- A part of the state that each step appends to holds what all of them add, in their order. -/
theorem foldl_collect {step : σ → α → σ} {get : σ → List β}
    (hstep : ∀ s a, get (step s a) = get s ++ (write a).toList) (l : List α) (s : σ) :
    get (l.foldl step s) = get s ++ l.filterMap write := by
  induction l generalizing s with
  | nil => exact (List.append_nil _).symm
  | cons a l ih =>
    rw [List.foldl_cons, ih, hstep, List.append_assoc]
    cases h : write a with
    | none => rw [List.filterMap_cons_none h]; rfl
    | some b => rw [List.filterMap_cons_some h]; rfl

/-- Elements that do not write may be left out. -/
theorem lastWrite_filter {p : α → Bool} (h : ∀ a, p a = false → write a = none) (l : List α) :
    lastWrite write (l.filter p) = lastWrite write l := by
  unfold lastWrite
  rw [List.filterMap_filter]
  congr 1
  apply List.filterMap_congr
  intro a _
  by_cases hp : p a = true
  · rw [if_pos hp]
  · rw [if_neg hp, h a (by simpa using hp)]

/-- Where the last element with a property writes and no element without it does, what that element
writes is the last write. -/
theorem lastWrite_eq_of_getLast? {p : α → Bool} (h : ∀ a, p a = false → write a = none)
    {l : List α} {a : α} {b : β} (hlast : (l.filter p).getLast? = some a) (ha : write a = some b) :
    lastWrite write l = some b := by
  obtain ⟨pre, hpre⟩ := List.getLast?_eq_some_iff.mp hlast
  rw [← lastWrite_filter h, hpre, lastWrite_append, lastWrite_singleton, ha]
  rfl

/-- Lists with the same last element with a property, which writes, have the same last write. -/
theorem lastWrite_congr {p : α → Bool} (h : ∀ a, p a = false → write a = none) {l l' : List α}
    (hsame : (l'.filter p).getLast? = (l.filter p).getLast?)
    (hwrites : ∀ a, (l.filter p).getLast? = some a → (write a).isSome = true) :
    lastWrite write l' = lastWrite write l := by
  cases hlast : (l.filter p).getLast? with
  | none =>
    rw [hlast] at hsame
    rw [← lastWrite_filter h, ← lastWrite_filter h l, List.getLast?_eq_none_iff.mp hlast,
      List.getLast?_eq_none_iff.mp hsame]
  | some a =>
    obtain ⟨b, hb⟩ := Option.isSome_iff_exists.mp (hwrites a hlast)
    rw [lastWrite_eq_of_getLast? h hlast hb, lastWrite_eq_of_getLast? h (hsame.trans hlast) hb]

/-- Replacing an element keeps the value exactly when a later one writes, or both leave the same
value behind. -/
theorem getD_lastWrite_replace (pre post : List α) (a a' : α) (s : β) :
    (lastWrite write (pre ++ a' :: post)).getD s = (lastWrite write (pre ++ a :: post)).getD s ↔
      (∃ b ∈ post, (write b).isSome = true) ∨
        (write a').getD ((lastWrite write pre).getD s) =
          (write a).getD ((lastWrite write pre).getD s) := by
  have hvalue : ∀ x, (lastWrite write (pre ++ x :: post)).getD s =
      (lastWrite write post).getD ((write x).getD ((lastWrite write pre).getD s)) := by
    intro x
    rw [lastWrite_append, lastWrite_cons]
    cases lastWrite write post <;> cases write x <;> rfl
  rw [hvalue, hvalue, ← isSome_lastWrite]
  cases lastWrite write post with
  | none => simp
  | some b => simp

end Overwrite
