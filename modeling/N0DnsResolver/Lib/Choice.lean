/-
  Ordered choice.

  `choose decides accepts l` is the first element of `l` that decides; failing that
  the first that is acceptable; failing that the last one. A search that stops at
  the first deciding element and otherwise keeps the first acceptable one computes it.
-/
import Mathlib.Data.List.Basic

variable {α β : Type}

/-- The first element that decides, else the first acceptable one, else the last. -/
def choose (decides accepts : α → Bool) (l : List α) : Option α :=
  (l.find? decides).or ((l.find? accepts).or l.getLast?)

namespace Choice

variable {decides accepts : α → Bool}

theorem find?_eq_none_of_forall {p : α → Bool} {l : List α} (h : ∀ a ∈ l, p a = false) :
    l.find? p = none :=
  List.find?_eq_none.mpr fun a ha => by simp [h a ha]

/-- A prefix that does not decide, followed by an element that does. -/
theorem choose_of_decides {pre : List α} {a : α} (post : List α)
    (hpre : ∀ b ∈ pre, decides b = false) (ha : decides a = true) :
    choose decides accepts (pre ++ a :: post) = some a := by
  unfold choose
  rw [List.find?_append, find?_eq_none_of_forall hpre, List.find?_cons_of_pos ha]
  rfl

/-- Nothing decides: the first acceptable element is chosen. -/
theorem choose_of_accepts {pre : List α} {a : α} (post : List α)
    (hd : ∀ b ∈ pre ++ a :: post, decides b = false) (hpre : ∀ b ∈ pre, accepts b = false)
    (ha : accepts a = true) : choose decides accepts (pre ++ a :: post) = some a := by
  unfold choose
  rw [find?_eq_none_of_forall hd, List.find?_append, find?_eq_none_of_forall hpre,
    List.find?_cons_of_pos ha]
  rfl

/-- Nothing decides or is acceptable: the last element is chosen. -/
theorem choose_last {l : List α} (hd : ∀ b ∈ l, decides b = false)
    (ha : ∀ b ∈ l, accepts b = false) : choose decides accepts l = l.getLast? := by
  unfold choose
  rw [find?_eq_none_of_forall hd, find?_eq_none_of_forall ha]
  rfl

theorem choose_mem {l : List α} {a : α} (h : choose decides accepts l = some a) : a ∈ l := by
  unfold choose at h
  rcases Option.or_eq_some_iff.mp h with h | ⟨-, h⟩
  · exact List.mem_of_find?_eq_some h
  · rcases Option.or_eq_some_iff.mp h with h | ⟨-, h⟩
    · exact List.mem_of_find?_eq_some h
    · exact List.mem_of_getLast? h

/-- A deciding element is chosen exactly when it is the first. -/
theorem choose_eq_some_iff_of_decides {l : List α} {a : α} (ha : decides a = true) :
    choose decides accepts l = some a ↔ l.find? decides = some a := by
  unfold choose
  constructor
  · intro h
    rcases Option.or_eq_some_iff.mp h with h | ⟨hnone, h⟩
    · exact h
    · have hchosen : choose decides accepts l = some a := by
        unfold choose
        rw [hnone]
        exact h
      have hmem : a ∈ l := choose_mem hchosen
      exact absurd ha (List.find?_eq_none.mp hnone a hmem)
  · intro h
    rw [h]
    rfl

/-- When one that does not decide is chosen, nothing decides. -/
theorem forall_of_choose {l : List α} {a : α} (h : choose decides accepts l = some a)
    (ha : decides a = false) : ∀ b ∈ l, decides b = false := by
  intro b hb
  cases hf : l.find? decides with
  | none => simpa using List.find?_eq_none.mp hf b hb
  | some c =>
    unfold choose at h
    rw [hf] at h
    cases h
    rw [List.find?_some hf] at ha
    simp at ha

/-- When nothing decides and everything is acceptable, the first is chosen. -/
theorem choose_eq_head? {l : List α} (hd : ∀ b ∈ l, decides b = false)
    (ha : ∀ b ∈ l, accepts b = true) : choose decides accepts l = l.head? := by
  cases l with
  | nil => rfl
  | cons a l =>
    show choose decides accepts ([] ++ a :: l) = some a
    exact choose_of_accepts l hd (fun b hb => nomatch hb) (ha a List.mem_cons_self)

end Choice
