/-
  Following links a bounded number of times.

  `chase f n a` is the list of points met from `a` on along the partial function
  `f`, for at most `n` links. It always starts at `a`, and two starting points
  from which `f` agrees have the same chain past the start. Where `f` keeps to a
  path, up to a key, the chain is a stretch of the path.
-/
import Mathlib.Data.List.Basic
import Mathlib.Data.List.Range

variable {α β : Type}

/-- The points met from `a` on, following `f` at most `n` times. -/
def chase (f : α → Option α) : Nat → α → List α
  | 0, a => [a]
  | n + 1, a =>
    match f a with
    | none => [a]
    | some b => a :: chase f n b

namespace Chase

variable (f : α → Option α)

theorem chase_succ_none {a : α} (h : f a = none) (n : Nat) : chase f (n + 1) a = [a] := by
  simp [chase, h]

theorem chase_succ_some {a b : α} (h : f a = some b) (n : Nat) :
    chase f (n + 1) a = a :: chase f n b := by
  simp [chase, h]

theorem chase_eq_cons (n : Nat) (a : α) : ∃ t, chase f n a = a :: t := by
  cases n with
  | zero => exact ⟨[], rfl⟩
  | succ n =>
    cases h : f a with
    | none => exact ⟨[], chase_succ_none f h n⟩
    | some b => exact ⟨_, chase_succ_some f h n⟩

/-- Starts from which `f` agrees meet the same points after the start. -/
theorem tail_chase_congr (n : Nat) {a b : α} (h : f a = f b) :
    (chase f n a).tail = (chase f n b).tail := by
  cases n with
  | zero => rfl
  | succ n =>
    cases hb : f b with
    | none => rw [chase_succ_none f hb, chase_succ_none f (h.trans hb)]; rfl
    | some c => rw [chase_succ_some f hb, chase_succ_some f (h.trans hb)]; rfl

/-- A test that does not tell two starts apart holds somewhere on one chain if it does on
the other. -/
theorem any_chase_congr (p : α → Bool) (n : Nat) {a b : α} (h : f a = f b) (hp : p a = p b) :
    (chase f n a).any p = (chase f n b).any p := by
  obtain ⟨s, hs⟩ := chase_eq_cons f n a
  obtain ⟨t, ht⟩ := chase_eq_cons f n b
  have hst := tail_chase_congr f n h
  rw [hs, ht] at hst ⊢
  simp only [List.tail_cons] at hst
  simp [hst, hp]

/-! ## Stopping early -/

/-- `f` without its links from the points that `stop` holds of. -/
def stopped (stop : α → Bool) (f : α → Option α) (a : α) : Option α :=
  if stop a then none else f a

theorem chase_stopped_prefix (stop : α → Bool) (n : Nat) (a : α) :
    chase (stopped stop f) n a <+: chase f n a := by
  induction n generalizing a with
  | zero => exact List.prefix_refl _
  | succ n ih =>
    obtain ⟨t, ht⟩ := chase_eq_cons f (n + 1) a
    cases h : stopped stop f a with
    | none =>
      rw [chase_succ_none _ h, ht]
      exact List.prefix_append [a] t
    | some b =>
      have hf : f a = some b := by
        unfold stopped at h
        split at h
        · simp at h
        · exact h
      rw [chase_succ_some _ h, chase_succ_some f hf]
      exact List.prefix_cons_inj a |>.mpr (ih b)

/-- A chain that stops early does so at one point: the first on it that is stopped at and has a
link. -/
theorem chase_stopped_cases {same : α → α → Bool} (hrefl : ∀ a, same a a = true) {stop : α → Bool}
    (hsame : ∀ a b, same a b = true → stop a = stop b) (n : Nat) (a : α) :
    chase (stopped stop f) n a = chase f n a ∨
      ∃ h, stop h = true ∧ (f h).isSome = true ∧
        chase (stopped stop f) n a = chase (stopped (fun b => same b h) f) n a := by
  induction n generalizing a with
  | zero => exact .inl rfl
  | succ n ih =>
    cases hf : f a with
    | none =>
      have hs : stopped stop f a = none := by
        unfold stopped
        rw [hf, ite_self]
      exact .inl (by rw [chase_succ_none _ hs, chase_succ_none f hf])
    | some b =>
      by_cases hstop : stop a = true
      · refine .inr ⟨a, hstop, by simp [hf], ?_⟩
        have hs : stopped stop f a = none := if_pos hstop
        have hself : stopped (fun b => same b a) f a = none := if_pos (hrefl a)
        rw [chase_succ_none _ hs, chase_succ_none _ hself]
      · have hs : stopped stop f a = some b := (if_neg hstop).trans hf
        rw [chase_succ_some _ hs]
        rcases ih b with hfull | ⟨h, hh, hlink, hcut⟩
        · exact .inl (by rw [hfull, chase_succ_some f hf])
        · have hne : ¬ same a h = true := fun hsm => hstop (by rw [hsame a h hsm, hh])
          have ha : stopped (fun b => same b h) f a = some b := (if_neg hne).trans hf
          exact .inr ⟨h, hh, hlink, by rw [hcut, chase_succ_some _ ha]⟩

/-! ## Along a path -/

section Path

variable {f} {key : α → β} {path : Nat → β}

/-- A function whose links keep to a path meets the points of the path in their order. -/
theorem map_key_chase (hstep : ∀ i a b, key a = path i → f a = some b → key b = path (i + 1))
    (n : Nat) {a : α} {i : Nat} (ha : key a = path i) :
    (chase f n a).map key = (List.range (chase f n a).length).map (fun j => path (i + j)) := by
  induction n generalizing a i with
  | zero => simp [chase, ha]
  | succ n ih =>
    cases h : f a with
    | none => simp [chase_succ_none f h, ha]
    | some b =>
      rw [chase_succ_some f h, List.map_cons, ih (hstep i a b ha h), List.length_cons,
        List.range_succ_eq_map, List.map_cons, List.map_map, ha]
      refine congrArg _ (List.map_congr_left fun j _ => ?_)
      rw [Function.comp_apply, Nat.succ_eq_add_one, Nat.add_right_comm, Nat.add_assoc]

/-- The points of a chain along a path are points of the path. -/
theorem key_of_mem_chase (hstep : ∀ i a b, key a = path i → f a = some b → key b = path (i + 1))
    {n : Nat} {a b : α} {i : Nat} (ha : key a = path i) (hb : b ∈ chase f n a) :
    ∃ j < (chase f n a).length, key b = path (i + j) := by
  have hmem : key b ∈ (chase f n a).map key := List.mem_map_of_mem hb
  rw [map_key_chase hstep n ha] at hmem
  obtain ⟨j, hj, heq⟩ := List.mem_map.mp hmem
  exact ⟨j, List.mem_range.mp hj, heq.symm⟩

/-- The links taken from place `i` of a path on: as many as there are before the first place without
a link, and no more than `n`. -/
def linksAlong (linked : Nat → Bool) (n i : Nat) : Nat :=
  ((List.range n).takeWhile (fun j => linked (i + j))).length

theorem linksAlong_succ (linked : Nat → Bool) (n i : Nat) :
    linksAlong linked (n + 1) i = if linked i then linksAlong linked n (i + 1) + 1 else 0 := by
  unfold linksAlong
  rw [List.range_succ_eq_map, List.takeWhile_cons]
  by_cases h : linked i = true
  · rw [if_pos h, if_pos (by simpa using h), List.length_cons, List.takeWhile_map, List.length_map]
    refine congrArg (fun p => (List.takeWhile p (List.range n)).length + 1) (funext fun j => ?_)
    rw [Function.comp_apply, Nat.succ_eq_add_one, Nat.add_right_comm, Nat.add_assoc]
  · rw [if_neg h, if_neg (by simpa using h), List.length_nil]

theorem linksAlong_of_linked {linked : Nat → Bool} (h : ∀ i, linked i = true) (n i : Nat) :
    linksAlong linked n i = n := by
  induction n generalizing i with
  | zero => rfl
  | succ n ih => rw [linksAlong_succ, if_pos (h i), ih]

/-- The links up to the first place without one. -/
theorem linksAlong_eq {linked : Nat → Bool} {n i m : Nat} (hle : m ≤ n)
    (h : ∀ k < m, linked (i + k) = true) (hend : linked (i + m) = false) :
    linksAlong linked n i = m := by
  induction m generalizing n i with
  | zero =>
    cases n with
    | zero => rfl
    | succ n =>
      rw [linksAlong_succ, if_neg]
      rw [Nat.add_zero] at hend
      simp [hend]
  | succ m ih =>
    obtain ⟨n, rfl⟩ := Nat.exists_eq_add_one.mpr (Nat.lt_of_lt_of_le (Nat.succ_pos m) hle)
    have hfirst : linked i = true := h 0 (Nat.succ_pos m)
    have hnext : ∀ k < m, linked (i + 1 + k) = true := fun k hk => by
      rw [Nat.add_assoc, Nat.add_comm 1 k]
      exact h (k + 1) (Nat.succ_lt_succ hk)
    have hlast : linked (i + 1 + m) = false := by
      rw [Nat.add_assoc, Nat.add_comm 1 m]
      exact hend
    rw [linksAlong_succ, if_pos hfirst, ih (Nat.le_of_succ_le_succ hle) hnext hlast]

variable (hstep : ∀ i a b, key a = path i → f a = some b → key b = path (i + 1))
variable {linked : Nat → Bool} (hlinked : ∀ i a, key a = path i → (f a).isSome = linked i)

include hstep hlinked

/-- The chain along a path has as many points as links, and the one it starts at. -/
theorem length_chase (n : Nat) {a : α} {i : Nat} (ha : key a = path i) :
    (chase f n a).length = linksAlong linked n i + 1 := by
  induction n generalizing a i with
  | zero => rfl
  | succ n ih =>
    rw [linksAlong_succ, ← hlinked i a ha]
    cases h : f a with
    | none => simp [chase_succ_none f h]
    | some b => simp [chase_succ_some f h, ih (hstep i a b ha h)]

/-- Where the chain along a path ends. -/
theorem getLast?_chase (n : Nat) {a : α} {i : Nat} (ha : key a = path i) :
    ∃ b, (chase f n a).getLast? = some b ∧ key b = path (i + linksAlong linked n i) := by
  have hmap := map_key_chase hstep n ha
  rw [length_chase hstep hlinked n ha, List.range_succ] at hmap
  have hlast : ((chase f n a).getLast?).map key = some (path (i + linksAlong linked n i)) := by
    rw [← List.getLast?_map, hmap]
    simp
  obtain ⟨b, hb, hkey⟩ := Option.map_eq_some_iff.mp hlast
  exact ⟨b, hb, hkey⟩

end Path

end Chase
