/-
  Maps whose entries live for a time.

  A key holds what was last written under it, with when that was and for how long it
  lives. `fresh` reads it while it lives, `stale` for a window after that. A map is the
  fold of its writes, and `ofWrites_eq_some` says which write a key's entry comes from.
-/
import N0DnsResolver.Lib.Machine
import Mathlib.Logic.Function.Basic
import Mathlib.Data.List.Induction

/-- A value, the time it was written and the time it lives. -/
structure Stamped (ν : Type) where
  value : ν
  since : Nat
  ttl : Nat

/-- What each key holds. -/
def TtlMap (κ ν : Type) := κ → Option (Stamped ν)

namespace TtlMap

variable {κ ν : Type}

inductive Write (κ ν : Type) where
  | put (k : κ) (s : Stamped ν)
  | clear

/-- After this write, what the key held before is gone. -/
def Write.Hides (k : κ) : Write κ ν → Prop
  | put k' _ => k' = k
  | clear => True

def empty : TtlMap κ ν := fun _ => none

/-- What the key holds, until its time is over. -/
def fresh (m : TtlMap κ ν) (now : Nat) (k : κ) : Option ν :=
  (m k).bind fun s => if now - s.since ≤ s.ttl then some s.value else none

/-- What the key holds, in the window after its time is over. -/
def stale (m : TtlMap κ ν) (now window : Nat) (k : κ) : Option ν :=
  (m k).bind fun s =>
    if s.ttl < now - s.since ∧ now - s.since ≤ s.ttl + window then some s.value else none

theorem fresh_eq_some {m : TtlMap κ ν} {now : Nat} {k : κ} {v : ν} :
    m.fresh now k = some v ↔
      ∃ s, m k = some s ∧ s.value = v ∧ now - s.since ≤ s.ttl := by
  unfold fresh
  rw [Option.bind_eq_some_iff]
  refine exists_congr fun s => and_congr_right fun _ => ?_
  split
  · next h => simp [h]
  · next h => simp [h]

theorem stale_eq_some {m : TtlMap κ ν} {now window : Nat} {k : κ} {v : ν} :
    m.stale now window k = some v ↔
      ∃ s, m k = some s ∧ s.value = v ∧ s.ttl < now - s.since ∧
        now - s.since ≤ s.ttl + window := by
  unfold stale
  rw [Option.bind_eq_some_iff]
  refine exists_congr fun s => and_congr_right fun _ => ?_
  split
  · next h => simp [h]
  · next h =>
    constructor
    · intro hv
      cases hv
    · intro hv
      exact absurd hv.2 h

/-- A key is not read as fresh and as stale at one time. -/
theorem stale_of_fresh {m : TtlMap κ ν} {now : Nat} {k : κ} {v : ν} (h : m.fresh now k = some v)
    (window : Nat) : m.stale now window k = none := by
  obtain ⟨s, hs, -, hle⟩ := fresh_eq_some.mp h
  rw [Option.eq_none_iff_forall_ne_some]
  intro v' hstale
  obtain ⟨s', hs', -, hlt, -⟩ := stale_eq_some.mp hstale
  cases hs.symm.trans hs'
  omega

variable [DecidableEq κ]

def write (m : TtlMap κ ν) : Write κ ν → TtlMap κ ν
  | .put k s => Function.update m k (some s)
  | .clear => empty

/-- The map after these writes, oldest first. -/
def ofWrites (ws : List (Write κ ν)) : TtlMap κ ν := ws.foldl write empty

theorem ofWrites_concat (ws : List (Write κ ν)) (w : Write κ ν) :
    ofWrites (ws ++ [w]) = (ofWrites ws).write w := by
  unfold ofWrites
  rw [List.foldl_append]
  rfl

theorem write_put_self (m : TtlMap κ ν) (k : κ) (s : Stamped ν) :
    m.write (.put k s) k = some s := Function.update_self _ _ _

theorem write_of_not_hides {m : TtlMap κ ν} {w : Write κ ν} {k : κ} (h : ¬ w.Hides k) :
    m.write w k = m k := by
  cases w with
  | put k' s => exact Function.update_of_ne (fun hk => h hk.symm) _ _
  | clear => exact absurd trivial h

/-- A key holds the last write under it, if no clearing came after. -/
theorem ofWrites_eq_some {ws : List (Write κ ν)} {k : κ} {s : Stamped ν} :
    ofWrites ws k = some s ↔
      ∃ before after, ws = before ++ .put k s :: after ∧ ∀ w ∈ after, ¬ w.Hides k := by
  induction ws using List.reverseRecOn with
  | nil =>
    constructor
    · intro h
      cases h
    · rintro ⟨before, after, h, -⟩
      cases before <;> cases h
  | append_singleton ws w ih =>
    rw [ofWrites_concat]
    constructor
    · intro h
      by_cases hides : w.Hides k
      · cases w with
        | put k' s' =>
          obtain rfl : k' = k := hides
          cases (write_put_self _ k' s').symm.trans h
          exact ⟨ws, [], rfl, fun w hw => nomatch hw⟩
        | clear => cases h
      · rw [write_of_not_hides hides, ih] at h
        obtain ⟨before, after, rfl, hafter⟩ := h
        refine ⟨before, after ++ [w], by simp, fun v hv => ?_⟩
        rcases List.mem_append.mp hv with hv | hv
        · exact hafter v hv
        · rw [List.mem_singleton.mp hv]
          exact hides
    · rintro ⟨before, after, h, hafter⟩
      rcases Machine.concat_eq_append_cons.mp h with ⟨-, rfl, -⟩ | ⟨rest, rfl, hws⟩
      · exact write_put_self _ k s
      · rw [write_of_not_hides (hafter w (by simp)), ih]
        exact ⟨before, rest, hws, fun v hv => hafter v (List.mem_append_left _ hv)⟩

end TtlMap
