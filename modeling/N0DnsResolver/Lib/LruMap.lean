/-
  Least-recently-used maps.

  `LruMap` is the interface of such a map and `LawfulLruMap` what its users rely
  on: a read does not change the contents, a write is read back, and a write may
  drop other keys but changes none. `Recency` is the list implementation, most
  recent first, with its capacity and the uniqueness of its keys as fields.
-/
import Mathlib.Algebra.GroupWithZero.Nat
import Mathlib.Data.List.Nodup

/-- The operations of a least-recently-used map. `peek` reads without touching the order. -/
class LruMap (L : Type) (κ ν : outParam Type) where
  new : L
  peek : L → κ → Option ν
  get : L → κ → Option ν × L
  put : L → κ → ν → L
  clear : L → L

/-- What holds of the contents, whatever the order of use and the capacity. -/
class LawfulLruMap (L : Type) {κ ν : outParam Type} [LruMap L κ ν] : Prop where
  peek_new : ∀ k : κ, LruMap.peek (LruMap.new : L) k = none
  get_fst : ∀ (m : L) (k : κ), (LruMap.get m k).1 = LruMap.peek m k
  peek_get : ∀ (m : L) (k k' : κ), LruMap.peek (LruMap.get m k).2 k' = LruMap.peek m k'
  peek_put_self : ∀ (m : L) (k : κ) (v : ν), LruMap.peek (LruMap.put m k v) k = some v
  peek_put_ne : ∀ (m : L) (k k' : κ) (v : ν), k' ≠ k →
    LruMap.peek (LruMap.put m k v) k' = LruMap.peek m k' ∨
      LruMap.peek (LruMap.put m k v) k' = none
  peek_clear : ∀ (m : L) (k : κ), LruMap.peek (LruMap.clear m) k = none

attribute [simp] LawfulLruMap.peek_new LawfulLruMap.get_fst LawfulLruMap.peek_get
  LawfulLruMap.peek_put_self LawfulLruMap.peek_clear

namespace LruMap

variable {L κ ν : Type} [LruMap L κ ν] [LawfulLruMap L]

/-- After a write, a key holds what was written or what it held before. -/
theorem peek_put_some {m : L} {k k' : κ} {v w : ν} (h : peek (put m k v) k' = some w) :
    (k' = k ∧ w = v) ∨ peek m k' = some w := by
  by_cases hk : k' = k
  · subst hk
    rw [LawfulLruMap.peek_put_self] at h
    exact Or.inl ⟨rfl, (Option.some.inj h).symm⟩
  · rcases LawfulLruMap.peek_put_ne m k k' v hk with hp | hp
    · exact Or.inr (hp ▸ h)
    · rw [hp] at h
      simp at h

end LruMap

/-- A recency list: the entries, most recently used first, at most `cap` of them. -/
structure Recency (κ ν : Type) (cap : Nat) where
  entries : List (κ × ν)
  nodup : (entries.map Prod.fst).Nodup
  le_cap : entries.length ≤ cap

namespace Recency

variable {κ ν : Type} [DecidableEq κ] {cap : Nat}

def lookup (l : List (κ × ν)) (k : κ) : Option ν :=
  (l.find? (fun e => e.1 = k)).map Prod.snd

def without (l : List (κ × ν)) (k : κ) : List (κ × ν) := l.filter (fun e => e.1 ≠ k)

theorem lookup_cons (e : κ × ν) (l : List (κ × ν)) (k : κ) :
    lookup (e :: l) k = if e.1 = k then some e.2 else lookup l k := by
  unfold lookup
  by_cases h : e.1 = k <;> simp [h]

theorem lookup_without_ne (l : List (κ × ν)) {k k' : κ} (h : k' ≠ k) :
    lookup (without l k) k' = lookup l k' := by
  induction l with
  | nil => rfl
  | cons e l ih =>
    unfold without at ih ⊢
    by_cases he : e.1 = k
    · rw [List.filter_cons_of_neg (by simpa using he), ih, lookup_cons,
        if_neg (fun hk => h (hk.symm.trans he))]
    · rw [List.filter_cons_of_pos (by simpa using he), lookup_cons, lookup_cons, ih]

theorem lookup_append (l l' : List (κ × ν)) (k : κ) :
    lookup (l ++ l') k = (lookup l k).or (lookup l' k) := by
  induction l with
  | nil => rfl
  | cons e l ih =>
    rw [List.cons_append, lookup_cons, lookup_cons, ih]
    split <;> rfl

/-- Cutting a list off keeps a key's entry or loses it. -/
theorem lookup_take (l : List (κ × ν)) (n : Nat) (k : κ) :
    lookup (l.take n) k = lookup l k ∨ lookup (l.take n) k = none := by
  cases h : lookup (l.take n) k with
  | none => exact Or.inr rfl
  | some v =>
    left
    rw [← List.take_append_drop n l, lookup_append, h]
    rfl

theorem notMem_without (l : List (κ × ν)) (k : κ) : k ∉ (without l k).map Prod.fst := by
  simp [without]

theorem nodup_without {l : List (κ × ν)} (h : (l.map Prod.fst).Nodup) (k : κ) :
    ((without l k).map Prod.fst).Nodup :=
  (List.filter_sublist.map Prod.fst).nodup h

theorem without_length_lt {l : List (κ × ν)} {k : κ} {v : ν} (h : lookup l k = some v) :
    (without l k).length < l.length := by
  unfold lookup at h
  obtain ⟨e, he, -⟩ := Option.map_eq_some_iff.mp h
  unfold without
  rw [List.length_filter_lt_length_iff_exists]
  exact ⟨e, List.mem_of_find?_eq_some he, by simpa using List.find?_some he⟩

/-- Moves the entry of `k` to the front. -/
def touch (m : Recency κ ν cap) (k : κ) : Option ν × Recency κ ν cap :=
  match h : lookup m.entries k with
  | none => (none, m)
  | some v =>
    (some v,
      { entries := (k, v) :: without m.entries k
        nodup := List.nodup_cons.mpr ⟨notMem_without _ _, nodup_without m.nodup k⟩
        le_cap := Nat.le_trans (without_length_lt h) m.le_cap })

/-- Writes `k` at the front, dropping the least recently used entry past the capacity. -/
def write (m : Recency κ ν cap) (k : κ) (v : ν) : Recency κ ν cap where
  entries := ((k, v) :: without m.entries k).take cap
  nodup := by
    have h : (((k, v) :: without m.entries k).map Prod.fst).Nodup :=
      List.nodup_cons.mpr ⟨notMem_without _ _, nodup_without m.nodup k⟩
    exact ((List.take_sublist _ _).map Prod.fst).nodup h
  le_cap := List.length_take_le _ _

instance : LruMap (Recency κ ν cap) κ ν where
  new := ⟨[], List.nodup_nil, Nat.zero_le _⟩
  peek m k := lookup m.entries k
  get := touch
  put := write
  clear _ := ⟨[], List.nodup_nil, Nat.zero_le _⟩

theorem touch_fst (m : Recency κ ν cap) (k : κ) : (touch m k).1 = lookup m.entries k := by
  unfold touch
  split <;> simp_all

theorem lookup_touch (m : Recency κ ν cap) (k k' : κ) :
    lookup (touch m k).2.entries k' = lookup m.entries k' := by
  unfold touch
  split
  · rfl
  · next v h =>
    by_cases hk : k' = k
    · subst hk
      simpa [lookup_cons] using h.symm
    · simp only [lookup_cons]
      rw [if_neg (fun he => hk he.symm), lookup_without_ne _ hk]

theorem lookup_write_self [NeZero cap] (m : Recency κ ν cap) (k : κ) (v : ν) :
    lookup (write m k v).entries k = some v := by
  obtain ⟨n, hn⟩ := Nat.exists_eq_succ_of_ne_zero (NeZero.ne cap)
  subst hn
  simp [write, lookup_cons]

theorem lookup_write_ne (m : Recency κ ν cap) {k k' : κ} (v : ν) (h : k' ≠ k) :
    lookup (write m k v).entries k' = lookup m.entries k' ∨
      lookup (write m k v).entries k' = none := by
  have hc : lookup ((k, v) :: without m.entries k) k' = lookup m.entries k' := by
    rw [lookup_cons, if_neg (fun he => h he.symm), lookup_without_ne _ h]
  rw [← hc]
  exact lookup_take _ _ _

instance [NeZero cap] : LawfulLruMap (Recency κ ν cap) where
  peek_new _ := rfl
  get_fst := touch_fst
  peek_get := lookup_touch
  peek_put_self := lookup_write_self
  peek_put_ne m _ _ v h := lookup_write_ne m v h
  peek_clear _ _ := rfl

end Recency
