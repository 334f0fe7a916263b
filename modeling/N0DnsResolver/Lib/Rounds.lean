/-
  Merging lists in rounds.

  A round takes the next element of every list that has one left; the merge is one
  round after the other, up to the first that takes nothing. `merge_fair` says where
  each entry of the lists ends up.
-/
import Mathlib.Data.List.NodupEquivFin
import Mathlib.Data.List.OfFn
import Mathlib.Data.List.Perm.Basic
import Mathlib.Logic.Equiv.Fin.Basic

namespace Rounds

variable {α β : Type}

/-- The next element of every list that has one. -/
def round (lists : List (List α)) : List α := lists.filterMap List.head?

/-- What a round leaves. -/
def tails (lists : List (List α)) : List (List α) := lists.map List.tail

/-- A round takes the heads and leaves the tails. -/
theorem flatten_perm (lists : List (List α)) :
    lists.flatten.Perm (round lists ++ (tails lists).flatten) := by
  induction lists with
  | nil => exact List.Perm.refl _
  | cons l lists ih =>
    cases l with
    | nil => exact ih
    | cons a l =>
      have hrest : (l ++ lists.flatten).Perm
          (l ++ (round lists ++ (tails lists).flatten)) := ih.append_left l
      have hswap : (l ++ (round lists ++ (tails lists).flatten)).Perm
          (round lists ++ (l ++ (tails lists).flatten)) := by
        rw [← List.append_assoc, ← List.append_assoc]
        exact List.perm_append_comm.append_right _
      exact (hrest.trans hswap).cons a

theorem length_tails_lt {lists : List (List α)} (h : round lists ≠ []) :
    (tails lists).flatten.length < lists.flatten.length := by
  have hlen := (flatten_perm lists).length_eq
  rw [List.length_append] at hlen
  have hpos := List.length_pos_of_ne_nil h
  omega

/-- One round after the other, up to the first that takes nothing. -/
def merge (lists : List (List α)) : List α :=
  if round lists = [] then [] else round lists ++ merge (tails lists)
termination_by lists.flatten.length
decreasing_by exact length_tails_lt ‹_›

theorem merge_of_empty {lists : List (List α)} (h : round lists = []) : merge lists = [] := by
  rw [merge, if_pos h]

theorem merge_of_round {lists : List (List α)} (h : round lists ≠ []) :
    merge lists = round lists ++ merge (tails lists) := by
  rw [merge, if_neg h]

/-- A round takes nothing only when no list has anything left. -/
theorem flatten_eq_nil {lists : List (List α)} (h : round lists = []) : lists.flatten = [] := by
  rw [List.flatten_eq_nil_iff]
  intro l hl
  exact List.head?_eq_none_iff.mp (List.filterMap_eq_nil_iff.mp h l hl)

/-- Nothing is lost and nothing duplicated. -/
theorem merge_perm (lists : List (List α)) : (merge lists).Perm lists.flatten := by
  induction lists using merge.induct with
  | case1 lists h => rw [merge_of_empty h, flatten_eq_nil h]
  | case2 lists h ih =>
    rw [merge_of_round h]
    exact (ih.append_left _).trans (flatten_perm lists).symm

theorem round_map (f : α → β) (lists : List (List α)) :
    round (lists.map (List.map f)) = (round lists).map f := by
  unfold round
  rw [List.filterMap_map, List.map_filterMap]
  refine List.filterMap_congr fun l _ => ?_
  exact List.head?_map

theorem merge_map (f : α → β) (lists : List (List α)) :
    merge (lists.map (List.map f)) = (merge lists).map f := by
  induction lists using merge.induct with
  | case1 lists h =>
    rw [merge_of_empty h, merge_of_empty (by rw [round_map, h]; rfl)]
    rfl
  | case2 lists h ih =>
    have htails : tails (lists.map (List.map f)) = (tails lists).map (List.map f) := by
      unfold tails
      rw [List.map_map, List.map_map]
      exact List.map_congr_left fun l _ => List.map_tail.symm
    have hne : round (lists.map (List.map f)) ≠ [] := by
      rw [round_map]
      exact fun hnil => h (List.map_eq_nil_iff.mp hnil)
    rw [merge_of_round h, merge_of_round hne, List.map_append, htails, ih, round_map]

/-! ## The order of a merge -/

section Order

variable (row col : α → Nat)

/-- By column first, then by row. -/
def Before (a b : α) : Prop := col a < col b ∨ col a = col b ∧ row a < row b

/-- Each list holds one element of every column from `k` on, and the rows of the lists go up. -/
structure Grid (k : Nat) (lists : List (List α)) : Prop where
  cols : ∀ l ∈ lists, l.map col = List.range' k l.length
  rows : lists.Pairwise fun l l' => ∀ a ∈ l, ∀ b ∈ l', row a < row b

variable {row col}

theorem Grid.tails {k : Nat} {lists : List (List α)} (h : Grid row col k lists) :
    Grid row col (k + 1) (tails lists) := by
  refine ⟨?_, ?_⟩
  · intro l hl
    obtain ⟨l', hl', rfl⟩ := List.mem_map.mp hl
    have hcols := h.cols l' hl'
    cases l' with
    | nil => rfl
    | cons a l' =>
      rw [List.map_cons, List.length_cons, List.range'_succ] at hcols
      exact (List.cons.inj hcols).2
  · refine List.pairwise_map.mpr (h.rows.imp fun hrows a ha b hb => ?_)
    exact hrows a (List.mem_of_mem_tail ha) b (List.mem_of_mem_tail hb)

theorem Grid.le_col {k : Nat} {lists : List (List α)} (h : Grid row col k lists) {a : α}
    (ha : a ∈ merge lists) : k ≤ col a := by
  obtain ⟨l, hl, hal⟩ := List.mem_flatten.mp ((merge_perm lists).mem_iff.mp ha)
  have hcol : col a ∈ List.range' k l.length := by
    rw [← h.cols l hl]
    exact List.mem_map_of_mem hal
  exact (List.mem_range'_1.mp hcol).1

theorem Grid.col_of_round {k : Nat} {lists : List (List α)} (h : Grid row col k lists) {a : α}
    (ha : a ∈ round lists) : col a = k := by
  obtain ⟨l, hl, hhead⟩ := List.mem_filterMap.mp ha
  obtain ⟨rest, rfl⟩ := List.head?_eq_some_iff.mp hhead
  have hcols := h.cols _ hl
  rw [List.map_cons, List.length_cons, List.range'_succ] at hcols
  exact (List.cons.inj hcols).1

theorem Grid.round_pairwise {k : Nat} {lists : List (List α)} (h : Grid row col k lists) :
    (round lists).Pairwise (Before row col) := by
  have hrows : (round lists).Pairwise fun a b => row a < row b := by
    refine List.Pairwise.filterMap _ ?_ h.rows
    intro l l' hl a ha b hb
    exact hl a (List.mem_of_mem_head? ha) b (List.mem_of_mem_head? hb)
  refine hrows.imp_of_mem fun ha hb hrow => .inr ⟨?_, hrow⟩
  rw [h.col_of_round ha, h.col_of_round hb]

/-- The merge of a grid goes through it column by column. -/
theorem Grid.merge_pairwise {k : Nat} {lists : List (List α)} (h : Grid row col k lists) :
    (merge lists).Pairwise (Before row col) := by
  induction lists using merge.induct generalizing k with
  | case1 lists hnil =>
    rw [merge_of_empty hnil]
    exact List.Pairwise.nil
  | case2 lists hne ih =>
    rw [merge_of_round hne, List.pairwise_append]
    refine ⟨h.round_pairwise, ih h.tails, fun a ha b hb => .inl ?_⟩
    have hb' := h.tails.le_col hb
    rw [h.col_of_round ha]
    omega

end Order

/-! ## The entries of a list of lists -/

/-- An entry: the number of its list and its place in it. -/
abbrev Entry (lists : List (List α)) : Type := (i : Fin lists.length) × Fin lists[i].length

namespace Entry

variable {lists : List (List α)}

/-- The list an entry is in. -/
def list (e : Entry lists) : Nat := e.1

/-- The place of an entry in its list. -/
def index (e : Entry lists) : Nat := e.2

def value (e : Entry lists) : α := lists[e.1][e.2]

end Entry

/-- The merge holds every entry in one place, in the order of their places in their lists, and in
the order of their lists among those. -/
def FairMerge (lists : List (List α)) (merged : List α) : Prop :=
  ∃ place : Entry lists ≃ Fin merged.length,
    (∀ e, merged[place e] = e.value) ∧
      ∀ e e', place e < place e' ↔
        e.index < e'.index ∨ e.index = e'.index ∧ e.list < e'.list

/-- The entries themselves, list by list. -/
def entries (lists : List (List α)) : List (List (Entry lists)) :=
  List.ofFn fun i => List.ofFn fun j => ⟨i, j⟩

theorem map_value_entries (lists : List (List α)) :
    (entries lists).map (List.map Entry.value) = lists := by
  unfold entries
  rw [List.map_ofFn]
  calc List.ofFn (List.map Entry.value ∘ fun i => List.ofFn fun j => (⟨i, j⟩ : Entry lists))
      = List.ofFn fun i : Fin lists.length => lists[i] := by
        refine congrArg List.ofFn (funext fun i => ?_)
        rw [Function.comp_apply, List.map_ofFn]
        exact List.ofFn_getElem
    _ = lists := List.ofFn_getElem

theorem mem_entries (lists : List (List α)) (e : Entry lists) : e ∈ (entries lists).flatten := by
  unfold entries
  rw [List.mem_flatten]
  exact ⟨_, List.mem_ofFn.mpr ⟨e.1, rfl⟩, List.mem_ofFn.mpr ⟨e.2, rfl⟩⟩

theorem entries_grid (lists : List (List α)) :
    Grid (fun e : Entry lists => e.list) (fun e => e.index) 0 (entries lists) := by
  refine ⟨?_, ?_⟩
  · intro l hl
    obtain ⟨i, rfl⟩ := List.mem_ofFn.mp hl
    rw [List.map_ofFn, List.length_ofFn]
    refine List.ext_getElem (by simp) fun j hj _ => ?_
    simp [Entry.index]
  · unfold entries
    rw [List.pairwise_ofFn]
    intro i j hij a ha b hb
    obtain ⟨_, rfl⟩ := List.mem_ofFn.mp ha
    obtain ⟨_, rfl⟩ := List.mem_ofFn.mp hb
    exact hij

/-- A strict order of a list places its elements: each has one place, and the places are in that
order. -/
theorem exists_place {R : α → α → Prop} [DecidableEq α] {order : List α} (hall : ∀ a, a ∈ order)
    (hord : order.Pairwise R) (hasymm : ∀ a b, R a b → ¬ R b a) (hirrefl : ∀ a, ¬ R a a) :
    ∃ place : α ≃ Fin order.length, (∀ a, order[place a] = a) ∧
      ∀ a b, place a < place b ↔ R a b := by
  have hnodup : order.Nodup := by
    refine hord.imp fun {a b} hab heq => ?_
    subst heq
    exact hirrefl a hab
  have hget : ∀ i j : Fin order.length, i < j → R order[i] order[j] := fun i j hij =>
    List.pairwise_iff_getElem.mp hord i j i.2 j.2 hij
  let place := (hnodup.getEquivOfForallMemList order hall).symm
  have hplace : ∀ a, order[place a] = a := fun a =>
    (hnodup.getEquivOfForallMemList order hall).apply_symm_apply a
  refine ⟨place, hplace, fun a b => ⟨fun h => ?_, fun h => ?_⟩⟩
  · have hab := hget _ _ h
    rwa [hplace, hplace] at hab
  · rcases lt_trichotomy (place a) (place b) with hlt | heq | hgt
    · exact hlt
    · rw [place.injective heq] at h
      exact absurd h (hirrefl b)
    · have hba := hget _ _ hgt
      rw [hplace, hplace] at hba
      exact absurd hba (hasymm a b h)

/-- Merging in rounds is fair. -/
theorem merge_fair (lists : List (List α)) : FairMerge lists (merge lists) := by
  have hmerge : merge lists = (merge (entries lists)).map Entry.value := by
    rw [← merge_map, map_value_entries]
  have hall : ∀ e, e ∈ merge (entries lists) := fun e =>
    (merge_perm _).mem_iff.mpr (mem_entries lists e)
  obtain ⟨place, hget, hord⟩ := exists_place hall (entries_grid lists).merge_pairwise
    (by unfold Before; omega) (by unfold Before; omega)
  rw [hmerge]
  refine ⟨place.trans (finCongr (by simp)), fun e => ?_, hord⟩
  show ((merge (entries lists)).map Entry.value)[(place e : Nat)] = e.value
  rw [List.getElem_map]
  exact congrArg Entry.value (hget e)

end Rounds
