/-
  Sorting by comparisons.

  A sort is a tree of comparisons: it is done, or it compares two elements and goes on
  with the answer. That leaves open who answers, and when. `Sorting.run` answers all
  comparisons by one function, and `LawfulSort` says what a sort then gives for a total
  preorder: the stable order of the list, as `List.mergeSort` computes it.

  The stable order is determined by being sorted and by keeping, for each element, the
  elements tied with it as they stood (`eq_of_filter_tied`). The insertion sort below is
  lawful.
-/
import Mathlib.Data.List.Basic

variable {α : Type}

/-! ## Total preorders -/

/-- `le` compares any two elements, and is transitive. -/
structure TotalPreorder (le : α → α → Bool) : Prop where
  trans : ∀ a b c, le a b = true → le b c = true → le a c = true
  total : ∀ a b, (le a b || le b a) = true

namespace TotalPreorder

/-- The three-way comparison of a preorder. -/
def cmp (le : α → α → Bool) (a b : α) : Ordering :=
  if le b a then (if le a b then .eq else .gt) else .lt

/-- Neither element comes before the other. -/
def tied (le : α → α → Bool) (a b : α) : Bool := le a b && le b a

variable {le : α → α → Bool}

theorem cmp_eq_lt_iff {a b : α} : cmp le a b = .lt ↔ le b a = false := by
  unfold cmp
  cases le b a
  · simp
  · cases le a b <;> simp

theorem refl (h : TotalPreorder le) (a : α) : le a a = true := by
  simpa using h.total a a

theorem le_of_not_le (h : TotalPreorder le) {a b : α} (hba : le b a = false) : le a b = true := by
  have htotal := h.total a b
  rwa [hba, Bool.or_false] at htotal

theorem tied_self (h : TotalPreorder le) (a : α) : tied le a a = true := by
  simp [tied, h.refl]

/-! ## The stable order -/

theorem le_of_mem (h : TotalPreorder le) {a b : α} {l : List α} (hl : (a :: l).Pairwise (le · ·))
    (hb : b ∈ a :: l) : le a b = true := by
  rcases List.mem_cons.mp hb with rfl | hb
  · exact h.refl b
  · exact List.rel_of_pairwise_cons hl hb

/-- Lists with the same tied elements have the same elements. -/
theorem mem_iff_of_filter_tied (h : TotalPreorder le) {l l' : List α}
    (htied : ∀ a, l.filter (tied le a) = l'.filter (tied le a)) (a : α) : a ∈ l ↔ a ∈ l' := by
  have ha := h.tied_self a
  calc a ∈ l ↔ a ∈ l.filter (tied le a) := by simp [ha]
    _ ↔ a ∈ l'.filter (tied le a) := by rw [htied a]
    _ ↔ a ∈ l' := by simp [ha]

/-- Two sorted lists with the same tied elements, in the same order, are equal. -/
theorem eq_of_filter_tied (h : TotalPreorder le) {l l' : List α} (hl : l.Pairwise (le · ·))
    (hl' : l'.Pairwise (le · ·)) (htied : ∀ a, l.filter (tied le a) = l'.filter (tied le a)) :
    l = l' := by
  induction l generalizing l' with
  | nil =>
    have hmem := h.mem_iff_of_filter_tied htied
    exact (List.eq_nil_iff_forall_not_mem.mpr fun a ha => List.not_mem_nil ((hmem a).mpr ha)).symm
  | cons a l ih =>
    have hmem := h.mem_iff_of_filter_tied htied
    cases l' with
    | nil => exact absurd ((hmem a).mp (.head l)) List.not_mem_nil
    | cons b l' =>
      have hba : le b a = true := h.le_of_mem hl' ((hmem a).mp (.head l))
      have hab : le a b = true := h.le_of_mem hl ((hmem b).mpr (.head l'))
      have hhead : a = b := by
        have hfirst := htied a
        rw [List.filter_cons_of_pos (h.tied_self a),
          List.filter_cons_of_pos (by simp [tied, hab, hba])] at hfirst
        exact (List.cons.inj hfirst).1
      subst hhead
      have htail : ∀ c, l.filter (tied le c) = l'.filter (tied le c) := by
        intro c
        have hc := htied c
        by_cases htie : tied le c a = true
        · rw [List.filter_cons_of_pos htie, List.filter_cons_of_pos htie] at hc
          exact (List.cons.inj hc).2
        · rwa [List.filter_cons_of_neg htie, List.filter_cons_of_neg htie] at hc
      rw [ih hl.of_cons hl'.of_cons htail]

theorem pairwise_mergeSort (h : TotalPreorder le) (l : List α) :
    (l.mergeSort le).Pairwise (le · ·) :=
  List.pairwise_mergeSort h.trans h.total l

/-- Sorting keeps tied elements in the order they had. -/
theorem filter_tied_mergeSort (h : TotalPreorder le) (a : α) (l : List α) :
    (l.mergeSort le).filter (tied le a) = l.filter (tied le a) := by
  have hpair : (l.filter (tied le a)).Pairwise (le · ·) := by
    apply List.Pairwise.imp_of_mem (R := fun _ _ => True) _ (List.pairwise_of_forall (by simp))
    intro b c hb hc _
    have hba := (List.mem_filter.mp hb).2
    have hac := (List.mem_filter.mp hc).2
    simp only [tied, Bool.and_eq_true] at hba hac
    exact h.trans b a c hba.2 hac.1
  have hsub : (l.filter (tied le a)).Sublist (l.mergeSort le) :=
    List.sublist_mergeSort h.trans h.total hpair List.filter_sublist
  have hsub' := hsub.filter (tied le a)
  rw [List.filter_filter] at hsub'
  simp only [Bool.and_self] at hsub'
  apply Eq.symm
  apply hsub'.eq_of_length
  exact (((List.mergeSort_perm l le).filter (tied le a)).length_eq).symm

/-- A list with one more element at its end: the element goes behind those not above it. -/
theorem mergeSort_concat (h : TotalPreorder le) {l before after : List α} {a : α}
    (hl : l.mergeSort le = before ++ after) (hbefore : ∀ b ∈ before, le b a = true)
    (hafter : ∀ b ∈ after, le b a = false) :
    (l ++ [a]).mergeSort le = before ++ a :: after := by
  have hsorted := h.pairwise_mergeSort l
  rw [hl, List.pairwise_append] at hsorted
  obtain ⟨hp, hq, hpq⟩ := hsorted
  apply h.eq_of_filter_tied (h.pairwise_mergeSort _)
  · refine List.pairwise_append.mpr ⟨hp, List.pairwise_cons.mpr ⟨?_, hq⟩, ?_⟩
    · intro b hb
      exact h.le_of_not_le (hafter b hb)
    · intro b hb c hc
      rcases List.mem_cons.mp hc with rfl | hc
      · exact hbefore b hb
      · exact hpq b hb c hc
  · intro c
    have hkept := h.filter_tied_mergeSort c l
    rw [hl, List.filter_append] at hkept
    rw [h.filter_tied_mergeSort, List.filter_append, ← hkept, List.filter_append]
    by_cases hc : tied le c a = true
    · have hnone : after.filter (tied le c) = [] := by
        apply List.filter_eq_nil_iff.mpr
        intro b hb htie
        simp only [tied, Bool.and_eq_true] at hc htie
        have hba := h.trans b c a htie.2 hc.1
        rw [hafter b hb] at hba
        cases hba
      rw [List.filter_cons_of_pos hc, List.filter_cons_of_pos hc, hnone, List.append_nil,
        List.filter_nil]
    · rw [List.filter_cons_of_neg hc, List.filter_cons_of_neg hc, List.filter_nil,
        List.append_nil]

end TotalPreorder

/-! ## Trees of comparisons -/

/-- A sort under way. A sort may also give up, when the answers contradict each other. -/
inductive Sorting (α : Type) where
  | done (order : Option (List α))
  | compare (a b : α) (next : Ordering → Sorting α)

namespace Sorting

/-- The outcome when every comparison is answered by `cmp`. -/
def run (cmp : α → α → Ordering) : Sorting α → Option (List α)
  | .done order => order
  | .compare a b next => (next (cmp a b)).run cmp

/-- Whatever the answers are, the sort compares elements of which `P` holds. -/
def Asks (P : α → Prop) : Sorting α → Prop
  | .done _ => True
  | .compare a b next => P a ∧ P b ∧ ∀ answer, (next answer).Asks P

end Sorting

/-- A sort that compares elements of the list and, when the answers are those of a total preorder,
gives the stable order of the list. -/
structure LawfulSort (sort : List α → Sorting α) : Prop where
  asks : ∀ l, (sort l).Asks (· ∈ l)
  sorts : ∀ le, TotalPreorder le → ∀ l,
    (sort l).run (TotalPreorder.cmp le) = some (l.mergeSort le)

/-! ## Insertion sort -/

/-- Moves `a` in front of the elements above it, from the end of the sorted ones; `before` are those
not yet compared, the last first, and `after` those found to be above. -/
def insertTail (a : α) (next : List α → Sorting α) : List α → List α → Sorting α
  | [], after => next (a :: after)
  | b :: before, after =>
    .compare a b fun answer =>
      if answer = .lt then insertTail a next before (b :: after)
      else next ((b :: before).reverse ++ a :: after)

/-- Inserts the elements of a list one after the other into a sorted one. -/
def insertAll (sorted : List α) : List α → Sorting α
  | [] => .done (some sorted)
  | a :: rest => insertTail a (fun sorted => insertAll sorted rest) sorted.reverse []

def insertionSort (l : List α) : Sorting α := insertAll [] l

namespace InsertionSort

theorem asks_insertTail {P : α → Prop} {a : α} (ha : P a) {next : List α → Sorting α}
    (hnext : ∀ l, (∀ b ∈ l, P b) → (next l).Asks P) {before after : List α}
    (hbefore : ∀ b ∈ before, P b) (hafter : ∀ b ∈ after, P b) :
    (insertTail a next before after).Asks P := by
  induction before generalizing after with
  | nil =>
    apply hnext
    simpa [ha] using hafter
  | cons b before ih =>
    have hb := hbefore b (.head before)
    have hrest : ∀ c ∈ before, P c := fun c hc => hbefore c (.tail b hc)
    refine ⟨ha, hb, fun answer => ?_⟩
    change (if answer = .lt then _ else _ : Sorting α).Asks P
    split
    · apply ih hrest
      simpa [hb] using hafter
    · apply hnext
      intro c hc
      rcases List.mem_append.mp hc with hc | hc
      · exact hbefore c (List.mem_reverse.mp hc)
      · rcases List.mem_cons.mp hc with rfl | hc
        · exact ha
        · exact hafter c hc

theorem asks_insertAll {P : α → Prop} {sorted rest : List α} (hsorted : ∀ b ∈ sorted, P b)
    (hrest : ∀ b ∈ rest, P b) : (insertAll sorted rest).Asks P := by
  induction rest generalizing sorted with
  | nil => trivial
  | cons a rest ih =>
    apply asks_insertTail (hrest a (.head rest))
    · intro l hl
      exact ih hl fun b hb => hrest b (.tail a hb)
    · intro b hb
      exact hsorted b (List.mem_reverse.mp hb)
    · simp

theorem run_insertTail_cons (cmp : α → α → Ordering) (a b : α) (next : List α → Sorting α)
    (before after : List α) :
    (insertTail a next (b :: before) after).run cmp =
      if cmp a b = .lt then (insertTail a next before (b :: after)).run cmp
      else (next ((b :: before).reverse ++ a :: after)).run cmp := by
  by_cases h : cmp a b = .lt
  · simp [insertTail, Sorting.run, h]
  · simp [insertTail, Sorting.run, h]

variable {le : α → α → Bool}

/-- The insertion goes on with the stable order of one element more. -/
theorem run_insertTail (h : TotalPreorder le) {l : List α} {a : α} (next : List α → Sorting α)
    {before after : List α} (hl : l.mergeSort le = before.reverse ++ after)
    (hafter : ∀ b ∈ after, le b a = false) :
    (insertTail a next before after).run (TotalPreorder.cmp le) =
      (next ((l ++ [a]).mergeSort le)).run (TotalPreorder.cmp le) := by
  induction before generalizing after with
  | nil =>
    rw [h.mergeSort_concat hl (by simp) hafter]
    rfl
  | cons b before ih =>
    rw [run_insertTail_cons]
    by_cases hb : le b a = true
    · have hlt : TotalPreorder.cmp le a b ≠ .lt := by simp [TotalPreorder.cmp_eq_lt_iff, hb]
      have hbefore : ∀ c ∈ (b :: before).reverse, le c a = true := by
        have hsorted := h.pairwise_mergeSort l
        rw [hl, List.pairwise_append, List.reverse_cons, List.pairwise_append] at hsorted
        intro c hc
        rcases List.mem_cons.mp (List.mem_reverse.mp hc) with rfl | hc
        · exact hb
        · have hcb := hsorted.1.2.2 c (List.mem_reverse.mpr hc) b (.head [])
          exact h.trans c b a hcb hb
      rw [if_neg hlt, h.mergeSort_concat hl hbefore hafter]
    · have hlt : TotalPreorder.cmp le a b = .lt :=
        TotalPreorder.cmp_eq_lt_iff.mpr (by simpa using hb)
      rw [if_pos hlt]
      apply ih
      · rw [hl, List.reverse_cons, List.append_assoc]
        rfl
      · simpa [hb] using hafter

theorem run_insertAll (h : TotalPreorder le) (l rest : List α) :
    (insertAll (l.mergeSort le) rest).run (TotalPreorder.cmp le) =
      some ((l ++ rest).mergeSort le) := by
  induction rest generalizing l with
  | nil =>
    rw [List.append_nil]
    rfl
  | cons a rest ih =>
    unfold insertAll
    rw [run_insertTail h (l := l) _ (by rw [List.reverse_reverse, List.append_nil]) (by simp), ih,
      List.append_assoc]
    rfl

end InsertionSort

theorem lawfulSort_insertionSort : LawfulSort (insertionSort (α := α)) where
  asks l := InsertionSort.asks_insertAll (by simp) fun _ hb => hb
  sorts le h l := by
    have hrun := InsertionSort.run_insertAll h [] l
    rwa [List.mergeSort_nil] at hrun
