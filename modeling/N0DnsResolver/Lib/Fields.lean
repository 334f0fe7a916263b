/-
  The fields of a list: its nonempty pieces between separators.

  Separators at either end, and runs of them, make no field, so a list may be trimmed
  before it is split.
-/
import Mathlib.Data.List.DropRight

variable {α : Type}

/-- The nonempty pieces between the elements that `sep` holds of. -/
def fields (sep : α → Bool) (l : List α) : List (List α) :=
  (l.splitOnP sep).filter fun piece => !piece.isEmpty

/-- `l` without the separators at its ends. -/
def trimEnds (sep : α → Bool) (l : List α) : List α := (l.dropWhile sep).rdropWhile sep

namespace Fields

variable {sep : α → Bool}

theorem fields_cons {a : α} (h : sep a = true) (l : List α) :
    fields sep (a :: l) = fields sep l := by
  unfold fields
  rw [List.splitOnP_cons_eq_if_modifyHead, if_pos h]
  rfl

/-- Each separator at the end makes one more piece, an empty one. -/
theorem splitOnP_append {post : List α} (h : ∀ a ∈ post, sep a = true) (l : List α) :
    (l ++ post).splitOnP sep = l.splitOnP sep ++ List.replicate post.length [] := by
  induction l with
  | nil =>
    induction post with
    | nil => rfl
    | cons a post ih =>
      have hpost := ih fun b hb => h b (.tail a hb)
      rw [List.nil_append] at hpost ⊢
      rw [List.splitOnP_cons_eq_if_modifyHead, if_pos (h a (.head post)), hpost,
        List.length_cons, List.replicate_succ]
      rfl
  | cons a l ih =>
    rw [List.cons_append, List.splitOnP_cons_eq_if_modifyHead,
      List.splitOnP_cons_eq_if_modifyHead, ih]
    by_cases ha : sep a = true
    · rw [if_pos ha, if_pos ha]
      rfl
    · rw [if_neg ha, if_neg ha]
      obtain ⟨piece, pieces, hl⟩ := List.exists_cons_of_ne_nil (List.splitOnP_ne_nil sep l)
      rw [hl]
      rfl

theorem fields_append {post : List α} (h : ∀ a ∈ post, sep a = true) (l : List α) :
    fields sep (l ++ post) = fields sep l := by
  unfold fields
  rw [splitOnP_append h, List.filter_append]
  have hempty : (List.replicate post.length ([] : List α)).filter (fun piece => !piece.isEmpty) =
      [] := by
    apply List.filter_eq_nil_iff.mpr
    intro piece hpiece
    rw [List.eq_of_mem_replicate hpiece]
    simp
  rw [hempty, List.append_nil]

/-- A separator ends one field and starts the next. -/
theorem fields_append_cons {a : α} (h : sep a = true) (l l' : List α) :
    fields sep (l ++ a :: l') = fields sep l ++ fields sep l' := by
  unfold fields
  rw [List.splitOnP_append_cons l l' h, List.filter_append]

theorem fields_dropWhile (l : List α) : fields sep (l.dropWhile sep) = fields sep l := by
  induction l with
  | nil => rfl
  | cons a l ih =>
    by_cases h : sep a = true
    · rw [List.dropWhile_cons_of_pos h, fields_cons h, ih]
    · rw [List.dropWhile_cons_of_neg h]

/-- Trimming keeps the fields. -/
theorem fields_trimEnds (l : List α) : fields sep (trimEnds sep l) = fields sep l := by
  unfold trimEnds
  rw [← fields_dropWhile l]
  set rest := l.dropWhile sep
  have hsplit : rest.rdropWhile sep ++ rest.rtakeWhile sep = rest :=
    List.rdropWhile_append_rtakeWhile
  conv_rhs => rw [← hsplit]
  exact (fields_append (fun a ha => List.mem_rtakeWhile_imp ha) _).symm

/-- What starts with no separator keeps its head. -/
theorem head?_trimEnds {a : α} (h : sep a = false) (l : List α) :
    (trimEnds sep (a :: l)).head? = some a := by
  unfold trimEnds
  rw [List.dropWhile_cons_of_neg (by simp [h])]
  have hpre := List.rdropWhile_prefix sep (a :: l)
  cases hl : (a :: l).rdropWhile sep with
  | nil =>
    have hall := List.rdropWhile_eq_nil_iff.mp hl a (.head l)
    rw [h] at hall
    cases hall
  | cons b rest =>
    rw [hl] at hpre
    rw [(List.cons_prefix_cons.mp hpre).1]
    rfl

/-- A nonempty list with no separator is its only field. -/
theorem fields_eq_singleton {l : List α} (hne : l ≠ []) (h : ∀ a ∈ l, sep a = false) :
    fields sep l = [l] := by
  unfold fields
  rw [List.splitOnP_eq_singleton h]
  exact List.filter_cons_of_pos (by simpa using hne)

/-- A field is not empty, and has no separator. -/
theorem of_mem_fields {l piece : List α} (h : piece ∈ fields sep l) :
    piece ≠ [] ∧ ∀ a ∈ piece, sep a = false := by
  obtain ⟨hmem, hne⟩ := List.mem_filter.mp h
  refine ⟨by simpa using hne, ?_⟩
  clear h hne
  induction l generalizing piece with
  | nil =>
    obtain rfl := List.mem_singleton.mp hmem
    simp
  | cons b l ih =>
    rw [List.splitOnP_cons_eq_if_modifyHead] at hmem
    by_cases hb : sep b = true
    · rw [if_pos hb] at hmem
      rcases List.mem_cons.mp hmem with rfl | hmem
      · simp
      · exact ih hmem
    · rw [if_neg hb] at hmem
      obtain ⟨first, rest, hl⟩ := List.exists_cons_of_ne_nil (List.splitOnP_ne_nil sep l)
      rw [hl] at hmem ih
      rcases List.mem_cons.mp hmem with rfl | hmem
      · intro a ha
        rcases List.mem_cons.mp ha with rfl | ha
        · simpa using hb
        · exact ih (.head rest) a ha
      · exact ih (.tail first hmem)

end Fields
