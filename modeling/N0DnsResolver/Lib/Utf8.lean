/-
  Text as bytes, and text in pieces.

  `encode` is UTF-8, `decodeLossy` reads bytes back with U+FFFD where they are none.
  `flatten_splitOn` says what is left of a list that is split at a separator.
-/
import Mathlib.Data.List.Basic

namespace Utf8

/-- The UTF-8 bytes of a text. -/
def encode (s : List Char) : List UInt8 := s.flatMap String.utf8EncodeChar

@[simp] theorem encode_nil : encode [] = [] := rfl

theorem encode_cons (c : Char) (s : List Char) :
    encode (c :: s) = String.utf8EncodeChar c ++ encode s := List.flatMap_cons

theorem encode_append (s t : List Char) : encode (s ++ t) = encode s ++ encode t :=
  List.flatMap_append

theorem encode_flatten (ss : List (List Char)) : encode ss.flatten = (ss.map encode).flatten := by
  induction ss with
  | nil => rfl
  | cons s ss ih => rw [List.flatten_cons, encode_append, ih, List.map_cons, List.flatten_cons]

theorem length_encodeChar_pos (c : Char) : 0 < (String.utf8EncodeChar c).length :=
  List.length_pos_of_ne_nil String.utf8EncodeChar_ne_nil

theorem encode_eq_nil {s : List Char} : encode s = [] ↔ s = [] := by
  cases s with
  | nil => simp
  | cons c s => simp [encode_cons]

theorem encode_injective {s t : List Char} (h : encode s = encode t) : s = t := by
  have hbytes : s.utf8Encode = t.utf8Encode := congrArg List.toByteArray h
  have hdecode := List.utf8Decode?_utf8Encode (l := s)
  rw [hbytes, List.utf8Decode?_utf8Encode] at hdecode
  exact (List.toArray_inj (Option.some.inj hdecode)).symm

/-- A character is one byte below 128, or bytes from 128 on. -/
theorem encodeChar_cases (c : Char) :
    (∃ b, String.utf8EncodeChar c = [b] ∧ b < 128 ∧ c = Char.ofNat b.toNat) ∨
      ∀ b ∈ String.utf8EncodeChar c, 128 ≤ b := by
  have high : ∀ n k : Nat, 128 ≤ k → n + k < 256 → 128 ≤ UInt8.ofNat (n + k) := by
    intro n k hk hn
    rw [UInt8.le_iff_toNat_le, UInt8.toNat_ofNat_of_lt' hn]
    show 128 ≤ n + k
    omega
  unfold String.utf8EncodeChar
  simp only
  split
  · next h =>
    have hc : (UInt8.ofNat c.val.toNat).toNat = c.toNat :=
      UInt8.toNat_ofNat_of_lt' (Nat.lt_of_le_of_lt h (by decide))
    refine .inl ⟨_, rfl, ?_, ?_⟩
    · rw [UInt8.lt_iff_toNat_lt, hc]
      exact Nat.lt_succ_of_le h
    · rw [hc, Char.ofNat_toNat]
  · right
    split
    · simp only [List.mem_cons, List.not_mem_nil, or_false, forall_eq_or_imp, forall_eq]
      exact ⟨high _ _ (by decide) (by omega), high _ _ (by decide) (by omega)⟩
    · split
      · simp only [List.mem_cons, List.not_mem_nil, or_false, forall_eq_or_imp, forall_eq]
        exact ⟨high _ _ (by decide) (by omega), high _ _ (by decide) (by omega),
          high _ _ (by decide) (by omega)⟩
      · simp only [List.mem_cons, List.not_mem_nil, or_false, forall_eq_or_imp, forall_eq]
        exact ⟨high _ _ (by decide) (by omega), high _ _ (by decide) (by omega),
          high _ _ (by decide) (by omega), high _ _ (by decide) (by omega)⟩

/-- Decodes at most `n` characters; a byte that starts none reads as U+FFFD. -/
def decodeUpTo : Nat → List UInt8 → List Char
  | 0, _ => []
  | _, [] => []
  | n + 1, b :: bs =>
    match (b :: bs).toByteArray.utf8DecodeChar? 0 with
    | some c => c :: decodeUpTo n (bs.drop (c.utf8Size - 1))
    | none => '\uFFFD' :: decodeUpTo n bs

/-- The text of some bytes. -/
def decodeLossy (bs : List UInt8) : List Char := decodeUpTo bs.length bs

theorem decodeUpTo_encode (s : List Char) (n : Nat) (h : (encode s).length ≤ n) :
    decodeUpTo n (encode s) = s := by
  induction s generalizing n with
  | nil => cases n <;> rfl
  | cons c s ih =>
    have hsplit : encode (c :: s) = String.utf8EncodeChar c ++ encode s := encode_cons c s
    have hlen : (encode (c :: s)).length = c.utf8Size + (encode s).length := by
      rw [hsplit, List.length_append, String.length_utf8EncodeChar]
    have hpos : 0 < c.utf8Size := Char.utf8Size_pos c
    obtain ⟨b, bs, hb⟩ := List.exists_cons_of_ne_nil
      (List.ne_nil_of_length_pos (by omega : 0 < (encode (c :: s)).length))
    obtain ⟨m, rfl⟩ : ∃ m, n = m + 1 := ⟨n - 1, by omega⟩
    have hdecode : (b :: bs).toByteArray.utf8DecodeChar? 0 = some c := by
      rw [← hb, hsplit, List.toByteArray_append]
      exact ByteArray.utf8DecodeChar?_utf8EncodeChar_append
    have hrest : bs.drop (c.utf8Size - 1) = encode s := by
      have hdrop : (b :: bs).drop c.utf8Size = encode s := by
        rw [← hb, hsplit, ← String.length_utf8EncodeChar c, List.drop_left]
      rw [← hdrop]
      obtain ⟨k, hk⟩ : ∃ k, c.utf8Size = k + 1 := ⟨c.utf8Size - 1, by omega⟩
      rw [hk]
      rfl
    rw [hb]
    unfold decodeUpTo
    simp only [hdecode, hrest]
    rw [ih m (by omega)]

/-- UTF-8 reads back. -/
theorem decodeLossy_encode (s : List Char) : decodeLossy (encode s) = s :=
  decodeUpTo_encode s _ (Nat.le_refl _)

/-! ## Pieces -/

section Pieces

variable {α : Type}

theorem flatten_filter_ne_nil (ps : List (List α)) : (ps.filter (· ≠ [])).flatten = ps.flatten := by
  induction ps with
  | nil => rfl
  | cons p ps ih => by_cases h : p = [] <;> simp_all

variable [DecidableEq α]

/-- The pieces of a list are the list without the separators. -/
theorem flatten_splitOn (x : α) (s : List α) : (s.splitOn x).flatten = s.filter (· ≠ x) := by
  induction s with
  | nil => rfl
  | cons a s ih =>
    rw [List.splitOn_cons_eq_if_modifyHead]
    obtain ⟨p, ps, hp⟩ := List.exists_cons_of_ne_nil (List.splitOn_ne_nil x s)
    by_cases h : a = x
    · simp [h, ih]
    · rw [hp] at ih ⊢
      simpa [h] using ih

/-- Pieces joined by a separator, without the separators. -/
theorem filter_intercalate (x : α) (ps : List (List α)) :
    ([x].intercalate ps).filter (· ≠ x) = ps.flatten.filter (· ≠ x) := by
  induction ps with
  | nil => rfl
  | cons p ps ih =>
    cases ps with
    | nil => simp
    | cons q ps =>
      rw [List.intercalate_cons_cons, List.filter_append, List.filter_append, ih]
      simp

end Pieces

end Utf8
