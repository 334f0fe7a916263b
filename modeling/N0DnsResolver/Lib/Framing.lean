/-
  Codes whose words show where they end.

  A word of such a code can be read off the front of any list, and what is read is what was
  sent (`decode_encode`, `encode_decode`). Words sent one after the other are then read one
  after the other, whatever follows them (`decodeAll_append`).
-/
import Mathlib.Data.List.Basic

/-- A code of messages in lists, each word of which shows where it ends. -/
structure Framing (β α : Type) where
  encode : β → List α
  /-- The first message of a list and what follows it, unless the list ends before. -/
  decode : List α → Option (β × List α)
  /-- The messages that have a word. -/
  Valid : β → Prop
  decode_encode : ∀ {b}, Valid b → ∀ rest, decode (encode b ++ rest) = some (b, rest)
  encode_decode : ∀ {xs b rest}, decode xs = some (b, rest) → Valid b ∧ xs = encode b ++ rest
  encode_ne_nil : ∀ b, encode b ≠ []

namespace Framing

variable {β α : Type} (F : Framing β α)

/-- The words of messages, one after the other. -/
def encodeAll (messages : List β) : List α := messages.flatMap F.encode

theorem encodeAll_cons (b : β) (messages : List β) :
    F.encodeAll (b :: messages) = F.encode b ++ F.encodeAll messages := rfl

theorem encodeAll_concat (messages : List β) (b : β) :
    F.encodeAll (messages ++ [b]) = F.encodeAll messages ++ F.encode b := by
  unfold encodeAll
  rw [List.flatMap_append, List.flatMap_singleton]

theorem length_of_decode {xs rest : List α} {b : β} (h : F.decode xs = some (b, rest)) :
    rest.length < xs.length := by
  have hword : 0 < (F.encode b).length := List.length_pos_iff.mpr (F.encode_ne_nil b)
  rw [(F.encode_decode h).2, List.length_append]
  omega

/-- The messages of a list, and what is left where none can be read. -/
def decodeAll (xs : List α) : List β × List α :=
  match _h : F.decode xs with
  | none => ([], xs)
  | some (b, rest) => (b :: (decodeAll rest).1, (decodeAll rest).2)
termination_by xs.length
decreasing_by all_goals exact F.length_of_decode ‹_›

theorem decodeAll_of_none {xs : List α} (h : F.decode xs = none) : F.decodeAll xs = ([], xs) := by
  rw [decodeAll]
  split
  · rfl
  · next hsome =>
    rw [h] at hsome
    cases hsome

theorem decodeAll_of_some {xs rest : List α} {b : β} (h : F.decode xs = some (b, rest)) :
    F.decodeAll xs = (b :: (F.decodeAll rest).1, (F.decodeAll rest).2) := by
  rw [decodeAll]
  split
  · next hnone =>
    rw [h] at hnone
    cases hnone
  · next b' rest' hsome =>
    rw [h] at hsome
    cases hsome
    rfl

/-- Words that are followed by anything are read first. -/
theorem decodeAll_append {messages : List β} (hvalid : ∀ b ∈ messages, F.Valid b)
    (rest : List α) : F.decodeAll (F.encodeAll messages ++ rest) =
      (messages ++ (F.decodeAll rest).1, (F.decodeAll rest).2) := by
  induction messages with
  | nil => rfl
  | cons b messages ih =>
    have hb : F.Valid b := hvalid b List.mem_cons_self
    rw [encodeAll_cons, List.append_assoc, F.decodeAll_of_some (F.decode_encode hb _),
      ih fun b' hb' => hvalid b' (List.mem_cons_of_mem b hb')]
    rfl

end Framing
