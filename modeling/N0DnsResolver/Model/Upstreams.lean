/-
  Lists of nameservers: their merge (`interleave_nameservers`, `builder.rs`), and the
  HTTPS client all DNS-over-HTTPS servers of a list share (`get_or_init_https_client` of
  `resolver.rs`, `build_https_client` and `https_query` of `transport.rs`).

  `reqwest` is not part of the repository. `Reqwest` is what is used of it here, and
  `Reqwest.KeepsOverrides` what its documentation says of that. Whether a client is built,
  and what a request to it gives, is with `queryNameserver`.
-/
import N0DnsResolver.Lib.Rounds
import N0DnsResolver.Model.Config

namespace N0DnsResolver

/-! ## The merge -/

/-- `Fuse::next` of an iterator over a list: what it gives and what it leaves. A list that has run
dry stays dry. -/
def fusedNext : List Nameserver → Option Nameserver × List Nameserver
  | [] => (none, [])
  | ns :: rest => (some ns, rest)

/-- One call of the closure of `interleave_nameservers`: the round it collects, and the lists as it
leaves them. -/
def interleaveRound (lists : List (List Nameserver)) :
    List Nameserver × List (List Nameserver) :=
  (lists.filterMap fun l => (fusedNext l).1, lists.map fun l => (fusedNext l).2)

theorem interleaveRound_eq (lists : List (List Nameserver)) :
    interleaveRound lists = (Rounds.round lists, Rounds.tails lists) := by
  have hnext : ∀ l, fusedNext l = (l.head?, l.tail) := by
    intro l
    cases l <;> rfl
  unfold interleaveRound
  simp only [hnext]
  rfl

theorem interleaveRound_shrinks {lists : List (List Nameserver)}
    (h : (interleaveRound lists).1 ≠ []) :
    (interleaveRound lists).2.flatten.length < lists.flatten.length := by
  rw [interleaveRound_eq] at h ⊢
  exact Rounds.length_tails_lt h

/-- `interleave_nameservers`: the rounds up to the first empty one, flattened. -/
def interleaveNameservers (lists : List (List Nameserver)) : List Nameserver :=
  if (interleaveRound lists).1 = [] then []
  else (interleaveRound lists).1 ++ interleaveNameservers (interleaveRound lists).2
termination_by lists.flatten.length
decreasing_by exact interleaveRound_shrinks ‹_›

/-! ## The HTTPS client -/

section Client

variable (R : Reqwest)

end Client

end N0DnsResolver
