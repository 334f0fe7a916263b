/-
  The chain of a reply along a path of names.

  Where the CNAMEs at the names of a path lead from each to the next, `cname_chain`
  walks a stretch of the path. It stops at the first name whose first class-IN answer
  is no CNAME, and after `MAX_CNAME_DEPTH` links.
-/
import N0DnsResolver.Model.Answers

namespace N0DnsResolver

theorem cnameTarget_eq_some {packet : Packet} {current target : Name}
    (h : cnameTarget packet current = some target) :
    ∃ rr ∈ packet.answers, rr.cls = .IN ∧ namesEqual rr.name current = true ∧
      rr.rdata = .cname target := by
  unfold cnameTarget at h
  split at h
  · next owner cls ttl t hfind =>
    have hprop := List.find?_some hfind
    simp only [Bool.and_eq_true, beq_iff_eq] at hprop
    exact ⟨_, List.mem_of_find?_eq_some hfind, hprop.1, hprop.2, by rw [Option.some.inj h]⟩
  · simp at h

/-- The CNAMEs of a reply at the names of the path lead along it. -/
def KeepsTo (packet : Packet) (path : Nat → Name) : Prop :=
  ∀ i, ∀ rr ∈ packet.answers, rr.cls = .IN → namesEqual rr.name (path i) = true →
    ∀ target, rr.rdata = .cname target → namesEqual target (path (i + 1)) = true

/-- The links the walk takes from the name at place `i` of the path. -/
def pathLinks (packet : Packet) (path : Nat → Name) (i : Nat) : Nat :=
  Chase.linksAlong (fun j => (cnameTarget packet (path j)).isSome) maxCnameDepth i

/-- The walk keeps to the path: it takes no link from a name of it but to the next. -/
def WalksAlong (packet : Packet) (path : Nat → Name) : Prop :=
  ∀ i target, cnameTarget packet (path i) = some target → namesEqual target (path (i + 1)) = true

theorem KeepsTo.walksAlong {packet : Packet} {path : Nat → Name} (h : KeepsTo packet path) :
    WalksAlong packet path := by
  intro i target htarget
  obtain ⟨rr, hmem, hcls, howner, hrdata⟩ := cnameTarget_eq_some htarget
  exact h i rr hmem hcls howner target hrdata

section Path

variable {packet : Packet} {path : Nat → Name} (hwalk : WalksAlong packet path)

include hwalk

theorem folded_cnameTarget (i : Nat) (a b : Name) (ha : a.folded = (path i).folded)
    (hb : cnameTarget packet a = some b) : b.folded = (path (i + 1)).folded := by
  rw [cnameTarget_congr packet ((namesEqual_iff a (path i)).mpr ha)] at hb
  exact (namesEqual_iff _ _).mp (hwalk i b hb)

omit hwalk in
theorem isSome_cnameTarget (i : Nat) (a : Name) (ha : a.folded = (path i).folded) :
    (cnameTarget packet a).isSome = (cnameTarget packet (path i)).isSome := by
  rw [cnameTarget_congr packet ((namesEqual_iff a (path i)).mpr ha)]

/-- Every name of the chain is one of the path. -/
theorem mem_cnameChain {qname name : Name} {i : Nat} (hq : namesEqual qname (path i) = true)
    (hname : name ∈ cnameChain packet qname) :
    ∃ j ≤ pathLinks packet path i, namesEqual name (path (i + j)) = true := by
  have hfold : qname.folded = (path i).folded := (namesEqual_iff _ _).mp hq
  obtain ⟨j, hj, hkey⟩ := Chase.key_of_mem_chase (folded_cnameTarget hwalk) hfold hname
  rw [Chase.length_chase (folded_cnameTarget hwalk) isSome_cnameTarget _ hfold] at hj
  exact ⟨j, Nat.le_of_lt_succ hj, (namesEqual_iff _ _).mpr hkey⟩

/-- Every name of the stretch is one of the chain. -/
theorem onChain_path {qname : Name} {i j : Nat} (hq : namesEqual qname (path i) = true)
    (hj : j ≤ pathLinks packet path i) :
    onChain (cnameChain packet qname) (path (i + j)) = true := by
  have hfold : qname.folded = (path i).folded := (namesEqual_iff _ _).mp hq
  have hmap := Chase.map_key_chase (folded_cnameTarget hwalk) maxCnameDepth hfold
  rw [Chase.length_chase (folded_cnameTarget hwalk) isSome_cnameTarget _ hfold] at hmap
  have hmem : (path (i + j)).folded ∈ (cnameChain packet qname).map Name.folded := by
    unfold cnameChain
    rw [hmap]
    exact List.mem_map_of_mem (f := fun j => (path (i + j)).folded)
      (List.mem_range.mpr (Nat.lt_succ_of_le hj))
  obtain ⟨name, hname, heq⟩ := List.mem_map.mp hmem
  exact List.any_eq_true.mpr ⟨name, hname, (namesEqual_iff _ _).mpr heq⟩

/-- Where the chain ends. -/
theorem getLast?_cnameChain {qname : Name} {i : Nat} (hq : namesEqual qname (path i) = true) :
    ∃ last, (cnameChain packet qname).getLast? = some last ∧
      namesEqual last (path (i + pathLinks packet path i)) = true := by
  obtain ⟨last, hlast, hkey⟩ := Chase.getLast?_chase (folded_cnameTarget hwalk)
    isSome_cnameTarget maxCnameDepth ((namesEqual_iff _ _).mp hq)
  exact ⟨last, hlast, (namesEqual_iff _ _).mpr hkey⟩

omit hwalk in
/-- Where the CNAMEs spell the names as the path does, the chain ends with a name of it as spelled
there, once a link was taken. -/
theorem getLast?_cnameChain_exact
    (hexact : ∀ i target, cnameTarget packet (path i) = some target → target = path (i + 1))
    {qname : Name} {i : Nat} (hq : namesEqual qname (path i) = true)
    (hpos : 0 < pathLinks packet path i) :
    (cnameChain packet qname).getLast? = some (path (i + pathLinks packet path i)) := by
  have hstep : ∀ i a b, id a = path i → cnameTarget packet a = some b → id b = path (i + 1) :=
    fun i a b ha hb => hexact i b (ha ▸ hb)
  have hlinked : ∀ i a, id a = path i →
      (cnameTarget packet a).isSome = (cnameTarget packet (path i)).isSome :=
    fun i a ha => by rw [← ha, id]
  have hlen := Chase.length_chase hstep hlinked maxCnameDepth (a := path i) rfl
  obtain ⟨last, hlast, hkey⟩ := Chase.getLast?_chase hstep hlinked maxCnameDepth (a := path i) rfl
  have htail := Chase.tail_chase_congr (cnameTarget packet) maxCnameDepth
    (cnameTarget_congr packet hq)
  obtain ⟨t, ht⟩ := Chase.chase_eq_cons (cnameTarget packet) maxCnameDepth qname
  obtain ⟨t', ht'⟩ := Chase.chase_eq_cons (cnameTarget packet) maxCnameDepth (path i)
  rw [ht, ht', List.tail_cons, List.tail_cons] at htail
  have hne : t' ≠ [] := by
    intro hnil
    rw [ht', hnil, List.length_singleton] at hlen
    unfold pathLinks at hpos
    omega
  unfold cnameChain pathLinks
  rw [← hkey, id, ← hlast, ht, ht', htail, List.getLast?_cons_of_ne_nil hne,
    List.getLast?_cons_of_ne_nil hne]

end Path

end N0DnsResolver
