/-
  The candidates of a name, in the order they are tried.

  `search_names` appends each valid expansion unless it is there already, so the
  expansions stand in the order of their first occurrence (`List.eraseDups`). An
  expansion is longer than the name, so the two are never mistaken for each other.
-/
import N0DnsResolver.Model.Config

namespace N0DnsResolver

/-! ## Appending without repeats -/

/-- Appending unless present keeps the elements that are new, each at its first occurrence. -/
theorem foldl_pushName (names xs : List Str) :
    xs.foldl pushName names = names ++ (xs.filter (· ∉ names)).eraseDups := by
  induction xs generalizing names with
  | nil => simp
  | cons x xs ih =>
    rw [List.foldl_cons, ih]
    by_cases hx : x ∈ names
    · have hpush : pushName names x = names := if_pos (List.contains_iff_mem.mpr hx)
      rw [hpush, List.filter_cons_of_neg (by simpa using hx)]
    · have hpush : pushName names x = names ++ [x] :=
        if_neg fun h => hx (List.contains_iff_mem.mp h)
      have hfilter : xs.filter (· ∉ names ++ [x]) =
          (xs.filter (· ∉ names)).filter (fun b => !b == x) := by
        rw [List.filter_filter]
        refine List.filter_congr fun b _ => ?_
        simp [Bool.and_comm, beq_eq_decide]
      rw [hpush, List.filter_cons_of_pos (by simpa using hx), List.eraseDups_cons, hfilter,
        List.append_assoc]
      rfl

theorem pushName_nodup {names : List Str} (h : names.Nodup) (x : Str) :
    (pushName names x).Nodup := by
  unfold pushName
  split
  · exact h
  · next hx =>
    rw [List.contains_iff_mem] at hx
    exact (List.perm_append_singleton x names).nodup_iff.mpr (List.nodup_cons.mpr ⟨hx, h⟩)

theorem foldl_pushName_nodup (xs : List Str) {names : List Str} (h : names.Nodup) :
    (xs.foldl pushName names).Nodup := by
  induction xs generalizing names with
  | nil => exact h
  | cons x xs ih => exact ih (pushName_nodup h x)

theorem eraseDups_nodup (xs : List Str) : xs.eraseDups.Nodup := by
  have h := foldl_pushName_nodup xs List.nodup_nil
  rw [foldl_pushName] at h
  simpa using h

/-! ## The expansions -/

section Search

variable (S : SimpleDns) (config : Config) (host : Str)

/-- The expansions of the name that are valid names, in the order of the search list. -/
def validExpansions : List Str :=
  (config.searchDomains.map (expand host)).filter fun name => (S.nameNew name).isSome

theorem expand_ne (domain : Str) : expand host domain ≠ host := by
  intro h
  have hlen := congrArg List.length h
  unfold expand at hlen
  simp only [List.length_append, List.length_cons] at hlen
  omega

theorem host_notMem_validExpansions : host ∉ validExpansions S config host := by
  intro h
  obtain ⟨d, -, hd⟩ := List.mem_map.mp (List.mem_filter.mp h).1
  exact expand_ne host d hd

theorem host_notMem_eraseDups : host ∉ (validExpansions S config host).eraseDups := fun h =>
  host_notMem_validExpansions S config host (List.mem_eraseDups.mp h)

/-- The loop over the search list appends the valid expansions. -/
theorem foldl_expansions (names : List Str) :
    config.searchDomains.foldl
        (fun names domain =>
          if (S.nameNew (expand host domain)).isSome then pushName names (expand host domain)
          else names) names =
      (validExpansions S config host).foldl pushName names := by
  unfold validExpansions
  rw [List.foldl_filter, List.foldl_map]

/-- The candidates of a name that is expanded: the valid expansions, each once, after the name
itself when it has enough dots and before it when it has not. -/
theorem searchNames_eq {config : Config} {host : Str} (hrel : host.getLast? ≠ some '.')
    (hsearch : config.searchDomains ≠ []) :
    searchNames S config host =
      if config.ndots.getD defaultNdots ≤ host.count '.' then
        host :: (validExpansions S config host).eraseDups
      else (validExpansions S config host).eraseDups ++ [host] := by
  have hnew : (validExpansions S config host).filter (· ∉ [host]) =
      validExpansions S config host := by
    refine List.filter_eq_self.mpr fun x hx => ?_
    have hne : x ≠ host := fun heq => host_notMem_validExpansions S config host (heq ▸ hx)
    simpa using hne
  have hbare : pushName [] host = [host] := rfl
  unfold searchNames
  rw [if_neg (not_or.mpr ⟨hrel, hsearch⟩)]
  simp only [foldl_expansions]
  by_cases hdots : config.ndots.getD defaultNdots ≤ host.count '.'
  · rw [if_pos hdots, if_pos (Nat.lt_succ_of_le hdots), if_pos (Nat.lt_succ_of_le hdots), hbare,
      foldl_pushName, hnew]
    rfl
  · have hlt : ¬ config.ndots.getD defaultNdots < host.count '.' + 1 := by omega
    rw [if_neg hdots, if_neg hlt, if_neg hlt, foldl_pushName]
    unfold pushName
    simp [host_notMem_eraseDups S config host]

/-- No candidate is there twice. -/
theorem searchNames_nodup {config : Config} {host : Str} (hrel : host.getLast? ≠ some '.')
    (hsearch : config.searchDomains ≠ []) : (searchNames S config host).Nodup := by
  have hcons : (host :: (validExpansions S config host).eraseDups).Nodup :=
    List.nodup_cons.mpr ⟨host_notMem_eraseDups S config host, eraseDups_nodup _⟩
  rw [searchNames_eq S hrel hsearch]
  split
  · exact hcons
  · exact (List.perm_append_singleton host _).nodup_iff.mpr hcons

/-- The candidates of a name: no two alike, the name itself once, the other ones its valid
expansions in the order of their first occurrence, and the name itself at the front or the end as
the number of its dots calls for. -/
structure Expanded (names : List Str) : Prop where
  nodup : names.Nodup
  count_host : names.count host = 1
  others : names.filter (· ≠ host) = (validExpansions S config host).eraseDups
  first : config.ndots.getD defaultNdots ≤ host.count '.' → names.head? = some host
  last : host.count '.' < config.ndots.getD defaultNdots → names.getLast? = some host

end Search

/-- A name is expanded along the search list as resolv.conf(5) has it; an absolute name, and any
name without a search list, is its own only candidate. -/
theorem searchNames_expanded (S : SimpleDns) (config : Config) (host : Str) :
    (host.getLast? ≠ some '.' → config.searchDomains ≠ [] →
        Expanded S config host (searchNames S config host)) ∧
      (host.getLast? = some '.' ∨ config.searchDomains = [] →
        searchNames S config host = [host]) := by
  refine ⟨fun hrel hsearch => ?_, searchNames_eq_singleton S host⟩
  have hnot := host_notMem_eraseDups S config host
  have hnodup := searchNames_nodup S hrel hsearch
  have hothers : (validExpansions S config host).eraseDups.filter (· ≠ host) =
      (validExpansions S config host).eraseDups := by
    refine List.filter_eq_self.mpr fun x hx => ?_
    have hne : x ≠ host := fun heq => hnot (heq ▸ hx)
    simpa using hne
  rw [searchNames_eq S hrel hsearch] at hnodup ⊢
  by_cases hdots : config.ndots.getD defaultNdots ≤ host.count '.'
  · rw [if_pos hdots] at hnodup ⊢
    refine ⟨hnodup, ?_, ?_, fun _ => rfl, fun h => ?_⟩
    · rw [List.count_cons_self, List.count_eq_zero_of_not_mem hnot]
    · rw [List.filter_cons_of_neg (by simp), hothers]
    · omega
  · rw [if_neg hdots] at hnodup ⊢
    refine ⟨hnodup, ?_, ?_, fun h => absurd h hdots, fun _ => List.getLast?_concat⟩
    · rw [List.count_append, List.count_eq_zero_of_not_mem hnot, List.count_singleton_self]
    · rw [List.filter_append, hothers, List.filter_cons_of_neg (by simp), List.filter_nil,
        List.append_nil]

/-- A search list with a repeated domain, and one whose expansion has a label too long. -/
def campusConfig : Config :=
  { searchDomains := ["lan".toList, List.replicate 64 'x', "lan".toList, "corp".toList] }

theorem searchNames_expanded_campus :
    Expanded (SimpleDns.ofTable []) campusConfig "db".toList
        (searchNames (SimpleDns.ofTable []) campusConfig "db".toList) ∧
      searchNames (SimpleDns.ofTable []) campusConfig "db.".toList = ["db.".toList] :=
  ⟨(searchNames_expanded _ _ _).1 (by decide) (by decide),
    (searchNames_expanded _ _ _).2 (.inl (by decide))⟩

example : searchNames (SimpleDns.ofTable []) campusConfig "db".toList =
    ["db.lan".toList, "db.corp".toList, "db".toList] := by decide +kernel

end N0DnsResolver
