/-
  The public resolvers on a network that filters plain DNS.

  The default order puts a DNS-over-HTTPS server in its third place, and a tier none of
  whose servers was tried is raced in the order it is listed in. Three attempts are in
  flight at a time, so that server is dialled two delays after the fallback tier is turned
  to, whatever the two before it do; when it answers, so does `send_query`
  (`filtered_network_answered`).
-/
import N0DnsResolver.Model.PublicResolvers
import N0DnsResolver.Theory.Availability
import N0DnsResolver.Theory.Healing
import N0DnsResolver.Theory.Upstreams

namespace N0DnsResolver

/-! ## The third place -/

/-- The server `default_order` has a provider reached at over HTTPS. -/
def Provider.dohServer (p : Provider) : Nameserver :=
  .new ⟨.v4 p.ipv4Addrs.1, DnsProtocol.https.port⟩ .https

theorem Provider.length_nameservers (p : Provider) (protocol : DnsProtocol) :
    (p.nameservers protocol).length = 4 := rfl

theorem length_interleaveNameservers (lists : List (List Nameserver)) :
    (interleaveNameservers lists).length = lists.flatten.length := by
  rw [interleaveNameservers_eq_merge]
  exact (Rounds.merge_perm lists).length_eq

/-- The third server is the first provider's, over HTTPS. -/
theorem defaultOrder_third (p : Provider) (providers : List Provider) :
    (defaultOrder (p :: providers))[2]? = some p.dohServer := by
  have hlen : 2 ≤ (interleaveNameservers
      ((p :: providers).map fun p => p.nameservers .udp)).length := by
    rw [length_interleaveNameservers, List.map_cons, List.flatten_cons, List.length_append,
      Provider.length_nameservers]
    omega
  unfold defaultOrder
  simp only [Nat.min_eq_right hlen]
  rw [List.append_assoc, List.getElem?_append_right (List.length_take_le _ _),
    List.length_take_of_le hlen]
  rfl

/-! ## A tier that was not tried -/

section Untried

variable {n : Nat} {S : SimpleDns} {primaryCount : Nat} {first race : Race ℝ n}
variable {rtt₀ : RttMap ℝ n} {t₀ : Instant}

/-- The race of the primary tier leaves the estimates of the fallback tier as they are. -/
theorem untried_of_primary
    (hs : SendQuery.Sound S expDecay rtt₀ t₀ (SendQuery.primaryIndices n primaryCount) first)
    {idx : Fin n} (hidx : idx ∈ SendQuery.fallbackIndices n primaryCount) :
    first.rtt idx = rtt₀ idx := by
  refine hs.1.others idx fun hdone => ?_
  have hdialled : idx ∈ first.dialled :=
    hs.1.account.mem_iff.mp (List.mem_append_left _ hdone)
  rw [hs.1.dialled_eq] at hdialled
  have hprimary : idx ∈ SendQuery.primaryIndices n primaryCount :=
    (orderIndices_perm expDecay rtt₀ t₀ _).mem_iff.mp (List.mem_of_mem_take hdialled)
  have hnodup : (SendQuery.primaryIndices n primaryCount ++
      SendQuery.fallbackIndices n primaryCount).Nodup := by
    unfold SendQuery.primaryIndices SendQuery.fallbackIndices
    rw [List.take_append_drop]
    exact List.nodup_finRange n
  exact List.disjoint_of_nodup_append hnodup hprimary hidx

end Untried

/-! ## The resolver -/

/-- In the default mode the fallback servers are the ones behind the primary tier. -/
theorem build_deferred {builder : Builder} (h : builder.fallback = .deferred)
    (readSystem : Config) (k : Nat) :
    (ResolverState.build builder readSystem).config.nameservers[
        (ResolverState.build builder readSystem).primaryCount + k]? =
      builder.fallbackNameservers[k]? := by
  unfold ResolverState.build fallbackTier
  rw [h]
  simp only [if_true]
  rw [List.getElem?_append_right (Nat.le_add_right _ _), Nat.add_sub_cancel_left]

section Filtered

variable (S : SimpleDns) (builder : Builder) (readSystem : Config) (p : Provider)
variable (providers : List Provider)

/-- The place of a fallback server in its tier. -/
theorem getElem?_fallbackIndices {n primaryCount k : Nat} (h : primaryCount + k < n) :
    (SendQuery.fallbackIndices n primaryCount)[k]? = some ⟨primaryCount + k, h⟩ := by
  unfold SendQuery.fallbackIndices
  rw [List.getElem?_drop, List.getElem?_eq_getElem (by rw [List.length_finRange]; exact h)]
  simp

/-- A resolver falls back to public resolvers in the default order, and none of these was tried
since it was built. Whatever all nameservers do, the server it reaches the first provider at over
HTTPS is dialled two delays after the fallback tier is turned to; and when that one answers whenever
it is dialled, `send_query` does not fail and has the response within the time the answer takes,
with something due by then as long as it has none. -/
theorem filtered_network_answered (state : ResolverState)
    (hstate : state = .build builder readSystem) (hmode : builder.fallback = .deferred)
    (hfallback : builder.fallbackNameservers = defaultOrder (p :: providers)) (lag : Nat)
    (rtt₀ : RttMap ℝ state.config.nameservers.length)
    (huntried : ∀ idx : Fin state.config.nameservers.length, state.primaryCount ≤ idx →
      ∃ born, rtt₀ idx = .new born)
    (now : Instant) (q₀ q : SendQuery ℝ state.config.nameservers.length)
    (events : List (Wake state.config.nameservers.length))
    (limit : Fin state.config.nameservers.length → Nat)
    (hlimit : ∀ idx, limit idx ≤ state.limits lag idx)
    (hstart : SendQuery.start expDecay state.primaryCount rtt₀ now = .ok q₀)
    (hrun : Machine.run (SendQuery.step S expDecay state.primaryCount) q₀ events = some q)
    (htimely : (SendQuery.timing limit).Timely lag
      (SendQuery.step S expDecay state.primaryCount) q₀ events) :
    ∃ doh : Fin state.config.nameservers.length,
      state.config.nameservers.get doh = p.dohServer ∧
        (∀ race, q.second = some race →
          q.first.clock + 2 * (queryAttemptDelay + lag) < race.clock → doh ∈ race.dialled) ∧
        ((∀ c, .completed c ∈ events → c.dial.idx = doh → ∃ resp, c.Won S resp) →
          (∀ e, q.result ≠ some (.error e)) ∧
            ∀ race, q.second = some race →
              let bound := q.first.clock + 2 * (queryAttemptDelay + lag) + (limit doh + lag)
              race.clock ≤ bound ∧
                (q.result = none →
                  ∃ d ∈ (SendQuery.timing limit).due q, d + lag ≤ bound)) := by
  -- The third server of the fallback tier.
  have hthird : state.config.nameservers[state.primaryCount + 2]? = some p.dohServer := by
    rw [hstate, build_deferred hmode, hfallback]
    exact defaultOrder_third p providers
  obtain ⟨hlt, hdoh⟩ := List.getElem?_eq_some_iff.mp hthird
  have htwo : startsBy lag (attemptLength lag) 2 = 2 * (queryAttemptDelay + lag) :=
    startBy_of_lt _ _ (by decide)
  obtain ⟨hinv, hpaced⟩ := paced_of_run S expDecay state lag rtt₀ now q₀ q events limit hlimit
    hstart hrun htimely
  have horder : ∀ race, q.second = some race →
      (SendQuery.secondOrder expDecay state.primaryCount q.first)[2]? =
        some ⟨state.primaryCount + 2, hlt⟩ := by
    intro race hrace
    cases q with
    | primary _ => cases hrace
    | fallback first _ =>
      show (SendQuery.secondOrder expDecay state.primaryCount first)[2]? = _
      unfold SendQuery.secondOrder
      rw [orderIndices_untried, getElem?_fallbackIndices hlt]
      intro idx hidx
      rw [untried_of_primary hinv.1 hidx]
      refine huntried idx ?_
      unfold SendQuery.fallbackIndices at hidx
      obtain ⟨i, hi, hget⟩ := List.mem_iff_getElem.mp hidx
      rw [List.getElem_drop, List.getElem_finRange] at hget
      rw [← hget]
      exact Nat.le_add_right _ _
  refine ⟨⟨state.primaryCount + 2, hlt⟩, hdoh, fun race hrace => ?_, fun hwins => ?_⟩
  · have hplace := horder race hrace
    cases q with
    | primary _ => cases hrace
    | fallback first _ =>
      cases hrace
      rw [← htwo]
      exact hpaced.2.dialled hinv.2.2.2.1 hplace
  · obtain ⟨-, -, hanswering⟩ := answering_of_run S expDecay state lag rtt₀ now q₀ q events limit
      ⟨state.primaryCount + 2, hlt⟩ hlimit hwins hstart hrun htimely
    refine ⟨hanswering.no_error S expDecay state.primaryCount hinv, fun race hrace => ?_⟩
    rw [← htwo]
    exact hanswering.second_inTime S expDecay state.primaryCount (attempts_fit hlimit) hinv
      hpaced hrace (horder race hrace)

end Filtered

/-! ## A network that answers nothing but HTTPS -/

/-- Quad9's servers in the default order. -/
def quad9Servers : List Nameserver :=
  [.new ⟨.v4 ⟨0x09090909⟩, 53⟩ .udp, .new ⟨.v6 ⟨0x262000fe0000000000000000000000fe⟩, 53⟩ .udp,
    .new ⟨.v4 ⟨0x09090909⟩, 443⟩ .https, .new ⟨.v4 ⟨0x95707070⟩, 53⟩ .udp,
    .new ⟨.v6 ⟨0x262000fe000000000000000000000009⟩, 53⟩ .udp]

theorem quad9Servers_eq : quad9Servers = defaultOrder [.quad9] := by decide +kernel

/-- A resolver without a primary tier. -/
def filteredState : ResolverState := .build { fallbackNameservers := quad9Servers } {}

abbrev FilteredRace := Race ℝ filteredState.config.nameservers.length

/-- There is no primary server to ask. -/
noncomputable def filteredFirst : FilteredRace := .start [] (.new 0) 0

/-- The fallback tier is turned to. -/
noncomputable def filteredSecond : FilteredRace :=
  .start (List.finRange 5) filteredFirst.rtt filteredFirst.clock

/-- Two delays pass, and the server over HTTPS answers 30 milliseconds after it was dialled. -/
def filteredWakes : List (Wake filteredState.config.nameservers.length) :=
  [.due 100000000, .due 200000000,
    .completed ⟨⟨⟨2, by decide⟩, 200000000⟩, 230000000, .ok (emptyReply, none)⟩]

/-- The fallback race after each of these. -/
noncomputable def filteredTwo : FilteredRace :=
  Option.get (filteredSecond.step (.ofTable []) expDecay (.due 100000000)) rfl

noncomputable def filteredThree : FilteredRace :=
  Option.get (filteredTwo.step (.ofTable []) expDecay (.due 200000000)) rfl

noncomputable def filteredWon : FilteredRace :=
  Option.get (filteredThree.step (.ofTable []) expDecay (.completed
    ⟨⟨⟨2, by decide⟩, 200000000⟩, 230000000, .ok (emptyReply, none)⟩)) rfl

theorem filtered_start : SendQuery.start expDecay filteredState.primaryCount (.new 0) 0 =
    .ok (.fallback filteredFirst filteredSecond) := by
  have hprimary : orderIndices expDecay (.new 0) 0
      (SendQuery.primaryIndices filteredState.config.nameservers.length
        filteredState.primaryCount) = [] :=
    orderIndices_untried fun _ _ => ⟨0, rfl⟩
  have hfallback : orderIndices expDecay filteredFirst.rtt filteredFirst.clock
      (SendQuery.fallbackIndices filteredState.config.nameservers.length
        filteredState.primaryCount) = List.finRange 5 :=
    orderIndices_untried fun _ _ => ⟨0, rfl⟩
  unfold SendQuery.start filteredSecond
  rw [if_neg (by decide), hprimary, ← hfallback]
  rfl

theorem filtered_run :
    Machine.run (SendQuery.step (.ofTable []) expDecay filteredState.primaryCount)
      (.fallback filteredFirst filteredSecond) filteredWakes =
        some (.fallback filteredFirst filteredWon) := rfl

theorem filtered_timely : (SendQuery.timing (filteredState.limits 0)).Timely 0
    (SendQuery.step (.ofTable []) expDecay filteredState.primaryCount)
      (.fallback filteredFirst filteredSecond) filteredWakes := by
  have htwo : SendQuery.step (.ofTable []) expDecay filteredState.primaryCount
      (.fallback filteredFirst filteredSecond) (.due 100000000) =
        some (.fallback filteredFirst filteredTwo) := rfl
  have hthree : SendQuery.step (.ofTable []) expDecay filteredState.primaryCount
      (.fallback filteredFirst filteredTwo) (.due 200000000) =
        some (.fallback filteredFirst filteredThree) := rfl
  have hdue : (SendQuery.timing (filteredState.limits 0)).due
      (.fallback filteredFirst filteredSecond) = [100000000, 12000000000] := rfl
  have hdue₂ : (SendQuery.timing (filteredState.limits 0)).due
      (.fallback filteredFirst filteredTwo) = [200000000, 12000000000, 12100000000] := rfl
  have hdue₃ : (SendQuery.timing (filteredState.limits 0)).due
      (.fallback filteredFirst filteredThree) =
        [300000000, 12000000000, 12100000000, 10200000000] := rfl
  refine Timing.timely_cons htwo hdue (by decide) ?_
  refine Timing.timely_cons hthree hdue₂ (by decide) ?_
  exact Timing.timely_singleton hdue₃ (by decide)

/-- The server over HTTPS answers whenever it is dialled. -/
theorem filtered_answers (c : Completion filteredState.config.nameservers.length)
    (hc : .completed c ∈ filteredWakes) : ∃ resp, c.Won (.ofTable []) resp := by
  rcases List.mem_cons.mp hc with h | h
  · cases h
  · rcases List.mem_cons.mp h with h | h
    · cases h
    · cases List.mem_singleton.mp h
      exact ⟨emptyReply, ⟨none, rfl⟩, rfl⟩

/-- The server over HTTPS. -/
def filteredDoh : Fin filteredState.config.nameservers.length := ⟨2, by decide⟩

theorem eq_filteredDoh : ∀ idx : Fin filteredState.config.nameservers.length,
    filteredState.config.nameservers.get idx = Provider.quad9.dohServer → idx = filteredDoh := by
  decide +kernel

/-- The first lookup of a resolver whose plain DNS is filtered: while three servers are silent, the
answer over HTTPS is due, and it comes. -/
theorem filtered_network_answered_quad9 : filteredWon.result = some (.ok emptyReply) ∧
    filteredDoh ∈ filteredWon.dialled ∧
    filteredWon.clock ≤ 200000000 + (filteredState.limits 0 filteredDoh + 0) ∧
    ∃ d ∈ (SendQuery.timing (filteredState.limits 0)).due (.fallback filteredFirst filteredThree),
      d + 0 ≤ 200000000 + (filteredState.limits 0 filteredDoh + 0) := by
  obtain ⟨doh, hdoh, hdialled, hrace⟩ := filtered_network_answered (.ofTable []) _ {} .quad9 []
    filteredState rfl rfl quad9Servers_eq 0 (.new 0) (fun _ _ => ⟨0, rfl⟩) 0 _ _ filteredWakes
    (filteredState.limits 0) (fun _ => Nat.le_refl _) filtered_start filtered_run filtered_timely
  obtain rfl := eq_filteredDoh doh hdoh
  obtain ⟨-, hends⟩ := hrace fun c hc _ => filtered_answers c hc
  have hthree : Machine.run (SendQuery.step (.ofTable []) expDecay filteredState.primaryCount)
      (.fallback filteredFirst filteredSecond) [.due 100000000, .due 200000000] =
        some (.fallback filteredFirst filteredThree) := rfl
  obtain ⟨doh, hdoh, -, hrace⟩ := filtered_network_answered (.ofTable []) _ {} .quad9 []
    filteredState rfl rfl quad9Servers_eq 0 (.new 0) (fun _ _ => ⟨0, rfl⟩) 0 _ _
    [.due 100000000, .due 200000000] (filteredState.limits 0) (fun _ => Nat.le_refl _)
    filtered_start hthree
    ⟨filtered_timely.1, fun q hq => ⟨(filtered_timely.2 q hq).1, fun _ _ => trivial⟩⟩
  obtain rfl := eq_filteredDoh doh hdoh
  obtain ⟨-, hwaits⟩ := hrace fun c hc _ =>
    filtered_answers c (List.mem_of_mem_take (i := 2) hc)
  exact ⟨rfl, hdialled filteredWon rfl (by decide), (hends filteredWon rfl).1,
    (hwaits filteredThree rfl).2 rfl⟩

end N0DnsResolver
