/-
  The race of one tier and the escalation to the next.

  `Race.Ledger` is the invariant of the loop's variables: what was dialled is the part of
  the order before `next`, every attempt dialled is in flight or completed and never
  both, and the estimates are the first ones with one record for each completion.
  `Race.Standing` says what the result means. Both are kept by every turn of the loop
  (`Race.step_sound`), so by every run of `send_query` (`send_query_races`).
-/
import N0DnsResolver.Lib.Machine
import N0DnsResolver.Model.Race
import Mathlib.Algebra.Order.Field.Rat
import Mathlib.Data.List.Perm.Basic

namespace N0DnsResolver

section

variable {K : Type} {n : Nat} [NatCast K] [Add K] [Sub K] [Mul K] [Div K] [Min K]
variable (S : SimpleDns) (decay : Nat → K)

namespace Race

/-! ## The ledger -/

section Ledger

variable (rtt₀ : RttMap K n) (order : List (Fin n))

/-- The invariant of the loop's variables. -/
structure Ledger (s : Race K n) : Prop where
  order_eq : s.order = order
  next_le : s.next ≤ order.length
  dialled_eq : s.dialled = order.take s.next
  inFlight : s.dials.length ≤ maxConcurrentQueries
  account : (s.completed.map (·.dial.idx) ++ s.dials.map (·.idx)).Perm s.dialled
  recorded : ∀ c ∈ s.completed, s.rtt c.dial.idx = c.record S decay (rtt₀ c.dial.idx)
  others : ∀ idx, idx ∉ s.completed.map (·.dial.idx) → s.rtt idx = rtt₀ idx

/-- What the result of a race stands for, while there is none too. -/
structure Standing (s : Race K n) : Prop where
  awake : s.result = none → s.dials ≠ [] ∨ s.nextAttempt.isSome
  failed : (∀ resp, s.result ≠ some (.ok resp)) → ∀ c ∈ s.completed, (c.failure S).isSome
  won : ∀ resp, s.result = some (.ok resp) → ∃ failures c, s.completed = failures ++ [c] ∧
    (∀ c ∈ failures, (c.failure S).isSome) ∧ c.Won S resp
  lost : ∀ e, s.result = some (.error e) → s.dials = [] ∧ order.length ≤ s.next

variable {rtt₀ order} {s : Race K n}

theorem Ledger.dial {now : Instant} {idx : Fin n} (h : Ledger S decay rtt₀ order s)
    (hidx : s.order[s.next]? = some idx) (hcap : s.dials.length < maxConcurrentQueries) :
    Ledger S decay rtt₀ order (s.dial now idx) := by
  rw [h.order_eq] at hidx
  obtain ⟨hlt, hget⟩ := List.getElem?_eq_some_iff.mp hidx
  refine ⟨h.order_eq, hlt, ?_, ?_, ?_, h.recorded, h.others⟩
  · show s.dialled ++ [idx] = order.take (s.next + 1)
    rw [h.dialled_eq, ← hget, List.take_append_getElem hlt]
  · show (s.dials ++ [_]).length ≤ maxConcurrentQueries
    rw [List.length_append]
    exact hcap
  · show (s.completed.map (·.dial.idx) ++ (s.dials ++ [(⟨idx, now⟩ : Dial n)]).map (·.idx)).Perm
      (s.dialled ++ [idx])
    rw [List.map_append, ← List.append_assoc]
    exact h.account.append_right [idx]

theorem Ledger.launch {now : Instant} (h : Ledger S decay rtt₀ order s) :
    Ledger S decay rtt₀ order (s.launch now) := by
  rcases launch_cases now s with ⟨idx, hidx, hcap, heq⟩ | ⟨-, heq⟩
  · rw [heq]
    exact h.dial S decay hidx hcap
  · rw [heq]
    exact h

/-- The loop's head waits for something or ends the race with everything dialled. -/
theorem top_sound {now : Instant} (hl : Ledger S decay rtt₀ order s) (hr : s.result = none)
    (hf : ∀ c ∈ s.completed, (c.failure S).isSome) :
    Ledger S decay rtt₀ order (s.top now) ∧ Standing S order (s.top now) := by
  have hl' : Ledger S decay rtt₀ order (s.launch now) := hl.launch S decay
  have hres : (s.launch now).result = none ∧ (s.launch now).completed = s.completed := by
    rcases launch_cases now s with ⟨idx, -, -, heq⟩ | ⟨-, heq⟩ <;> rw [heq] <;> exact ⟨hr, rfl⟩
  unfold top
  simp only
  split
  · next hend =>
    refine ⟨⟨hl'.order_eq, hl'.next_le, hl'.dialled_eq, hl'.inFlight, hl'.account, hl'.recorded,
      hl'.others⟩, fun h => (nomatch h), fun _ => ?_, fun resp h => (nomatch h),
      fun _ _ => ⟨hend.1, hl'.order_eq ▸ hend.2⟩⟩
    simp only [hres.2]
    exact hf
  · next hend =>
    have hno : ∀ r, (s.launch now).result ≠ some r := by
      intro r h
      rw [hres.1] at h
      simp at h
    refine ⟨hl', fun _ => ?_, fun _ => by rw [hres.2]; exact hf,
      fun resp h => absurd h (hno _), fun e h => absurd h (hno _)⟩
    -- With nothing in flight and a server left, only a pending timer keeps one from being dialled.
    by_cases hd : (s.launch now).dials = []
    · right
      have hleft : ¬ (s.launch now).order.length ≤ (s.launch now).next := fun h => hend ⟨hd, h⟩
      rcases launch_cases now s with ⟨idx, -, -, heq⟩ | ⟨hwhy, heq⟩
      · rw [heq] at hd
        exact absurd hd (List.append_ne_nil_of_right_ne_nil _ (List.cons_ne_nil _ _))
      · rw [heq] at hd hleft ⊢
        rcases hwhy with hnone | hsome | hfull
        · exact absurd hnone hleft
        · exact hsome
        · rw [hd] at hfull
          exact absurd hfull (Nat.not_le.mpr (Nat.succ_pos 2))
    · exact .inl hd

/-- An attempt in flight is not one that completed. -/
theorem Ledger.fresh (hnd : order.Nodup) (h : Ledger S decay rtt₀ order s) {d : Dial n}
    (hd : d ∈ s.dials) : d.idx ∉ s.completed.map (·.dial.idx) := by
  have hnodup : (s.completed.map (·.dial.idx) ++ s.dials.map (·.idx)).Nodup := by
    rw [h.account.nodup_iff, h.dialled_eq]
    exact hnd.sublist (List.take_sublist _ _)
  intro hc
  exact (List.nodup_append.mp hnodup).2.2 _ hc _ (List.mem_map_of_mem hd) rfl

theorem Ledger.complete (hnd : order.Nodup) (h : Ledger S decay rtt₀ order s)
    {c : Completion n} (hc : c.dial ∈ s.dials) :
    Ledger S decay rtt₀ order (s.complete S decay c) := by
  have hfresh := h.fresh S decay hnd hc
  have hinFlight : (s.dials.erase c.dial).length ≤ maxConcurrentQueries :=
    Nat.le_trans List.length_erase_le h.inFlight
  have haccount : ((s.completed ++ [c]).map (·.dial.idx) ++
      (s.dials.erase c.dial).map (·.idx)).Perm s.dialled := by
    rw [List.map_append, List.append_assoc]
    refine List.Perm.trans (List.Perm.append_left _ ?_) h.account
    exact (List.perm_cons_erase hc).symm.map (·.idx)
  have hrecorded : ∀ c' ∈ s.completed ++ [c],
      Function.update s.rtt c.dial.idx (c.record S decay (s.rtt c.dial.idx)) c'.dial.idx =
        c'.record S decay (rtt₀ c'.dial.idx) := by
    intro c' hc'
    rcases List.mem_append.mp hc' with hold | hnew
    · have hne : c'.dial.idx ≠ c.dial.idx := by
        intro heq
        exact hfresh (heq ▸ List.mem_map_of_mem hold)
      rw [Function.update_of_ne hne, h.recorded c' hold]
    · rw [List.mem_singleton.mp hnew, Function.update_self, h.others _ hfresh]
  have hothers : ∀ idx, idx ∉ (s.completed ++ [c]).map (·.dial.idx) →
      Function.update s.rtt c.dial.idx (c.record S decay (s.rtt c.dial.idx)) idx = rtt₀ idx := by
    intro idx hidx
    rw [List.map_append, List.mem_append, not_or] at hidx
    have hne : idx ≠ c.dial.idx := fun heq => hidx.2 (List.mem_singleton.mpr heq)
    rw [Function.update_of_ne hne, h.others idx hidx.1]
  rcases c.failed_or_won S with ⟨e, he⟩ | ⟨resp, hw⟩
  · rw [complete_failed S decay he]
    exact ⟨h.order_eq, h.next_le, h.dialled_eq, hinFlight, haccount, hrecorded, hothers⟩
  · rw [complete_won S decay hw]
    exact ⟨h.order_eq, h.next_le, h.dialled_eq, hinFlight, haccount, hrecorded, hothers⟩

/-- One turn of the loop keeps the ledger and the standing. -/
theorem step_sound (hnd : order.Nodup) {e : Wake n} {s' : Race K n}
    (h : Ledger S decay rtt₀ order s ∧ Standing S order s) (hs : s.step S decay e = some s') :
    Ledger S decay rtt₀ order s' ∧ Standing S order s' := by
  obtain ⟨hl, hst⟩ := h
  have hfailed : s.result = none → ∀ c ∈ s.completed, (c.failure S).isSome :=
    fun hrun => hst.failed (by simp [hrun])
  obtain ⟨hrun, ⟨c, err, -, hmem, -, he, rfl⟩ | ⟨c, resp, -, hmem, -, hw, rfl⟩ |
    ⟨now, deadline, -, -, -, -, rfl⟩⟩ := step_cases S decay hs
  · refine top_sound S decay (hl.complete S decay hnd hmem) ?_ ?_
    · rw [complete_failed S decay he]
      exact hrun
    · rw [complete_failed S decay he]
      intro c' hc'
      rcases List.mem_append.mp hc' with hold | hnew
      · exact hfailed hrun c' hold
      · rw [List.mem_singleton.mp hnew, he]
        rfl
  · refine ⟨hl.complete S decay hnd hmem, ?_⟩
    rw [complete_won S decay hw]
    refine ⟨fun h => (nomatch h), fun h => absurd rfl (h resp), ?_, fun e h => (nomatch h)⟩
    intro resp' h
    have hsame : resp = resp' := by simpa using h
    exact ⟨s.completed, c, rfl, hfailed hrun, hsame ▸ hw⟩
  · have hl' : Ledger S decay rtt₀ order { s with nextAttempt := none, clock := now } :=
      ⟨hl.order_eq, hl.next_le, hl.dialled_eq, hl.inFlight, hl.account, hl.recorded, hl.others⟩
    exact top_sound S decay hl' hrun (hfailed hrun)

/-- The ledger and the standing of a race at its first wait. -/
theorem start_sound (now : Instant) :
    Ledger S decay rtt₀ order (start order rtt₀ now) ∧ Standing S order (start order rtt₀ now) := by
  refine top_sound S decay ⟨rfl, Nat.zero_le _, rfl, Nat.zero_le _, List.Perm.refl _, ?_, ?_⟩ rfl ?_
  · intro c hc
    exact absurd hc List.not_mem_nil
  · intro idx _
    rfl
  · intro c hc
    exact absurd hc List.not_mem_nil

end Ledger

/-! ## The contract of a race -/

/-- What is asked of a race of `tier` in this order, from these estimates, whenever it waits and
once it has returned. -/
structure Conforms (rtt₀ : RttMap K n) (tier order : List (Fin n)) (s : Race K n) : Prop where
  inOrder : s.dialled <+: order
  once : s.dialled.Nodup
  ofTier : ∀ idx ∈ s.dialled, idx ∈ tier
  inFlight : s.dials.length ≤ maxConcurrentQueries
  /-- Every server dialled has one attempt, which is in flight or completed. -/
  account : (s.completed.map (·.dial.idx) ++ s.dials.map (·.idx)).Perm s.dialled
  awake : s.result = none → s.dials ≠ [] ∨ s.nextAttempt.isSome
  rcode : ∀ resp, s.result = some (.ok resp) → dnsHeaderLen ≤ resp.length →
    S.headerRcode resp ≠ some .serverFailure ∧ S.headerRcode resp ≠ some .refused ∧
      S.headerRcode resp ≠ some .formatError
  exhausted : ∀ e, s.result = some (.error e) → ∀ idx ∈ tier, idx ∈ s.dialled ∧
    ∃ c ∈ s.completed, c.dial.idx = idx ∧ (c.failure S).isSome
  /-- An attempt that completed failed, or it is the one that won. -/
  outcome : ∀ c ∈ s.completed, (c.failure S).isSome ∨
    ∃ resp, s.result = some (.ok resp) ∧ c.Won S resp
  winner : ∀ resp, s.result = some (.ok resp) → ∃ c ∈ s.completed, c.Won S resp
  /-- One record on the estimates of each server whose attempt completed. -/
  recorded : ∀ c ∈ s.completed, s.rtt c.dial.idx =
    if (c.failure S).isSome then (rtt₀ c.dial.idx).recordFailure decay c.now
    else (rtt₀ c.dial.idx).recordSuccess decay (c.now - c.dial.start) c.datagramRtt c.now
  unchanged : ∀ idx, idx ∉ s.completed.map (·.dial.idx) → s.rtt idx = rtt₀ idx

theorem Conforms.of_sound {rtt₀ : RttMap K n} {tier order : List (Fin n)} {s : Race K n}
    (hp : order.Perm tier) (hnd : tier.Nodup) (hl : Ledger S decay rtt₀ order s)
    (hst : Standing S order s) : Conforms S decay rtt₀ tier order s := by
  have hleading : s.dialled <+: order := hl.dialled_eq ▸ List.take_prefix _ _
  have hone : s.dialled.Nodup := (hp.nodup_iff.mpr hnd).sublist hleading.sublist
  refine ⟨hleading, hone, ?_, hl.inFlight, hl.account, hst.awake, ?_, ?_, ?_, ?_, hl.recorded,
    hl.others⟩
  · intro idx hidx
    exact hp.mem_iff.mp (hleading.subset hidx)
  · intro resp hok
    obtain ⟨-, c, -, -, hwon⟩ := hst.won resp hok
    exact retryable_eq_none S hwon.2
  · intro e herr idx hidx
    obtain ⟨hidle, hall⟩ := hst.lost e herr
    have hfailed := hst.failed (by simp [herr])
    have hdialled : s.dialled = order := by
      rw [hl.dialled_eq, List.take_of_length_le hall]
    have hmem : idx ∈ s.dialled := hdialled ▸ hp.mem_iff.mpr hidx
    have hdone := hl.account.mem_iff.mpr hmem
    rw [hidle, List.map_nil, List.append_nil, List.mem_map] at hdone
    obtain ⟨c, hc, heq⟩ := hdone
    exact ⟨hmem, c, hc, heq, hfailed c hc⟩
  · intro c hc
    by_cases hno : ∀ resp, s.result ≠ some (.ok resp)
    · exact .inl (hst.failed hno c hc)
    · obtain ⟨resp, hok⟩ := not_forall_not.mp hno
      obtain ⟨failures, last, hlast, hfailed, hwon⟩ := hst.won resp hok
      rw [hlast] at hc
      rcases List.mem_append.mp hc with hold | hnew
      · exact .inl (hfailed c hold)
      · exact .inr ⟨resp, hok, List.mem_singleton.mp hnew ▸ hwon⟩
  · intro resp hok
    obtain ⟨failures, last, hlast, -, hwon⟩ := hst.won resp hok
    exact ⟨last, hlast ▸ List.mem_append_right _ (List.mem_singleton_self _), hwon⟩

end Race

/-! ## Both tiers -/

namespace SendQuery

variable [LE K] [DecidableLE K] (primaryCount : Nat)

/-- The race of a tier with the order its estimates gave, as far as it has come. -/
def Sound (rtt₀ : RttMap K n) (now : Instant) (tier : List (Fin n)) (s : Race K n) : Prop :=
  Race.Ledger S decay rtt₀ (orderIndices decay rtt₀ now tier) s ∧
    Race.Standing S (orderIndices decay rtt₀ now tier) s

/-- The invariant of `send_query`: a sound race of the primary tier, or that race lost and a sound
race of the fallback tier. -/
def Inv (rtt₀ : RttMap K n) (now : Instant) : SendQuery K n → Prop
  | .primary race =>
    Sound S decay rtt₀ now (primaryIndices n primaryCount) race ∧
      ((∃ e, race.result = some (.error e)) → primaryCount = n)
  | .fallback first race =>
    Sound S decay rtt₀ now (primaryIndices n primaryCount) first ∧
      (∃ e, first.result = some (.error e)) ∧ primaryCount ≠ n ∧
      Sound S decay first.rtt first.clock (fallbackIndices n primaryCount) race

variable {rtt₀ : RttMap K n} {now : Instant}

theorem nodup_primaryIndices (n primaryCount : Nat) : (primaryIndices n primaryCount).Nodup :=
  (List.nodup_finRange n).sublist (List.take_sublist _ _)

theorem nodup_fallbackIndices (n primaryCount : Nat) : (fallbackIndices n primaryCount).Nodup :=
  (List.nodup_finRange n).sublist (List.drop_sublist _ _)

theorem escalate_inv {race : Race K n}
    (h : Sound S decay rtt₀ now (primaryIndices n primaryCount) race) :
    Inv S decay primaryCount rtt₀ now (escalate decay primaryCount race) := by
  unfold escalate
  split
  · next e he =>
    split
    · next hall => exact ⟨h, fun _ => hall⟩
    · next hmore => exact ⟨h, ⟨e, he⟩, hmore, Race.start_sound S decay race.clock⟩
  · next hne => exact ⟨h, fun ⟨e, he⟩ => absurd he (hne e)⟩

theorem step_inv {q q' : SendQuery K n} {e : Wake n} (h : Inv S decay primaryCount rtt₀ now q)
    (hs : q.step S decay primaryCount e = some q') : Inv S decay primaryCount rtt₀ now q' := by
  cases q with
  | primary race =>
    obtain ⟨race', hr, rfl⟩ := Option.map_eq_some_iff.mp hs
    have hnd := orderIndices_nodup decay rtt₀ now (nodup_primaryIndices n primaryCount)
    exact escalate_inv S decay primaryCount (Race.step_sound S decay hnd h.1 hr)
  | fallback first race =>
    obtain ⟨race', hr, rfl⟩ := Option.map_eq_some_iff.mp hs
    obtain ⟨hfirst, hlost, hmore, hrace⟩ := h
    have hnd := orderIndices_nodup decay first.rtt first.clock
      (nodup_fallbackIndices n primaryCount)
    exact ⟨hfirst, hlost, hmore, Race.step_sound S decay hnd hrace hr⟩

theorem start_inv {q : SendQuery K n} (hq : start decay primaryCount rtt₀ now = .ok q) :
    Inv S decay primaryCount rtt₀ now q := by
  unfold start at hq
  split at hq
  · simp at hq
  · cases hq
    exact escalate_inv S decay primaryCount (Race.start_sound S decay now)

/-- What is asked of `send_query`, at every wait and once it has returned. -/
structure Conforms (rtt₀ : RttMap K n) (now : Instant) (q : SendQuery K n) : Prop where
  first : Race.Conforms S decay rtt₀ (primaryIndices n primaryCount)
    (orderIndices decay rtt₀ now (primaryIndices n primaryCount)) q.first
  second : ∀ race, q.second = some race →
    Race.Conforms S decay q.first.rtt (fallbackIndices n primaryCount)
      (orderIndices decay q.first.rtt q.first.clock (fallbackIndices n primaryCount)) race
  /-- A fallback server is dialled only after every primary server was dialled and failed. -/
  deferred : ∀ idx ∈ q.dialled, idx ∈ fallbackIndices n primaryCount →
    ∀ idx ∈ primaryIndices n primaryCount, idx ∈ q.first.dialled ∧
      ∃ c ∈ q.first.completed, c.dial.idx = idx ∧ (c.failure S).isSome
  /-- When the primary tier is lost, the fallback tier is raced if there is one. -/
  escalates : ∀ e, q.first.result = some (.error e) → fallbackIndices n primaryCount ≠ [] →
    ∃ race, q = .fallback q.first race

theorem Conforms.of_inv {q : SendQuery K n} (h : Inv S decay primaryCount rtt₀ now q) :
    Conforms S decay primaryCount rtt₀ now q := by
  have hp := nodup_primaryIndices n primaryCount
  have hf := nodup_fallbackIndices n primaryCount
  cases q with
  | primary race =>
    obtain ⟨hrace, hall⟩ := h
    have hfirst := Race.Conforms.of_sound S decay (orderIndices_perm decay rtt₀ now _) hp hrace.1
      hrace.2
    refine ⟨hfirst, fun _ hnone => (nomatch hnone), ?_, ?_⟩
    · intro idx hidx hfall
      -- No race but the primary one has dialled, and the tiers are disjoint.
      have hprim : idx ∈ primaryIndices n primaryCount :=
        hfirst.ofTier idx ((List.append_nil race.dialled) ▸ hidx)
      have hdisj := List.disjoint_take_drop (List.nodup_finRange n) (Nat.le_refl primaryCount)
      exact absurd hfall (fun h => hdisj hprim h)
    · intro e he hne
      refine absurd ?_ hne
      unfold fallbackIndices
      rw [hall ⟨e, he⟩]
      exact List.drop_of_length_le (by rw [List.length_finRange])
  | fallback first race =>
    obtain ⟨hfirst, ⟨e, he⟩, -, hrace⟩ := h
    have hfirst' := Race.Conforms.of_sound S decay (orderIndices_perm decay rtt₀ now _) hp
      hfirst.1 hfirst.2
    refine ⟨hfirst', ?_, fun _ _ _ => hfirst'.exhausted e he, fun _ _ _ => ⟨race, rfl⟩⟩
    intro race' hrace'
    cases hrace'
    exact Race.Conforms.of_sound S decay (orderIndices_perm decay first.rtt first.clock _) hf
      hrace.1 hrace.2

end SendQuery

end

/-- Whatever the attempts do and whenever, `send_query` races its tiers as asked. -/
theorem send_query_races {K : Type} [NatCast K] [Add K] [Sub K] [Mul K] [Div K] [Min K] [LE K]
    [DecidableLE K] (S : SimpleDns) (decay : Nat → K) (state : ResolverState)
    (rtt₀ : RttMap K state.config.nameservers.length) (now : Instant)
    (q₀ q : SendQuery K state.config.nameservers.length)
    (events : List (Wake state.config.nameservers.length))
    (hstart : SendQuery.start decay state.primaryCount rtt₀ now = .ok q₀)
    (hrun : Machine.run (SendQuery.step S decay state.primaryCount) q₀ events = some q) :
    SendQuery.Conforms S decay state.primaryCount rtt₀ now q := by
  apply SendQuery.Conforms.of_inv
  refine Machine.run_invariant (P := SendQuery.Inv S decay state.primaryCount rtt₀ now) ?_
    (SendQuery.start_inv S decay state.primaryCount hstart) hrun
  intro s e s' hs hstep
  exact SendQuery.step_inv S decay state.primaryCount hs hstep

/-! ## A run that escalates -/

def primaryServer : Nameserver := ⟨⟨.v4 ⟨0x0a000001⟩, 53⟩, .udp, none⟩

def fallbackServer : Nameserver := ⟨⟨.v4 ⟨0x08080808⟩, 53⟩, .udp, none⟩

/-- One configured server and one fallback server, in the default mode. -/
def twoTiers : ResolverState :=
  .build { nameservers := [primaryServer], fallbackNameservers := [fallbackServer] } {}

/-- The header of a reply that answers, in a buffer of its own. -/
def emptyReply : Bytes := [0, 7, 0x81, 0x80, 0, 0, 0, 0, 0, 0, 0, 0]

abbrev EscalationWake := Wake twoTiers.config.nameservers.length

/-- The primary server times out. -/
def primaryTimeout : EscalationWake :=
  .completed ⟨⟨⟨0, by decide⟩, 0⟩, 6000000000, .error .timeout⟩

/-- The fallback server answers a millisecond after it was dialled. -/
def fallbackReply : EscalationWake :=
  .completed ⟨⟨⟨1, by decide⟩, 6000000000⟩, 6001000000, .ok (emptyReply, some 1000000)⟩

def primaryRace : Race Float twoTiers.config.nameservers.length :=
  .start [⟨0, by decide⟩] (.new 0) 0

def lostRace : Race Float twoTiers.config.nameservers.length :=
  Option.get (primaryRace.step (.ofTable []) floatDecay primaryTimeout) rfl

def escalatedRace : Race Float twoTiers.config.nameservers.length :=
  .start [⟨1, by decide⟩] lostRace.rtt lostRace.clock

def wonRace : Race Float twoTiers.config.nameservers.length :=
  Option.get (escalatedRace.step (.ofTable []) floatDecay fallbackReply) rfl

theorem twoTiers_start :
    SendQuery.start floatDecay twoTiers.primaryCount (.new 0) 0 = .ok (.primary primaryRace) := by
  unfold SendQuery.start
  rw [if_neg (by decide), show SendQuery.primaryIndices _ _ = [⟨0, by decide⟩] from rfl,
    orderIndices_singleton]
  rfl

theorem twoTiers_run :
    Machine.run (SendQuery.step (.ofTable []) floatDecay twoTiers.primaryCount)
      (.primary primaryRace) [primaryTimeout, fallbackReply] = some (.fallback lostRace wonRace) := by
  have hlost : SendQuery.step (.ofTable []) floatDecay twoTiers.primaryCount
      (.primary primaryRace) primaryTimeout = some (.fallback lostRace escalatedRace) := by
    unfold escalatedRace
    rw [← orderIndices_singleton floatDecay lostRace.rtt lostRace.clock]
    rfl
  rw [Machine.run_cons_some hlost]
  rfl

/-- The primary server times out and the fallback server answers, in the code's own arithmetic. -/
theorem send_query_races_twoTiers : wonRace.result = some (.ok emptyReply) ∧
    SendQuery.Conforms (.ofTable []) floatDecay twoTiers.primaryCount (.new 0) 0
      (.fallback lostRace wonRace) :=
  ⟨rfl, send_query_races _ _ _ _ _ _ _ _ twoTiers_start twoTiers_run⟩

end N0DnsResolver
