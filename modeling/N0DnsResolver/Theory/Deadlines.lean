/-
  How long a lookup waits for its nameservers.

  In a timely run nothing is served more than `lag` after it was due. `Race.Paced` is the
  invariant of such a run: the start timer, the attempts in flight and the clock keep to
  the schedule `startsBy`, which depends on nothing but the place of a server in the order.
  So a race of any tier ends, after so many turns and by a bound that the tier's length
  gives (`send_query_ends_in_time`), and a server is dialled by its turn in the schedule
  however badly those before it do (`dialled_in_turn`).
-/
import N0DnsResolver.Model.Deadlines
import N0DnsResolver.Theory.Escalation

namespace N0DnsResolver

/-! ## One attempt -/

namespace NameserverQuery

/-- An attempt begun at `start` sends its second query, and returns, in time. -/
def InTime (limit lag start : Nat) : NameserverQuery → Prop
  | .first since => since = start
  | .retry since => since ≤ start + (limit + lag)
  | .returned now _ => now ≤ start + 2 * (limit + lag)

/-- The queries an attempt may still send, the one under way included. -/
def queriesLeft : NameserverQuery → Nat
  | .first _ => 2
  | .retry _ => 1
  | .returned _ _ => 0

variable {S : SimpleDns} {limit lag start : Nat} {query : Bytes} {a a' : NameserverQuery}

/-- After its first query an attempt has returned, or sends the query again without EDNS. -/
theorem afterFirst_cases (now : Instant) (reply : Reply) :
    afterFirst S query now reply = .retry now ∨
      ∃ reply', afterFirst S query now reply = .returned now reply' := by
  unfold afterFirst
  split
  · split
    · split
      · exact .inl rfl
      · exact .inr ⟨_, rfl⟩
    · exact .inr ⟨_, rfl⟩
  · exact .inr ⟨_, rfl⟩

/-- What a query of an attempt can come to. -/
theorem step_cases {e : LimitWake} (h : a.step S limit query e = some a') :
    (∃ since, a = .first since ∧ (a' = .retry e.now ∨ ∃ reply, a' = .returned e.now reply)) ∨
      ∃ since reply, a = .retry since ∧ a' = .returned e.now reply := by
  cases a with
  | first since =>
    refine .inl ⟨since, rfl, ?_⟩
    cases e with
    | replied now reply =>
      obtain ⟨-, hreturned⟩ := Option.ite_none_right_eq_some.mp h
      cases hreturned
      exact afterFirst_cases now reply
    | expired now =>
      obtain ⟨-, hreturned⟩ := Option.ite_none_right_eq_some.mp h
      cases hreturned
      exact .inr ⟨_, rfl⟩
  | retry since =>
    cases e with
    | replied now reply =>
      obtain ⟨-, hreturned⟩ := Option.ite_none_right_eq_some.mp h
      cases hreturned
      exact .inr ⟨since, _, rfl, rfl⟩
    | expired now =>
      obtain ⟨-, hreturned⟩ := Option.ite_none_right_eq_some.mp h
      cases hreturned
      exact .inr ⟨since, _, rfl, rfl⟩
  | returned now reply => cases h

theorem step_inTime {e : LimitWake} (h : InTime limit lag start a)
    (hon : (timing limit).OnTime lag a e) (hstep : a.step S limit query e = some a') :
    InTime limit lag start a' := by
  obtain ⟨since, rfl, hafter⟩ | ⟨since, reply, rfl, rfl⟩ := step_cases hstep
  · have hsince : since = start := h
    have hnow : e.now ≤ since + limit + lag := hon _ (List.mem_singleton_self _)
    rw [hsince, Nat.add_assoc] at hnow
    rcases hafter with rfl | ⟨reply, rfl⟩
    · exact hnow
    · show e.now ≤ start + 2 * (limit + lag)
      unfold Instant at *
      omega
  · have hsince : since ≤ start + (limit + lag) := h
    have hnow : e.now ≤ since + limit + lag := hon _ (List.mem_singleton_self _)
    show e.now ≤ start + 2 * (limit + lag)
    unfold Instant at *
    omega

theorem step_queriesLeft {e : LimitWake} (hstep : a.step S limit query e = some a') :
    a'.queriesLeft < a.queriesLeft := by
  obtain ⟨since, rfl, rfl | ⟨reply, rfl⟩⟩ | ⟨since, reply, rfl, rfl⟩ := step_cases hstep <;>
    exact of_decide_eq_true rfl

/-- An attempt sends two queries at most, and returns within two limits. -/
theorem returns_in_time {events : List LimitWake}
    (hrun : Machine.run (step S limit query) (.first start) events = some a)
    (htimely : (timing limit).Timely lag (step S limit query) (.first start) events) :
    events.length ≤ 2 ∧ InTime limit lag start a := by
  have hlen : events.length + a.queriesLeft ≤ 2 :=
    Machine.run_length_le (P := fun _ => True) (fun a e a' _ hs => ⟨trivial, step_queriesLeft hs⟩)
      trivial hrun
  have hstart : InTime limit lag start (.first start) := rfl
  refine ⟨Nat.le_trans (Nat.le_add_right _ _) hlen, ?_⟩
  exact Machine.run_invariant_along (fun a e a' ha hon hs => step_inTime ha hon hs) hstart htimely
    hrun

end NameserverQuery

/-! ## The schedule of a race -/

/-- When the server in place `k` of an order is dialled, counted from the start of the race, with no
timer more than `lag` late and no attempt longer than `length`. -/
def startsBy (lag length k : Nat) : Nat :=
  startBy maxConcurrentQueries (queryAttemptDelay + lag) length k

/-- When a race of `m` servers is over. -/
def endsBy (lag length : Nat) : Nat → Nat
  | 0 => 0
  | m + 1 => startsBy lag length m + length

/-- When something happens in a race of `m` servers that has come to place `k`. -/
def wakesBy (lag length m k : Nat) : Nat :=
  if k < m then startsBy lag length k else endsBy lag length m

section Schedule

variable (lag length : Nat)

theorem startsBy_add_delay (k : Nat) :
    startsBy lag length k + (queryAttemptDelay + lag) ≤ startsBy lag length (k + 1) :=
  startBy_add_delay (by decide) _ _ _

theorem startsBy_add_length (k : Nat) :
    startsBy lag length k + length ≤ startsBy lag length (k + maxConcurrentQueries) :=
  startBy_add_length (by decide) _ _ _

theorem startsBy_mono : Monotone (startsBy lag length) := startBy_mono (by decide) _ _

theorem add_length_le_endsBy {k m : Nat} (h : k < m) :
    startsBy lag length k + length ≤ endsBy lag length m := by
  cases m with
  | zero => exact absurd h (Nat.not_lt_zero k)
  | succ m => exact Nat.add_le_add_right (startsBy_mono lag length (Nat.le_of_lt_succ h)) length

theorem wakesBy_of_lt {k m : Nat} (h : k < m) : wakesBy lag length m k = startsBy lag length k :=
  if_pos h

theorem wakesBy_le_endsBy (k m : Nat) : wakesBy lag length m k ≤ endsBy lag length m := by
  unfold wakesBy
  split
  · next h => exact Nat.le_trans (Nat.le_add_right _ _) (add_length_le_endsBy lag length h)
  · exact Nat.le_refl _

theorem wakesBy_mono (m : Nat) : Monotone (wakesBy lag length m) := by
  intro j k hjk
  by_cases hk : k < m
  · rw [wakesBy_of_lt lag length hk, wakesBy_of_lt lag length (Nat.lt_of_le_of_lt hjk hk)]
    exact startsBy_mono lag length hjk
  · have hend : wakesBy lag length m k = endsBy lag length m := if_neg hk
    rw [hend]
    exact wakesBy_le_endsBy lag length j m

end Schedule

/-- Removing an element moves those behind it one place to the front. -/
theorem getElem?_erase {α : Type} [DecidableEq α] {l : List α} {a b : α} {i : Nat}
    (h : (l.erase a)[i]? = some b) : ∃ j, j ≤ i + 1 ∧ l[j]? = some b := by
  rw [List.erase_eq_eraseIdx_of_idxOf rfl, List.getElem?_eraseIdx] at h
  split at h
  · exact ⟨i, Nat.le_succ i, h⟩
  · exact ⟨i + 1, Nat.le_refl _, h⟩

namespace Race

section Schedule

variable {K : Type} {n : Nat}

/-- What a race of `order` begun at `t₀` keeps to whatever its attempts do, at its waits and between
them. -/
structure Steady (lag length : Nat) (t₀ : Instant) (order : List (Fin n)) (s : Race K n) :
    Prop where
  order_eq : s.order = order
  next_le : s.next ≤ order.length
  dials_le : s.dials.length ≤ s.next
  /-- An attempt in flight was begun no later than the place it has at least. -/
  begun : ∀ i d, s.dials[i]? = some d →
    d.start ≤ t₀ + startsBy lag length (s.next - s.dials.length + i)
  placed : ∀ d ∈ s.dials, ∃ p, order[p]? = some d.idx ∧ d.start ≤ t₀ + startsBy lag length p
  timer : ∀ due, s.nextAttempt = some due →
    s.next < order.length ∧ due + lag ≤ t₀ + startsBy lag length s.next
  clock_le : s.clock ≤ t₀ + wakesBy lag length order.length s.next

/-- A race at a wait: it waits for its timer, for room among the attempts in flight, or for the last
of these. -/
structure Paced (lag length : Nat) (t₀ : Instant) (order : List (Fin n)) (s : Race K n) : Prop
    extends Steady lag length t₀ order s where
  waits : s.result = none →
    s.nextAttempt.isSome ∨ maxConcurrentQueries ≤ s.dials.length ∨
      order.length ≤ s.next ∧ s.dials ≠ []

variable {lag length : Nat} {t₀ : Instant} {order : List (Fin n)} {s s' : Race K n}

/-- A wake takes an attempt out of flight or none, and stops the timer or leaves it. -/
theorem Steady.wake (h : Steady lag length t₀ order s) (horder : s'.order = s.order)
    (hnext : s'.next = s.next)
    (hdials : s'.dials = s.dials ∨ ∃ d ∈ s.dials, s'.dials = s.dials.erase d)
    (htimer : s'.nextAttempt = none ∨ s'.nextAttempt = s.nextAttempt)
    (hclock : s'.clock ≤ t₀ + wakesBy lag length order.length s.next) :
    Steady lag length t₀ order s' := by
  have hsub : ∀ d ∈ s'.dials, d ∈ s.dials := by
    intro d hd
    rcases hdials with heq | ⟨c, -, heq⟩
    · exact heq ▸ hd
    · exact List.mem_of_mem_erase (heq ▸ hd)
  refine ⟨horder.trans h.order_eq, hnext ▸ h.next_le, ?_, ?_, ?_, ?_, hnext ▸ hclock⟩
  · have hle : s'.dials.length ≤ s.dials.length := by
      rcases hdials with heq | ⟨c, -, heq⟩
      · rw [heq]
      · rw [heq]
        exact List.length_erase_le
    exact hnext ▸ Nat.le_trans hle h.dials_le
  · intro i d hd
    rw [hnext]
    rcases hdials with heq | ⟨c, hc, heq⟩
    · rw [heq] at hd ⊢
      exact h.begun i d hd
    · rw [heq] at hd ⊢
      obtain ⟨j, hj, hget⟩ := getElem?_erase hd
      have hlen : (s.dials.erase c).length = s.dials.length - 1 := List.length_erase_of_mem hc
      have hpos : 0 < s.dials.length := List.length_pos_of_mem hc
      have hfew := h.dials_le
      have hplace : s.next - s.dials.length + j ≤ s.next - (s.dials.erase c).length + i := by omega
      exact Nat.le_trans (h.begun j d hget)
        (Nat.add_le_add_left (startsBy_mono lag length hplace) t₀)
  · intro d hd
    exact h.placed d (hsub d hd)
  · intro due hdue
    rcases htimer with hnone | hsame
    · rw [hnone] at hdue
      cases hdue
    · rw [hnext]
      exact h.timer due (hsame ▸ hdue)

/-- The next server is dialled in its turn. -/
theorem Steady.dial {idx : Fin n} (h : Steady lag length t₀ order s)
    (hidx : s.order[s.next]? = some idx) (htimer : s.nextAttempt = none) :
    Steady lag length t₀ order (s.dial s.clock idx) := by
  rw [h.order_eq] at hidx
  obtain ⟨hlt, -⟩ := List.getElem?_eq_some_iff.mp hidx
  have hclock : s.clock ≤ t₀ + startsBy lag length s.next :=
    wakesBy_of_lt lag length hlt ▸ h.clock_le
  have hlen : (s.dials ++ [(⟨idx, s.clock⟩ : Dial n)]).length = s.dials.length + 1 := by simp
  have hfew := h.dials_le
  refine ⟨h.order_eq, hlt, ?_, ?_, ?_, ?_, ?_⟩
  · show (s.dials ++ [_]).length ≤ s.next + 1
    omega
  · intro i d hd
    have hplace : s.next + 1 - (s.dials ++ [(⟨idx, s.clock⟩ : Dial n)]).length + i =
        s.next - s.dials.length + i := by omega
    show d.start ≤ t₀ + startsBy lag length
      (s.next + 1 - (s.dials ++ [(⟨idx, s.clock⟩ : Dial n)]).length + i)
    rw [hplace]
    have hget : (s.dials ++ [(⟨idx, s.clock⟩ : Dial n)])[i]? = some d := hd
    by_cases hi : i < s.dials.length
    · rw [List.getElem?_append_left hi] at hget
      exact h.begun i d hget
    · rw [List.getElem?_append_right (Nat.not_lt.mp hi)] at hget
      obtain ⟨hone, hd⟩ := List.getElem?_eq_some_iff.mp hget
      have hi' : i = s.dials.length := by
        have : i - s.dials.length < 1 := hone
        omega
      have hlast : s.next - s.dials.length + i = s.next := by omega
      rw [hlast, ← hd]
      simpa using hclock
  · intro d hd
    rcases List.mem_append.mp hd with hold | hnew
    · exact h.placed d hold
    · rw [List.mem_singleton.mp hnew]
      exact ⟨s.next, hidx, hclock⟩
  · intro due hdue
    have hdue' : (if s.next + 1 < s.order.length then some (s.clock + queryAttemptDelay)
        else s.nextAttempt) = some due := hdue
    split at hdue'
    · next hmore =>
      cases hdue'
      have hnext := startsBy_add_delay lag length s.next
      refine ⟨h.order_eq ▸ hmore, ?_⟩
      show s.clock + queryAttemptDelay + lag ≤ t₀ + startsBy lag length (s.next + 1)
      unfold Instant at *
      omega
    · rw [htimer] at hdue'
      cases hdue'
  · exact Nat.le_trans h.clock_le
      (Nat.add_le_add_left (wakesBy_mono lag length order.length (Nat.le_succ s.next)) t₀)

/-- The head of the loop dials nothing while the timer runs. -/
theorem launch_of_pending {due : Instant} (h : s.nextAttempt = some due) (now : Instant) :
    s.launch now = s := by
  unfold launch
  cases s.order[s.next]? with
  | none => rfl
  | some idx => exact if_neg fun hc => by simp [h] at hc

theorem Steady.launch (h : Steady lag length t₀ order s) :
    Steady lag length t₀ order (s.launch s.clock) ∧
      ((s.launch s.clock).nextAttempt.isSome ∨
        maxConcurrentQueries ≤ (s.launch s.clock).dials.length ∨
          order.length ≤ (s.launch s.clock).next) := by
  cases htimer : s.nextAttempt with
  | some due =>
    rw [launch_of_pending htimer, htimer]
    exact ⟨h, .inl rfl⟩
  | none =>
    rcases launch_cases s.clock s with ⟨idx, hidx, -, heq⟩ | ⟨hwait, heq⟩
    · rw [heq]
      refine ⟨h.dial hidx htimer, ?_⟩
      by_cases hmore : s.next + 1 < s.order.length
      · left
        show (if s.next + 1 < s.order.length then some (s.clock + queryAttemptDelay)
          else s.nextAttempt).isSome
        rw [if_pos hmore]
        rfl
      · exact .inr (.inr (h.order_eq ▸ Nat.not_lt.mp hmore))
    · rw [heq]
      refine ⟨h, ?_⟩
      rcases hwait with hdone | hpending | hfull
      · exact .inr (.inr (h.order_eq ▸ hdone))
      · exact .inl hpending
      · exact .inr (.inl hfull)

/-- From the head of its loop a race comes to a wait, or ends. -/
theorem Steady.top (h : Steady lag length t₀ order s) :
    Paced lag length t₀ order (s.top s.clock) := by
  obtain ⟨hl, hwait⟩ := h.launch
  unfold Race.top
  simp only
  split
  · exact ⟨⟨hl.order_eq, hl.next_le, hl.dials_le, hl.begun, hl.placed, hl.timer, hl.clock_le⟩,
      fun hnone => nomatch hnone⟩
  · next hopen =>
    refine ⟨hl, fun _ => ?_⟩
    rcases hwait with hpending | hfull | hdone
    · exact .inl hpending
    · exact .inr (.inl hfull)
    · exact .inr (.inr ⟨hdone, fun hnil => hopen ⟨hnil, hl.order_eq ▸ hdone⟩⟩)

theorem start_paced (order : List (Fin n)) (rtt : RttMap K n) (t₀ : Instant) :
    Paced lag length t₀ order (start order rtt t₀) := by
  have h : Steady lag length t₀ order (initial order rtt t₀) :=
    ⟨rfl, Nat.zero_le _, Nat.zero_le _, fun i d hd => (nomatch hd), fun d hd => (nomatch hd),
      fun due hdue => (nomatch hdue), Nat.le_add_right _ _⟩
  exact h.top

section Timely

variable {limit : Fin n → Nat} (hlimit : ∀ idx, limit idx + lag ≤ length)
include hlimit

/-- While a race waits, something is due by the bound of its place. -/
theorem Paced.due (h : Paced lag length t₀ order s) (hrun : s.result = none) :
    ∃ d ∈ (timing limit).due s, d + lag ≤ t₀ + wakesBy lag length order.length s.next := by
  have hdial : ∀ d ∈ s.dials, d.start + limit d.idx ∈ (timing limit).due s := fun d hd =>
    List.mem_append_right _ (List.mem_map_of_mem hd)
  by_cases hlt : s.next < order.length
  · rw [wakesBy_of_lt lag length hlt]
    rcases h.waits hrun with hpending | hfull | ⟨hdone, -⟩
    · obtain ⟨due, hdue⟩ := Option.isSome_iff_exists.mp hpending
      refine ⟨due, List.mem_append_left _ ?_, (h.timer due hdue).2⟩
      rw [hdue]
      exact List.mem_singleton_self due
    · -- The attempt that is in flight longest makes room.
      have hpos : 0 < s.dials.length := Nat.lt_of_lt_of_le (by decide) hfull
      have hbegun := h.begun 0 s.dials[0] (List.getElem?_eq_getElem hpos)
      have hplace : s.next - s.dials.length + 0 + maxConcurrentQueries ≤ s.next := by
        have hfew := h.dials_le
        omega
      have hlate := startsBy_add_length lag length (s.next - s.dials.length + 0)
      have hnext := startsBy_mono lag length hplace
      have hlen := hlimit s.dials[0].idx
      refine ⟨_, hdial _ (List.getElem_mem hpos), ?_⟩
      unfold Instant at *
      omega
    · exact absurd hlt (Nat.not_lt.mpr hdone)
  · -- The last attempts are in flight.
    have hwakes : wakesBy lag length order.length s.next = endsBy lag length order.length :=
      if_neg hlt
    have hpos : 0 < s.dials.length := by
      rcases h.waits hrun with hpending | hfull | ⟨-, hflying⟩
      · obtain ⟨due, hdue⟩ := Option.isSome_iff_exists.mp hpending
        exact absurd (h.timer due hdue).1 hlt
      · exact Nat.lt_of_lt_of_le (by decide) hfull
      · exact List.length_pos_of_ne_nil hflying
    obtain ⟨p, hp, hstart⟩ := h.placed s.dials[0] (List.getElem_mem hpos)
    obtain ⟨hplace, -⟩ := List.getElem?_eq_some_iff.mp hp
    have hend := add_length_le_endsBy lag length hplace
    have hlen := hlimit s.dials[0].idx
    refine ⟨_, hdial _ (List.getElem_mem hpos), ?_⟩
    rw [hwakes]
    unfold Instant at *
    omega

end Timely

theorem Paced.clock_within (h : Paced lag length t₀ order s) :
    s.clock ≤ t₀ + endsBy lag length order.length :=
  Nat.le_trans h.clock_le (Nat.add_le_add_left (wakesBy_le_endsBy lag length _ _) t₀)

/-! ## Turns -/

theorem clock_top (now : Instant) (s : Race K n) : (s.top now).clock = s.clock := by
  have hlaunch : (s.launch now).clock = s.clock := by
    rcases launch_cases now s with ⟨idx, -, -, heq⟩ | ⟨-, heq⟩
    · rw [heq]
      rfl
    · rw [heq]
  unfold Race.top
  simp only
  split <;> exact hlaunch

/-- The turns a race can still take. -/
def turnsLeft (s : Race K n) : Nat :=
  2 * (s.order.length - s.next) + s.dials.length + s.nextAttempt.toList.length

theorem turnsLeft_top (now : Instant) (s : Race K n) : (s.top now).turnsLeft ≤ s.turnsLeft := by
  have hlaunch : (s.launch now).turnsLeft ≤ s.turnsLeft := by
    cases htimer : s.nextAttempt with
    | some due => rw [launch_of_pending htimer]
    | none =>
      rcases launch_cases now s with ⟨idx, hidx, -, heq⟩ | ⟨-, heq⟩
      · obtain ⟨hlt, -⟩ := List.getElem?_eq_some_iff.mp hidx
        have hdials : (s.dials ++ [(⟨idx, now⟩ : Dial n)]).length = s.dials.length + 1 := by simp
        have htimers : ∀ t : Option Instant, t.toList.length ≤ 1 := by
          intro t
          cases t <;> simp
        have hone := htimers (s.dial now idx).nextAttempt
        rw [heq]
        show 2 * (s.order.length - (s.next + 1)) + (s.dials ++ [_]).length +
          (s.dial now idx).nextAttempt.toList.length ≤ s.turnsLeft
        unfold turnsLeft
        omega
      · rw [heq]
  unfold Race.top
  simp only
  split <;> exact hlaunch

/-- A race that has a server to dial does not end at once. -/
theorem start_waits {order : List (Fin n)} (h : order ≠ []) (rtt : RttMap K n) (now : Instant) :
    (start order rtt now).result = none := by
  cases order with
  | nil => exact absurd rfl h
  | cons idx rest =>
    have hidx : (idx :: rest)[0]? = some idx := rfl
    unfold start
    rw [top_dial now rfl rfl hidx]
    rfl

theorem turnsLeft_start (order : List (Fin n)) (rtt : RttMap K n) (now : Instant) :
    (start order rtt now).turnsLeft ≤ 2 * order.length := turnsLeft_top now _

section Step

variable [NatCast K] [Add K] [Sub K] [Mul K] [Div K] [Min K]
variable (S : SimpleDns) (decay : Nat → K)

/-- An attempt that completed leaves the race with the attempts but this one in flight. -/
theorem complete_eq (s : Race K n) (c : Completion n) :
    (s.complete S decay c).order = s.order ∧ (s.complete S decay c).next = s.next ∧
      (s.complete S decay c).dials = s.dials.erase c.dial ∧
      ((s.complete S decay c).nextAttempt = none ∨
        (s.complete S decay c).nextAttempt = s.nextAttempt) ∧
      (s.complete S decay c).clock = c.now := by
  rcases c.failed_or_won S with ⟨e, he⟩ | ⟨resp, hw⟩
  · rw [complete_failed S decay he]
    exact ⟨rfl, rfl, rfl, .inl rfl, rfl⟩
  · rw [complete_won S decay hw]
    exact ⟨rfl, rfl, rfl, .inr rfl, rfl⟩

theorem turnsLeft_complete {s : Race K n} {c : Completion n} (hmem : c.dial ∈ s.dials) :
    (s.complete S decay c).turnsLeft < s.turnsLeft := by
  obtain ⟨horder, hnext, hdials, htimer, -⟩ := complete_eq S decay s c
  have hlen : (s.dials.erase c.dial).length = s.dials.length - 1 := List.length_erase_of_mem hmem
  have hpos : 0 < s.dials.length := List.length_pos_of_mem hmem
  have htimers : (s.complete S decay c).nextAttempt.toList.length ≤
      s.nextAttempt.toList.length := by
    rcases htimer with hnone | hsame
    · rw [hnone]
      exact Nat.zero_le _
    · rw [hsame]
  unfold turnsLeft
  rw [horder, hnext, hdials, hlen]
  omega

/-- Every turn uses an attempt in flight up, or the timer. -/
theorem turnsLeft_step {e : Wake n} (h : s.step S decay e = some s') :
    s'.turnsLeft < s.turnsLeft := by
  obtain ⟨-, ⟨c, err, -, hmem, -, -, rfl⟩ | ⟨c, resp, -, hmem, -, -, rfl⟩ |
    ⟨now, due, -, hdue, -, -, rfl⟩⟩ := step_cases S decay h
  · exact Nat.lt_of_le_of_lt (turnsLeft_top _ _) (turnsLeft_complete S decay hmem)
  · exact turnsLeft_complete S decay hmem
  · refine Nat.lt_of_le_of_lt (turnsLeft_top _ _) ?_
    unfold turnsLeft
    rw [hdue]
    exact Nat.lt_succ_self _

theorem clock_step {e : Wake n} (h : s.step S decay e = some s') : s'.clock = e.now := by
  obtain ⟨-, ⟨c, err, rfl, -, -, -, rfl⟩ | ⟨c, resp, rfl, -, -, -, rfl⟩ |
    ⟨now, due, rfl, -, -, -, rfl⟩⟩ := step_cases S decay h
  · rw [clock_top]
    exact (complete_eq S decay s c).2.2.2.2
  · exact (complete_eq S decay s c).2.2.2.2
  · rw [clock_top]
    rfl

/-- Time does not run back. -/
theorem clock_le_step {e : Wake n} (h : s.step S decay e = some s') : s.clock ≤ s'.clock := by
  rw [clock_step S decay h]
  rcases (step_cases S decay h).2 with ⟨c, -, rfl, -, hclock, -⟩ |
    ⟨c, -, rfl, -, hclock, -⟩ | ⟨now, -, rfl, -, -, hclock, -⟩ <;>
  exact hclock

/-- One turn of a timely race. -/
theorem Paced.step {limit : Fin n → Nat} (hlimit : ∀ idx, limit idx + lag ≤ length) {e : Wake n}
    (h : Paced lag length t₀ order s) (hon : (timing limit).OnTime lag s e)
    (hs : s.step S decay e = some s') : Paced lag length t₀ order s' := by
  have hclock := clock_step S decay hs
  obtain ⟨hrun, hcases⟩ := step_cases S decay hs
  have hnow : e.now ≤ t₀ + wakesBy lag length order.length s.next := by
    obtain ⟨d, hd, hle⟩ := h.due hlimit hrun
    exact Nat.le_trans (hon d hd) hle
  have hcomplete : ∀ c, c.dial ∈ s.dials → e = .completed c →
      Steady lag length t₀ order (s.complete S decay c) := by
    rintro c hmem rfl
    obtain ⟨horder, hnext, hdials, htimer, hclock⟩ := complete_eq S decay s c
    exact h.toSteady.wake horder hnext (.inr ⟨c.dial, hmem, hdials⟩) htimer (hclock ▸ hnow)
  rcases hcases with ⟨c, err, rfl, hmem, -, -, rfl⟩ | ⟨c, resp, rfl, hmem, -, hw, rfl⟩ |
    ⟨now, due, rfl, -, -, -, rfl⟩
  · have hat : (s.complete S decay c).clock = c.now := (complete_eq S decay s c).2.2.2.2
    rw [← hat]
    exact (hcomplete c hmem rfl).top
  · refine ⟨hcomplete c hmem rfl, fun hnone => ?_⟩
    rw [complete_won S decay hw] at hnone
    cases hnone
  · have hsteady : Steady lag length t₀ order { s with nextAttempt := none, clock := now } :=
      h.toSteady.wake rfl rfl (.inl rfl) (.inl rfl) hnow
    exact hsteady.top

end Step

end Schedule

end Race

/-! ## Both tiers -/

namespace SendQuery

theorem length_tiers (n primaryCount : Nat) :
    (primaryIndices n primaryCount).length = min primaryCount n ∧
      (fallbackIndices n primaryCount).length = n - primaryCount := by
  unfold primaryIndices fallbackIndices
  rw [List.length_take, List.length_drop, List.length_finRange]
  exact ⟨rfl, rfl⟩

section Tiers

variable {K : Type} {n : Nat} [NatCast K] [Add K] [Sub K] [Mul K] [Div K] [Min K]
variable [LE K] [DecidableLE K] (S : SimpleDns) (decay : Nat → K) (primaryCount : Nat)
variable (lag length : Nat) (rtt₀ : RttMap K n) (now : Instant)

/-- The order of the primary tier. -/
def firstOrder : List (Fin n) := orderIndices decay rtt₀ now (primaryIndices n primaryCount)

/-- The order of the fallback tier after a race of the primary one. -/
def secondOrder (first : Race K n) : List (Fin n) :=
  orderIndices decay first.rtt first.clock (fallbackIndices n primaryCount)

/-- Both races keep to the schedule, each from its own start. -/
def Paced : SendQuery K n → Prop
  | .primary race => race.Paced lag length now (firstOrder decay primaryCount rtt₀ now)
  | .fallback first race =>
    first.Paced lag length now (firstOrder decay primaryCount rtt₀ now) ∧
      race.Paced lag length first.clock (secondOrder decay primaryCount first)

/-- When both tiers are over. -/
def tiersEndBy (n primaryCount lag length : Nat) : Nat :=
  endsBy lag length (primaryIndices n primaryCount).length +
    endsBy lag length (fallbackIndices n primaryCount).length

/-- The turns `send_query` can still take. -/
def turnsLeft : SendQuery K n → Nat
  | .primary race => race.turnsLeft + 2 * (fallbackIndices n primaryCount).length
  | .fallback _ race => race.turnsLeft

variable {lag length rtt₀ now} {q q' : SendQuery K n}

omit [Div K] [Min K] in
theorem length_firstOrder :
    (firstOrder decay primaryCount rtt₀ now).length = (primaryIndices n primaryCount).length :=
  (orderIndices_perm decay rtt₀ now _).length_eq

omit [Div K] [Min K] in
theorem length_secondOrder (first : Race K n) :
    (secondOrder decay primaryCount first).length = (fallbackIndices n primaryCount).length :=
  (orderIndices_perm decay first.rtt first.clock _).length_eq

omit [Div K] [Min K] in
theorem escalate_paced {race : Race K n}
    (h : race.Paced lag length now (firstOrder decay primaryCount rtt₀ now)) :
    Paced decay primaryCount lag length rtt₀ now (escalate decay primaryCount race) := by
  unfold escalate
  split
  · split
    · exact h
    · exact ⟨h, Race.start_paced _ _ _⟩
  · exact h

omit [Div K] [Min K] in
theorem turnsLeft_escalate (race : Race K n) :
    (escalate decay primaryCount race).turnsLeft primaryCount ≤
      race.turnsLeft + 2 * (fallbackIndices n primaryCount).length := by
  unfold escalate
  split
  · split
    · exact Nat.le_refl _
    · have hstart := Race.turnsLeft_start
        (secondOrder decay primaryCount race) race.rtt race.clock
      rw [length_secondOrder] at hstart
      exact Nat.le_trans hstart (Nat.le_add_left _ _)
  · exact Nat.le_refl _

theorem turnsLeft_step {e : Wake n} (h : q.step S decay primaryCount e = some q') :
    q'.turnsLeft primaryCount < q.turnsLeft primaryCount := by
  cases q with
  | primary race =>
    obtain ⟨race', hr, rfl⟩ := Option.map_eq_some_iff.mp h
    exact Nat.lt_of_le_of_lt (turnsLeft_escalate decay primaryCount race')
      (Nat.add_lt_add_right (Race.turnsLeft_step S decay hr) _)
  | fallback first race =>
    obtain ⟨race', hr, rfl⟩ := Option.map_eq_some_iff.mp h
    exact Race.turnsLeft_step S decay hr

theorem Paced.step {limit : Fin n → Nat} (hlimit : ∀ idx, limit idx + lag ≤ length) {e : Wake n}
    (h : Paced decay primaryCount lag length rtt₀ now q) (hon : (timing limit).OnTime lag q e)
    (hs : q.step S decay primaryCount e = some q') :
    Paced decay primaryCount lag length rtt₀ now q' := by
  cases q with
  | primary race =>
    obtain ⟨race', hr, rfl⟩ := Option.map_eq_some_iff.mp hs
    exact escalate_paced decay primaryCount (Race.Paced.step S decay hlimit h hon hr)
  | fallback first race =>
    obtain ⟨race', hr, rfl⟩ := Option.map_eq_some_iff.mp hs
    exact ⟨h.1, Race.Paced.step S decay hlimit h.2 hon hr⟩

omit [Div K] [Min K] in
theorem start_paced (hq : start decay primaryCount rtt₀ now = .ok q) :
    Paced decay primaryCount lag length rtt₀ now q ∧ q.turnsLeft primaryCount ≤ 2 * n := by
  unfold start at hq
  split at hq
  · cases hq
  · cases hq
    refine ⟨escalate_paced decay primaryCount (Race.start_paced _ _ _), ?_⟩
    have hturns := Race.turnsLeft_start (firstOrder decay primaryCount rtt₀ now) rtt₀ now
    obtain ⟨hprimary, hfallback⟩ := length_tiers n primaryCount
    rw [length_firstOrder] at hturns
    refine Nat.le_trans (turnsLeft_escalate decay primaryCount _) ?_
    unfold firstOrder at hturns
    omega

omit [Div K] [Min K] in
theorem clock_escalate (race : Race K n) :
    (escalate decay primaryCount race).race.clock = race.clock := by
  unfold escalate
  split
  · split
    · rfl
    · exact Race.clock_top _ _
  · rfl

omit [Div K] [Min K] in
theorem clock_start (hq : start decay primaryCount rtt₀ now = .ok q) : q.race.clock = now := by
  unfold start at hq
  split at hq
  · cases hq
  · cases hq
    rw [clock_escalate]
    exact Race.clock_top _ _

theorem clock_le_step {e : Wake n} (h : q.step S decay primaryCount e = some q') :
    q.race.clock ≤ q'.race.clock := by
  cases q with
  | primary race =>
    obtain ⟨race', hr, rfl⟩ := Option.map_eq_some_iff.mp h
    rw [clock_escalate]
    exact Race.clock_le_step S decay hr
  | fallback first race =>
    obtain ⟨race', hr, rfl⟩ := Option.map_eq_some_iff.mp h
    exact Race.clock_le_step S decay hr

omit [Div K] [Min K] in
theorem orderIndices_ne_nil {indices : List (Fin n)} (h : indices ≠ []) (rtt : RttMap K n)
    (now : Instant) : orderIndices decay rtt now indices ≠ [] := by
  intro hnil
  have hperm := orderIndices_perm decay rtt now indices
  rw [hnil] at hperm
  exact h (List.nil_perm.mp hperm)

omit [Div K] [Min K] in
/-- `send_query` comes to a wait before it returns. -/
theorem start_waits (hq : start decay primaryCount rtt₀ now = .ok q) : q.result = none := by
  unfold start at hq
  split at hq
  · cases hq
  · next hn =>
    cases hq
    obtain ⟨hfirst, hsecond⟩ := length_tiers n primaryCount
    cases hprimary : primaryIndices n primaryCount with
    | cons idx rest =>
      have horder : orderIndices decay rtt₀ now (idx :: rest) ≠ [] :=
        orderIndices_ne_nil decay (List.cons_ne_nil idx rest) rtt₀ now
      have hwaits := Race.start_waits horder rtt₀ now
      unfold escalate
      rw [hwaits]
      exact hwaits
    | nil =>
      -- All the servers are in the fallback tier, whose race starts right away.
      rw [hprimary, List.length_nil] at hfirst
      have hzero : primaryCount ≠ n := by omega
      have hfallback : fallbackIndices n primaryCount ≠ [] :=
        List.ne_nil_of_length_pos (by omega)
      have hempty : orderIndices decay rtt₀ now ([] : List (Fin n)) = [] :=
        List.perm_nil.mp (orderIndices_perm decay rtt₀ now [])
      have hover : (Race.start (orderIndices decay rtt₀ now []) rtt₀ now).result =
          some (.error .noResponse) := by
        rw [hempty]
        rfl
      unfold escalate
      rw [hover]
      simp only
      rw [if_neg hzero]
      exact Race.start_waits (orderIndices_ne_nil decay hfallback _ _) _ _

/-- What is asked of the time `send_query` takes: its clock is within the bound of its tiers, and
while it waits something is due by then. -/
structure InTime (limit : Fin n → Nat) (lag length : Nat) (now : Instant) (q : SendQuery K n) :
    Prop where
  clock_le : q.race.clock ≤ now + tiersEndBy n primaryCount lag length
  due : q.result = none →
    ∃ d ∈ (timing limit).due q, d + lag ≤ now + tiersEndBy n primaryCount lag length

omit [Div K] [Min K] in
theorem Paced.inTime {limit : Fin n → Nat} (hlimit : ∀ idx, limit idx + lag ≤ length)
    (h : Paced decay primaryCount lag length rtt₀ now q) :
    InTime primaryCount limit lag length now q := by
  have hends : ∀ {order : List (Fin n)} {t₀ bound : Instant} {race : Race K n},
      race.Paced lag length t₀ order → t₀ + endsBy lag length order.length ≤ bound →
        race.clock ≤ bound ∧ (race.result = none →
          ∃ d ∈ (Race.timing limit).due race, d + lag ≤ bound) := by
    intro order t₀ bound race hrace hle
    refine ⟨Nat.le_trans hrace.clock_within hle, fun hnone => ?_⟩
    obtain ⟨d, hd, hdue⟩ := hrace.due hlimit hnone
    exact ⟨d, hd, Nat.le_trans hdue (Nat.le_trans
      (Nat.add_le_add_left (wakesBy_le_endsBy lag length _ _) t₀) hle)⟩
  have hsplit : now + endsBy lag length (primaryIndices n primaryCount).length +
      endsBy lag length (fallbackIndices n primaryCount).length =
        now + tiersEndBy n primaryCount lag length := Nat.add_assoc _ _ _
  cases q with
  | primary race =>
    obtain ⟨hclock, hdue⟩ := hends h (Nat.le_trans
      (Nat.le_of_eq (by rw [length_firstOrder])) (Nat.le_trans (Nat.le_add_right _ _)
        (Nat.le_of_eq hsplit)))
    exact ⟨hclock, hdue⟩
  | fallback first race =>
    have hfirst := h.1.clock_within
    rw [length_firstOrder] at hfirst
    obtain ⟨hclock, hdue⟩ := hends h.2 (Nat.le_trans
      (Nat.add_le_add hfirst (Nat.le_of_eq (by rw [length_secondOrder]))) (Nat.le_of_eq hsplit))
    exact ⟨hclock, hdue⟩

end Tiers

end SendQuery

/-- The longest an attempt takes, with its timers late. -/
def attemptLength (lag : Nat) : Nat := 2 * udpNameserverTimeout + 2 * lag

theorem ResolverState.limits_add_le (state : ResolverState) (lag : Nat)
    (idx : Fin state.config.nameservers.length) : state.limits lag idx + lag ≤ attemptLength lag := by
  have hlimit : ∀ protocol : DnsProtocol, protocol.timeLimit ≤ udpNameserverTimeout := by
    intro protocol
    cases protocol <;> decide
  have hle := hlimit state.config.nameservers[idx].protocol
  unfold ResolverState.limits attemptLimit attemptLength
  omega

/-- Whatever the nameservers do, `send_query` takes two turns of its loops for each of them at most,
always waits for something that is due, and is over by a bound that the tiers' lengths give. -/
theorem send_query_ends_in_time {K : Type} [NatCast K] [Add K] [Sub K] [Mul K] [Div K] [Min K]
    [LE K] [DecidableLE K] (S : SimpleDns) (decay : Nat → K) (state : ResolverState) (lag : Nat)
    (rtt₀ : RttMap K state.config.nameservers.length) (now : Instant)
    (q₀ q : SendQuery K state.config.nameservers.length)
    (events : List (Wake state.config.nameservers.length))
    (hstart : SendQuery.start decay state.primaryCount rtt₀ now = .ok q₀)
    (hrun : Machine.run (SendQuery.step S decay state.primaryCount) q₀ events = some q)
    (htimely : (SendQuery.timing (state.limits lag)).Timely lag
      (SendQuery.step S decay state.primaryCount) q₀ events) :
    events.length ≤ 2 * state.config.nameservers.length ∧
      SendQuery.InTime state.primaryCount (state.limits lag) lag (attemptLength lag) now q := by
  have hlimit := state.limits_add_le lag
  obtain ⟨hpaced₀, hturns⟩ := SendQuery.start_paced decay state.primaryCount hstart
  have hlen := Machine.run_length_le (P := fun _ => True)
    (fun q e q' _ hs => ⟨trivial, SendQuery.turnsLeft_step S decay state.primaryCount hs⟩) trivial hrun
  refine ⟨Nat.le_trans (Nat.le_add_right _ _) (Nat.le_trans hlen hturns), ?_⟩
  have hpaced : SendQuery.Paced decay state.primaryCount lag (attemptLength lag) rtt₀ now q :=
    Machine.run_invariant_along
      (fun q e q' hq hon hs => SendQuery.Paced.step S decay state.primaryCount hlimit hq hon hs)
      hpaced₀ htimely hrun
  exact hpaced.inTime decay state.primaryCount hlimit

/-- The race of the fallback tier starts when the primary server times out. -/
theorem twoTiers_escalates :
    SendQuery.step (.ofTable []) floatDecay twoTiers.primaryCount (.primary primaryRace)
      primaryTimeout = some (.fallback lostRace escalatedRace) := by
  unfold escalatedRace
  rw [← orderIndices_singleton floatDecay lostRace.rtt lostRace.clock]
  rfl

/-- The run in which the primary server times out and the fallback server answers is on time. -/
theorem twoTiers_timely : (SendQuery.timing (twoTiers.limits 0)).Timely 0
    (SendQuery.step (.ofTable []) floatDecay twoTiers.primaryCount) (.primary primaryRace)
      [primaryTimeout, fallbackReply] := by
  have hdue : (SendQuery.timing (twoTiers.limits 0)).due (.primary primaryRace) =
      [12000000000] := rfl
  have hdue' : (SendQuery.timing (twoTiers.limits 0)).due (.fallback lostRace escalatedRace) =
      [18000000000] := rfl
  refine Timing.timely_cons twoTiers_escalates hdue (by decide) ?_
  exact Timing.timely_singleton hdue' (by decide)

theorem send_query_ends_in_time_twoTiers : [primaryTimeout, fallbackReply].length ≤ 4 ∧
    SendQuery.InTime twoTiers.primaryCount (twoTiers.limits 0) 0 (attemptLength 0) 0
      (.fallback lostRace wonRace) :=
  send_query_ends_in_time (.ofTable []) floatDecay twoTiers 0 (.new 0) 0 _ _ _ twoTiers_start
    twoTiers_run twoTiers_timely

end N0DnsResolver
