/-
  How long a connection stays in the pool, and how long the task that prunes it lives.

  In a timely run the task always has its next sweep before it, by a time that its phase
  gives (`nextSweep`). A sweep spares only what is not stale yet, so no connection is idle
  for longer than the idle timeout and one interval. Once the pool is dropped its idle
  connections are closed, with the sweep where one holds it, and the task exits after its
  next sleep (`pruner_sweeps_in_time`).
-/
import N0DnsResolver.Model.PruneLoop

namespace N0DnsResolver

namespace PruneLoop

variable {C : Type} {lag : Nat} {s s' : PruneLoop C}

/-! ## One event -/

/-- What an event does, by what it is. -/
inductive Turn (s : PruneLoop C) : Event C → PruneLoop C → Prop where
  | checkout {key : PoolKey} {now : Readings C} (hheld : s.dropped = none)
    (hclock : s.clock ≤ now.began) :
    Turn s (.checkout key now)
      { s with clock := now.ended, pool := (s.pool.checkout now.read key).2 }
  | checkin {key : PoolKey} {now : Instant} {stream : C} (hheld : s.dropped = none)
    (hclock : s.clock ≤ now) :
    Turn s (.checkin key now stream)
      { s with clock := now, pool := s.pool.checkin now stream key, pushed := s.pushed ++ [now] }
  | spawn {pushed now : Instant} (hmem : pushed ∈ s.pushed) (hclock : s.clock ≤ now)
    (hphase : s.phase = .unspawned) :
    Turn s (.ensure pushed now)
      { s with clock := now, pushed := s.pushed.erase pushed, phase := .spawned now }
  | ensured {pushed now : Instant} (hmem : pushed ∈ s.pushed) (hclock : s.clock ≤ now)
    (hphase : s.phase ≠ .unspawned) :
    Turn s (.ensure pushed now) { s with clock := now, pushed := s.pushed.erase pushed }
  | first {since now : Instant} (hphase : s.phase = .spawned since) (hclock : s.clock ≤ now) :
    Turn s (.first now) { s with clock := now, phase := .asleep (now + pruneInterval) }
  | wake {due now : Instant} (hphase : s.phase = .asleep due) (hclock : s.clock ≤ now)
    (hheld : s.dropped = none) :
    Turn s (.wake now) { s with clock := now, phase := .woken now }
  | exit {due now : Instant} (hphase : s.phase = .asleep due) (hclock : s.clock ≤ now)
    (hdropped : s.dropped ≠ none) :
    Turn s (.wake now) { s with clock := now, phase := .exited }
  | pruneTcp {since : Instant} {now : Readings C} (hphase : s.phase = .woken since)
    (hclock : s.clock ≤ now.began) :
    Turn s (.pruneTcp now)
      { s with clock := now.ended, pool := s.pool.pruneTcp now.read, phase := .swept now.ended }
  | pruneTls {since : Instant} {now : Readings C} (hphase : s.phase = .swept since)
    (hclock : s.clock ≤ now.began) (hheld : s.dropped = none) :
    Turn s (.pruneTls now)
      { s with
        clock := now.ended
        pool := s.pool.pruneTls now.read
        phase := .asleep (now.ended + pruneInterval) }
  | release {since : Instant} {now : Readings C} (hphase : s.phase = .swept since)
    (hclock : s.clock ≤ now.began) (hdropped : s.dropped ≠ none) :
    Turn s (.pruneTls now)
      { s with clock := now.ended, pool := .new, phase := .asleep (now.ended + pruneInterval) }
  | drop {now : Instant} (hheld : s.dropped = none) (hpushed : s.pushed = [])
    (hclock : s.clock ≤ now) :
    Turn s (.drop now)
      { s with
        clock := now, dropped := some now, pool := if s.phase.holds then s.pool else .new }

theorem step_turn {e : Event C} (h : s.step e = some s') : Turn s e s' := by
  cases e with
  | checkout key now =>
    obtain ⟨⟨hheld, hclock⟩, h⟩ := Option.ite_none_right_eq_some.mp h
    cases h
    exact .checkout hheld hclock
  | checkin key now stream =>
    obtain ⟨⟨hheld, hclock⟩, h⟩ := Option.ite_none_right_eq_some.mp h
    cases h
    exact .checkin hheld hclock
  | ensure pushed now =>
    obtain ⟨⟨hmem, hclock⟩, h⟩ := Option.ite_none_right_eq_some.mp h
    by_cases hphase : s.phase = .unspawned
    · rw [if_pos hphase] at h
      cases h
      exact .spawn hmem hclock hphase
    · rw [if_neg hphase] at h
      cases h
      exact .ensured hmem hclock hphase
  | first now =>
    simp only [step] at h
    split at h
    · next since hphase =>
      obtain ⟨hclock, h⟩ := Option.ite_none_right_eq_some.mp h
      cases h
      exact .first hphase hclock
    · cases h
  | wake now =>
    simp only [step] at h
    split at h
    · next due hphase =>
      obtain ⟨⟨-, hclock⟩, h⟩ := Option.ite_none_right_eq_some.mp h
      by_cases hheld : s.dropped = none
      · rw [if_pos hheld] at h
        cases h
        exact .wake hphase hclock hheld
      · rw [if_neg hheld] at h
        cases h
        exact .exit hphase hclock hheld
    · cases h
  | pruneTcp now =>
    simp only [step] at h
    split at h
    · next since hphase =>
      obtain ⟨hclock, h⟩ := Option.ite_none_right_eq_some.mp h
      cases h
      exact .pruneTcp hphase hclock
    · cases h
  | pruneTls now =>
    simp only [step] at h
    split at h
    · next since hphase =>
      obtain ⟨hclock, h⟩ := Option.ite_none_right_eq_some.mp h
      by_cases hheld : s.dropped = none
      · rw [if_pos hheld] at h
        cases h
        exact .pruneTls hphase hclock hheld
      · rw [if_neg hheld] at h
        cases h
        exact .release hphase hclock hheld
    · cases h
  | drop now =>
    obtain ⟨⟨hheld, hpushed, hclock⟩, h⟩ := Option.ite_none_right_eq_some.mp h
    cases h
    exact .drop hheld hpushed hclock

/-! ## What a sweep spares -/

theorem fresh_of_mem_prune {K : Type} [DecidableEq K] {map : IdleMap K C} {now : Idle C → Instant}
    {key : K} {conn : Idle C} (h : conn ∈ (map.prune now).idle key) :
    now conn < conn.lastUsed + idleTimeout := by
  have hfresh : conn.isStale (now conn) = false := by
    unfold IdleMap.idle IdleMap.prune at h
    cases hconns : map key with
    | none =>
      rw [hconns] at h
      cases h
    | some conns =>
      rw [hconns, Option.bind_some] at h
      split at h
      · cases h
      · have hkept := (List.mem_filter.mp h).2
        simpa using hkept
  have hage : ¬ idleTimeout ≤ now conn - conn.lastUsed := of_decide_eq_false hfresh
  unfold Instant at *
  omega

/-! ## What is before the task -/

/-- What the clock says of a phase. -/
def Phase.Begun (clock : Nat) : Phase → Prop
  | .spawned since | .woken since | .swept since => since ≤ clock
  | .asleep due => due ≤ clock + pruneInterval
  | .unspawned | .exited => True

/-- When the map of a key is swept next. -/
def nextSweep (lag : Nat) : PoolKey → Phase → Nat
  | _, .spawned since => since + pruneInterval + 4 * lag
  | _, .asleep due => due + 3 * lag
  | _, .woken since => since + 2 * lag
  | .tcp _, .swept since => since + pruneInterval + 4 * lag
  | .tls _, .swept since => since + lag
  | _, .unspawned | _, .exited => 0

/-- When the task lets go of the pool it holds. -/
def releaseBy (lag : Nat) : Phase → Nat
  | .woken since => since + 2 * lag
  | .swept since => since + lag
  | .unspawned | .spawned _ | .asleep _ | .exited => 0

/-- When a task without a pool exits. -/
def exitBy (lag : Nat) : Phase → Nat
  | .spawned since => since + pruneInterval + 2 * lag
  | .asleep due => due + lag
  | .woken since => since + pruneInterval + 3 * lag
  | .swept since => since + pruneInterval + 2 * lag
  | .unspawned | .exited => 0

/-- How long a connection may stay idle. -/
def idleBy (lag : Nat) (conn : Idle C) : Nat :=
  conn.lastUsed + idleTimeout + pruneInterval + 5 * lag

theorem Phase.Begun.mono {clock clock' : Nat} {phase : Phase} (h : phase.Begun clock)
    (hle : clock ≤ clock') : phase.Begun clock' := by
  cases phase with
  | unspawned => trivial
  | spawned since => exact Nat.le_trans h hle
  | asleep due => exact Nat.le_trans h (Nat.add_le_add_right hle _)
  | woken since => exact Nat.le_trans h hle
  | swept since => exact Nat.le_trans h hle
  | exited => trivial

theorem Phase.Begun.nextSweep_le {clock : Nat} {phase : Phase} (h : phase.Begun clock)
    (key : PoolKey) : nextSweep lag key phase ≤ clock + pruneInterval + 4 * lag := by
  cases phase <;> cases key <;>
  · simp only [Begun] at h
    simp only [nextSweep]
    try unfold Instant at *
    omega

theorem Phase.Begun.releaseBy_le {clock : Nat} {phase : Phase} (h : phase.Begun clock) :
    releaseBy lag phase ≤ clock + 2 * lag := by
  cases phase <;>
  · simp only [Begun] at h
    simp only [releaseBy]
    try unfold Instant at *
    omega

theorem Phase.Begun.exitBy_le {clock : Nat} {phase : Phase} (h : phase.Begun clock) :
    exitBy lag phase ≤ clock + pruneInterval + 3 * lag := by
  cases phase <;>
  · simp only [Begun] at h
    simp only [exitBy]
    try unfold Instant at *
    omega

/-- A task that has something to do is done with it before it has to exit. -/
theorem Phase.due_le_exitBy {phase : Phase} {d : Instant} (h : phase.due = some d) :
    d + lag ≤ exitBy lag phase := by
  cases phase with
  | unspawned => cases h
  | exited => cases h
  | spawned since | asleep since | woken since | swept since =>
    cases h
    simp only [exitBy]
    unfold Instant at *
    omega

/-! ## The deadlines kept -/

/-- What holds at every moment of a timely run. -/
structure Inv (lag : Nat) (s : PruneLoop C) : Prop where
  late : ∀ d ∈ timing.due s, s.clock ≤ d + lag
  begun : s.phase.Begun s.clock
  /-- Before the task is spawned, every idle connection has a check-in that will spawn it. -/
  unensured : s.phase = .unspawned → ∀ key, ∀ conn ∈ s.pool.idle key, conn.lastUsed ∈ s.pushed
  sweeps : ∀ key, ∀ conn ∈ s.pool.idle key, nextSweep lag key s.phase ≤ idleBy lag conn
  closed : s.dropped ≠ none →
    s.pushed = [] ∧ (s.phase.holds = true ∨ ∀ key, s.pool.idle key = [])
  exited : s.phase = .exited → s.dropped ≠ none
  leaves : ∀ t, s.dropped = some t →
    releaseBy lag s.phase ≤ t + 2 * lag ∧ exitBy lag s.phase ≤ t + pruneInterval + 3 * lag
  gone : ∀ t, s.dropped = some t → s.clock ≤ t + pruneInterval + 3 * lag

theorem new_inv (lag : Nat) : Inv lag (new : PruneLoop C) where
  late d hd := absurd hd List.not_mem_nil
  begun := trivial
  unensured _ key conn hconn := by
    rw [show (new : PruneLoop C).pool.idle key = [] from ConnPool.idle_new key] at hconn
    cases hconn
  sweeps key conn hconn := Nat.zero_le _
  closed h := absurd rfl h
  exited h := nomatch h
  leaves _ ht := nomatch ht
  gone _ ht := nomatch ht

/-- The pool is gone, unless the task holds it. -/
theorem Inv.pool_closed (h : Inv lag s) (hdropped : s.dropped ≠ none)
    (hholds : s.phase.holds = false) (key : PoolKey) : s.pool.idle key = [] :=
  (h.closed hdropped).2.elim (fun hheld => nomatch hholds.symm.trans hheld) (· key)

theorem Inv.none_pushed (h : Inv lag s) (hdropped : s.dropped ≠ none) {pushed : Instant}
    (hmem : pushed ∈ s.pushed) : False := by
  rw [(h.closed hdropped).1] at hmem
  cases hmem

/-- A check-out, which adds no connection. -/
theorem Inv.checkout (h : Inv lag s) {now : Instant} {pool : ConnPool C}
    (hheld : s.dropped = none) (hclock : s.clock ≤ now)
    (hlate : ∀ d ∈ timing.due s, now ≤ d + lag)
    (hpool : ∀ key, (pool.idle key).Sublist (s.pool.idle key)) :
    Inv lag { s with clock := now, pool } where
  late := hlate
  begun := h.begun.mono hclock
  unensured hphase key conn hconn := h.unensured hphase key conn ((hpool key).subset hconn)
  sweeps key conn hconn := h.sweeps key conn ((hpool key).subset hconn)
  closed hdropped := absurd hheld hdropped
  exited := h.exited
  leaves := h.leaves
  gone _ ht := nomatch hheld.symm.trans ht

theorem Inv.checkin (h : Inv lag s) {key : PoolKey} {now : Instant} {stream : C}
    (hheld : s.dropped = none) (hclock : s.clock ≤ now)
    (hlate : ∀ d ∈ timing.due s, now ≤ d + lag) :
    Inv lag
      { s with
        clock := now, pool := s.pool.checkin now stream key, pushed := s.pushed ++ [now] } where
  late d hd := by
    rcases List.mem_append.mp hd with hd | hd
    · rcases List.mem_append.mp hd with hd | hd
      · exact hlate d (List.mem_append_left _ hd)
      · rw [List.mem_singleton.mp hd]
        exact Nat.le_add_right _ _
    · exact hlate d (List.mem_append_right _ hd)
  begun := h.begun.mono hclock
  unensured hphase k conn hconn := by
    rcases ConnPool.mem_idle_checkin hconn with hconn | ⟨-, rfl⟩
    · exact List.mem_append_left _ (h.unensured hphase k conn hconn)
    · exact List.mem_append_right _ (List.mem_singleton_self _)
  sweeps k conn hconn := by
    rcases ConnPool.mem_idle_checkin hconn with hconn | ⟨-, rfl⟩
    · exact h.sweeps k conn hconn
    · have hnext : nextSweep lag k s.phase ≤ now + pruneInterval + 4 * lag :=
        (h.begun.mono hclock).nextSweep_le k
      simp only [idleBy]
      unfold Instant at *
      omega
  closed hdropped := absurd hheld hdropped
  exited := h.exited
  leaves := h.leaves
  gone _ ht := nomatch hheld.symm.trans ht

/-- The call of `ensure_pruner` that spawns the task. -/
theorem Inv.spawn (h : Inv lag s) {pushed now : Instant} (hmem : pushed ∈ s.pushed)
    (hphase : s.phase = .unspawned) (hlate : ∀ d ∈ timing.due s, now ≤ d + lag) :
    Inv lag { s with clock := now, pushed := s.pushed.erase pushed, phase := .spawned now } where
  late d hd := by
    rcases List.mem_append.mp hd with hd | hd
    · exact hlate d (List.mem_append_left _ (List.mem_of_mem_erase hd))
    · rw [List.mem_singleton.mp hd]
      exact Nat.le_add_right _ _
  begun := Nat.le_refl _
  unensured h := nomatch h
  sweeps key conn hconn := by
    have hpushed : conn.lastUsed ∈ s.pushed := h.unensured hphase key conn hconn
    have hnow : now ≤ conn.lastUsed + lag := hlate _ (List.mem_append_left _ hpushed)
    simp only [nextSweep, idleBy]
    unfold Instant at *
    omega
  closed hdropped := (h.none_pushed hdropped hmem).elim
  exited h := nomatch h
  leaves t ht := (h.none_pushed (fun hnone => nomatch ht.symm.trans hnone) hmem).elim
  gone t ht := (h.none_pushed (fun hnone => nomatch ht.symm.trans hnone) hmem).elim

theorem Inv.ensured (h : Inv lag s) {pushed now : Instant} (hmem : pushed ∈ s.pushed)
    (hclock : s.clock ≤ now) (hphase : s.phase ≠ .unspawned)
    (hlate : ∀ d ∈ timing.due s, now ≤ d + lag) :
    Inv lag { s with clock := now, pushed := s.pushed.erase pushed } where
  late d hd := by
    rcases List.mem_append.mp hd with hd | hd
    · exact hlate d (List.mem_append_left _ (List.mem_of_mem_erase hd))
    · exact hlate d (List.mem_append_right _ hd)
  begun := h.begun.mono hclock
  unensured hun := absurd hun hphase
  sweeps := h.sweeps
  closed hdropped := (h.none_pushed hdropped hmem).elim
  exited := h.exited
  leaves := h.leaves
  gone t ht := (h.none_pushed (fun hnone => nomatch ht.symm.trans hnone) hmem).elim

theorem phase_late {now d : Instant} (hlate : ∀ d ∈ timing.due s, now ≤ d + lag)
    (hdue : s.phase.due = some d) : now ≤ d + lag := by
  have hmem : d ∈ s.phase.due.toList := Option.mem_toList.mpr hdue
  exact hlate d (List.mem_append_right _ hmem)

/-- What the task does, with the deadlines of its next phase. -/
theorem Inv.moved (h : Inv lag s) {now d : Instant} {pool : ConnPool C} {phase : Phase}
    (hphase : s.phase.due = some d) (hlate : ∀ d ∈ timing.due s, now ≤ d + lag)
    (hdue : ∀ d ∈ phase.due, now ≤ d) (hbegun : phase.Begun now) (hspawned : phase ≠ .unspawned)
    (hsweeps : ∀ key, ∀ conn ∈ pool.idle key, nextSweep lag key phase ≤ idleBy lag conn)
    (hclosed : s.dropped ≠ none → phase.holds = true ∨ ∀ key, pool.idle key = [])
    (hexited : phase = .exited → s.dropped ≠ none)
    (hleaves : ∀ t, s.dropped = some t →
      releaseBy lag phase ≤ t + 2 * lag ∧ exitBy lag phase ≤ t + pruneInterval + 3 * lag) :
    Inv lag { s with clock := now, pool, phase } where
  late d hd := by
    rcases List.mem_append.mp hd with hd | hd
    · exact hlate d (List.mem_append_left _ hd)
    · exact Nat.le_trans (hdue d (Option.mem_toList.mp hd)) (Nat.le_add_right _ _)
  begun := hbegun
  unensured hun := absurd hun hspawned
  sweeps := hsweeps
  closed hdropped := ⟨(h.closed hdropped).1, hclosed hdropped⟩
  exited := hexited
  leaves := hleaves
  gone t ht := by
    have hexit : d + lag ≤ exitBy lag s.phase := Phase.due_le_exitBy hphase
    exact Nat.le_trans (phase_late hlate hphase) (Nat.le_trans hexit (h.leaves t ht).2)

theorem Inv.first (h : Inv lag s) {since now : Instant} (hphase : s.phase = .spawned since)
    (hlate : ∀ d ∈ timing.due s, now ≤ d + lag) :
    Inv lag { s with clock := now, phase := .asleep (now + pruneInterval) } := by
  have hdue : s.phase.due = some since := by rw [hphase]; rfl
  have hnow : now ≤ since + lag := phase_late hlate hdue
  refine h.moved hdue hlate ?_ (Nat.le_refl _) Phase.noConfusion ?_ ?_ Phase.noConfusion ?_
  · rintro d ⟨⟩
    exact Nat.le_add_right _ _
  · intro key conn hconn
    have hnext : nextSweep lag key s.phase ≤ idleBy lag conn := h.sweeps key conn hconn
    rw [hphase] at hnext
    simp only [nextSweep] at hnext ⊢
    unfold Instant at *
    omega
  · intro hdropped
    exact .inr (h.pool_closed hdropped (by rw [hphase]; rfl))
  · intro t ht
    have hexit : exitBy lag s.phase ≤ t + pruneInterval + 3 * lag := (h.leaves t ht).2
    rw [hphase] at hexit
    simp only [releaseBy, exitBy] at hexit ⊢
    unfold Instant at *
    omega

theorem Inv.wake (h : Inv lag s) {due now : Instant} (hphase : s.phase = .asleep due)
    (hheld : s.dropped = none) (hlate : ∀ d ∈ timing.due s, now ≤ d + lag) :
    Inv lag { s with clock := now, phase := .woken now } := by
  have hdue : s.phase.due = some due := by rw [hphase]; rfl
  have hnow : now ≤ due + lag := phase_late hlate hdue
  refine h.moved hdue hlate ?_ (Nat.le_refl _) Phase.noConfusion ?_ (absurd hheld)
    Phase.noConfusion ?_
  · rintro d ⟨⟩
    exact Nat.le_refl _
  · intro key conn hconn
    have hnext : nextSweep lag key s.phase ≤ idleBy lag conn := h.sweeps key conn hconn
    rw [hphase] at hnext
    simp only [nextSweep] at hnext ⊢
    unfold Instant at *
    omega
  · intro t ht
    cases hheld.symm.trans ht

theorem Inv.exit (h : Inv lag s) {due now : Instant} (hphase : s.phase = .asleep due)
    (hdropped : s.dropped ≠ none) (hlate : ∀ d ∈ timing.due s, now ≤ d + lag) :
    Inv lag { s with clock := now, phase := .exited } := by
  have hdue : s.phase.due = some due := by rw [hphase]; rfl
  refine h.moved hdue hlate (fun d hd => nomatch hd) trivial Phase.noConfusion
    (fun _ _ _ => Nat.zero_le _) ?_ (fun _ => hdropped) fun _ _ => ⟨Nat.zero_le _, Nat.zero_le _⟩
  intro _
  exact .inr (h.pool_closed hdropped (by rw [hphase]; rfl))

/-- The sweep of the TCP map. -/
theorem Inv.pruneTcp (h : Inv lag s) {since : Instant} {now : Readings C}
    (hphase : s.phase = .woken since) (hclock : s.clock ≤ now.began)
    (hlate : ∀ d ∈ timing.due s, now.ended ≤ d + lag) :
    Inv lag
      { s with
        clock := now.ended, pool := s.pool.pruneTcp now.read, phase := .swept now.ended } := by
  have hdue : s.phase.due = some since := by rw [hphase]; rfl
  have hnow : now.ended ≤ since + lag := phase_late hlate hdue
  have hsince : since ≤ s.clock := by
    have hbegun := h.begun
    rw [hphase] at hbegun
    exact hbegun
  refine h.moved hdue hlate ?_ (Nat.le_refl _) Phase.noConfusion ?_ (fun _ => .inl rfl)
    Phase.noConfusion ?_
  · rintro d ⟨⟩
    exact Nat.le_refl _
  · intro key conn hconn
    cases key with
    | tcp addr =>
      have hfresh : now.read conn < conn.lastUsed + idleTimeout := fresh_of_mem_prune hconn
      have hread : now.began ≤ now.read conn := (now.inOrder conn).1
      simp only [nextSweep, idleBy]
      unfold Instant at *
      omega
    | tls key =>
      have hnext : nextSweep lag (.tls key) s.phase ≤ idleBy lag conn :=
        h.sweeps (.tls key) conn hconn
      rw [hphase] at hnext
      simp only [nextSweep] at hnext ⊢
      unfold Instant at *
      omega
  · intro t ht
    have hleaves := h.leaves t ht
    rw [hphase] at hleaves
    simp only [releaseBy, exitBy] at hleaves ⊢
    unfold Instant at *
    omega

/-- The sweep of the TLS map. -/
theorem Inv.pruneTls (h : Inv lag s) {since : Instant} {now : Readings C}
    (hphase : s.phase = .swept since) (hclock : s.clock ≤ now.began) (hheld : s.dropped = none)
    (hlate : ∀ d ∈ timing.due s, now.ended ≤ d + lag) :
    Inv lag
      { s with
        clock := now.ended
        pool := s.pool.pruneTls now.read
        phase := .asleep (now.ended + pruneInterval) } := by
  have hdue : s.phase.due = some since := by rw [hphase]; rfl
  have hnow : now.ended ≤ since + lag := phase_late hlate hdue
  have hsince : since ≤ s.clock := by
    have hbegun := h.begun
    rw [hphase] at hbegun
    exact hbegun
  refine h.moved hdue hlate ?_ (Nat.le_refl _) Phase.noConfusion ?_ (absurd hheld)
    Phase.noConfusion ?_
  · rintro d ⟨⟩
    exact Nat.le_add_right _ _
  · intro key conn hconn
    cases key with
    | tcp addr =>
      have hnext : nextSweep lag (.tcp addr) s.phase ≤ idleBy lag conn :=
        h.sweeps (.tcp addr) conn hconn
      rw [hphase] at hnext
      simp only [nextSweep] at hnext ⊢
      unfold Instant at *
      omega
    | tls key =>
      have hfresh : now.read conn < conn.lastUsed + idleTimeout := fresh_of_mem_prune hconn
      have hread : now.began ≤ now.read conn := (now.inOrder conn).1
      simp only [nextSweep, idleBy]
      unfold Instant at *
      omega
  · intro t ht
    cases hheld.symm.trans ht

/-- The end of the sweep of a pool that was dropped meanwhile. -/
theorem Inv.release (h : Inv lag s) {since : Instant} {now : Readings C}
    (hphase : s.phase = .swept since) (hlate : ∀ d ∈ timing.due s, now.ended ≤ d + lag) :
    Inv lag
      { s with
        clock := now.ended
        pool := ConnPool.new (C := C)
        phase := .asleep (now.ended + pruneInterval) } := by
  have hdue : s.phase.due = some since := by rw [hphase]; rfl
  have hnow : now.ended ≤ since + lag := phase_late hlate hdue
  refine h.moved hdue hlate ?_ (Nat.le_refl _) Phase.noConfusion ?_ (fun _ => .inr ConnPool.idle_new)
    Phase.noConfusion ?_
  · rintro d ⟨⟩
    exact Nat.le_add_right _ _
  · intro key conn hconn
    rw [ConnPool.idle_new] at hconn
    cases hconn
  · intro t ht
    have hexit : exitBy lag s.phase ≤ t + pruneInterval + 3 * lag := (h.leaves t ht).2
    rw [hphase] at hexit
    simp only [releaseBy, exitBy] at hexit ⊢
    unfold Instant at *
    omega

theorem Inv.drop (h : Inv lag s) {now : Instant}
    (hpushed : s.pushed = []) (hclock : s.clock ≤ now)
    (hlate : ∀ d ∈ timing.due s, now ≤ d + lag) :
    Inv lag
      { s with
        clock := now, dropped := some now, pool := if s.phase.holds then s.pool else .new } where
  late := hlate
  begun := h.begun.mono hclock
  unensured hphase key conn hconn := by
    have hfree : s.phase.holds = false := by
      rw [show s.phase = .unspawned from hphase]
      rfl
    rw [show (if s.phase.holds then s.pool else .new).idle key = [] by simp [hfree]] at hconn
    cases hconn
  sweeps key conn hconn := by
    cases hholds : s.phase.holds with
    | true =>
      simp only [hholds] at hconn
      exact h.sweeps key conn hconn
    | false =>
      simp [hholds] at hconn
  closed _ := by
    refine ⟨hpushed, ?_⟩
    cases hholds : s.phase.holds with
    | true => exact .inl rfl
    | false => exact .inr fun key => by simp
  exited _ := Option.some_ne_none now
  leaves t ht := by
    cases ht
    exact ⟨(h.begun.mono hclock).releaseBy_le, (h.begun.mono hclock).exitBy_le⟩
  gone t ht := by
    cases ht
    simp only
    unfold Instant at *
    omega

theorem Turn.inv {e : Event C} (ht : Turn s e s') (hlate : timing.OnTime lag s e)
    (h : Inv lag s) : Inv lag s' := by
  cases ht with
  | checkout hheld hclock =>
    exact h.checkout hheld (Nat.le_trans hclock (Readings.began_le _)) hlate fun key =>
      ConnPool.idle_checkout_sublist _ _ _ key
  | checkin hheld hclock => exact h.checkin hheld hclock hlate
  | spawn hmem hclock hphase => exact h.spawn hmem hphase hlate
  | ensured hmem hclock hphase => exact h.ensured hmem hclock hphase hlate
  | first hphase hclock => exact h.first hphase hlate
  | wake hphase hclock hheld => exact h.wake hphase hheld hlate
  | exit hphase hclock hdropped => exact h.exit hphase hdropped hlate
  | pruneTcp hphase hclock => exact h.pruneTcp hphase hclock hlate
  | pruneTls hphase hclock hheld => exact h.pruneTls hphase hclock hheld hlate
  | release hphase hclock hdropped => exact h.release hphase hlate
  | drop hheld hpushed hclock => exact h.drop hpushed hclock hlate

/-! ## Whole runs -/

theorem run_inv {events : List (Event C)}
    (hrun : Machine.run step (new : PruneLoop C) events = some s)
    (htimely : timing.Timely lag step new events) : Inv lag s :=
  Machine.run_invariant_along (fun _ _ _ h hlate hs => (step_turn hs).inv hlate h) (new_inv lag)
    htimely hrun

theorem phase_due {d : Instant} (hdue : s.phase.due = some d) : d ∈ timing.due s :=
  List.mem_append_right _ (Option.mem_toList.mpr hdue)

/-- While a connection is idle, something is due before it has been so for too long. -/
theorem Inv.due_idleBy (h : Inv lag s) {key : PoolKey} {conn : Idle C}
    (hconn : conn ∈ s.pool.idle key) : ∃ d ∈ timing.due s, d + lag ≤ idleBy lag conn := by
  have hnext : nextSweep lag key s.phase ≤ idleBy lag conn := h.sweeps key conn hconn
  cases hphase : s.phase with
  | unspawned =>
    have hpushed : conn.lastUsed ∈ s.pushed := h.unensured hphase key conn hconn
    refine ⟨conn.lastUsed, List.mem_append_left _ hpushed, ?_⟩
    simp only [idleBy]
    unfold Instant at *
    omega
  | exited =>
    rw [h.pool_closed (h.exited hphase) (by rw [hphase]; rfl)] at hconn
    cases hconn
  | spawned since | asleep since | woken since | swept since =>
    refine ⟨since, phase_due (by rw [hphase]; rfl), ?_⟩
    rw [hphase] at hnext
    cases key <;>
    · simp only [nextSweep] at hnext
      unfold Instant at *
      omega

/-- While the task holds the pool, the rest of its sweep is due. -/
theorem due_releaseBy (hholds : s.phase.holds = true) :
    ∃ d ∈ timing.due s, d + lag ≤ releaseBy lag s.phase := by
  cases hphase : s.phase with
  | woken since | swept since =>
    refine ⟨since, phase_due (by rw [hphase]; rfl), ?_⟩
    simp only [releaseBy]
    unfold Instant at *
    omega
  | unspawned | spawned since | asleep due | exited =>
    rw [hphase] at hholds
    cases hholds

/-- No connection is idle for longer than the idle timeout and one interval, and while one is idle
something is due by then. Once the pool is dropped, it has no idle connection unless a sweep holds
it, and the rest of that sweep is due; and the task exits after its next sleep. -/
theorem pruner_sweeps_in_time {events : List (Event C)}
    (hrun : Machine.run step (new : PruneLoop C) events = some s)
    (htimely : timing.Timely lag step new events) :
    (∀ key, ∀ conn ∈ s.pool.idle key,
      s.clock ≤ conn.lastUsed + idleTimeout + pruneInterval + 5 * lag ∧
      ∃ d ∈ timing.due s, d + lag ≤ conn.lastUsed + idleTimeout + pruneInterval + 5 * lag) ∧
    ∀ t, s.dropped = some t →
      s.clock ≤ t + pruneInterval + 3 * lag ∧
      (s.phase.holds = false → ∀ key, s.pool.idle key = []) ∧
      (s.phase.holds = true → ∃ d ∈ timing.due s, d + lag ≤ t + 2 * lag) ∧
      (t + 2 * lag < s.clock → ∀ key, s.pool.idle key = []) ∧
      (s.phase = .unspawned ∨ s.phase = .exited ∨
        ∃ d ∈ timing.due s, d + lag ≤ t + pruneInterval + 3 * lag) := by
  have h : Inv lag s := run_inv hrun htimely
  refine ⟨fun key conn hconn => ?_, fun t ht => ?_⟩
  · obtain ⟨d, hd, hle⟩ := h.due_idleBy hconn
    exact ⟨Nat.le_trans (h.late d hd) hle, d, hd, hle⟩
  obtain ⟨hrelease, hexit⟩ := h.leaves t ht
  have hdropped : s.dropped ≠ none := fun hnone => nomatch ht.symm.trans hnone
  have hheld : s.phase.holds = true → ∃ d ∈ timing.due s, d + lag ≤ t + 2 * lag := fun hholds => by
    obtain ⟨d, hd, hle⟩ : ∃ d ∈ timing.due s, d + lag ≤ releaseBy lag s.phase :=
      due_releaseBy hholds
    exact ⟨d, hd, Nat.le_trans hle hrelease⟩
  refine ⟨h.gone t ht, h.pool_closed hdropped, hheld, ?_, ?_⟩
  · intro hlong
    refine (h.closed hdropped).2.resolve_left fun hholds => ?_
    obtain ⟨d, hd, hle⟩ := hheld hholds
    exact Nat.not_le_of_lt hlong (Nat.le_trans (h.late d hd) hle)
  · have hdue : ∀ d, s.phase.due = some d →
        ∃ d ∈ timing.due s, d + lag ≤ t + pruneInterval + 3 * lag := fun d hd =>
      ⟨d, phase_due hd, Nat.le_trans (Phase.due_le_exitBy hd) hexit⟩
    cases hphase : s.phase with
    | unspawned => exact .inl rfl
    | exited => exact .inr (.inl rfl)
    | spawned since | asleep since | woken since | swept since =>
      exact .inr (.inr (hdue since (by rw [hphase]; rfl)))

/-! ## A pool dropped while it is swept -/

def sweptKey : PoolKey := .tcp ⟨.v4 ⟨0x01010101⟩, 53⟩

/-- Two connections come back, and the resolver drops the pool while the task holds it, which is a
second late at every turn. -/
def sweptEvents : List (Event Nat) :=
  [.checkin sweptKey 3000000000 0, .ensure 3000000000 3000000000, .first 3000000000,
    .checkin sweptKey 8000000000 1, .ensure 8000000000 8000000000, .wake 14000000000,
    .drop 14000000000, .pruneTcp (.still Nat 15000000000), .pruneTls (.still Nat 16000000000),
    .wake 27000000000]

def sweptRun : Option (PruneLoop Nat) := Machine.run step new sweptEvents

theorem sweptRun_isSome : sweptRun.isSome = true := by decide +kernel

/-- The moment at which the resolver dropped it. -/
def heldRun : Option (PruneLoop Nat) := Machine.run step new (sweptEvents.take 7)

theorem heldRun_isSome : heldRun.isSome = true := by decide +kernel

/-- One connection comes back, and the resolver drops the pool while the task sleeps. -/
def asleepEvents : List (Event Nat) :=
  [.checkin sweptKey 3000000000 0, .ensure 3000000000 3000000000, .first 3000000000,
    .drop 5000000000]

def asleepRun : Option (PruneLoop Nat) := Machine.run step new asleepEvents

theorem asleepRun_isSome : asleepRun.isSome = true := by decide +kernel

/-- The sweep that holds the pool is due, and the task exits at the last moment; a pool that is not
held is closed at once, while the task still sleeps. -/
theorem pruner_sweeps_in_time_held :
    (∃ d ∈ timing.due (heldRun.get heldRun_isSome), d + 1000000000 ≤ 14000000000 + 2 * 1000000000) ∧
      (sweptRun.get sweptRun_isSome).phase = .exited ∧
      (sweptRun.get sweptRun_isSome).clock = 14000000000 + pruneInterval + 3 * 1000000000 ∧
      (∀ key, (sweptRun.get sweptRun_isSome).pool.idle key = []) ∧
      (asleepRun.get asleepRun_isSome).phase = .asleep 13000000000 ∧
      (asleepRun.get asleepRun_isSome).clock = 5000000000 ∧
      ∀ key, (asleepRun.get asleepRun_isSome).pool.idle key = [] := by
  have htimely : timing.Timely 1000000000 step new sweptEvents := by decide +kernel
  have hhead : timing.Timely 1000000000 step new (sweptEvents.take 7) := by decide +kernel
  have hprompt : timing.Timely 0 step new asleepEvents := by decide +kernel
  obtain ⟨-, hclosed, -⟩ := (pruner_sweeps_in_time (Option.some_get sweptRun_isSome).symm
    htimely).2 14000000000 (by decide +kernel)
  obtain ⟨-, -, hdue, -⟩ := (pruner_sweeps_in_time (Option.some_get heldRun_isSome).symm
    hhead).2 14000000000 (by decide +kernel)
  obtain ⟨-, hgone, -⟩ := (pruner_sweeps_in_time (Option.some_get asleepRun_isSome).symm
    hprompt).2 5000000000 (by decide +kernel)
  exact ⟨hdue (by decide +kernel), by decide +kernel, by decide +kernel,
    hclosed (by decide +kernel), by decide +kernel, by decide +kernel, hgone (by decide +kernel)⟩

end PruneLoop

end N0DnsResolver
