/-
  A sender that repeats itself.

  A `Sender` sends at once, and again whenever its timer is due or it learns that a sending
  was in vain; the `n`-th sending sets the timer to `gap n` later, while any are left. So
  two sendings are their gap apart unless one was known to be in vain (`spaced`), and in a
  timely run every sending goes out by its place in the schedule (`OnSchedule`), whatever
  wakes the sender in between.
-/
import N0DnsResolver.Lib.Timely

namespace Backoff

/-- A sender that waits. -/
structure Sender where
  sent : List Nat
  left : Nat
  /-- The deadline of the timer. -/
  next : Option Nat
  clock : Nat

/-- What wakes a sender: its timer, news that a sending was in vain, news that no more are of use,
or anything else. -/
inductive Wake where
  | timer (now : Nat)
  | failed (now : Nat)
  | stop (now : Nat)
  | other (now : Nat)

/-- The instant of a wake. -/
def Wake.now : Wake → Nat
  | .timer now | .failed now | .stop now | .other now => now

/-- When the sending with number `k` is due, counted from the first. -/
def offset (gap : Nat → Nat) : Nat → Nat
  | 0 => 0
  | k + 1 => offset gap k + gap (k + 1)

theorem offset_succ (gap : Nat → Nat) (k : Nat) :
    offset gap (k + 1) = offset gap k + gap (k + 1) := rfl

theorem offset_mono (gap : Nat → Nat) : Monotone (offset gap) :=
  monotone_nat_of_le_succ fun _ => Nat.le_add_right _ _

namespace Sender

variable (gap : Nat → Nat)

/-- Sends, if any sending is left. -/
def send (now : Nat) (s : Sender) : Sender :=
  if 0 < s.left then
    { sent := s.sent ++ [now]
      left := s.left - 1
      next := if 0 < s.left - 1 then some (now + gap (s.sent.length + 1)) else none
      clock := now }
  else { s with clock := now }

/-- The first of `budget` sendings. -/
def start (budget now : Nat) : Sender := send gap now ⟨[], budget, none, now⟩

/-- What a sender does when it wakes. -/
def step (s : Sender) : Wake → Option Sender
  | .timer now =>
    if s.next.any (· ≤ now) ∧ s.clock ≤ now then some (send gap now { s with next := none })
    else none
  | .failed now => if s.clock ≤ now then some (s.send gap now) else none
  | .stop now =>
    if s.clock ≤ now then some { s with left := 0, next := none, clock := now } else none
  | .other now => if s.clock ≤ now then some { s with clock := now } else none

/-- The timer is due. -/
def timing : Timing Sender Wake where
  time := Wake.now
  due s := s.next.toList

variable {gap} {s s' : Sender} {budget lag t₀ : Nat}

/-- A sender at a wait: its timer is set while sendings are left, to the gap after the last. -/
structure Waiting (gap : Nat → Nat) (budget : Nat) (s : Sender) : Prop where
  few : s.sent.length + s.left ≤ budget
  armed : 0 < s.left ↔ s.next.isSome
  timer : ∀ due, s.next = some due →
    ∃ last, s.sent.getLast? = some last ∧ due = last + gap s.sent.length

theorem waiting_send (now : Nat) (hfew : s.sent.length + s.left ≤ budget)
    (hnone : s.left = 0 → s.next = none) : Waiting gap budget (s.send gap now) := by
  unfold send
  by_cases hleft : 0 < s.left
  · rw [if_pos hleft]
    refine ⟨?_, ?_, fun due hdue => ?_⟩
    · rw [List.length_append, List.length_singleton]
      simp only
      omega
    · by_cases hmore : 0 < s.left - 1 <;> simp [hmore]
    · obtain ⟨-, hdue⟩ := Option.ite_none_right_eq_some.mp hdue
      refine ⟨now, List.getLast?_concat, ?_⟩
      rw [List.length_append, List.length_singleton]
      exact (Option.some.inj hdue).symm
  · have hnext := hnone (Nat.eq_zero_of_not_pos hleft)
    rw [if_neg hleft]
    refine ⟨hfew, ?_, fun due hdue => nomatch hnext.symm.trans hdue⟩
    simp [hleft, hnext]

theorem waiting_start (budget now : Nat) : Waiting gap budget (start gap budget now) :=
  waiting_send now (Nat.le_of_eq (Nat.zero_add _)) fun _ => rfl

/-- What a wake comes to: a sending, because the timer is due or the last was in vain, the end of
them, or nothing. -/
theorem step_cases {e : Wake} (hw : Waiting gap budget s) (h : s.step gap e = some s') :
    s.clock ≤ e.now ∧
      ((s' = s.send gap e.now ∧
          (e = .failed e.now ∨ ∃ due, s.next = some due ∧ due ≤ e.now)) ∨
        (s' = { s with left := 0, next := none, clock := e.now } ∧ e = .stop e.now) ∨
        s' = { s with clock := e.now }) := by
  cases e with
  | timer now =>
    obtain ⟨⟨hany, hclock⟩, hs⟩ := Option.ite_none_right_eq_some.mp h
    obtain ⟨due, hdue, hle⟩ := (Option.any_eq_true _ _).mp hany
    have hleft : 0 < s.left := hw.armed.mpr (by rw [hdue]; rfl)
    refine ⟨hclock, .inl ⟨?_, .inr ⟨due, hdue, of_decide_eq_true hle⟩⟩⟩
    rw [← Option.some.inj hs]
    unfold send
    rw [if_pos hleft, if_pos hleft]
    rfl
  | failed now =>
    obtain ⟨hclock, hs⟩ := Option.ite_none_right_eq_some.mp h
    exact ⟨hclock, .inl ⟨(Option.some.inj hs).symm, .inl rfl⟩⟩
  | stop now =>
    obtain ⟨hclock, hs⟩ := Option.ite_none_right_eq_some.mp h
    exact ⟨hclock, .inr (.inl ⟨(Option.some.inj hs).symm, rfl⟩)⟩
  | other now =>
    obtain ⟨hclock, hs⟩ := Option.ite_none_right_eq_some.mp h
    exact ⟨hclock, .inr (.inr (Option.some.inj hs).symm)⟩

theorem Waiting.step {e : Wake} (hw : Waiting gap budget s) (h : s.step gap e = some s') :
    Waiting gap budget s' := by
  obtain ⟨-, ⟨rfl, -⟩ | ⟨rfl, -⟩ | rfl⟩ := step_cases hw h
  · refine waiting_send e.now hw.few fun hnone => ?_
    by_contra hsome
    have hleft := hw.armed.mpr (Option.isSome_iff_ne_none.mpr hsome)
    omega
  · exact ⟨Nat.le_trans (Nat.le_add_right _ _) hw.few, by simp, fun due hdue => nomatch hdue⟩
  · exact ⟨hw.few, hw.armed, hw.timer⟩

/-! ## No sending comes early -/

/-- Sendings are their gap apart, but for those made at an instant of `early`. -/
def Spaced (gap : Nat → Nat) (early : Nat → Prop) (sent : List Nat) : Prop :=
  ∀ k a b, sent[k]? = some a → sent[k + 1]? = some b → a + gap (k + 1) ≤ b ∨ early b

theorem Spaced.concat {early : Nat → Prop} {sent : List Nat} {now : Nat}
    (h : Spaced gap early sent)
    (hlast : ∀ last, sent.getLast? = some last → last + gap sent.length ≤ now ∨ early now) :
    Spaced gap early (sent ++ [now]) := by
  intro k a b ha hb
  rcases Nat.lt_trichotomy (k + 1) sent.length with hlt | heq | hgt
  · rw [List.getElem?_append_left hlt] at hb
    rw [List.getElem?_append_left (Nat.lt_of_succ_lt hlt)] at ha
    exact h k a b ha hb
  · rw [heq, List.getElem?_concat_length] at hb
    rw [List.getElem?_append_left (by omega)] at ha
    cases hb
    rw [heq]
    refine hlast a ?_
    rw [List.getLast?_eq_getElem?, ← heq]
    exact ha
  · rw [List.getElem?_eq_none (by rw [List.length_append, List.length_singleton]; omega)] at hb
    cases hb

/-- What is kept of the sendings of a sender that was told of a sending in vain at the instants of
`early` only. -/
theorem spaced_step {early : Nat → Prop} {e : Wake} (hw : Waiting gap budget s)
    (hs : Spaced gap early s.sent) (hearly : e = .failed e.now → early e.now)
    (h : s.step gap e = some s') : Spaced gap early s'.sent := by
  obtain ⟨-, ⟨rfl, hwhy⟩ | ⟨rfl, -⟩ | rfl⟩ := step_cases hw h
  · unfold send
    split
    · refine hs.concat fun last hlast => ?_
      rcases hwhy with hfailed | ⟨due, hdue, hle⟩
      · exact .inr (hearly hfailed)
      · obtain ⟨last', hlast', rfl⟩ := hw.timer due hdue
        cases hlast.symm.trans hlast'
        exact .inl hle
    · exact hs
  · exact hs
  · exact hs

/-- Sendings none of which came early are not before their places in the schedule. -/
theorem Spaced.offset_le {sent : List Nat} (h : Spaced gap (fun _ => False) sent)
    (hfirst : sent[0]? = some t₀) {k d : Nat} (hd : sent[k]? = some d) :
    t₀ + offset gap k ≤ d := by
  induction k generalizing d with
  | zero =>
    cases hfirst.symm.trans hd
    exact Nat.le_refl _
  | succ k ih =>
    obtain ⟨hlt, -⟩ := List.getElem?_eq_some_iff.mp hd
    obtain ⟨a, ha⟩ : ∃ a, sent[k]? = some a :=
      ⟨_, List.getElem?_eq_getElem (Nat.lt_of_succ_lt hlt)⟩
    have hgap := (h k a d ha hd).resolve_right id
    have hle := ih ha
    rw [offset_succ]
    omega

/-! ## No sending comes late -/

/-- When the sending with number `k` is out, with no timer more than `lag` late. -/
def outBy (gap : Nat → Nat) (lag t₀ k : Nat) : Nat := t₀ + offset gap k + k * lag

theorem outBy_mono (gap : Nat → Nat) (lag t₀ : Nat) : Monotone (outBy gap lag t₀) := by
  intro j k hjk
  exact Nat.add_le_add (Nat.add_le_add_left (offset_mono gap hjk) t₀)
    (Nat.mul_le_mul_right lag hjk)

theorem outBy_succ (gap : Nat → Nat) (lag t₀ k : Nat) :
    outBy gap lag t₀ (k + 1) = outBy gap lag t₀ k + gap (k + 1) + lag := by
  unfold outBy
  rw [offset_succ, Nat.succ_mul]
  omega

/-- A sender that keeps to the schedule, at a wait. -/
structure OnSchedule (gap : Nat → Nat) (lag t₀ : Nat) (s : Sender) : Prop where
  sent_by : ∀ k d, s.sent[k]? = some d → d ≤ outBy gap lag t₀ k
  due_by : ∀ due, s.next = some due → due + lag ≤ outBy gap lag t₀ s.sent.length
  clock_by : 0 < s.left → s.clock ≤ outBy gap lag t₀ s.sent.length

theorem onSchedule_send {now : Nat} (hs : ∀ k d, s.sent[k]? = some d → d ≤ outBy gap lag t₀ k)
    (hnone : s.left = 0 → s.next = none)
    (hnow : 0 < s.left → now ≤ outBy gap lag t₀ s.sent.length) :
    OnSchedule gap lag t₀ (s.send gap now) := by
  unfold send
  by_cases hleft : 0 < s.left
  · have hby := hnow hleft
    rw [if_pos hleft]
    refine ⟨fun k d hd => ?_, fun due hdue => ?_, fun _ => ?_⟩
    · rcases Nat.lt_or_ge k s.sent.length with hlt | hge
      · rw [List.getElem?_append_left hlt] at hd
        exact hs k d hd
      · rw [List.getElem?_append_right hge, List.getElem?_singleton] at hd
        obtain ⟨hk, hd⟩ := Option.ite_none_right_eq_some.mp hd
        rw [← Option.some.inj hd]
        exact Nat.le_trans hby (outBy_mono gap lag t₀ hge)
    · obtain ⟨-, hdue⟩ := Option.ite_none_right_eq_some.mp hdue
      rw [← Option.some.inj hdue, List.length_append, List.length_singleton, outBy_succ]
      omega
    · rw [List.length_append, List.length_singleton, outBy_succ]
      simp only
      omega
  · rw [if_neg hleft]
    refine ⟨hs, fun due hdue => ?_, fun h => absurd h hleft⟩
    exact nomatch (hnone (Nat.eq_zero_of_not_pos hleft)).symm.trans hdue

theorem onSchedule_start (budget now : Nat) :
    OnSchedule gap lag now (Sender.start gap budget now) :=
  onSchedule_send (fun _ _ hd => nomatch hd) (fun _ => rfl)
    fun _ => Nat.le_add_right (now + 0) _

/-- One wake that is on time. -/
theorem OnSchedule.step {e : Wake} (hw : Waiting gap budget s) (ho : OnSchedule gap lag t₀ s)
    (hon : timing.OnTime lag s e) (h : s.step gap e = some s') : OnSchedule gap lag t₀ s' := by
  have hnone : s.left = 0 → s.next = none := by
    intro hzero
    by_contra hsome
    have hleft := hw.armed.mpr (Option.isSome_iff_ne_none.mpr hsome)
    omega
  have hnow : 0 < s.left → e.now ≤ outBy gap lag t₀ s.sent.length := by
    intro hleft
    obtain ⟨due, hdue⟩ := Option.isSome_iff_exists.mp (hw.armed.mp hleft)
    have hle : e.now ≤ due + lag := hon due (Option.mem_toList.mpr hdue)
    exact Nat.le_trans hle (ho.due_by due hdue)
  obtain ⟨-, ⟨rfl, -⟩ | ⟨rfl, -⟩ | rfl⟩ := step_cases hw h
  · exact onSchedule_send ho.sent_by hnone hnow
  · exact ⟨ho.sent_by, fun due hdue => (nomatch hdue), fun hleft => absurd hleft (Nat.lt_irrefl 0)⟩
  · exact ⟨ho.sent_by, ho.due_by, hnow⟩

/-! ## Runs -/

section Runs

variable {es : List Wake} (hrun : Machine.run (step gap) (start gap budget t₀) es = some s)
include hrun

/-- The sendings of a run keep apart, but for those made on news that another was in vain. -/
theorem run_spaced {early : Nat → Prop} (hearly : ∀ now, .failed now ∈ es → early now) :
    Spaced gap early s.sent := by
  have hstart : Spaced gap early (start gap budget t₀).sent := by
    unfold start send
    split
    · intro k a b _ hb
      cases hb
    · intro k a b ha _
      cases ha
  have hevents : ∀ e ∈ es, ∀ now, e = .failed now → early now :=
    fun e he now hfailed => hearly now (hfailed ▸ he)
  have h := Machine.run_invariant_of_mem
    (P := fun s => Waiting gap budget s ∧ Spaced gap early s.sent)
    (Q := fun e => ∀ now, e = .failed now → early now)
    (fun s e s' hs he h => ⟨hs.1.step h, spaced_step hs.1 hs.2 (he _) h⟩)
    ⟨waiting_start budget t₀, hstart⟩ hevents hrun
  exact h.2

/-- The first sending is made at once. -/
theorem run_first (hbudget : 0 < budget) : s.sent[0]? = some t₀ := by
  have hstart : (start gap budget t₀).sent[0]? = some t₀ := by
    unfold start send
    rw [if_pos hbudget]
    rfl
  have h := Machine.run_invariant
    (P := fun s => Waiting gap budget s ∧ s.sent[0]? = some t₀) (fun s e s' hs h => ?_)
    ⟨waiting_start budget t₀, hstart⟩ hrun
  · exact h.2
  · refine ⟨hs.1.step h, ?_⟩
    have hlt : 0 < s.sent.length := (List.getElem?_eq_some_iff.mp hs.2).1
    obtain ⟨-, ⟨rfl, -⟩ | ⟨rfl, -⟩ | rfl⟩ := step_cases hs.1 h
    · unfold send
      split
      · show (s.sent ++ [e.now])[0]? = _
        rw [List.getElem?_append_left hlt]
        exact hs.2
      · exact hs.2
    · exact hs.2
    · exact hs.2

/-- A sender that is not stopped has made the sendings that are not left. -/
theorem run_all (hstop : ∀ now, .stop now ∉ es) : s.sent.length + s.left = budget := by
  have hsend (now : Nat) (s : Sender) :
      (s.send gap now).sent.length + (s.send gap now).left = s.sent.length + s.left := by
    unfold send
    split
    · rw [List.length_append, List.length_singleton]
      simp only
      omega
    · rfl
  have h := Machine.run_invariant_of_mem
    (P := fun s => Waiting gap budget s ∧ s.sent.length + s.left = budget)
    (Q := fun e => ∀ now, e ≠ .stop now) (fun s e s' hs he h => ?_)
    ⟨waiting_start budget t₀, (hsend t₀ _).trans (Nat.zero_add _)⟩
    (fun (e : Wake) he now (hstopped : e = .stop now) => hstop now (hstopped ▸ he)) hrun
  · exact h.2
  · refine ⟨hs.1.step h, ?_⟩
    obtain ⟨-, ⟨rfl, -⟩ | ⟨-, hs'⟩ | rfl⟩ := step_cases hs.1 h
    · exact (hsend e.now s).trans hs.2
    · exact absurd hs' (he _)
    · exact hs.2

variable (htimely : timing.Timely lag (step gap) (start gap budget t₀) es)
include htimely

theorem run_onSchedule : OnSchedule gap lag t₀ s := by
  have h := Machine.run_invariant_along
    (P := fun s => Waiting gap budget s ∧ OnSchedule gap lag t₀ s)
    (fun s e s' hs hon h => ⟨hs.1.step h, hs.2.step hs.1 hon h⟩)
    ⟨waiting_start budget t₀, onSchedule_start budget t₀⟩ htimely hrun
  exact h.2

/-- A sending of a sender that is not stopped is out once it must be. -/
theorem run_out (hstop : ∀ now, .stop now ∉ es) {k : Nat} (hk : k < budget)
    (hlate : outBy gap lag t₀ k < s.clock) : k < s.sent.length := by
  by_contra hle
  have hall := run_all hrun hstop
  have hclock := (run_onSchedule hrun htimely).clock_by (by omega)
  have hmono := outBy_mono gap lag t₀ (Nat.not_lt.mp hle)
  omega

end Runs

end Sender

end Backoff
