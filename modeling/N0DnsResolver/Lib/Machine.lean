/-
  Machines that take events.

  A machine is a partial step function: an event it cannot take in a state is
  refused. `Machine.run` takes a list of events, and `run_invariant` is the rule
  for what every run preserves.
-/
import Mathlib.Data.List.Basic

namespace Machine

variable {σ ε : Type}

/-- Takes the events in order, or refuses the run at the first one refused. -/
def run (step : σ → ε → Option σ) : σ → List ε → Option σ
  | s, [] => some s
  | s, e :: es =>
    match step s e with
    | none => none
    | some s' => run step s' es

/-- The states of a run, the first one included. -/
def trace (step : σ → ε → Option σ) : σ → List ε → List σ
  | s, [] => [s]
  | s, e :: es =>
    s :: match step s e with
      | none => []
      | some s' => trace step s' es

variable {step : σ → ε → Option σ}

@[simp] theorem run_nil (s : σ) : run step s [] = some s := rfl

theorem run_cons_some {s s' : σ} {e : ε} (h : step s e = some s') (es : List ε) :
    run step s (e :: es) = run step s' es := by
  simp [run, h]

theorem run_cons_eq_some {s t : σ} {e : ε} {es : List ε} (h : run step s (e :: es) = some t) :
    ∃ s', step s e = some s' ∧ run step s' es = some t := by
  unfold run at h
  cases hs : step s e with
  | none => simp [hs] at h
  | some s' => exact ⟨s', rfl, by simpa [hs] using h⟩

theorem mem_trace_self (s : σ) (es : List ε) : s ∈ trace step s es := by
  cases es with
  | nil => exact List.mem_singleton_self s
  | cons e es => exact List.mem_cons_self

theorem mem_trace_cons {s s' u : σ} {e : ε} {es : List ε} (h : step s e = some s')
    (hu : u ∈ trace step s' es) : u ∈ trace step s (e :: es) := by
  unfold trace
  rw [h]
  exact List.mem_cons_of_mem s hu

theorem run_append {s s' : σ} {es : List ε} (h : run step s es = some s') (fs : List ε) :
    run step s (es ++ fs) = run step s' fs := by
  induction es generalizing s with
  | nil =>
    cases h
    rfl
  | cons e es ih =>
    obtain ⟨u, hu, hr⟩ := run_cons_eq_some h
    rw [List.cons_append, run_cons_some hu, ih hr]

/-- An event of a list one event longer is the last one or was there before. -/
theorem concat_eq_append_cons {es before after : List ε} {e x : ε} :
    es ++ [e] = before ++ x :: after ↔
      (es = before ∧ e = x ∧ after = []) ∨
        ∃ rest, after = rest ++ [e] ∧ es = before ++ x :: rest := by
  constructor
  · intro h
    rcases List.eq_nil_or_concat' after with rfl | ⟨rest, last, rfl⟩
    · obtain ⟨hes, hlast⟩ := List.append_inj' h rfl
      exact .inl ⟨hes, (List.cons.inj hlast).1, rfl⟩
    · have hassoc : before ++ x :: (rest ++ [last]) = (before ++ x :: rest) ++ [last] := by simp
      rw [hassoc] at h
      obtain ⟨hes, hlast⟩ := List.append_inj' h rfl
      obtain rfl := (List.cons.inj hlast).1
      exact .inr ⟨rest, rfl, hes⟩
  · rintro (⟨rfl, rfl, rfl⟩ | ⟨rest, rfl, rfl⟩)
    · rfl
    · simp

/-- A machine that takes the steps of another, with more noted, takes its runs. -/
theorem map_run {τ : Type} {f : τ → σ} {step' : σ → ε → Option σ} {step : τ → ε → Option τ}
    (h : ∀ t e, (step t e).map f = step' (f t) e) (t : τ) (es : List ε) :
    (run step t es).map f = run step' (f t) es := by
  induction es generalizing t with
  | nil => rfl
  | cons e es ih =>
    unfold run
    rw [← h t e]
    cases step t e with
    | none => rfl
    | some u => exact ih u

/-- What holds at the start and is kept by every step holds after every run. -/
theorem run_invariant {P : σ → Prop} (hstep : ∀ s e s', P s → step s e = some s' → P s')
    {s t : σ} {es : List ε} (hs : P s) (h : run step s es = some t) : P t := by
  induction es generalizing s with
  | nil =>
    cases h
    exact hs
  | cons e es ih =>
    obtain ⟨u, hu, hr⟩ := run_cons_eq_some h
    exact ih (hstep s e u hs hu) hr

/-- As `run_invariant`, for an invariant that needs something of the events taken. -/
theorem run_invariant_of_mem {P : σ → Prop} {Q : ε → Prop}
    (hstep : ∀ s e s', P s → Q e → step s e = some s' → P s')
    {s t : σ} {es : List ε} (hs : P s) (hq : ∀ e ∈ es, Q e) (h : run step s es = some t) :
    P t := by
  induction es generalizing s with
  | nil =>
    cases h
    exact hs
  | cons e es ih =>
    obtain ⟨u, hu, hr⟩ := run_cons_eq_some h
    exact ih (hstep s e u hs (hq e List.mem_cons_self) hu)
      (fun e' he => hq e' (List.mem_cons_of_mem e he)) hr

/-- A condition on states and events that every step of the run meets. -/
def Along (step : σ → ε → Option σ) (C : σ → ε → Prop) : σ → List ε → Prop
  | _, [] => True
  | s, e :: es => C s e ∧ ∀ s', step s e = some s' → Along step C s' es

instance decidableAlong (step : σ → ε → Option σ) (C : σ → ε → Prop)
    [∀ s e, Decidable (C s e)] (s : σ) : (es : List ε) → Decidable (Along step C s es)
  | [] => isTrue trivial
  | e :: es =>
    match h : step s e with
    | none => decidable_of_iff (C s e)
        ⟨fun hc => ⟨hc, fun _ hs => nomatch h.symm.trans hs⟩, fun hc => hc.1⟩
    | some u =>
      have := decidableAlong step C u es
      decidable_of_iff (C s e ∧ Along step C u es)
        ⟨fun hc => ⟨hc.1, fun _ hs => Option.some.inj (h.symm.trans hs) ▸ hc.2⟩,
          fun hc => ⟨hc.1, hc.2 u h⟩⟩

/-- A condition on the events alone. -/
theorem along_of_forall {Q : ε → Prop} {s : σ} {es : List ε} (h : ∀ e ∈ es, Q e) :
    Along step (fun _ e => Q e) s es := by
  induction es generalizing s with
  | nil => trivial
  | cons e es ih =>
    exact ⟨h e List.mem_cons_self, fun s' _ => ih fun e' he => h e' (List.mem_cons_of_mem e he)⟩

theorem along_and {C D : σ → ε → Prop} {s : σ} {es : List ε} (hc : Along step C s es)
    (hd : Along step D s es) : Along step (fun s e => C s e ∧ D s e) s es := by
  induction es generalizing s with
  | nil => trivial
  | cons e es ih => exact ⟨⟨hc.1, hd.1⟩, fun s' hs => ih (hc.2 s' hs) (hd.2 s' hs)⟩

/-- A condition that, under an invariant, is enough for another one. -/
theorem along_of_invariant {P : σ → Prop} {C D : σ → ε → Prop}
    (hstep : ∀ s e s', P s → step s e = some s' → P s') (himp : ∀ s e, P s → C s e → D s e)
    {s : σ} {es : List ε} (hs : P s) (hc : Along step C s es) : Along step D s es := by
  induction es generalizing s with
  | nil => trivial
  | cons e es ih =>
    refine ⟨himp s e hs hc.1, fun s' hs' => ?_⟩
    exact ih (hstep s e s' hs hs') (hc.2 s' hs')

/-- As `run_invariant`, for runs whose steps all meet a condition. -/
theorem run_invariant_along {P : σ → Prop} {C : σ → ε → Prop}
    (hstep : ∀ s e s', P s → C s e → step s e = some s' → P s')
    {s t : σ} {es : List ε} (hs : P s) (hc : Along step C s es) (h : run step s es = some t) :
    P t := by
  induction es generalizing s with
  | nil =>
    cases h
    exact hs
  | cons e es ih =>
    obtain ⟨u, hu, hr⟩ := run_cons_eq_some h
    exact ih (hstep s e u hs hc.1 hu) (hc.2 u hu) hr

/-- As `run_invariant`, for an invariant of a state and of the events that led to it. -/
theorem run_history {P : List ε → σ → Prop} {s₀ : σ}
    (hstep : ∀ es s e s', run step s₀ es = some s → P es s → step s e = some s' →
      P (es ++ [e]) s')
    (hs : P [] s₀) {t : σ} {es : List ε} (h : run step s₀ es = some t) : P es t := by
  suffices hrest : ∀ (after before : List ε) (s : σ), run step s₀ before = some s → P before s →
      run step s after = some t → P (before ++ after) t from hrest es [] s₀ rfl hs h
  intro after
  induction after with
  | nil =>
    intro before s _ hp hr
    cases hr
    rw [List.append_nil]
    exact hp
  | cons e after ih =>
    intro before s hbefore hp hr
    obtain ⟨u, hu, hafter⟩ := run_cons_eq_some hr
    have hnext : run step s₀ (before ++ [e]) = some u := by
      rw [run_append hbefore, run_cons_some hu]
      rfl
    rw [List.append_cons]
    exact ih (before ++ [e]) u hnext (hstep before s e u hbefore hp hu) hafter

/-- A machine whose every step is a step of another, under an invariant, takes runs to runs. -/
theorem run_simulates {τ η : Type} {f : σ → τ} {g : ε → η} {step' : τ → η → Option τ}
    {P : σ → Prop}
    (hstep : ∀ s e s', P s → step s e = some s' → P s' ∧ step' (f s) (g e) = some (f s'))
    {s t : σ} {es : List ε} (hs : P s) (h : run step s es = some t) :
    run step' (f s) (es.map g) = some (f t) := by
  induction es generalizing s with
  | nil =>
    cases h
    rfl
  | cons e es ih =>
    obtain ⟨u, hu, hr⟩ := run_cons_eq_some h
    obtain ⟨hpu, hu'⟩ := hstep s e u hs hu
    rw [List.map_cons, run_cons_some hu']
    exact ih hpu hr

/-- A condition on such a run carries over. -/
theorem along_simulates {τ η : Type} {f : σ → τ} {g : ε → η} {step' : τ → η → Option τ}
    {P : σ → Prop} {C : σ → ε → Prop} {D : τ → η → Prop}
    (hstep : ∀ s e s', P s → step s e = some s' → P s' ∧ step' (f s) (g e) = some (f s'))
    (himp : ∀ s e, P s → C s e → D (f s) (g e))
    {s t : σ} {es : List ε} (hs : P s) (hc : Along step C s es) (h : run step s es = some t) :
    Along step' D (f s) (es.map g) := by
  induction es generalizing s with
  | nil => trivial
  | cons e es ih =>
    obtain ⟨u, hu, hr⟩ := run_cons_eq_some h
    obtain ⟨hpu, hu'⟩ := hstep s e u hs hu
    refine ⟨himp s e hs hc.1, fun v hv => ?_⟩
    cases hu'.symm.trans hv
    exact ih hpu (hc.2 u hu) hr

/-- What a step leaves as it was, under an invariant and as far as the last state shows, a run
leaves as it was. -/
theorem run_unchanged {β : Type} {f : σ → β} {P Q : σ → Prop}
    (hstep : ∀ s e s', P s → step s e = some s' → P s' ∧ (Q s' → Q s ∧ f s = f s'))
    {s t : σ} {es : List ε} (hs : P s) (h : run step s es = some t) (ht : Q t) :
    Q s ∧ f s = f t := by
  induction es generalizing s with
  | nil =>
    cases h
    exact ⟨ht, rfl⟩
  | cons e es ih =>
    obtain ⟨u, hu, hr⟩ := run_cons_eq_some h
    obtain ⟨hpu, hback⟩ := hstep s e u hs hu
    obtain ⟨hqu, heq⟩ := ih hpu hr
    obtain ⟨hqs, hsu⟩ := hback hqu
    exact ⟨hqs, hsu.trans heq⟩

/-- A run is no longer than what its steps use up. -/
theorem run_length_le {P : σ → Prop} {measure : σ → Nat}
    (hstep : ∀ s e s', P s → step s e = some s' → P s' ∧ measure s' < measure s)
    {s t : σ} {es : List ε} (hs : P s) (h : run step s es = some t) :
    es.length + measure t ≤ measure s := by
  induction es generalizing s with
  | nil =>
    cases h
    exact Nat.le_of_eq (Nat.zero_add _)
  | cons e es ih =>
    obtain ⟨u, hu, hr⟩ := run_cons_eq_some h
    obtain ⟨hpu, hlt⟩ := hstep s e u hs hu
    have hrest := ih hpu hr
    rw [List.length_cons]
    omega

end Machine
