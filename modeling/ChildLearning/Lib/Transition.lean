import Mathlib.Data.List.Basic
import Mathlib.Data.List.Induction

namespace Transition

/-!
# Runs of a partial transition function

A machine is a partial step function `step : σ → ε → Option σ`: `step s e` is the
state after the event `e`, or `none` when `e` cannot happen in `s`.  This file
supplies runs over event lists (`run`), the predicate "every step taken along the
run satisfies `P`" (`Along`), the invariant rule in its plain and in its
conditional form, the same for invariants that look at the events taken so far
(`run_history`), and `along_iff_along`, which compares two step predicates along
the same run: it is the rule behind every "the property holds along a run exactly
when the condition does" theorem.
-/

variable {σ ε : Type*} {step : σ → ε → Option σ}

/-- Run a list of events; `none` as soon as one of them cannot happen. -/
def run (step : σ → ε → Option σ) : σ → List ε → Option σ
  | s, []      => some s
  | s, e :: es => (step s e).bind fun s' => run step s' es

/-- Every step taken while `es` runs from `s` satisfies `P` (state before, event,
    state after).  Nothing is asked of what follows an event that cannot happen. -/
def Along (step : σ → ε → Option σ) (P : σ → ε → σ → Prop) : σ → List ε → Prop
  | _, []      => True
  | s, e :: es => ∀ s', step s e = some s' → P s e s' ∧ Along step P s' es

/-! ### Runs -/

@[simp] theorem run_nil (s : σ) : run step s [] = some s := rfl

@[simp] theorem run_cons (s : σ) (e : ε) (es : List ε) :
    run step s (e :: es) = (step s e).bind fun s' => run step s' es := rfl

/-- The first step of a nonempty run. -/
theorem run_cons_eq_some {s t : σ} {e : ε} {es : List ε} :
    run step s (e :: es) = some t ↔ ∃ s', step s e = some s' ∧ run step s' es = some t := by
  rw [run_cons, Option.bind_eq_some_iff]

/-- A run can be interrupted after any of its events. -/
theorem run_append (s : σ) (es fs : List ε) :
    run step s (es ++ fs) = (run step s es).bind fun s' => run step s' fs := by
  induction es generalizing s with
  | nil => rfl
  | cons e es ih => simp only [List.cons_append, run_cons, Option.bind_assoc, ih]

/-- The last step of a run. -/
theorem run_concat_eq_some {s t : σ} {es : List ε} {e : ε} :
    run step s (es ++ [e]) = some t ↔ ∃ s', run step s es = some s' ∧ step s' e = some t := by
  rw [run_append, Option.bind_eq_some_iff]
  simp

/-! ### The invariant rules -/

/-- **Invariant rule.** What holds at the start and is kept by every step holds
    wherever a run leads. -/
theorem run_invariant {I : σ → Prop}
    (hstep : ∀ s e s', I s → step s e = some s' → I s')
    {s t : σ} {es : List ε} (hs : I s) (h : run step s es = some t) : I t := by
  induction es generalizing s with
  | nil => exact Option.some.inj h ▸ hs
  | cons e es ih =>
    obtain ⟨s', he, hrest⟩ := run_cons_eq_some.mp h
    exact ih (hstep s e s' hs he) hrest

/-- **Conditional invariant rule.** As `run_invariant`, for runs whose steps all
    satisfy `C`. -/
theorem run_invariant_of_along {I : σ → Prop} {C : σ → ε → σ → Prop}
    (hstep : ∀ s e s', I s → C s e s' → step s e = some s' → I s')
    {s t : σ} {es : List ε} (hs : I s) (hC : Along step C s es)
    (h : run step s es = some t) : I t := by
  induction es generalizing s with
  | nil => exact Option.some.inj h ▸ hs
  | cons e es ih =>
    obtain ⟨s', he, hrest⟩ := run_cons_eq_some.mp h
    obtain ⟨hCe, hCes⟩ := hC s' he
    exact ih (hstep s e s' hs hCe he) hCes hrest

/-- **History rule.** As `run_invariant`, for an invariant that also looks at the events
    taken so far. -/
theorem run_history {I : List ε → σ → Prop} {s₀ t : σ} {es : List ε}
    (hstep : ∀ es s e s', run step s₀ es = some s → I es s → step s e = some s' → I (es ++ [e]) s')
    (hs : I [] s₀) (h : run step s₀ es = some t) : I es t := by
  -- on the events from the last one, since the history grows at its end
  induction es using List.reverseRecOn generalizing t with
  | nil => exact Option.some.inj h ▸ hs
  | append_singleton es e ih =>
    obtain ⟨s', hrun, he⟩ := run_concat_eq_some.mp h
    exact hstep es s' e t hrun (ih hrun) he

/-- **Simulation rule.** If every step of the one machine from a related state is a run of the
    other to a related state, so is every run. -/
theorem run_related {τ δ : Type*} {step' : τ → δ → Option τ} {R : σ → τ → Prop}
    (hstep : ∀ s t e s', R s t → step s e = some s' → ∃ fs t', run step' t fs = some t' ∧ R s' t')
    {s s' : σ} {t : τ} {es : List ε} (hs : R s t) (h : run step s es = some s') :
    ∃ fs t', run step' t fs = some t' ∧ R s' t' := by
  induction es generalizing s t with
  | nil =>
    obtain rfl : s = s' := Option.some.inj h
    exact ⟨[], t, rfl, hs⟩
  | cons e es ih =>
    obtain ⟨mid, he, hrest⟩ := run_cons_eq_some.mp h
    obtain ⟨fs, t', hfs, hmid⟩ := hstep s t e mid hs he
    obtain ⟨gs, t'', hgs, hs'⟩ := ih hmid hrest
    refine ⟨fs ++ gs, t'', ?_, hs'⟩
    rw [run_append, hfs]
    exact hgs

/-- The simulation rule for a function from states to states. -/
theorem run_simulation {τ δ : Type*} {step' : τ → δ → Option τ} (f : σ → τ)
    (hstep : ∀ s e s', step s e = some s' → ∃ fs, run step' (f s) fs = some (f s'))
    {s t : σ} {es : List ε} (h : run step s es = some t) :
    ∃ fs, run step' (f s) fs = some (f t) := by
  have hrelated : ∀ s t e s', f s = t → step s e = some s' →
      ∃ fs t', run step' t fs = some t' ∧ f s' = t' := by
    rintro s _ e s' rfl he
    obtain ⟨fs, hfs⟩ := hstep s e s' he
    exact ⟨fs, f s', hfs, rfl⟩
  obtain ⟨fs, _, hfs, rfl⟩ := run_related hrelated rfl h
  exact ⟨fs, hfs⟩

/-! ### Predicates along a run -/

variable {P Q : σ → ε → σ → Prop}

/-- `Along` at a step that can happen. -/
theorem along_cons {s s' : σ} {e : ε} {es : List ε} (h : step s e = some s') :
    Along step P s (e :: es) ↔ P s e s' ∧ Along step P s' es := by
  constructor
  · exact fun halong => halong s' h
  · intro hP t ht
    obtain rfl : s' = t := Option.some.inj (h.symm.trans ht)
    exact hP

/-- What holds along a run holds along its part after any of its events. -/
theorem along_append {s t : σ} {es fs : List ε} (h : Along step P s (es ++ fs))
    (hrun : run step s es = some t) : Along step P s es ∧ Along step P t fs := by
  induction es generalizing s with
  | nil =>
    obtain rfl : s = t := Option.some.inj hrun
    exact ⟨trivial, h⟩
  | cons e es ih =>
    obtain ⟨s', he, hrest⟩ := run_cons_eq_some.mp hrun
    obtain ⟨hP, htail⟩ := h s' he
    obtain ⟨hes, hfs⟩ := ih htail hrest
    exact ⟨(along_cons he).mpr ⟨hP, hes⟩, hfs⟩

/-- What holds along a run holds of its last step. -/
theorem along_last {s t t' : σ} {e : ε} (es : List ε) (h : Along step P s (es ++ [e]))
    (hrun : run step s es = some t) (he : step t e = some t') : P t e t' :=
  ((along_append h hrun).2 t' he).1

/-- A step predicate that every step by an event in `E` from an invariant state satisfies
    holds along every run of such events. -/
theorem along_of_invariant {I : σ → Prop} {E : ε → Prop}
    (hstep : ∀ s e s', I s → E e → step s e = some s' → P s e s' ∧ I s')
    {s : σ} (hs : I s) {es : List ε} (hes : ∀ e ∈ es, E e) : Along step P s es := by
  induction es generalizing s with
  | nil => trivial
  | cons e es ih =>
    intro s' he
    obtain ⟨hP, hI⟩ := hstep s e s' hs (hes e List.mem_cons_self) he
    exact ⟨hP, ih hI fun f hf => hes f (List.mem_cons_of_mem e hf)⟩

/-- **Conditional comparison rule.** If at invariant states `P` and `Q` agree on every step that
    satisfies `C`, and such a step keeps the invariant if it satisfies `P`, then along a run along
    which `C` holds, `P` holds exactly when `Q` does. -/
theorem along_iff_along_of_along {I : σ → Prop} {C : σ → ε → σ → Prop}
    (hiff : ∀ s e s', I s → C s e s' → step s e = some s' → (P s e s' ↔ Q s e s'))
    (hkeep : ∀ s e s', I s → C s e s' → step s e = some s' → P s e s' → I s')
    {s : σ} (hs : I s) {es : List ε} (hC : Along step C s es) :
    Along step P s es ↔ Along step Q s es := by
  -- on the events: at each step the predicates agree, and either of them keeps the invariant
  induction es generalizing s with
  | nil => exact Iff.rfl
  | cons e es ih =>
    refine forall_congr' fun s' => imp_congr_right fun he => ?_
    obtain ⟨hCe, hCes⟩ := hC s' he
    rw [hiff s e s' hs hCe he]
    refine and_congr_right fun hQ => ih (hkeep s e s' hs hCe he ?_) hCes
    exact (hiff s e s' hs hCe he).mpr hQ

/-- **Comparison rule.** As `along_iff_along_of_along`, for any run. -/
theorem along_iff_along {I : σ → Prop}
    (hiff : ∀ s e s', I s → step s e = some s' → (P s e s' ↔ Q s e s'))
    (hkeep : ∀ s e s', I s → step s e = some s' → P s e s' → I s')
    {s : σ} (hs : I s) (es : List ε) : Along step P s es ↔ Along step Q s es := by
  have htrue : Along step (fun _ _ _ => True) s es :=
    along_of_invariant (I := fun _ => True) (E := fun _ => True)
      (fun _ _ _ _ _ _ => ⟨trivial, trivial⟩) trivial fun _ _ => trivial
  exact along_iff_along_of_along (fun s e s' hs _ => hiff s e s' hs)
    (fun s e s' hs _ => hkeep s e s' hs) hs htrue

/-! ### Steps of a run -/

/-- Some step taken while `es` runs from `s` satisfies `p` (state before, event). -/
def Sometime (step : σ → ε → Option σ) (p : σ → ε → Prop) (s : σ) (es : List ε) : Prop :=
  ∃ before e after t, es = before ++ e :: after ∧ run step s before = some t ∧ p t e

/-- How many of the steps taken while `es` runs from `s` satisfy `p`. -/
def countAlong (step : σ → ε → Option σ) (p : σ → ε → Bool) : σ → List ε → ℕ
  | _, []      => 0
  | s, e :: es => (if p s e then 1 else 0) + ((step s e).map fun s' => countAlong step p s' es).getD 0

/-- A step of a run is one of every longer run. -/
theorem Sometime.concat {p : σ → ε → Prop} {s : σ} {es : List ε} (h : Sometime step p s es) (e : ε) :
    Sometime step p s (es ++ [e]) := by
  obtain ⟨before, f, after, t, rfl, hrun, hp⟩ := h
  exact ⟨before, f, after ++ [e], t, by simp, hrun, hp⟩

/-- The last step of a run. -/
theorem sometime_last {p : σ → ε → Prop} {s t : σ} {es : List ε} {e : ε}
    (hrun : run step s es = some t) (hp : p t e) : Sometime step p s (es ++ [e]) :=
  ⟨es, e, [], t, rfl, hrun, hp⟩

/-- One more step counts where the run has led. -/
theorem countAlong_concat {p : σ → ε → Bool} {s t : σ} {es : List ε} (e : ε)
    (h : run step s es = some t) :
    countAlong step p s (es ++ [e]) = countAlong step p s es + if p t e then 1 else 0 := by
  induction es generalizing s with
  | nil =>
    obtain rfl : s = t := Option.some.inj h
    cases hs : step s e <;> simp [countAlong, hs]
  | cons f es ih =>
    obtain ⟨s', hf, hrest⟩ := run_cons_eq_some.mp h
    simp only [List.cons_append, countAlong, hf, Option.map_some, Option.getD_some, ih hrest]
    omega

end Transition
