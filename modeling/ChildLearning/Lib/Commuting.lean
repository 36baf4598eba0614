import Mathlib.Data.List.Perm.Basic
import ChildLearning.Lib.Transition

namespace Transition

/-!
# Events that commute

Runs of the same events in two orders.  `Commuting step I Indep R` collects what makes the
order irrelevant: at states that satisfy the invariant `I`, two independent events that
can both happen can happen one after the other in either order, and the states they lead
to are equivalent (`R`).  `run_perm` is the result: if the events of a run are pairwise
independent, any two runs of them lead to equivalent states.

Not every order of the events need be a run, so the proof does not swap neighbours of one
run.  It moves the first event of the one run to the front of the other, where it can
happen and hence could all the time (`run_move`).
-/

variable {σ ε : Type*} {step : σ → ε → Option σ} {I : σ → Prop} {Indep : ε → ε → Prop}
  {R : σ → σ → Prop}

/-- Independent events commute up to an equivalence of states that steps respect. -/
structure Commuting (step : σ → ε → Option σ) (I : σ → Prop) (Indep : ε → ε → Prop)
    (R : σ → σ → Prop) : Prop where
  equiv : Equivalence R
  keep : ∀ {s e s'}, I s → step s e = some s' → I s'
  congr : ∀ {s t e s'}, R s t → step s e = some s' → ∃ t', step t e = some t' ∧ R s' t'
  diamond : ∀ {s e f s₁ s₂}, I s → Indep e f → step s e = some s₁ → step s f = some s₂ →
    ∃ t₁ t₂, step s₁ f = some t₁ ∧ step s₂ e = some t₂ ∧ R t₁ t₂

/-- Runs respect the equivalence. -/
theorem Commuting.run_congr (hc : Commuting step I Indep R) {s t s' : σ} {es : List ε}
    (hR : R s t) (h : run step s es = some s') : ∃ t', run step t es = some t' ∧ R s' t' := by
  induction es generalizing s t with
  | nil => exact ⟨t, rfl, Option.some.inj h ▸ hR⟩
  | cons e es ih =>
    obtain ⟨mid, hstep, hrest⟩ := run_cons_eq_some.mp h
    obtain ⟨mid', hstep', hmid⟩ := hc.congr hR hstep
    obtain ⟨t', hrun, ht'⟩ := ih hmid hrest
    exact ⟨t', run_cons_eq_some.mpr ⟨mid', hstep', hrun⟩, ht'⟩

/-- **Moving an event to the front.** An event that can happen now, and happens after
    independent ones, may as well happen first. -/
theorem Commuting.run_move (hc : Commuting step I Indep R) {s s₁ t : σ} {e : ε}
    {before after : List ε} (hI : I s) (he : step s e = some s₁) (hindep : ∀ f ∈ before, Indep e f)
    (h : run step s (before ++ e :: after) = some t) :
    ∃ t', run step s₁ (before ++ after) = some t' ∧ R t t' := by
  -- on the events before it: each of them can happen before and after `e`
  induction before generalizing s s₁ with
  | nil =>
    obtain ⟨mid, hmid, hrest⟩ := run_cons_eq_some.mp h
    obtain rfl : s₁ = mid := Option.some.inj (he.symm.trans hmid)
    exact ⟨t, hrest, hc.equiv.refl t⟩
  | cons f before ih =>
    obtain ⟨s₂, hf, hrest⟩ := run_cons_eq_some.mp h
    obtain ⟨t₁, t₂, hf', he', hR⟩ := hc.diamond hI (hindep f List.mem_cons_self) he hf
    obtain ⟨u, hu, htu⟩ := ih (hc.keep hI hf) he'
      (fun g hg => hindep g (List.mem_cons_of_mem f hg)) hrest
    obtain ⟨t', ht', hut'⟩ := hc.run_congr (hc.equiv.symm hR) hu
    exact ⟨t', run_cons_eq_some.mpr ⟨t₁, hf', ht'⟩, hc.equiv.trans htu hut'⟩

/-- **Order does not matter.** Two runs of the same events from one state lead to
    equivalent states, if an event of a run is independent of all that follow. -/
theorem Commuting.run_perm (hc : Commuting step I Indep R)
    (hindep : ∀ {s e es t}, I s → run step s (e :: es) = some t → ∀ f ∈ es, Indep e f)
    {s t u : σ} {es fs : List ε} (hI : I s) (hperm : es.Perm fs) (hes : run step s es = some t)
    (hfs : run step s fs = some u) : R t u := by
  induction es generalizing s fs u with
  | nil =>
    obtain rfl : fs = [] := List.nil_perm.mp hperm
    obtain rfl : t = u := Option.some.inj (hes.symm.trans hfs)
    exact hc.equiv.refl t
  | cons e es ih =>
    obtain ⟨s₁, he, hrest⟩ := run_cons_eq_some.mp hes
    -- the other run has `e` somewhere, after events of this one only
    have hmem : e ∈ fs := hperm.subset List.mem_cons_self
    obtain ⟨before, after, rfl⟩ := List.append_of_mem hmem
    have hothers : es.Perm (before ++ after) :=
      List.Perm.cons_inv (hperm.trans List.perm_middle)
    have hbefore : ∀ f ∈ before, Indep e f := fun f hf =>
      hindep hI hes f (hothers.mem_iff.mpr (List.mem_append_left after hf))
    obtain ⟨u', hu', huu'⟩ := hc.run_move hI he hbefore hfs
    exact hc.equiv.trans (ih (hc.keep hI he) hothers hrest hu') (hc.equiv.symm huu')

/-! ### Events that happen once -/

/-- If an event uses up its slot for good, no later event of a run has that slot. -/
theorem ne_of_used {κ : Type*} (slot : ε → κ) (Used : σ → κ → Prop)
    (hkeep : ∀ {s e s'}, I s → step s e = some s' → I s')
    (huse : ∀ {s e s'}, I s → step s e = some s' → Used s' (slot e))
    (hused : ∀ {s e s' k}, I s → step s e = some s' → Used s k → Used s' k ∧ slot e ≠ k)
    {s t : σ} {e : ε} {es : List ε} (hI : I s) (h : run step s (e :: es) = some t) :
    ∀ f ∈ es, slot e ≠ slot f := by
  obtain ⟨s', hstep, hrest⟩ := run_cons_eq_some.mp h
  have hrun : ∀ (fs : List ε) (s : σ), I s → Used s (slot e) → run step s fs = some t →
      ∀ f ∈ fs, slot e ≠ slot f := by
    intro fs
    induction fs with
    | nil => exact fun _ _ _ _ => nofun
    | cons g fs ih =>
      intro s hs hslot hfs f hf
      obtain ⟨mid, hg, hmid⟩ := run_cons_eq_some.mp hfs
      obtain ⟨hkept, hne⟩ := hused hs hg hslot
      rcases List.mem_cons.mp hf with rfl | hf
      · exact hne.symm
      · exact ih mid (hkeep hs hg) hkept hmid f hf
  exact hrun es s' (hkeep hI hstep) (huse hI hstep) hrest

end Transition
