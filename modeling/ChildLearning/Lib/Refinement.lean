import ChildLearning.Lib.Transition

namespace Transition

/-!
# Refinement of a server

An abstract server answers every request and moves on: `serve : τ → δ → ω × τ`.  A partial
machine refines it when each of its events is a request, what it outputs at the event is the
answer, and its states stand for states of the server.  `outputs_eq_answers` is the rule: a
refinement step by step, on the steps that satisfy a condition, is a refinement of whole
runs, in everything that is output and in the state reached.
-/

variable {σ ε τ δ ω : Type*}

/-- The answers to a list of requests, served one after the other. -/
def answers (serve : τ → δ → ω × τ) : τ → List δ → List ω
  | _, []      => []
  | t, d :: ds => (serve t d).1 :: answers serve (serve t d).2 ds

/-- The state of the server after a list of requests. -/
def served (serve : τ → δ → ω × τ) (t : τ) (ds : List δ) : τ :=
  ds.foldl (fun t d => (serve t d).2) t

/-- What a machine outputs while `es` runs from `s`. -/
def outputs (step : σ → ε → Option σ) (out : σ → ε → ω) : σ → List ε → List ω
  | _, []      => []
  | s, e :: es => out s e :: ((step s e).map fun s' => outputs step out s' es).getD []

variable {step : σ → ε → Option σ} {out : σ → ε → ω} {serve : τ → δ → ω × τ}

@[simp] theorem served_nil (t : τ) : served serve t [] = t := rfl

@[simp] theorem served_cons (t : τ) (d : δ) (ds : List δ) :
    served serve t (d :: ds) = served serve (serve t d).2 ds := rfl

/-- The outputs at a step that can happen. -/
theorem outputs_cons {s s' : σ} {e : ε} (h : step s e = some s') (es : List ε) :
    outputs step out s (e :: es) = out s e :: outputs step out s' es := by
  simp [outputs, h]

/-- **Refinement rule.** If every step from an invariant state that satisfies `C` keeps the
    invariant, answers its request as the server does and ends where the server ends, then so
    does every run of such steps. -/
theorem outputs_eq_answers {I : σ → Prop} {C : σ → ε → σ → Prop} {request : ε → δ} {abs : σ → τ}
    (hstep : ∀ s e s', I s → C s e s' → step s e = some s' →
      I s' ∧ serve (abs s) (request e) = (out s e, abs s'))
    {s t : σ} {es : List ε} (hs : I s) (hC : Along step C s es) (h : run step s es = some t) :
    outputs step out s es = answers serve (abs s) (es.map request) ∧
      abs t = served serve (abs s) (es.map request) := by
  induction es generalizing s with
  | nil =>
    obtain rfl : s = t := Option.some.inj h
    exact ⟨rfl, rfl⟩
  | cons e es ih =>
    obtain ⟨s', he, hrest⟩ := run_cons_eq_some.mp h
    obtain ⟨hCe, hCes⟩ := hC s' he
    obtain ⟨hs', hserve⟩ := hstep s e s' hs hCe he
    obtain ⟨houts, habs⟩ := ih hs' hCes hrest
    rw [outputs_cons he, houts]
    simp only [List.map_cons, answers, served_cons, hserve]
    exact ⟨trivial, habs⟩

end Transition
