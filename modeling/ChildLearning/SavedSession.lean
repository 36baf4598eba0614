import ChildLearning.Session

namespace ChildLearning

open Transition Session

/-!
# The saved session

A name under "username" is meant to say that the user is inside the app.  The one way to
break this is a Facebook result that gets in after its login screen has left the stack
while no Home is open: it stores the name and opens nothing.  `sessionSaved_along_iff`
shows that it is the only one.
-/

/-- A name is stored exactly while a `HomeViewController` is on the stack. -/
def SessionSaved (s : Session) : Prop := s.username.isSome = true ↔ HomeOnStack s.nav

/-- A Facebook result that gets in comes while its login screen, or a Home, is on the
    stack. -/
def ResultOnStack (s : Session) (e : SessionEvent) (_ : Session) : Prop :=
  s.StoresOffStack e → HomeOnStack s.nav

variable {s s' : Session} {e : SessionEvent}

/-- Pushing another screen than Home changes nothing about Home. -/
theorem homeOnStack_push {nav : NavStack Controller} {c : Controller} (hc : c.isHome = false) :
    HomeOnStack (nav.push c) ↔ HomeOnStack nav := by
  constructor
  · rintro ⟨d, hd, hhome⟩
    rcases NavStack.mem_viewControllers_push.mp hd with rfl | hd
    · rw [hc] at hhome
      cases hhome
    · exact ⟨d, hd, hhome⟩
  · exact fun ⟨d, hd, hhome⟩ => ⟨d, NavStack.mem_viewControllers_push.mpr (Or.inr hd), hhome⟩

/-- A pop that the app makes never removes the last Home. -/
theorem homeOnStack_pop {nav : NavStack Controller} (hs : WellFormed nav)
    (h : nav.top.isHome = false ∨ ∃ c ∈ nav.viewControllers, c.inLibrary = true) :
    HomeOnStack nav.pop ↔ HomeOnStack nav := by
  constructor
  · exact fun ⟨c, hc, hhome⟩ => ⟨c, NavStack.mem_of_mem_pop hc, hhome⟩
  · rintro ⟨c, hc, hhome⟩
    rcases h with htop | ⟨d, hd, hlibrary⟩
    · rcases NavStack.mem_pop_or_eq_top hc with hpop | rfl
      · exact ⟨c, hpop, hhome⟩
      · rw [hhome] at htop
        cases htop
    · -- the Home below the library screen stays
      have hne : d.isViewController = false := by
        cases d <;> simp_all [Controller.inLibrary, Controller.isViewController]
      obtain ⟨b, hb, hbase⟩ := hs.supported.exists_base_tail (hs.mem_pushed hd hne) hlibrary
      exact ⟨b, NavStack.mem_viewControllers.mpr (Or.inr hb), hbase⟩

/-- The start screen alone is no Home. -/
theorem not_homeOnStack_start : ¬ HomeOnStack ⟨.viewController, []⟩ := by
  rintro ⟨c, hc, hhome⟩
  rcases NavStack.mem_viewControllers.mp hc with rfl | hc
  · cases hhome
  · cases hc

/-- The step lemma: where the session is saved, it is saved after a step exactly when the
    step is no Facebook result that comes too late. -/
theorem sessionSaved_iff (hwf : WellFormed s.nav) (hs : SessionSaved s)
    (h : s.step e = some s') : SessionSaved s' ↔ ResultOnStack s e s' := by
  rcases effect_of_step h with ⟨hoff, hsome, hnav⟩ | ⟨hoff, heffect⟩
  · -- a name is stored and the stack stays: saved exactly when a Home was there already
    simp only [SessionSaved, ResultOnStack, hoff, hsome, hnav, true_iff, forall_const]
  · have hcond : ResultOnStack s e s' := fun hoff' => absurd hoff' hoff
    simp only [hcond, iff_true]
    unfold SessionSaved at hs ⊢
    generalize s'.username = username at heffect ⊢
    generalize s'.nav = nav at heffect ⊢
    cases heffect with
    | same => exact hs
    | pushed c hhome => rw [homeOnStack_push hhome]; exact hs
    | popped hpop => rw [homeOnStack_pop hwf hpop]; exact hs
    | opened name =>
      refine iff_of_true rfl ⟨.home name, ?_, rfl⟩
      exact NavStack.mem_viewControllers_push.mpr (Or.inl rfl)
    | loggedOut nav' hlogout =>
      rw [hwf.popToEach_eq] at hlogout
      cases hlogout
      exact iff_of_false nofun not_homeOnStack_start

/-- **The saved session.** Along every run from the launch, a name is stored exactly while
    Home is on the stack, if and only if no Facebook result gets in after its login screen
    has left a stack without Home. -/
theorem sessionSaved_along_iff (es : List SessionEvent) :
    SessionSaved launch ∧
      (Along step (fun _ _ s' => SessionSaved s') launch es ↔ Along step ResultOnStack launch es) := by
  have hlaunch : SessionSaved launch := iff_of_false nofun not_homeOnStack_start
  refine ⟨hlaunch, along_iff_along (I := fun s => WellFormed s.nav ∧ SessionSaved s) ?_ ?_
    ⟨wellFormed_launch, hlaunch⟩ es⟩
  · exact fun s e s' hs hstep => sessionSaved_iff hs.1 hs.2 hstep
  · exact fun s e s' hs hstep hsaved => ⟨hs.1.step hstep, hsaved⟩

/-- The user starts a Facebook login and goes back before the profile arrives. -/
def backBeforeResult : List SessionEvent :=
  [.openLogin, .facebookLoginClicked, .backClicked,
    .facebookResult 0 (some ⟨"7", some "ann@mail.co", some "Ann"⟩)]

/-- The name is stored although only the start screen is left. -/
theorem backBeforeResult_not_sessionSaved :
    ∃ s, run step launch backBeforeResult = some s ∧ s.username = some "Ann" ∧
      s.nav.viewControllers = [.viewController] ∧ ¬ SessionSaved s := by
  refine ⟨_, rfl, rfl, rfl, fun h => ?_⟩
  exact not_homeOnStack_start (h.mp rfl)

end ChildLearning
