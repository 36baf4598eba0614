import ChildLearning.SavedSession

namespace ChildLearning

open Transition Session

/-!
# Relaunching

`SceneDelegate` rebuilds the navigation stack from the stored name alone: Home is put on
it when a non-empty name is stored, but `strUserName` is never set, so the restored Home
shows the empty name.  `resumes_along_iff` says exactly which relaunches of a history
resume the session, and `not_resumes_of_opened` that none does right after a login, a
sign-up or a Facebook sign-in.
-/

namespace Session

/-- `SceneDelegate.scene(_:willConnectTo:options:)` in a new process: of the old one only
    the stored name is left. -/
def relaunch (s : Session) : Session :=
  match s.username with
  | some userName =>
    if userName ≠ "" then
      -- `vc1` is put on the stack with its `strUserName` as it was created
      { username := some userName, nav := ⟨.viewController, [.home ""]⟩ }
    -- the storyboard's own stack; the empty name stays stored
    else { username := some userName }
  | none => {}

end Session

/-- What can happen in the life of the app: an event of a session, or the app is terminated
    and started again. -/
inductive LifecycleEvent where
  | session (e : SessionEvent)
  | relaunch

/-- One event. -/
def lifecycleStep (s : Session) : LifecycleEvent → Option Session
  | .session e => s.step e
  | .relaunch  => some s.relaunch

/-- The user name a screen shows, if it is a Home. -/
def Controller.userName : Controller → Option String
  | .home strUserName => some strUserName
  | _                 => none

/-- The user name that the topmost Home of the stack shows. -/
def shownName (nav : NavStack Controller) : Option String :=
  nav.viewControllers.reverse.findSome? Controller.userName

/-- The restored stack has a Home if and only if the old one had, and it shows the same
    name. -/
def Resumes (s : Session) (restored : Session) : Prop :=
  (HomeOnStack restored.nav ↔ HomeOnStack s.nav) ∧
    (HomeOnStack s.nav → shownName restored.nav = shownName s.nav)

/-- Either nobody is logged in and no name to speak of is stored, or one is stored and
    Home shows the empty name. -/
def Resumable (s : Session) : Prop :=
  if s.username.getD "" = "" then ¬ HomeOnStack s.nav else shownName s.nav = some ""

variable {s : Session}

/-- A name is shown exactly when a Home is on the stack. -/
theorem shownName_isSome_iff {nav : NavStack Controller} :
    (shownName nav).isSome = true ↔ HomeOnStack nav := by
  rw [shownName, List.findSome?_isSome_iff]
  simp only [List.mem_reverse, HomeOnStack]
  refine exists_congr fun c => and_congr_right fun _ => ?_
  cases c <;> simp [Controller.userName, Controller.isHome]

/-- Resuming is showing the same name, or none before and after. -/
theorem resumes_iff_shownName {restored : Session} :
    Resumes s restored ↔ shownName restored.nav = shownName s.nav := by
  unfold Resumes
  rw [← shownName_isSome_iff, ← shownName_isSome_iff]
  cases shownName restored.nav <;> cases shownName s.nav <;> simp

/-- The name shown after a relaunch. -/
theorem shownName_relaunch (s : Session) :
    shownName s.relaunch.nav = if s.username.getD "" = "" then none else some "" := by
  unfold relaunch
  cases s.username with
  | none => rfl
  | some userName =>
    by_cases hname : userName = ""
    · simp only [hname]; rfl
    · simp only [ne_eq, hname, not_false_eq_true, if_true, Option.getD_some, if_false]; rfl

/-- **One relaunch.** It resumes the session exactly in a resumable state. -/
theorem resumes_relaunch_iff (s : Session) : Resumes s s.relaunch ↔ Resumable s := by
  rw [resumes_iff_shownName, shownName_relaunch, Resumable]
  split
  · rw [← shownName_isSome_iff]
    cases shownName s.nav <;> simp
  · exact eq_comm

/-- Right after a name has been stored and Home pushed with it, no relaunch resumes the
    session, whatever the name. -/
theorem not_resumes_of_opened {nav : NavStack Controller} {name : String}
    (husername : s.username = some name) (hnav : s.nav = nav.push (.home name)) :
    ¬ Resumes s s.relaunch := by
  rw [resumes_iff_shownName, shownName_relaunch, husername, hnav]
  have hshown : shownName (nav.push (.home name)) = some name := by
    rw [shownName, NavStack.viewControllers, List.reverse_cons, List.reverse_reverse]
    rfl
  rw [hshown, Option.getD_some]
  -- an empty name restores no Home, any other one a Home with the wrong name
  split
  case isTrue => exact fun h => Option.some_ne_none name h.symm
  case isFalse hname => exact fun h => hname (Option.some.inj h).symm

/-- **Relaunching.** In every history of logins, sign-ups, Facebook sign-ins, logouts and
    relaunches: every relaunch resumes the session it ends exactly when every one ends a
    resumable session. -/
theorem resumes_along_iff (es : List LifecycleEvent) :
    Along lifecycleStep (fun s e s' => e = .relaunch → Resumes s s') launch es ↔
      Along lifecycleStep (fun s e _ => e = .relaunch → Resumable s) launch es := by
  refine along_iff_along (I := fun _ => True) (fun s e s' _ hstep => ?_) (fun _ _ _ _ _ _ => trivial)
    trivial es
  refine forall_congr' fun he => ?_
  subst he
  cases hstep
  exact resumes_relaunch_iff s

/-- Ann signs up, and the app is terminated and started again. -/
def signUpThenRelaunch : List LifecycleEvent :=
  [.session .openSignUp,
    .session (.signUpcClicked (some "Ann") (some "ann@mail.co") (some "secret")), .relaunch]

/-- Home showed "Ann" and shows nothing afterwards. -/
theorem signUpThenRelaunch_not_resumes :
    ∃ s, run lifecycleStep launch signUpThenRelaunch.dropLast = some s ∧
      shownName s.nav = some "Ann" ∧ shownName s.relaunch.nav = some "" ∧
      ¬ Along lifecycleStep (fun s e s' => e = .relaunch → Resumes s s') launch
        signUpThenRelaunch := by
  refine ⟨_, rfl, rfl, rfl, fun h => ?_⟩
  have hlast := along_last signUpThenRelaunch.dropLast h rfl rfl
  exact not_resumes_of_opened rfl rfl (hlast rfl)

end ChildLearning
