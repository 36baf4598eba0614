import ChildLearning.Lib.NavStack
import ChildLearning.Lib.Transition
import ChildLearning.AccountScreens
import ChildLearning.Accounts
import ChildLearning.LibraryScreens

namespace ChildLearning

/-!
# The session

The navigation stack of the app together with what is stored under "username", and the
steps of a user who logs in, browses, goes back and logs out, while Facebook profiles
and snapshots of the `User` node arrive at any time.

Storing the name and pushing Home are two effects.  A screen that has left the stack has
no `navigationController`; a result that is still to come keeps the screen alive, but its
push then does nothing.
-/

/-- A screen on the navigation stack.  Account screens and speaking screens are told apart
    by a number; of the others only the class matters, and what Home shows. -/
inductive Controller where
  | viewController
  | login (i : ℕ)
  | signUp (i : ℕ)
  | home (strUserName : String)
  | buttons
  | speak (i : ℕ)
  | play
  deriving DecidableEq, Repr

namespace Controller

/-- `i is ViewController`. -/
def isViewController : Controller → Bool
  | .viewController => true
  | _               => false

/-- A `HomeViewController`. -/
def isHome : Controller → Bool
  | .home _ => true
  | _       => false

/-- A screen that is reached from Home only. -/
def inLibrary : Controller → Bool
  | .buttons => true
  | .speak _ => true
  | .play    => true
  | _        => false

/-- A control of the scene sends `backClicked(_:)`: not on the start screen and Home, and not on
    a speaking screen, whose class has the method but whose scene connects nothing to it. -/
def hasBack : Controller → Bool
  | .viewController => false
  | .home _         => false
  | .speak _        => false
  | _               => true

end Controller

/-- The running app, as far as the session goes: the stack, the stored name, the lists
    `users` of all account screens opened so far, the login screens that wait for a
    Facebook profile, the utterances still to end, and the number of speaking screens
    pushed so far. -/
structure Session where
  nav : NavStack Controller := ⟨.viewController, []⟩
  username : Option String := none
  screens : List (List Users) := []
  facebookPending : List ℕ := []
  uttering : List ℕ := []
  speaks : ℕ := 0

/-- One event. -/
inductive SessionEvent where
  /-- `ViewController.loginClicked(_:)`. -/
  | openLogin
  /-- `ViewController.signUpClicked(_:)`. -/
  | openSignUp
  /-- The observer of account screen `i` receives a snapshot. -/
  | observed (i : ℕ) (snapshot : DataSnapshot)
  /-- `LoginViewController.loginClicked(_:)`. -/
  | loginClicked (txtFEmail txtFPassword : Option String)
  /-- `SignUpViewController.signUpcClicked(_:)`. -/
  | signUpcClicked (txtFName txtFEmail txtFPassword : Option String)
  /-- `LoginViewController.facebookLoginClicked(_:)`, up to the request for the profile. -/
  | facebookLoginClicked
  /-- The request of login screen `i` ends, with a profile or without. -/
  | facebookResult (i : ℕ) (result : Option FbProfile)
  /-- `backClicked(_:)` of the screen on top. -/
  | backClicked
  /-- `HomeViewController.logout()`, confirmed while Home is on top.  Left out is the alert
      that outlives its Home: it finds no navigation controller and removes the name alone. -/
  | logout
  /-- A button of `HomeViewController`. -/
  | homeClicked (button : HomeButton)
  /-- `ButtonsViewController.collectionView(_:didSelectItemAt:)`. -/
  | didSelectItemAt
  /-- `ButtonsViewController.playClicked(_:)`. -/
  | playClicked
  /-- `SpeakViewController.speechSynthesizer(_:didFinish:)` of speaking screen `i`. -/
  | didFinish (i : ℕ)

namespace Session

/-- The app is launched without a stored name. -/
def launch : Session := {}

/-- What a handler of the screen `on` does to the session: the name is stored, and Home is
    pushed if the screen is still on a navigation stack. -/
def perform (s : Session) (on : Controller) (action : ScreenAction) : Session :=
  match action.storedName with
  | some name =>
    { s with
      username := some name
      nav := if on ∈ s.nav.viewControllers then s.nav.push (.home name) else s.nav }
  | none => s

/-- One event. -/
def step (s : Session) : SessionEvent → Option Session
  | .openLogin =>
    if s.nav.top = .viewController then some
      { s with nav := s.nav.push (.login s.screens.length), screens := s.screens ++ [[]] }
    else none
  | .openSignUp =>
    if s.nav.top = .viewController then some
      { s with nav := s.nav.push (.signUp s.screens.length), screens := s.screens ++ [[]] }
    else none
  | .observed i snapshot =>
    s.screens[i]?.bind fun users => (observeValue users snapshot).map fun users' =>
      { s with screens := s.screens.set i users' }
  | .loginClicked txtFEmail txtFPassword =>
    match s.nav.top with
    | .login i => s.screens[i]?.map fun users =>
        s.perform (.login i) (LoginViewController.loginClicked users txtFEmail txtFPassword)
    | _ => none
  | .signUpcClicked txtFName txtFEmail txtFPassword =>
    match s.nav.top with
    | .signUp i => s.screens[i]?.map fun users =>
        s.perform (.signUp i)
          (SignUpViewController.signUpcClicked users txtFName txtFEmail txtFPassword)
    | _ => none
  | .facebookLoginClicked =>
    match s.nav.top with
    | .login i => some { s with facebookPending := s.facebookPending ++ [i] }
    | _ => none
  | .facebookResult i result =>
    if i ∈ s.facebookPending then
      let s' := { s with facebookPending := s.facebookPending.erase i }
      match result with
      -- an error, or no dictionary: the completion ends there
      | none => some s'
      | some profile => s'.screens[i]?.map fun users =>
          s'.perform (.login i) (LoginViewController.getFBUserData users profile.email profile.name)
    else none
  | .backClicked => if s.nav.top.hasBack then some { s with nav := s.nav.pop } else none
  | .logout =>
    if s.nav.top.isHome then
      (s.nav.popToEach Controller.isViewController).map fun nav =>
        { s with username := none, nav := nav }
    else none
  | .homeClicked _ =>
    if s.nav.top.isHome then some { s with nav := s.nav.push .buttons } else none
  | .didSelectItemAt =>
    -- a second tap may come before the first push has covered the tiles
    if .buttons ∈ s.nav.viewControllers then some
      { s with
        nav := s.nav.push (.speak s.speaks)
        uttering := s.uttering ++ [s.speaks]
        speaks := s.speaks + 1 }
    else none
  | .playClicked => if s.nav.top = .buttons then some { s with nav := s.nav.push .play } else none
  | .didFinish i =>
    -- the pop takes whatever is on top, which need not be screen `i`
    if i ∈ s.uttering then some
      { s with
        uttering := s.uttering.erase i
        nav := if .speak i ∈ s.nav.viewControllers then s.nav.pop else s.nav }
    else none

/-! ### What a step can do -/

/-- A `HomeViewController` is on the stack. -/
def HomeOnStack (nav : NavStack Controller) : Prop :=
  ∃ c ∈ nav.viewControllers, c.isHome = true

/-- The event is a Facebook result that gets in, for a login screen that has left the
    stack. -/
def StoresOffStack (s : Session) : SessionEvent → Prop
  | .facebookResult i (some profile) => .login i ∉ s.nav.viewControllers ∧
      ∃ users, s.screens[i]? = some users ∧
        LoginViewController.acceptsFacebook users (profile.email.getD "") = true
  | _ => False

/-- What a step does to the stored name and the stack, a Facebook result off the stack
    apart. -/
inductive Effect (username : Option String) (nav : NavStack Controller) :
    Option String → NavStack Controller → Prop where
  /-- Neither changes. -/
  | same : Effect username nav username nav
  /-- A screen other than Home is pushed; over a screen of the library or over Home, if it
      is one of the library. -/
  | pushed (c : Controller) (hhome : c.isHome = false) (hstart : c.isViewController = false)
      (hlibrary : c.inLibrary = true →
        ∃ d ∈ nav.viewControllers, d.isHome = true ∨ d.inLibrary = true) :
      Effect username nav username (nav.push c)
  /-- The screen on top is popped; it is not Home, or a screen of the library is on the
      stack. -/
  | popped (h : nav.top.isHome = false ∨ ∃ c ∈ nav.viewControllers, c.inLibrary = true) :
      Effect username nav username nav.pop
  /-- A name is stored and Home is pushed with it. -/
  | opened (name : String) : Effect username nav (some name) (nav.push (.home name))
  /-- The name is removed and the start screen is returned to. -/
  | loggedOut (nav' : NavStack Controller)
      (h : nav.popToEach Controller.isViewController = some nav') : Effect username nav none nav'

variable {s s' : Session} {e : SessionEvent}

/-- A handler of a screen on the stack: nothing, or the name and Home. -/
theorem effect_perform {on : Controller} (hon : on ∈ s.nav.viewControllers)
    (action : ScreenAction) :
    Effect s.username s.nav (s.perform on action).username (s.perform on action).nav := by
  unfold perform
  cases action.storedName with
  | none => exact .same
  | some name =>
    simp only [hon, if_true]
    exact .opened name

/-- The Facebook result of a screen off the stack: the name alone is stored. -/
theorem perform_of_notMem {on : Controller} (hon : on ∉ s.nav.viewControllers)
    (action : ScreenAction) :
    (s.perform on action).nav = s.nav ∧ (s.perform on action).username
      = action.storedName.or s.username := by
  unfold perform
  cases action.storedName with
  | none => exact ⟨rfl, rfl⟩
  | some name => simp [hon]

/-- **What a Facebook result can do.** -/
theorem effect_of_facebookResult {i : ℕ} {result : Option FbProfile}
    (h : s.step (.facebookResult i result) = some s') :
    (s.StoresOffStack (.facebookResult i result) ∧ s'.username.isSome ∧ s'.nav = s.nav) ∨
      (¬ s.StoresOffStack (.facebookResult i result) ∧ Effect s.username s.nav s'.username s'.nav) := by
  obtain ⟨-, hstep⟩ := Option.ite_none_right_eq_some.mp h
  cases result with
  | none => cases hstep; exact Or.inr ⟨id, .same⟩
  | some profile =>
    obtain ⟨users, husers, rfl⟩ := Option.map_eq_some_iff.mp hstep
    let asked := { s with facebookPending := s.facebookPending.erase i }
    let action := LoginViewController.getFBUserData users profile.email profile.name
    -- the pending request says nothing about the stack, so both cases are possible
    by_cases hon : .login i ∈ s.nav.viewControllers
    · exact Or.inr ⟨fun hoff => hoff.1 hon, @effect_perform asked _ hon action⟩
    · -- off the stack: what is left is whether the sign-in gets in
      obtain ⟨hnav, husername⟩ := @perform_of_notMem asked _ hon action
      have haccepts := LoginViewController.getFBUserData_storedName_isSome users profile.email
        profile.name
      cases hstored : action.storedName with
      | some name =>
        have hin : LoginViewController.acceptsFacebook users (profile.email.getD "") = true := by
          rw [← haccepts]; exact Option.isSome_iff_exists.mpr ⟨name, hstored⟩
        refine Or.inl ⟨⟨hon, users, husers, hin⟩, ?_, hnav⟩
        show (asked.perform (.login i) action).username.isSome
        rw [husername, hstored]; rfl
      | none =>
        refine Or.inr ⟨fun ⟨_, users', husers', hin⟩ => ?_, ?_⟩
        · obtain rfl : users = users' := Option.some.inj (husers.symm.trans husers')
          rw [← haccepts, show (LoginViewController.getFBUserData users profile.email
            profile.name).storedName = none from hstored] at hin
          cases hin
        · show Effect s.username s.nav (asked.perform (.login i) action).username
            (asked.perform (.login i) action).nav
          rw [hnav, husername, hstored]
          exact .same

/-- What any other event can do. -/
theorem effect_of_ne_facebookResult (hne : ∀ i result, e ≠ .facebookResult i result)
    (h : s.step e = some s') : Effect s.username s.nav s'.username s'.nav := by
  cases e with
  | openLogin =>
    obtain ⟨-, hs⟩ := Option.ite_none_right_eq_some.mp h
    cases hs
    exact .pushed _ rfl rfl nofun
  | openSignUp =>
    obtain ⟨-, hs⟩ := Option.ite_none_right_eq_some.mp h
    cases hs
    exact .pushed _ rfl rfl nofun
  | observed i snapshot =>
    obtain ⟨users, -, hs⟩ := Option.bind_eq_some_iff.mp h
    obtain ⟨users', -, rfl⟩ := Option.map_eq_some_iff.mp hs
    exact .same
  | loginClicked txtFEmail txtFPassword =>
    simp only [step] at h
    split at h
    case h_1 i htop =>
      obtain ⟨users, -, rfl⟩ := Option.map_eq_some_iff.mp h
      have hon : .login i ∈ s.nav.viewControllers := htop ▸ s.nav.top_mem
      exact effect_perform hon _
    case h_2 => cases h
  | signUpcClicked txtFName txtFEmail txtFPassword =>
    simp only [step] at h
    split at h
    case h_1 i htop =>
      obtain ⟨users, -, rfl⟩ := Option.map_eq_some_iff.mp h
      have hon : .signUp i ∈ s.nav.viewControllers := htop ▸ s.nav.top_mem
      exact effect_perform hon _
    case h_2 => cases h
  | facebookLoginClicked =>
    simp only [step] at h
    split at h
    · cases h; exact .same
    · cases h
  | facebookResult i result => exact absurd rfl (hne i result)
  | backClicked =>
    obtain ⟨hback, hs⟩ := Option.ite_none_right_eq_some.mp h
    cases hs
    -- Home has no `backClicked(_:)`
    have htop : s.nav.top.isHome = false := by
      cases htop : s.nav.top <;> simp_all [Controller.hasBack, Controller.isHome]
    exact .popped (Or.inl htop)
  | logout =>
    obtain ⟨-, hs⟩ := Option.ite_none_right_eq_some.mp h
    obtain ⟨nav, hnav, rfl⟩ := Option.map_eq_some_iff.mp hs
    exact .loggedOut nav hnav
  | homeClicked button =>
    obtain ⟨hhome, hs⟩ := Option.ite_none_right_eq_some.mp h
    cases hs
    exact .pushed _ rfl rfl fun _ => ⟨_, s.nav.top_mem, Or.inl hhome⟩
  | didSelectItemAt =>
    obtain ⟨hbuttons, hs⟩ := Option.ite_none_right_eq_some.mp h
    cases hs
    exact .pushed _ rfl rfl fun _ => ⟨_, hbuttons, Or.inr rfl⟩
  | playClicked =>
    obtain ⟨htop, hs⟩ := Option.ite_none_right_eq_some.mp h
    cases hs
    have hbuttons : .buttons ∈ s.nav.viewControllers := htop ▸ s.nav.top_mem
    exact .pushed _ rfl rfl fun _ => ⟨_, hbuttons, Or.inr rfl⟩
  | didFinish i =>
    obtain ⟨-, hs⟩ := Option.ite_none_right_eq_some.mp h
    cases hs
    -- on the stack, the speaking screen itself says that there is a Home to keep
    by_cases hspeak : .speak i ∈ s.nav.viewControllers
    · simp only [hspeak, if_true]
      exact .popped (Or.inr ⟨_, hspeak, rfl⟩)
    · simp only [hspeak, if_false]
      exact .same

/-- **What a step can do.** -/
theorem effect_of_step (h : s.step e = some s') :
    (s.StoresOffStack e ∧ s'.username.isSome ∧ s'.nav = s.nav) ∨
      (¬ s.StoresOffStack e ∧ Effect s.username s.nav s'.username s'.nav) := by
  cases e with
  | facebookResult i result => exact effect_of_facebookResult h
  | _ => exact Or.inr ⟨id, effect_of_ne_facebookResult (by simp) h⟩

/-! ### The stack is well formed -/

/-- The start screen is the root and nowhere else, and every screen of the library has a
    Home below. -/
structure WellFormed (nav : NavStack Controller) : Prop where
  root : nav.root = .viewController
  start : ∀ c ∈ nav.pushed, c.isViewController = false
  supported : NavStack.Supported Controller.inLibrary Controller.isHome nav.pushed

theorem wellFormed_launch : WellFormed launch.nav := ⟨rfl, nofun, trivial⟩

/-- A screen other than the start screen that is on the stack has been pushed. -/
theorem WellFormed.mem_pushed {nav : NavStack Controller} (hs : WellFormed nav) {c : Controller}
    (hc : c ∈ nav.viewControllers) (hne : c.isViewController = false) : c ∈ nav.pushed := by
  rcases NavStack.mem_viewControllers.mp hc with hroot | hpushed
  · rw [hs.root] at hroot
    rw [hroot] at hne
    cases hne
  · exact hpushed

/-- Logging out returns to the start screen alone. -/
theorem WellFormed.popToEach_eq {nav : NavStack Controller} (hs : WellFormed nav) :
    nav.popToEach Controller.isViewController = some ⟨.viewController, []⟩ := by
  rw [NavStack.popToEach_root (by rw [hs.root]; rfl) hs.start, hs.root]

/-- Home or a screen of the library on the stack means that a Home has been pushed. -/
theorem WellFormed.exists_home {nav : NavStack Controller} (hs : WellFormed nav) {c : Controller}
    (hc : c ∈ nav.viewControllers) (hkind : c.isHome = true ∨ c.inLibrary = true) :
    ∃ d ∈ nav.pushed, d.isHome = true := by
  have hne : c.isViewController = false := by
    cases c <;> simp_all [Controller.isHome, Controller.inLibrary, Controller.isViewController]
  have hpushed := hs.mem_pushed hc hne
  rcases hkind with hhome | hlibrary
  · exact ⟨c, hpushed, hhome⟩
  · exact hs.supported.exists_base hpushed hlibrary

/-- The step lemma for the stack. -/
theorem WellFormed.step (hs : WellFormed s.nav) (h : s.step e = some s') : WellFormed s'.nav := by
  rcases effect_of_step h with ⟨-, -, hnav⟩ | ⟨-, heffect⟩
  · rw [hnav]; exact hs
  · generalize s'.username = username at heffect
    generalize s'.nav = nav at heffect
    cases heffect with
    | same => exact hs
    | pushed c hhome hstart hlibrary =>
      refine ⟨hs.root, fun d hd => ?_, fun hc => ?_, hs.supported⟩
      · rcases List.mem_cons.mp hd with rfl | hd
        · exact hstart
        · exact hs.start d hd
      · obtain ⟨d, hd, hkind⟩ := hlibrary hc
        exact hs.exists_home hd hkind
    | popped h => exact ⟨hs.root, fun d hd => hs.start d (List.mem_of_mem_tail hd), hs.supported.tail⟩
    | opened name =>
      refine ⟨hs.root, fun d hd => ?_, nofun, hs.supported⟩
      rcases List.mem_cons.mp hd with rfl | hd
      · rfl
      · exact hs.start d hd
    | loggedOut nav h =>
      rw [hs.popToEach_eq] at h
      cases h
      exact ⟨rfl, nofun, trivial⟩

end Session

end ChildLearning
