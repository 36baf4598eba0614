import Mathlib.Data.List.Count
import ChildLearning.Relaunch

namespace ChildLearning

open Transition

/-!
# Logging out

`HomeViewController.logout()` goes through a copy of the stack and pops to every
`ViewController` in it, which traps if that has left the stack.  `logout_of_run` says that
this never happens, however the user has navigated.  The machine is the stack alone, with
any pushes and pops in any order; `exists_run_of_session` shows that every session is a run
of it.
-/

/-- A screen that the app pushes; a `ViewController` is on the stack from the launch only. -/
abbrev PushedScreen := { c : Controller // c.isViewController = false }

/-- The navigation stack and what is stored under "username". -/
structure Navigation where
  nav : NavStack Controller
  username : Option String

/-- A push, a pop, a name that is stored, or `HomeViewController.logout()`. -/
inductive NavigationEvent where
  | push (c : PushedScreen)
  | pop
  | setUsername (name : String)
  | logout

/-- The part of a session that navigation looks at. -/
def Session.navigation (s : Session) : Navigation := ⟨s.nav, s.username⟩

namespace Navigation

/-- The launch with this stored name. -/
def launch (username : Option String) : Navigation :=
  (Session.relaunch { username := username }).navigation

/-- `HomeViewController.logout()` of a Home on this stack: the name is removed, whatever
    becomes of the stack. -/
def logout (s : Navigation) : Option Navigation :=
  (s.nav.popToEach Controller.isViewController).map fun nav => { nav := nav, username := none }

/-- One event. -/
def step (s : Navigation) : NavigationEvent → Option Navigation
  | .push c           => some { s with nav := s.nav.push c }
  | .pop              => some { s with nav := s.nav.pop }
  | .setUsername name => some { s with username := some name }
  | .logout           => s.logout

/-- The start screen is the root of the stack, and nowhere else. -/
structure OneStart (nav : NavStack Controller) : Prop where
  root : nav.root = .viewController
  pushed : ∀ c ∈ nav.pushed, c.isViewController = false

variable {s s' : Navigation} {e : NavigationEvent}

/-- The two stacks of a launch. -/
theorem oneStart_launch (username : Option String) : OneStart (launch username).nav := by
  unfold launch Session.relaunch
  cases username with
  | none => exact ⟨rfl, nofun⟩
  | some userName =>
    dsimp only
    split
    · -- `[vc, vc1]`
      refine ⟨rfl, fun c hc => ?_⟩
      rw [List.mem_singleton.mp hc]
      rfl
    · exact ⟨rfl, nofun⟩

/-- In list form. -/
theorem OneStart.countP_eq_one {nav : NavStack Controller} (hs : OneStart nav) :
    nav.viewControllers.countP Controller.isViewController = 1 := by
  have hnone : nav.pushed.reverse.countP Controller.isViewController = 0 := by
    rw [List.countP_eq_zero]
    intro c hc
    rw [hs.pushed c (List.mem_reverse.mp hc)]
    exact Bool.false_ne_true
  rw [NavStack.viewControllers, List.countP_cons, hnone, hs.root]
  rfl

/-- Logging out pops to the root once, and finds it on the stack. -/
theorem OneStart.logout_eq (hs : OneStart s.nav) :
    s.logout = some ⟨⟨.viewController, []⟩, none⟩ := by
  have hroot : s.nav.root.isViewController = true := by rw [hs.root]; rfl
  rw [logout, NavStack.popToEach_root hroot hs.pushed, hs.root]
  rfl

/-- The step lemma: every event can happen, and leaves one start screen. -/
theorem OneStart.step (hs : OneStart s.nav) (e : NavigationEvent) :
    ∃ s', s.step e = some s' ∧ OneStart s'.nav := by
  cases e with
  | push c =>
    refine ⟨_, rfl, hs.root, fun d hd => ?_⟩
    rcases List.mem_cons.mp hd with rfl | hd
    · exact c.2
    · exact hs.pushed d hd
  | pop => exact ⟨_, rfl, hs.root, fun c hc => hs.pushed c (List.mem_of_mem_tail hc)⟩
  | setUsername name => exact ⟨_, rfl, hs⟩
  | logout => exact ⟨_, hs.logout_eq, rfl, nofun⟩

/-- The run lemma. -/
theorem OneStart.run (hs : OneStart s.nav) (es : List NavigationEvent) :
    ∃ s', Transition.run Navigation.step s es = some s' ∧ OneStart s'.nav := by
  induction es generalizing s with
  | nil => exact ⟨s, rfl, hs⟩
  | cons e es ih =>
    obtain ⟨mid, hstep, hmid⟩ := hs.step e
    obtain ⟨s', hrun, hs'⟩ := ih hmid
    exact ⟨s', run_cons_eq_some.mpr ⟨mid, hstep, hrun⟩, hs'⟩

/-! ### Sessions -/

/-- Every step of a session is one of these events, or two. -/
theorem exists_run_of_step {s s' : Session} {e : SessionEvent} (h : s.step e = some s') :
    ∃ es, Transition.run step s.navigation es = some s'.navigation := by
  unfold Session.navigation
  rcases Session.effect_of_step h with ⟨-, hsome, hnav⟩ | ⟨-, heffect⟩
  · obtain ⟨name, hname⟩ := Option.isSome_iff_exists.mp hsome
    exact ⟨[.setUsername name], by rw [hname, hnav]; rfl⟩
  · generalize s'.username = username at heffect ⊢
    generalize s'.nav = nav at heffect ⊢
    cases heffect with
    | same => exact ⟨[], rfl⟩
    | pushed c hhome hstart => exact ⟨[.push ⟨c, hstart⟩], rfl⟩
    | popped => exact ⟨[.pop], rfl⟩
    | opened name => exact ⟨[.setUsername name, .push ⟨.home name, rfl⟩], rfl⟩
    | loggedOut nav' hnav =>
      refine ⟨[.logout], ?_⟩
      rw [run_cons, step, logout, hnav]
      rfl

/-- **Refinement.** Every session, from any launch, is a run of the navigation machine. -/
theorem exists_run_of_session {s s' : Session} {es : List SessionEvent}
    (h : Transition.run Session.step s es = some s') :
    ∃ fs, Transition.run step s.navigation fs = some s'.navigation :=
  run_simulation Session.navigation (fun _ _ _ hstep => exists_run_of_step hstep) h

/-- A logout that Home asks for in a session succeeds. -/
theorem exists_logout_of_session {username : Option String} {s : Session} {es : List SessionEvent}
    (h : Transition.run Session.step (Session.relaunch { username := username }) es = some s)
    (hhome : s.nav.top.isHome = true) :
    ∃ s', s.step .logout = some s' ∧ s'.navigation = ⟨⟨.viewController, []⟩, none⟩ := by
  obtain ⟨fs, hfs⟩ := exists_run_of_session h
  obtain ⟨nav, hrun, hnav⟩ := (oneStart_launch username).run fs
  obtain rfl : nav = s.navigation := Option.some.inj (hrun.symm.trans hfs)
  have hlogout := hnav.logout_eq
  rw [logout, Option.map_eq_some_iff] at hlogout
  obtain ⟨popped, hpopped, heq⟩ := hlogout
  refine ⟨{ s with username := none, nav := popped }, ?_, heq⟩
  rw [Session.step, if_pos hhome]
  exact Option.map_eq_some_iff.mpr ⟨popped, hpopped, rfl⟩

/-- **Logging out.**  From the stack of any launch, after any pushes, pops and logouts: the
    one `ViewController` of the stack is its root, so that a logout pops to nothing that has
    left the stack, and it leaves the start screen alone and no stored name. -/
theorem logout_of_run (username : Option String) (es : List NavigationEvent) :
    ∃ s, Transition.run step (launch username) es = some s ∧
      s.nav.viewControllers.head? = some .viewController ∧
      s.nav.viewControllers.countP Controller.isViewController = 1 ∧
      ∃ s', s.logout = some s' ∧ s'.nav.viewControllers = [.viewController] ∧
        s'.username = none := by
  obtain ⟨s, hrun, hs⟩ := (oneStart_launch username).run es
  refine ⟨s, hrun, ?_, hs.countP_eq_one, _, hs.logout_eq, rfl, rfl⟩
  rw [NavStack.viewControllers, List.head?_cons, hs.root]

end Navigation

end ChildLearning
