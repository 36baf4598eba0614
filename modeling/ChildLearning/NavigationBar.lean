import Mathlib.Data.List.Infix
import ChildLearning.Relaunch

namespace ChildLearning

open Transition Session

/-!
# The navigation bar

The back button of a screen is in the navigation bar, and the bar is one for all screens: they
show or hide it in `viewDidLoad()`, which runs once, and in `viewWillAppear(_:)`, which runs
whenever the screen comes to the top.  The account screens only do the former, and the quiz
does neither.  `barFits_along_iff` says that the bar nevertheless is shown exactly on the
screens with a back button and on the speaking screens, which have a title in it and no
button, unless a quiz is uncovered from under a Home.
-/

namespace Controller

/-- A `LoginViewController` or a `SignUpViewController`. -/
def isAccount : Controller → Bool
  | .login _  => true
  | .signUp _ => true
  | _         => false

/-- The scene has something in its navigation bar: a back button, or the title of a speaking
    screen. -/
def showsBar : Controller → Bool
  | .speak _ => true
  | c        => c.hasBack

/-- `viewDidLoad()`, as far as `navigationBar.isHidden` goes. -/
def viewDidLoad : Controller → Bool → Bool
  | .viewController, _ => true
  | .login _, _        => false
  | .signUp _, _       => false
  | _, isHidden        => isHidden

/-- `viewWillAppear(_:)`, as far as `navigationBar.isHidden` goes. -/
def viewWillAppear : Controller → Bool → Bool
  | .viewController, _ => true
  | .home _, _         => true
  | .buttons, _        => false
  | .speak _, _        => false
  | _, isHidden        => isHidden

end Controller

/-- The running app with its navigation bar. -/
structure NavigationBar where
  session : Session
  isHidden : Bool

namespace NavigationBar

/-- A new process: the bar is shown until the screen on top has loaded and appears. -/
def start (s : Session) : NavigationBar :=
  ⟨s, s.nav.top.viewWillAppear (s.nav.top.viewDidLoad false)⟩

/-- One event. -/
def step (s : NavigationBar) : LifecycleEvent → Option NavigationBar
  | .session e => (s.session.step e).map fun session =>
      ⟨session, s.session.nav.shows Controller.viewDidLoad Controller.viewWillAppear session.nav
        s.isHidden⟩
  | .relaunch  => some (start s.session.relaunch)

/-- The bar is shown exactly if the screen on top has a back button or is a speaking screen. -/
def BarFits (s : NavigationBar) : Prop := s.isHidden = !s.session.nav.top.showsBar

/-- No quiz takes the place of a Home on top. -/
def QuizFromButtons (s : NavigationBar) (_ : LifecycleEvent) (s' : NavigationBar) : Prop :=
  s.session.nav.top.isHome = true → s'.session.nav.top ≠ .play

end NavigationBar

/-! ### How the stack moves -/

/-- What a step does to the stack, as far as it matters which screen lies on which. -/
inductive Move (nav : NavStack Controller) : NavStack Controller → Prop where
  /-- It stays. -/
  | stayed : Move nav nav
  /-- A screen is pushed; an account screen over the start screen, the tiles over a Home, a quiz
      over the tiles. -/
  | pushed (c : Controller) (haccount : c.isAccount = true → nav.top = .viewController)
      (htiles : c = .buttons → nav.top.isHome = true) (hplay : c = .play → nav.top = .buttons)
      (hstart : c.isViewController = false) : Move nav (nav.push c)
  /-- The screen on top is popped; it has a back button, or a speaking screen is on the
      stack. -/
  | popped (h : nav.top.hasBack = true ∨ ∃ i, .speak i ∈ nav.viewControllers) : Move nav nav.pop
  /-- Home returns to the start screen. -/
  | loggedOut (hhome : nav.top.isHome = true) (nav' : NavStack Controller)
      (h : nav.popToEach Controller.isViewController = some nav') : Move nav nav'

namespace Session

variable {s s' : Session} {e : SessionEvent}

/-- A handler of an account screen: the stack stays, or Home is pushed. -/
theorem move_perform (s : Session) (on : Controller) (action : ScreenAction) :
    Move s.nav (s.perform on action).nav := by
  unfold perform
  cases action.storedName with
  | none => exact .stayed
  | some name =>
    by_cases hon : on ∈ s.nav.viewControllers
    · simp only [hon, if_true]
      exact .pushed _ (by simp [Controller.isAccount]) (by simp) (by simp) rfl
    · simp only [hon, if_false]
      exact .stayed

/-- **How a step moves the stack.** -/
theorem move_of_step (h : s.step e = some s') : Move s.nav s'.nav := by
  cases e with
  | openLogin =>
    obtain ⟨htop, hs⟩ := Option.ite_none_right_eq_some.mp h
    cases hs
    exact .pushed _ (fun _ => htop) (by simp) (by simp) rfl
  | openSignUp =>
    obtain ⟨htop, hs⟩ := Option.ite_none_right_eq_some.mp h
    cases hs
    exact .pushed _ (fun _ => htop) (by simp) (by simp) rfl
  | observed i snapshot =>
    obtain ⟨users, -, hs⟩ := Option.bind_eq_some_iff.mp h
    obtain ⟨users', -, rfl⟩ := Option.map_eq_some_iff.mp hs
    exact .stayed
  | loginClicked txtFEmail txtFPassword =>
    simp only [step] at h
    split at h
    · obtain ⟨users, -, rfl⟩ := Option.map_eq_some_iff.mp h
      exact move_perform s _ _
    · cases h
  | signUpcClicked txtFName txtFEmail txtFPassword =>
    simp only [step] at h
    split at h
    · obtain ⟨users, -, rfl⟩ := Option.map_eq_some_iff.mp h
      exact move_perform s _ _
    · cases h
  | facebookLoginClicked =>
    simp only [step] at h
    split at h
    · cases h; exact .stayed
    · cases h
  | facebookResult i result =>
    obtain ⟨-, hs⟩ := Option.ite_none_right_eq_some.mp h
    cases result with
    | none => cases hs; exact .stayed
    | some profile =>
      obtain ⟨users, -, rfl⟩ := Option.map_eq_some_iff.mp hs
      exact move_perform { s with facebookPending := s.facebookPending.erase i } _ _
  | backClicked =>
    obtain ⟨hback, hs⟩ := Option.ite_none_right_eq_some.mp h
    cases hs
    exact .popped (Or.inl hback)
  | logout =>
    obtain ⟨hhome, hs⟩ := Option.ite_none_right_eq_some.mp h
    obtain ⟨nav, hnav, rfl⟩ := Option.map_eq_some_iff.mp hs
    exact .loggedOut hhome nav hnav
  | homeClicked button =>
    obtain ⟨hhome, hs⟩ := Option.ite_none_right_eq_some.mp h
    cases hs
    exact .pushed _ (by simp [Controller.isAccount]) (fun _ => hhome) (by simp) rfl
  | didSelectItemAt =>
    obtain ⟨-, hs⟩ := Option.ite_none_right_eq_some.mp h
    cases hs
    exact .pushed _ (by simp [Controller.isAccount]) (by simp) (by simp) rfl
  | playClicked =>
    obtain ⟨htop, hs⟩ := Option.ite_none_right_eq_some.mp h
    cases hs
    exact .pushed _ (by simp [Controller.isAccount]) (by simp) (fun _ => htop) rfl
  | didFinish i =>
    obtain ⟨-, hs⟩ := Option.ite_none_right_eq_some.mp h
    cases hs
    by_cases hspeak : .speak i ∈ s.nav.viewControllers
    · simp only [hspeak, if_true]
      exact .popped (Or.inr ⟨i, hspeak⟩)
    · simp only [hspeak, if_false]
      exact .stayed

end Session

/-! ### Which screens can be uncovered -/

/-- The stack is well formed, and an account screen has only the start screen below. -/
structure Layered (nav : NavStack Controller) : Prop where
  wf : WellFormed nav
  bottom : ∀ c below, c :: below <:+ nav.pushed → c.isAccount = true → below = []

theorem layered_start (nav : NavStack Controller) (hroot : nav.root = .viewController)
    (hpushed : nav.pushed = [] ∨ nav.pushed = [.home ""]) : Layered nav := by
  obtain ⟨root, pushed⟩ := nav
  subst hroot
  rcases hpushed with rfl | rfl
  · exact ⟨wellFormed_launch, fun c below h => by simp at h⟩
  · refine ⟨⟨rfl, by simp [Controller.isViewController], nofun, trivial⟩, fun c below h haccount => ?_⟩
    simp only [List.suffix_cons_iff, List.suffix_nil, List.cons.injEq] at h
    rcases h with ⟨-, h⟩ | h
    · exact h
    · cases h

/-- Where the start screen is on top, nothing has been pushed. -/
theorem Session.WellFormed.pushed_eq_nil {nav : NavStack Controller} (hs : WellFormed nav)
    (htop : nav.top = .viewController) : nav.pushed = [] := by
  cases hpushed : nav.pushed with
  | nil => rfl
  | cons c below =>
    have hc : c.isViewController = false := hs.start c (hpushed ▸ List.mem_cons_self)
    have hctop : nav.top = c := by simp [NavStack.top, hpushed]
    rw [← hctop, htop] at hc
    cases hc

theorem Layered.move {nav nav' : NavStack Controller} (hs : Layered nav) (hwf : WellFormed nav')
    (h : Move nav nav') : Layered nav' := by
  refine ⟨hwf, ?_⟩
  cases h with
  | stayed => exact hs.bottom
  | pushed c haccount =>
    intro d below hsuffix hd
    rcases List.suffix_cons_iff.mp hsuffix with heq | hbelow
    · -- the account screen that was pushed: the start screen was on top
      obtain ⟨rfl, rfl⟩ := List.cons.inj heq
      exact hs.wf.pushed_eq_nil (haccount hd)
    · exact hs.bottom d below hbelow hd
  | popped =>
    exact fun d below hsuffix => hs.bottom d below (hsuffix.trans (List.tail_suffix _))
  | loggedOut hhome nav' hnav =>
    rw [hs.wf.popToEach_eq] at hnav
    cases hnav
    exact fun d below hsuffix => by simp at hsuffix

/-- A pop that the app makes never uncovers an account screen. -/
theorem Layered.not_isAccount {nav : NavStack Controller} (hs : Layered nav)
    (hpop : nav.top.hasBack = true ∨ ∃ i, .speak i ∈ nav.viewControllers)
    {c d : Controller} {below : List Controller} (hpushed : nav.pushed = c :: d :: below) :
    d.isAccount = false := by
  by_contra hd
  rw [Bool.not_eq_false] at hd
  obtain rfl : below = [] :=
    hs.bottom d below (hpushed ▸ List.suffix_cons c (d :: below)) hd
  -- what lies on it is a Home: no account screen, and nothing of the library without a Home
  have hc : c.isHome = true := by
    have haccount : c.isAccount ≠ true := fun hc =>
      List.cons_ne_nil d [] (hs.bottom c [d] (hpushed ▸ List.suffix_rfl) hc)
    have hlibrary : c.inLibrary ≠ true := by
      intro hc
      have hsupported := hs.wf.supported
      rw [hpushed] at hsupported
      obtain ⟨b, hb, hbase⟩ := hsupported.1 hc
      obtain rfl : b = d := List.mem_singleton.mp hb
      cases b <;> simp_all [Controller.isAccount, Controller.isHome]
    have hstart := hs.wf.start c (hpushed ▸ List.mem_cons_self)
    cases c <;> simp_all [Controller.isAccount, Controller.inLibrary, Controller.isHome,
      Controller.isViewController]
  have htop : nav.top = c := by simp [NavStack.top, hpushed]
  rcases hpop with hback | ⟨i, hi⟩
  · rw [htop] at hback
    cases c <;> simp_all [Controller.isHome, Controller.hasBack]
  · rw [NavStack.mem_viewControllers, hs.wf.root, hpushed] at hi
    simp only [reduceCtorEq, List.mem_cons, List.not_mem_nil, or_false, false_or] at hi
    rcases hi with rfl | rfl
    · cases hc
    · cases hd

/-! ### The bar -/

/-- **What the screens make of the bar.**  Nothing where the stack stays; a quiz leaves it to the
    screen that was on top; any other screen makes it fit. -/
theorem Layered.shows_cases {nav nav' : NavStack Controller} (hs : Layered nav) (h : Move nav nav')
    (isHidden : Bool) :
    nav' = nav ∨
      (nav'.top ≠ .play ∧ nav.shows Controller.viewDidLoad Controller.viewWillAppear nav' isHidden
        = !nav'.top.showsBar) ∨
      (nav'.top = .play ∧ nav.top.isViewController = false ∧
        nav.shows Controller.viewDidLoad Controller.viewWillAppear nav' isHidden = isHidden) := by
  cases h with
  | stayed => exact Or.inl rfl
  | pushed c haccount htiles hplay hstart =>
    rw [NavStack.shows_push, NavStack.top_push]
    cases c with
    | viewController => cases hstart
    | play => exact Or.inr (Or.inr ⟨rfl, by rw [hplay rfl]; rfl, rfl⟩)
    | login i => exact Or.inr (Or.inl ⟨by simp, rfl⟩)
    | signUp i => exact Or.inr (Or.inl ⟨by simp, rfl⟩)
    | home name => exact Or.inr (Or.inl ⟨by simp, rfl⟩)
    | buttons => exact Or.inr (Or.inl ⟨by simp, rfl⟩)
    | speak i => exact Or.inr (Or.inl ⟨by simp, rfl⟩)
  | popped hpop =>
    have hroot := hs.wf.root
    have hstart := hs.wf.start
    have haccount := @Layered.not_isAccount nav hs hpop
    obtain ⟨root, pushed⟩ := nav
    dsimp only at hroot hstart haccount
    subst hroot
    cases pushed with
    | nil => exact Or.inl rfl
    | cons c rest =>
      rw [NavStack.shows_of_lt _ _ _ _ (by simp [NavStack.pop])]
      cases rest with
      | nil => exact Or.inr (Or.inl ⟨by simp [NavStack.top, NavStack.pop], rfl⟩)
      | cons d below =>
        show _ ∨ (d ≠ .play ∧ d.viewWillAppear isHidden = !d.showsBar) ∨
          (d = .play ∧ c.isViewController = false ∧ d.viewWillAppear isHidden = isHidden)
        have hc : c.isViewController = false := hstart c List.mem_cons_self
        have hd : d.isAccount = false := haccount rfl
        cases d with
        | viewController => exact Or.inr (Or.inl ⟨by simp, rfl⟩)
        | login i => cases hd
        | signUp i => cases hd
        | home name => exact Or.inr (Or.inl ⟨by simp, rfl⟩)
        | buttons => exact Or.inr (Or.inl ⟨by simp, rfl⟩)
        | speak i => exact Or.inr (Or.inl ⟨by simp, rfl⟩)
        | play => exact Or.inr (Or.inr ⟨rfl, hc, rfl⟩)
  | loggedOut hhome nav' hnav =>
    rw [hs.wf.popToEach_eq] at hnav
    cases hnav
    have hpushed : 0 < nav.pushed.length := by
      rw [List.length_pos_iff]
      intro hnil
      have htop : nav.top = .viewController := by simp [NavStack.top, hnil, hs.wf.root]
      rw [htop] at hhome
      cases hhome
    have hlt : (⟨.viewController, []⟩ : NavStack Controller).pushed.length < nav.pushed.length :=
      hpushed
    rw [NavStack.shows_of_lt _ _ _ _ hlt]
    exact Or.inr (Or.inl ⟨by simp [NavStack.top], rfl⟩)

/-- A bar that fits is right after a move exactly when no quiz takes the place of a Home. -/
theorem Layered.shows_iff {nav nav' : NavStack Controller} {isHidden : Bool} (hs : Layered nav)
    (hfits : isHidden = !nav.top.showsBar) (h : Move nav nav') :
    nav.shows Controller.viewDidLoad Controller.viewWillAppear nav' isHidden = (!nav'.top.showsBar) ↔
      (nav.top.isHome = true → nav'.top ≠ .play) := by
  rcases hs.shows_cases h isHidden with rfl | ⟨hne, hshows⟩ | ⟨hplay, hstart, hshows⟩
  · rw [NavStack.shows_self]
    refine iff_of_true hfits fun hhome hplay => ?_
    rw [hplay] at hhome
    cases hhome
  · exact iff_of_true hshows fun _ => hne
  · -- the bar stays as the screen above has left it, and only a Home has hidden it
    rw [hshows, hplay, hfits]
    cases htop : nav.top <;>
      simp_all [Controller.showsBar, Controller.hasBack, Controller.isHome,
        Controller.isViewController]

namespace NavigationBar

/-- A new process has the start screen alone, or Home over it. -/
theorem nav_relaunch (s : Session) :
    s.relaunch.nav = ⟨.viewController, []⟩ ∨ s.relaunch.nav = ⟨.viewController, [.home ""]⟩ := by
  unfold relaunch
  cases s.username with
  | none => exact Or.inl rfl
  | some userName =>
    dsimp only
    split_ifs
    · exact Or.inr rfl
    · exact Or.inl rfl

theorem layered_relaunch (s : Session) : Layered s.relaunch.nav := by
  rcases nav_relaunch s with hnav | hnav
  · rw [hnav]; exact layered_start _ rfl (Or.inl rfl)
  · rw [hnav]; exact layered_start _ rfl (Or.inr rfl)

variable {s s' : NavigationBar} {e : LifecycleEvent}

/-- The step lemma for the stack. -/
theorem layered_of_step (hs : Layered s.session.nav) (h : step s e = some s') :
    Layered s'.session.nav := by
  cases e with
  | session e =>
    obtain ⟨session, hsession, rfl⟩ := Option.map_eq_some_iff.mp h
    exact hs.move (hs.wf.step hsession) (move_of_step hsession)
  | relaunch =>
    cases h
    exact layered_relaunch s.session

/-- **The navigation bar.**  In every history of sessions and relaunches the bar is shown
    exactly on the screens with a back button and on the speaking screens, if and only if no
    step replaces a Home on top by a quiz. -/
theorem barFits_along_iff (es : List LifecycleEvent) :
    BarFits (start launch) ∧
      (Along step (fun _ _ s' => BarFits s') (start launch) es ↔
        Along step QuizFromButtons (start launch) es) := by
  refine ⟨rfl, ?_⟩
  apply along_iff_along (I := fun s => Layered s.session.nav ∧ BarFits s)
  · intro s e s' hs hstep
    cases e with
    | session e =>
      obtain ⟨session, hsession, rfl⟩ := Option.map_eq_some_iff.mp hstep
      exact hs.1.shows_iff hs.2 (move_of_step hsession)
    | relaunch =>
      cases hstep
      unfold BarFits QuizFromButtons start
      dsimp only
      rcases nav_relaunch s.session with hnav | hnav
      · rw [hnav]; exact iff_of_true rfl (by simp [NavStack.top])
      · rw [hnav]; exact iff_of_true rfl (by simp [NavStack.top])
  · exact fun s e s' hs hstep hfits => ⟨layered_of_step hs.1 hstep, hfits⟩
  · exact ⟨layered_start _ rfl (Or.inl rfl), rfl⟩

/-- Three Facebook results come in while Ann is inside: the second while a word is spoken, the
    third while she plays.  When the word has ended, the quiz has no back button. -/
def quizUnderHome : List LifecycleEvent :=
  let ann : FbProfile := ⟨"7", some "ann@mail.co", some "Ann"⟩
  [.session .openLogin, .session .facebookLoginClicked, .session .facebookLoginClicked,
    .session .facebookLoginClicked, .session (.facebookResult 0 (some ann)),
    .session (.homeClicked .wordClicked), .session .didSelectItemAt,
    .session (.facebookResult 0 (some ann)), .session (.homeClicked .wordClicked), .session .playClicked,
    .session (.facebookResult 0 (some ann)), .session (.didFinish 0)]

example : ∃ s, run step (start launch) quizUnderHome = some s ∧ s.session.nav.top = .play ∧
    s.isHidden = true ∧ ¬ BarFits s :=
  ⟨_, rfl, rfl, rfl, nofun⟩

end NavigationBar

end ChildLearning
