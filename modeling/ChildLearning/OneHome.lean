import ChildLearning.WayBack

namespace ChildLearning

open Transition Session

/-!
# One Home

The code pushes a Home whenever somebody gets in, and a Facebook result may get in when a Home is
open already.  `oneHome_along_iff` says that nothing else opens a second one; and that where none
is open, the user loses the way back only when an utterance ends before the one of a later
selection, whose screen it then takes off the stack.
-/

/-- The event is a Facebook result that gets in, for a login screen that is on the stack
    together with a Home. -/
def Session.OpensSecondHome (s : Session) : SessionEvent → Prop
  | .facebookResult i (some profile) => .login i ∈ s.nav.viewControllers ∧ HomeOnStack s.nav ∧
      ∃ users, s.screens[i]? = some users ∧
        LoginViewController.acceptsFacebook users (profile.email.getD "") = true
  | _ => False

/-- No second Home is opened. -/
def NavigationBar.ResultOutside (s : NavigationBar) (e : LifecycleEvent) (_ : NavigationBar) :
    Prop :=
  ∀ event, e = .session event → ¬ s.session.OpensSecondHome event

/-- No utterance ends before the one of a later selection. -/
def NavigationBar.EndsInOrder (s : NavigationBar) (e : LifecycleEvent) (_ : NavigationBar) : Prop :=
  ∀ i, e = .session (.didFinish i) → LastFirst s.session (.didFinish i)

/-! ### How many Homes are open -/

@[simp] theorem homes_start : homes ⟨.viewController, []⟩ = 0 := rfl

@[simp] theorem homes_push (nav : NavStack Controller) (c : Controller) :
    homes (nav.push c) = homes nav + if c.isHome then 1 else 0 := by
  simp only [homes, NavStack.push, NavStack.viewControllers, List.reverse_cons, List.countP_cons,
    List.countP_append, List.countP_nil]
  omega

theorem homes_pop_le (nav : NavStack Controller) : homes nav.pop ≤ homes nav := by
  obtain ⟨root, pushed⟩ := nav
  cases pushed with
  | nil => exact le_refl _
  | cons c below =>
    show homes ⟨root, below⟩ ≤ homes (NavStack.push ⟨root, below⟩ c)
    rw [homes_push]
    omega

theorem homes_eq_zero_iff {nav : NavStack Controller} : homes nav = 0 ↔ ¬ HomeOnStack nav := by
  simp [homes, HomeOnStack]

/-- With an account screen on top, none is open. -/
theorem Layered.homes_eq_zero {nav : NavStack Controller} (hs : Layered nav)
    (htop : nav.top.isAccount = true) : homes nav = 0 := by
  have hroot := hs.wf.root
  have hbottom := hs.bottom
  obtain ⟨root, pushed⟩ := nav
  dsimp only at hroot hbottom
  subst hroot
  cases pushed with
  | nil => cases htop
  | cons c below =>
    have hc : c.isAccount = true := htop
    obtain rfl := hbottom c below List.suffix_rfl hc
    show homes (NavStack.push ⟨.viewController, []⟩ c) = 0
    cases c <;> simp_all [Controller.isAccount, Controller.isHome]

/-- A Home over a quiz is the second one. -/
theorem Layered.not_quiz_of_homes_le {nav nav' : NavStack Controller} (hs : Layered nav)
    (hone : homes nav ≤ 1) (h : Move nav nav') (hhome : nav.top.isHome = true) :
    nav'.top ≠ .play := by
  intro hplay
  cases h with
  | stayed =>
    rw [hplay] at hhome
    cases hhome
  | pushed c haccount htiles hquiz hstart =>
    have hbuttons : nav.top = .buttons := hquiz hplay
    rw [hbuttons] at hhome
    cases hhome
  | popped =>
    have hsupported := hs.wf.supported
    have hroot := hs.wf.root
    obtain ⟨root, pushed⟩ := nav
    cases pushed with
    | nil =>
      subst hroot
      cases hhome
    | cons c rest =>
      cases rest with
      | nil =>
        subst hroot
        cases hplay
      | cons d below =>
        -- below the quiz there is the Home that it was started from
        obtain rfl : d = .play := hplay
        obtain ⟨b, hb, hbase⟩ := hsupported.2.1 rfl
        have hbelow : homes ⟨root, below⟩ ≠ 0 := fun hzero => homes_eq_zero_iff.mp hzero
          ⟨b, NavStack.mem_viewControllers.mpr (Or.inr hb), hbase⟩
        have hc : c.isHome = true := hhome
        have hcount : homes ((NavStack.push ⟨root, below⟩ .play).push c)
            = homes ⟨root, below⟩ + 1 := by
          rw [homes_push, homes_push, if_pos hc]
          rfl
        have hone : homes ((NavStack.push ⟨root, below⟩ .play).push c) ≤ 1 := hone
        omega
  | loggedOut _ nav' hnav =>
    rw [hs.wf.popToEach_eq] at hnav
    cases hnav
    cases hplay

namespace Session

variable {s s' : Session} {e : SessionEvent}

/-- The decision of a screen opens one Home, or none. -/
theorem homes_perform (s : Session) (on : Controller) (action : ScreenAction) :
    homes (s.perform on action).nav
      = homes s.nav + if action.storedName.isSome ∧ on ∈ s.nav.viewControllers then 1 else 0 := by
  unfold perform
  cases action.storedName with
  | none => simp
  | some name =>
    by_cases hon : on ∈ s.nav.viewControllers
    · simp [hon, Controller.isHome]
    · simp [hon]

/-- A Facebook result opens a Home exactly if it gets in while its screen is on the stack. -/
theorem homes_of_facebookResult {i : ℕ} {result : Option FbProfile}
    (h : s.step (.facebookResult i result) = some s') :
    s.OpensSecondHome (.facebookResult i result) ∧ homes s'.nav = homes s.nav + 1 ∨
      ¬ s.OpensSecondHome (.facebookResult i result) ∧ homes s'.nav ≤ max (homes s.nav) 1 := by
  obtain ⟨-, hstep⟩ := Option.ite_none_right_eq_some.mp h
  cases result with
  | none => cases hstep; exact Or.inr ⟨id, le_max_left _ _⟩
  | some profile =>
    obtain ⟨users, husers, rfl⟩ := Option.map_eq_some_iff.mp hstep
    rw [homes_perform, LoginViewController.getFBUserData_storedName_isSome]
    dsimp only
    by_cases hopens : LoginViewController.acceptsFacebook users (profile.email.getD "") = true ∧
        .login i ∈ s.nav.viewControllers
    · rw [if_pos hopens]
      by_cases hhome : HomeOnStack s.nav
      · exact Or.inl ⟨⟨hopens.2, hhome, users, husers, hopens.1⟩, rfl⟩
      · rw [homes_eq_zero_iff.mpr hhome]
        exact Or.inr ⟨fun hsecond => hhome hsecond.2.1, le_max_right _ _⟩
    · rw [if_neg hopens]
      refine Or.inr ⟨fun ⟨hon, _, users', husers', haccepts⟩ => hopens ⟨?_, hon⟩, le_max_left _ _⟩
      obtain rfl : users = users' := Option.some.inj (husers.symm.trans husers')
      exact haccepts

/-- Any other event opens a Home only where none is open. -/
theorem homes_of_ne_facebookResult (hne : ∀ i result, e ≠ .facebookResult i result)
    (hs : Layered s.nav) (h : s.step e = some s') : homes s'.nav ≤ max (homes s.nav) 1 := by
  cases e with
  | openLogin =>
    obtain ⟨-, hs⟩ := Option.ite_none_right_eq_some.mp h
    cases hs
    simp [Controller.isHome]
  | openSignUp =>
    obtain ⟨-, hs⟩ := Option.ite_none_right_eq_some.mp h
    cases hs
    simp [Controller.isHome]
  | observed i snapshot =>
    obtain ⟨users, -, hs⟩ := Option.bind_eq_some_iff.mp h
    obtain ⟨users', -, rfl⟩ := Option.map_eq_some_iff.mp hs
    exact le_max_left _ _
  | loginClicked txtFEmail txtFPassword =>
    simp only [step] at h
    split at h
    case h_1 i htop =>
      obtain ⟨users, -, rfl⟩ := Option.map_eq_some_iff.mp h
      rw [homes_perform, hs.homes_eq_zero (by rw [htop]; rfl)]
      split_ifs <;> simp
    case h_2 => cases h
  | signUpcClicked txtFName txtFEmail txtFPassword =>
    simp only [step] at h
    split at h
    case h_1 i htop =>
      obtain ⟨users, -, rfl⟩ := Option.map_eq_some_iff.mp h
      rw [homes_perform, hs.homes_eq_zero (by rw [htop]; rfl)]
      split_ifs <;> simp
    case h_2 => cases h
  | facebookLoginClicked =>
    simp only [step] at h
    split at h
    · cases h; exact le_max_left _ _
    · cases h
  | facebookResult i result => exact absurd rfl (hne i result)
  | backClicked =>
    obtain ⟨-, hs⟩ := Option.ite_none_right_eq_some.mp h
    cases hs
    exact le_max_of_le_left (homes_pop_le _)
  | logout =>
    obtain ⟨-, hlogout⟩ := Option.ite_none_right_eq_some.mp h
    rw [hs.wf.popToEach_eq] at hlogout
    cases hlogout
    exact Nat.zero_le _
  | homeClicked button =>
    obtain ⟨-, hs⟩ := Option.ite_none_right_eq_some.mp h
    cases hs
    simp [Controller.isHome]
  | didSelectItemAt =>
    obtain ⟨-, hs⟩ := Option.ite_none_right_eq_some.mp h
    cases hs
    simp [Controller.isHome]
  | playClicked =>
    obtain ⟨-, hs⟩ := Option.ite_none_right_eq_some.mp h
    cases hs
    simp [Controller.isHome]
  | didFinish i =>
    obtain ⟨-, hs⟩ := Option.ite_none_right_eq_some.mp h
    cases hs
    dsimp only
    split_ifs
    · exact le_max_of_le_left (homes_pop_le _)
    · exact le_max_left _ _

theorem OpensSecondHome.homes_ne_zero (h : s.OpensSecondHome e) : homes s.nav ≠ 0 := by
  intro hzero
  cases e with
  | facebookResult i result =>
    cases result with
    | none => exact h
    | some profile => exact homes_eq_zero_iff.mp hzero h.2.1
  | _ => exact h

/-- **How many Homes a step opens.** -/
theorem homes_of_step (hs : Layered s.nav) (h : s.step e = some s') :
    s.OpensSecondHome e ∧ homes s'.nav = homes s.nav + 1 ∨
      ¬ s.OpensSecondHome e ∧ homes s'.nav ≤ max (homes s.nav) 1 := by
  cases e with
  | facebookResult i result => exact homes_of_facebookResult h
  | _ => exact Or.inr ⟨id, homes_of_ne_facebookResult (by simp) hs h⟩

end Session

namespace NavigationBar

variable {s s' : NavigationBar} {e : LifecycleEvent}

/-- The step lemma: with at most one Home open, there is at most one after a step exactly if
    the step opens no second one. -/
theorem homes_le_iff (hs : Layered s.session.nav) (hone : homes s.session.nav ≤ 1)
    (h : step s e = some s') : homes s'.session.nav ≤ 1 ↔ ResultOutside s e s' := by
  cases e with
  | relaunch =>
    cases h
    refine iff_of_true ?_ (by simp [ResultOutside])
    show homes s.session.relaunch.nav ≤ 1
    rcases nav_relaunch s.session with hnav | hnav
    · rw [hnav]; exact Nat.zero_le _
    · rw [hnav]; exact le_refl _
  | session e =>
    obtain ⟨session, hsession, rfl⟩ := Option.map_eq_some_iff.mp h
    show homes session.nav ≤ 1 ↔ _
    rcases homes_of_step hs hsession with ⟨hsecond, hhomes⟩ | ⟨hsecond, hhomes⟩
    · have hhome := hsecond.homes_ne_zero
      exact iff_of_false (by omega) fun houtside => houtside e rfl hsecond
    · refine iff_of_true (by omega) fun event hevent => ?_
      cases hevent
      exact hsecond

/-- With one Home open, a step that opens no second one keeps a bar that fits. -/
theorem barFits_of_step (hs : Layered s.session.nav) (hone : homes s.session.nav ≤ 1)
    (hfits : BarFits s) (h : step s e = some s') : BarFits s' := by
  cases e with
  | relaunch =>
    cases h
    exact barFits_start s.session
  | session e =>
    obtain ⟨session, hsession, rfl⟩ := Option.map_eq_some_iff.mp h
    have hmove := move_of_step hsession
    exact (hs.shows_iff hfits hmove).mpr (hs.not_quiz_of_homes_le hone hmove)

end NavigationBar

/-! ### Speaking screens under one Home -/

/-- With another screen on top, nobody speaks. -/
theorem Stacked.quiet {s : Session} (hs : Stacked s) (htop : s.nav.top.isSpeak = false) :
    Quiet s := by
  have hnil : s.uttering = [] := by
    rcases List.eq_nil_or_concat' s.uttering with hnil | ⟨before, last, hlast⟩
    · exact hnil
    · obtain ⟨base, -, hnav⟩ := hs.nav
      rw [hnav, hlast, List.map_append, List.map_singleton, NavStack.pushAll_concat] at htop
      cases htop
  refine ⟨hnil, fun i hi => ?_⟩
  have hmem := (hs.mem_iff i).mp hi
  rw [hnil] at hmem
  cases hmem

/-- Where nobody speaks, a silent step changes nothing of this. -/
theorem Quiet.of_silent {s s' : Session} (hs : Quiet s) (h : s.Silent s') : Quiet s' :=
  ⟨h.uttering.trans hs.uttering, fun i hi => hs.nav i (h.nav i hi)⟩

/-- A Facebook result that opens no second Home leaves the speaking screens on top. -/
theorem Stacked.facebookResult {s s' : Session} {i : ℕ} {result : Option FbProfile}
    (hs : Stacked s) (hwf : WellFormed s.nav) (houtside : ¬ s.OpensSecondHome (.facebookResult i result))
    (h : s.step (.facebookResult i result) = some s') : Stacked s' := by
  obtain ⟨-, hstep⟩ := Option.ite_none_right_eq_some.mp h
  cases result with
  | none => cases hstep; exact ⟨hs.sorted, hs.lt, hs.nav⟩
  | some profile =>
    obtain ⟨users, husers, rfl⟩ := Option.map_eq_some_iff.mp hstep
    have hsilent := silent_perform s (s.facebookPending.erase i) (.login i)
      (LoginViewController.getFBUserData users profile.email profile.name)
    by_cases hhome : HomeOnStack s.nav
    · -- nothing is pushed: the result does not get in, or its screen has left the stack
      have hnav : ({ s with facebookPending := s.facebookPending.erase i }.perform (.login i)
          (LoginViewController.getFBUserData users profile.email profile.name)).nav = s.nav := by
        unfold perform
        cases hstored : (LoginViewController.getFBUserData users profile.email
          profile.name).storedName with
        | none => rfl
        | some name =>
          refine if_neg fun hon => houtside ⟨hon, hhome, users, husers, ?_⟩
          rw [← LoginViewController.getFBUserData_storedName_isSome users profile.email profile.name,
            hstored]
          rfl
      refine ⟨?_, ?_, ?_⟩
      · rw [hsilent.uttering]; exact hs.sorted
      · rw [hsilent.uttering, hsilent.speaks]; exact hs.lt
      · rw [hsilent.uttering, hnav]; exact hs.nav
    · -- without a Home there is no screen of the library
      refine stacked_of_quiet (Quiet.of_silent ⟨?_, ?_⟩ hsilent)
      · refine List.eq_nil_iff_forall_not_mem.mpr fun j hj => hhome ?_
        obtain ⟨d, hd, hdhome⟩ := hwf.exists_home ((hs.mem_iff j).mpr hj) (Or.inr rfl)
        exact ⟨d, NavStack.mem_viewControllers.mpr (Or.inr hd), hdhome⟩
      · intro j hj
        obtain ⟨d, hd, hdhome⟩ := hwf.exists_home hj (Or.inr rfl)
        exact hhome ⟨d, NavStack.mem_viewControllers.mpr (Or.inr hd), hdhome⟩

/-- The step lemma: under one Home the speaking screens stay in order, if the last one ends
    first. -/
theorem Stacked.of_step {s s' : Session} {e : SessionEvent} (hs : Stacked s)
    (hwf : WellFormed s.nav) (houtside : ¬ s.OpensSecondHome e)
    (hfirst : ∀ i, e = .didFinish i → LastFirst s (.didFinish i)) (h : s.step e = some s') :
    Stacked s' := by
  have hquiet : s.nav.top.isSpeak = false → s.Silent s' → Stacked s' := fun htop hsilent =>
    stacked_of_quiet ((hs.quiet htop).of_silent hsilent)
  rcases silent_of_step hwf h with hsilent | ⟨rfl, -⟩ | ⟨i, -, rfl, -⟩
  · have hsame : s'.nav = s.nav → Stacked s' := fun hnav =>
      ⟨hsilent.uttering ▸ hs.sorted, by rw [hsilent.uttering, hsilent.speaks]; exact hs.lt,
        by rw [hsilent.uttering, hnav]; exact hs.nav⟩
    cases e with
    | openLogin => exact hquiet (by rw [(Option.ite_none_right_eq_some.mp h).1]; rfl) hsilent
    | openSignUp => exact hquiet (by rw [(Option.ite_none_right_eq_some.mp h).1]; rfl) hsilent
    | observed i snapshot =>
      obtain ⟨users, -, hstep⟩ := Option.bind_eq_some_iff.mp h
      obtain ⟨users', -, rfl⟩ := Option.map_eq_some_iff.mp hstep
      exact hsame rfl
    | loginClicked txtFEmail txtFPassword =>
      refine hquiet ?_ hsilent
      simp only [Session.step] at h
      split at h
      case h_1 i htop => rw [htop]; rfl
      case h_2 => cases h
    | signUpcClicked txtFName txtFEmail txtFPassword =>
      refine hquiet ?_ hsilent
      simp only [Session.step] at h
      split at h
      case h_1 i htop => rw [htop]; rfl
      case h_2 => cases h
    | facebookLoginClicked =>
      simp only [Session.step] at h
      split at h
      · cases h; exact hsame rfl
      · cases h
    | facebookResult i result => exact hs.facebookResult hwf houtside h
    | backClicked =>
      have hback := (Option.ite_none_right_eq_some.mp h).1
      refine hquiet ?_ hsilent
      cases htop : s.nav.top <;> simp_all [Controller.hasBack, Controller.isSpeak]
    | logout =>
      have hhome := (Option.ite_none_right_eq_some.mp h).1
      refine hquiet ?_ hsilent
      cases htop : s.nav.top <;> simp_all [Controller.isHome, Controller.isSpeak]
    | homeClicked button =>
      have hhome := (Option.ite_none_right_eq_some.mp h).1
      refine hquiet ?_ hsilent
      cases htop : s.nav.top <;> simp_all [Controller.isHome, Controller.isSpeak]
    | playClicked => exact hquiet (by rw [(Option.ite_none_right_eq_some.mp h).1]; rfl) hsilent
    | didSelectItemAt => exact hs.didSelectItemAt h
    | didFinish i => exact Stacked.step (e := .didFinish i) hs (hfirst i rfl) h
  · exact hs.didSelectItemAt h
  · exact Stacked.step (e := .didFinish i) hs (hfirst i rfl) h

namespace NavigationBar

variable {s s' : NavigationBar} {e : LifecycleEvent}

/-- If all speaking screens on the stack still speak, there is an end to come for each of them. -/
theorem blocked_le_ending (hs : Stacked s.session) (hfits : BarFits s) :
    blocked s ≤ s.session.ending := by
  have hstranded : ¬ Stranded s := by
    rintro ⟨hplay, hhidden⟩
    rw [BarFits, hplay, hhidden] at hfits
    cases hfits
  have hending : s.session.ending = s.session.uttering.length :=
    List.countP_eq_length.mpr fun i hi => by simpa using (hs.mem_iff i).mpr hi
  obtain ⟨base, hbase, hnav⟩ := hs.nav
  rw [blocked, if_neg hstranded, Nat.add_zero, hending, aboveHome, hnav]
  have hbase : base.pushed.countP Controller.isSpeak = 0 := by
    refine List.countP_eq_zero.mpr fun c hc hspeak => ?_
    cases c with
    | speak i => exact hbase i (NavStack.mem_viewControllers.mpr (Or.inr hc))
    | _ => cases hspeak
  calc ((base.pushAll (s.session.uttering.map .speak)).pushed.takeWhile
          fun c => !c.isHome).countP Controller.isSpeak
      ≤ (base.pushAll (s.session.uttering.map .speak)).pushed.countP Controller.isSpeak :=
        (List.takeWhile_sublist _).countP_le
    _ = (s.session.uttering.map Controller.speak).countP Controller.isSpeak := by
        rw [NavStack.pushAll, List.countP_append, hbase, Nat.add_zero, List.countP_reverse]
    _ ≤ s.session.uttering.length := by
        rw [← List.length_map (f := Controller.speak)]
        exact List.countP_le_length

/-- An end out of order takes another screen than its own, whose utterance is then lost. -/
theorem ending_lt_blocked {i : ℕ} (hs : Stacked s.session) (hfirst : ¬ LastFirst s.session (.didFinish i))
    (h : step s (.session (.didFinish i)) = some s') : s'.session.ending < blocked s' := by
  obtain ⟨session, hsession, rfl⟩ := Option.map_eq_some_iff.mp h
  obtain ⟨before, last, hlast, hi, hpush, hs'⟩ := hs.didFinish hsession
  have hne : last ≠ i := fun heq => hfirst ((last_eq_iff hs.sorted hlast hi).mp heq)
  have hbefore : i ∈ before := by
    rw [hlast] at hi
    exact (List.mem_append.mp hi).resolve_right fun hin => hne (List.mem_singleton.mp hin).symm
  obtain ⟨base, hbase, hnav⟩ := hs.nav
  have hnav' : session.nav = base.pushAll (before.map .speak) := by
    rw [hs', hnav, hlast, List.map_append, List.map_singleton, NavStack.pushAll_concat,
      NavStack.pop_push]
  have huttering : session.uttering = before.erase i ++ [last] := by
    rw [hs', hlast, List.erase_append_left _ hbefore]
  have hfresh : last ∉ before := by
    have hsorted := hs.sorted
    rw [hlast, List.pairwise_append] at hsorted
    exact fun hmem => (hsorted.2.2 last hmem last (List.mem_singleton_self last)).false
  have hending : session.ending ≤ before.length - 1 := by
    have hgone : .speak last ∉ session.nav.viewControllers := by
      rw [hnav', NavStack.mem_viewControllers_pushAll, List.mem_map]
      rintro (⟨j, hj, heq⟩ | hmem)
      · cases heq
        exact hfresh hj
      · exact hbase last hmem
    rw [Session.ending, huttering, List.countP_append, List.countP_singleton,
      ← List.length_erase_of_mem hbefore]
    simpa [hgone] using List.countP_le_length
  have hblocked : before.length ≤ (aboveHome session.nav).countP Controller.isSpeak := by
    have hhome : ∀ c ∈ (before.map Controller.speak).reverse, (!c.isHome) = true := by
      intro c hc
      obtain ⟨j, -, rfl⟩ := List.mem_map.mp (List.mem_reverse.mp hc)
      rfl
    rw [aboveHome, hnav', NavStack.pushAll, List.takeWhile_append_of_pos hhome, List.countP_append,
      List.countP_reverse, List.countP_map]
    refine Nat.le_add_right_of_le (le_of_eq ?_)
    exact (List.countP_eq_length.mpr fun _ _ => rfl).symm
  have hpos : 0 < before.length := List.length_pos_of_mem hbefore
  calc session.ending ≤ before.length - 1 := hending
    _ < before.length := by omega
    _ ≤ (aboveHome session.nav).countP Controller.isSpeak := hblocked
    _ ≤ _ := Nat.le_add_right _ _

/-- The invariant: at most one Home is open, so that no quiz lies under a Home, and the speaking
    screens on top all still speak. -/
structure OneHome (s : NavigationBar) : Prop where
  reached : Reached s
  one : homes s.session.nav ≤ 1
  fits : BarFits s
  stacked : Stacked s.session

theorem oneHome_start : OneHome (start launch) := by
  refine ⟨@reached_of_run (start launch) [] rfl, Nat.zero_le _, barFits_start launch, ?_⟩
  refine stacked_of_quiet ⟨rfl, fun i hi => ?_⟩
  simp [start, launch, NavStack.viewControllers] at hi

/-- With ends in order the speaking screens stay on top. -/
theorem OneHome.stacked_step (hs : OneHome s) (houtside : ResultOutside s e s')
    (horder : EndsInOrder s e s') (h : step s e = some s') : Stacked s'.session := by
  cases e with
  | relaunch =>
    cases h
    refine stacked_of_quiet ⟨uttering_relaunch s.session, fun i hi => ?_⟩
    rcases nav_relaunch s.session with hnav | hnav
    · rw [start, hnav] at hi
      simp at hi
    · rw [start, hnav] at hi
      simp at hi
  | session e =>
    obtain ⟨session, hsession, rfl⟩ := Option.map_eq_some_iff.mp h
    exact hs.stacked.of_step hs.reached.layered.wf (houtside e rfl)
      (fun i hi => horder i (congrArg _ hi)) hsession

/-- The step lemma for the way back. -/
theorem OneHome.canReturn_iff (hs : OneHome s) (houtside : ResultOutside s e s')
    (h : step s e = some s') : CanReturn s' ↔ EndsInOrder s e s' := by
  rw [(reached_of_step hs.reached h).canReturn_iff]
  by_cases horder : EndsInOrder s e s'
  · have hfits := barFits_of_step hs.reached.layered hs.one hs.fits h
    exact iff_of_true (blocked_le_ending (hs.stacked_step houtside horder h) hfits) horder
  · obtain ⟨i, rfl, hfirst⟩ : ∃ i, e = .session (.didFinish i) ∧
        ¬ LastFirst s.session (.didFinish i) := by
      simpa [EndsInOrder] using horder
    exact iff_of_false (not_le.mpr (ending_lt_blocked hs.stacked hfirst h)) horder

/-- The step lemma for the invariant. -/
theorem OneHome.step (hs : OneHome s) (houtside : ResultOutside s e s')
    (horder : EndsInOrder s e s') (h : step s e = some s') : OneHome s' :=
  ⟨reached_of_step hs.reached h, (homes_le_iff hs.reached.layered hs.one h).mpr houtside,
    barFits_of_step hs.reached.layered hs.one hs.fits h, hs.stacked_step houtside horder h⟩

/-- **One Home.**  Along every history of sessions and relaunches at most one Home is open, if
    and only if no Facebook result gets in for a login screen that lies below a Home; and along
    every such history the user can get back to the start screen from everywhere, if and only if
    no utterance ends before the one of a later selection. -/
theorem oneHome_along_iff (es : List LifecycleEvent) :
    (Along step (fun _ _ s' => homes s'.session.nav ≤ 1) (start launch) es ↔
      Along step ResultOutside (start launch) es) ∧
    (Along step ResultOutside (start launch) es →
      (Along step (fun _ _ s' => CanReturn s') (start launch) es ↔
        Along step EndsInOrder (start launch) es)) := by
  constructor
  · apply along_iff_along (I := fun s => Layered s.session.nav ∧ homes s.session.nav ≤ 1)
    · exact fun s e s' hs hstep => homes_le_iff hs.1 hs.2 hstep
    · exact fun s e s' hs hstep hhomes => ⟨layered_of_step hs.1 hstep, hhomes⟩
    · exact ⟨oneHome_start.reached.layered, oneHome_start.one⟩
  · intro houtside
    refine along_iff_along_of_along (I := OneHome) ?_ ?_ oneHome_start houtside
    · exact fun s e s' hs hout hstep => hs.canReturn_iff hout hstep
    · intro s e s' hs hout hstep hreturn
      exact hs.step hout ((hs.canReturn_iff hout hstep).mp hreturn) hstep

end NavigationBar

end ChildLearning
