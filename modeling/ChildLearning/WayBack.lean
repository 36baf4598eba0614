import ChildLearning.NavigationBar
import ChildLearning.SpeakingScreens

namespace ChildLearning

open Transition Session

/-!
# The way back

From Home the start screen is one tap away, and from the tiles, a quiz or an account screen the
back buttons lead there, as long as the bar shows them.  A speaking screen has none: the user
waits for the end of its utterance.  `canReturn_of_run` counts which states have a way back:
there must be as many utterances still to end as there are screens that only such an end can
close.  In any other state no tap leads to another screen.
-/

namespace Controller

/-- A `SpeakViewController`. -/
def isSpeak : Controller → Bool
  | .speak _ => true
  | _        => false

end Controller

/-- The screens above the topmost Home, the one on top first. -/
def aboveHome (nav : NavStack Controller) : List Controller :=
  nav.pushed.takeWhile fun c => !c.isHome

namespace NavigationBar

/-- The user makes the event happen, by a tap on the screen on top; the back button can be
    tapped while the bar is shown. -/
def Tapped (s : NavigationBar) : LifecycleEvent → Prop
  | .session (.observed _ _)       => False
  | .session (.facebookResult _ _) => False
  | .session (.didFinish _)        => False
  | .session .backClicked          => s.isHidden = false
  | .session .didSelectItemAt      => s.session.nav.top = .buttons
  -- of the other taps `Session.step` asks the screen on top
  | .session _                     => True
  | .relaunch                      => False

/-- The user taps, or an utterance ends. -/
def TappedOrSpoken (s : NavigationBar) (e : LifecycleEvent) (_ : NavigationBar) : Prop :=
  Tapped s e ∨ ∃ i, e = .session (.didFinish i)

/-- The user can get back to the start screen by taps and by waiting for utterances to end, with
    at most one of either for each screen over it. -/
def CanReturn (s : NavigationBar) : Prop :=
  ∃ es s', es.length ≤ s.session.nav.pushed.length ∧ Along step TappedOrSpoken s es ∧
    run step s es = some s' ∧ s'.session.nav.viewControllers = [.viewController]

/-- The quiz on top has lost its back button. -/
def Stranded (s : NavigationBar) : Prop := s.session.nav.top = .play ∧ s.isHidden = true

instance (s : NavigationBar) : Decidable (Stranded s) :=
  inferInstanceAs (Decidable (_ ∧ _))

/-- How many screens above the topmost Home only the end of an utterance can close: the speaking
    screens, and a quiz on top without its back button. -/
def blocked (s : NavigationBar) : ℕ :=
  (aboveHome s.session.nav).countP Controller.isSpeak + if Stranded s then 1 else 0

end NavigationBar

/-- How many utterances are still to end whose screen is on the stack. -/
def Session.ending (s : Session) : ℕ :=
  s.uttering.countP fun i => .speak i ∈ s.nav.viewControllers

/-- How many Homes are on the stack. -/
def homes (nav : NavStack Controller) : ℕ := nav.viewControllers.countP Controller.isHome

/-! ### Which screen lies on which -/

/-- The tiles lie on a Home, and a quiz on the tiles. -/
structure Opened (nav : NavStack Controller) : Prop where
  tiles : ∀ below, .buttons :: below <:+ nav.pushed → ∃ name rest, below = .home name :: rest
  quiz : ∀ below, .play :: below <:+ nav.pushed → ∃ rest, below = .buttons :: rest

variable {nav nav' : NavStack Controller}

/-- A screen on top that is not the root has been pushed. -/
theorem exists_pushed_of_top_ne (nav : NavStack Controller) (h : nav.top ≠ nav.root) :
    ∃ below, nav.pushed = nav.top :: below := by
  obtain ⟨root, pushed⟩ := nav
  cases pushed with
  | nil => exact absurd rfl h
  | cons c below => exact ⟨below, rfl⟩

theorem Opened.move (hs : Opened nav) (hwf : WellFormed nav) (h : Move nav nav') : Opened nav' := by
  cases h with
  | stayed => exact hs
  | pushed c haccount htiles hplay =>
    refine ⟨fun below hsuffix => ?_, fun below hsuffix => ?_⟩
    · rcases List.suffix_cons_iff.mp hsuffix with heq | hbelow
      · obtain ⟨rfl, rfl⟩ := List.cons.inj heq
        have hhome := htiles rfl
        obtain ⟨rest, hrest⟩ := exists_pushed_of_top_ne nav fun htop => by
          rw [htop, hwf.root] at hhome
          cases hhome
        cases htop : nav.top with
        | home name => exact ⟨name, rest, by rw [hrest, htop]⟩
        | _ => rw [htop] at hhome; cases hhome
      · exact hs.tiles below hbelow
    · rcases List.suffix_cons_iff.mp hsuffix with heq | hbelow
      · obtain ⟨rfl, rfl⟩ := List.cons.inj heq
        have htop := hplay rfl
        obtain ⟨rest, hrest⟩ := exists_pushed_of_top_ne nav fun hroot => by
          rw [hroot, hwf.root] at htop
          cases htop
        exact ⟨rest, by rw [hrest, htop]⟩
      · exact hs.quiz below hbelow
  | popped =>
    exact ⟨fun below hsuffix => hs.tiles below (hsuffix.trans (List.tail_suffix _)),
      fun below hsuffix => hs.quiz below (hsuffix.trans (List.tail_suffix _))⟩
  | loggedOut hhome nav' hnav =>
    rw [hwf.popToEach_eq] at hnav
    cases hnav
    exact ⟨fun below hsuffix => by simp at hsuffix, fun below hsuffix => by simp at hsuffix⟩

theorem opened_start (nav : NavStack Controller)
    (hpushed : nav.pushed = [] ∨ nav.pushed = [.home ""]) : Opened nav := by
  refine ⟨fun below hsuffix => ?_, fun below hsuffix => ?_⟩
  all_goals
    rcases hpushed with hpushed | hpushed
    · rw [hpushed] at hsuffix
      simp at hsuffix
    · rw [hpushed] at hsuffix
      simp [List.suffix_cons_iff] at hsuffix

/-- Under a quiz on top there are the tiles, and under these a Home. -/
theorem Opened.of_play (hs : Opened nav) {below : List Controller}
    (hpushed : nav.pushed = .play :: below) :
    ∃ name rest, below = .buttons :: .home name :: rest := by
  obtain ⟨rest, rfl⟩ := hs.quiz below (hpushed ▸ List.suffix_rfl)
  obtain ⟨name, rest, rfl⟩ := hs.tiles rest (hpushed ▸ List.suffix_cons _ _)
  exact ⟨name, rest, rfl⟩

/-- Under the tiles on top there is a Home. -/
theorem Opened.of_buttons (hs : Opened nav) {below : List Controller}
    (hpushed : nav.pushed = .buttons :: below) : ∃ name rest, below = .home name :: rest :=
  hs.tiles below (hpushed ▸ List.suffix_rfl)

/-- Above the topmost Home there is no speaking screen, unless one is on top. -/
theorem Opened.countP_aboveHome (hs : Opened nav) (hlayered : Layered nav)
    (htop : nav.top.isSpeak = false) : (aboveHome nav).countP Controller.isSpeak = 0 := by
  rw [aboveHome]
  cases hpushed : nav.pushed with
  | nil => rfl
  | cons c below =>
    have hc : nav.top = c := by simp [NavStack.top, hpushed]
    have hsuffix : c :: below <:+ nav.pushed := hpushed ▸ List.suffix_rfl
    rw [hc] at htop
    cases c with
    | viewController => exact absurd (hlayered.wf.start _ (hpushed ▸ List.mem_cons_self)) (by decide)
    | login i => rw [hlayered.bottom _ below hsuffix rfl]; rfl
    | signUp i => rw [hlayered.bottom _ below hsuffix rfl]; rfl
    | home name => rfl
    | buttons =>
      obtain ⟨name, rest, rfl⟩ := hs.of_buttons hpushed
      rfl
    | speak i => cases htop
    | play =>
      obtain ⟨name, rest, rfl⟩ := hs.of_play hpushed
      rfl

/-! ### The utterances still to end -/

/-- Every utterance still to end has a number of its own. -/
structure Session.Numbered (s : Session) : Prop where
  nodup : s.uttering.Nodup
  lt : ∀ i ∈ s.uttering, i < s.speaks

namespace Session

variable {s s' : Session} {e : SessionEvent} {i : ℕ}

/-- A step that neither starts nor ends an utterance, and puts no speaking screen on the stack. -/
structure Silent (s s' : Session) : Prop where
  uttering : s'.uttering = s.uttering
  speaks : s'.speaks = s.speaks
  nav : ∀ j, .speak j ∈ s'.nav.viewControllers → .speak j ∈ s.nav.viewControllers

/-- Another screen is pushed. -/
theorem silent_of_push {c : Controller} (huttering : s'.uttering = s.uttering)
    (hspeaks : s'.speaks = s.speaks) (hnav : s'.nav = s.nav.push c) (hc : c.isSpeak = false) :
    Silent s s' := by
  refine ⟨huttering, hspeaks, fun j hj => ?_⟩
  rw [hnav, NavStack.mem_viewControllers_push] at hj
  refine hj.resolve_left ?_
  rintro rfl
  cases hc

theorem silent_perform (s : Session) (pending : List ℕ) (on : Controller) (action : ScreenAction) :
    Silent s ({ s with facebookPending := pending }.perform on action) := by
  unfold perform
  cases action.storedName with
  | none => exact ⟨rfl, rfl, fun _ hj => hj⟩
  | some name =>
    by_cases hon : on ∈ s.nav.viewControllers
    · exact silent_of_push rfl rfl (if_pos hon) rfl
    · refine ⟨rfl, rfl, fun j hj => ?_⟩
      simpa only [hon, if_false] using hj

/-- **What is spoken.** A selection starts an utterance, `didFinish` ends one; other events do
    neither. -/
theorem silent_of_step (hwf : WellFormed s.nav) (h : s.step e = some s') :
    Silent s s' ∨
      (e = .didSelectItemAt ∧ s'.uttering = s.uttering ++ [s.speaks] ∧ s'.speaks = s.speaks + 1) ∨
      ∃ i ∈ s.uttering, e = .didFinish i ∧ s'.uttering = s.uttering.erase i ∧
        s'.speaks = s.speaks := by
  cases e with
  | openLogin =>
    obtain ⟨-, hs⟩ := Option.ite_none_right_eq_some.mp h
    cases hs
    exact Or.inl (silent_of_push rfl rfl rfl rfl)
  | openSignUp =>
    obtain ⟨-, hs⟩ := Option.ite_none_right_eq_some.mp h
    cases hs
    exact Or.inl (silent_of_push rfl rfl rfl rfl)
  | observed i snapshot =>
    obtain ⟨users, -, hs⟩ := Option.bind_eq_some_iff.mp h
    obtain ⟨users', -, rfl⟩ := Option.map_eq_some_iff.mp hs
    exact Or.inl ⟨rfl, rfl, fun _ hj => hj⟩
  | loginClicked txtFEmail txtFPassword =>
    simp only [step] at h
    split at h
    · obtain ⟨users, -, rfl⟩ := Option.map_eq_some_iff.mp h
      exact Or.inl (silent_perform s s.facebookPending _ _)
    · cases h
  | signUpcClicked txtFName txtFEmail txtFPassword =>
    simp only [step] at h
    split at h
    · obtain ⟨users, -, rfl⟩ := Option.map_eq_some_iff.mp h
      exact Or.inl (silent_perform s s.facebookPending _ _)
    · cases h
  | facebookLoginClicked =>
    simp only [step] at h
    split at h
    · cases h; exact Or.inl ⟨rfl, rfl, fun _ hj => hj⟩
    · cases h
  | facebookResult i result =>
    obtain ⟨-, hs⟩ := Option.ite_none_right_eq_some.mp h
    cases result with
    | none => cases hs; exact Or.inl ⟨rfl, rfl, fun _ hj => hj⟩
    | some profile =>
      obtain ⟨users, -, rfl⟩ := Option.map_eq_some_iff.mp hs
      exact Or.inl (silent_perform s _ _ _)
  | backClicked =>
    obtain ⟨-, hs⟩ := Option.ite_none_right_eq_some.mp h
    cases hs
    exact Or.inl ⟨rfl, rfl, fun _ hj => NavStack.mem_of_mem_pop hj⟩
  | logout =>
    obtain ⟨-, hs⟩ := Option.ite_none_right_eq_some.mp h
    rw [hwf.popToEach_eq] at hs
    cases hs
    exact Or.inl ⟨rfl, rfl, fun j hj => by cases List.mem_singleton.mp hj⟩
  | homeClicked button =>
    obtain ⟨-, hs⟩ := Option.ite_none_right_eq_some.mp h
    cases hs
    exact Or.inl (silent_of_push rfl rfl rfl rfl)
  | didSelectItemAt =>
    obtain ⟨-, hs⟩ := Option.ite_none_right_eq_some.mp h
    cases hs
    exact Or.inr (Or.inl ⟨rfl, rfl, rfl⟩)
  | playClicked =>
    obtain ⟨-, hs⟩ := Option.ite_none_right_eq_some.mp h
    cases hs
    exact Or.inl (silent_of_push rfl rfl rfl rfl)
  | didFinish i =>
    obtain ⟨hi, hs⟩ := Option.ite_none_right_eq_some.mp h
    cases hs
    exact Or.inr (Or.inr ⟨i, hi, rfl, rfl, rfl⟩)

/-- The step lemma for the numbers. -/
theorem Numbered.step (hs : s.Numbered) (hwf : WellFormed s.nav) (h : s.step e = some s') :
    s'.Numbered := by
  rcases silent_of_step hwf h with ⟨huttering, hspeaks, -⟩ | ⟨-, huttering, hspeaks⟩ |
    ⟨i, -, -, huttering, hspeaks⟩
  · exact ⟨huttering ▸ hs.nodup, by rw [huttering, hspeaks]; exact hs.lt⟩
  · refine ⟨?_, ?_⟩
    · rw [huttering, List.nodup_append_comm, List.singleton_append, List.nodup_cons]
      exact ⟨fun hmem => (hs.lt _ hmem).false, hs.nodup⟩
    · rw [huttering, hspeaks]
      intro i hi
      rcases List.mem_append.mp hi with hi | hi
      · exact Nat.lt_succ_of_lt (hs.lt i hi)
      · rw [List.mem_singleton.mp hi]
        exact Nat.lt_succ_self _
  · refine ⟨huttering ▸ hs.nodup.erase i, ?_⟩
    rw [huttering, hspeaks]
    exact fun j hj => hs.lt j (List.mem_of_mem_erase hj)

/-- The end of an utterance, as a step. -/
theorem step_didFinish (hi : i ∈ s.uttering) : s.step (.didFinish i) = some
    { s with
      uttering := s.uttering.erase i
      nav := if .speak i ∈ s.nav.viewControllers then s.nav.pop else s.nav } :=
  if_pos hi

/-- An end whose screen is on the stack takes itself, and at most the utterance of the screen that
    it pops, from those still to end. -/
theorem ending_of_didFinish (hi : i ∈ s.uttering) (hon : .speak i ∈ s.nav.viewControllers)
    (h : s.step (.didFinish i) = some s') :
    s'.ending + 1 ≤ s.ending ∧
      (s.Numbered → (∀ j, s.nav.top = .speak j → j = i ∨ j ∉ s.uttering) →
        s'.ending + 1 = s.ending) := by
  rw [step_didFinish hi, if_pos hon] at h
  cases h
  have herase : (s.uttering.erase i).countP (fun k => .speak k ∈ s.nav.viewControllers) + 1
      = s.ending := by
    have hpos : 0 < s.uttering.countP fun k => .speak k ∈ s.nav.viewControllers :=
      List.countP_pos_iff.mpr ⟨i, hi, by simpa using hon⟩
    rw [List.countP_erase, if_pos ⟨hi, by simpa using hon⟩, ending]
    omega
  refine ⟨?_, fun hs htop => ?_⟩
  · rw [← herase]
    refine Nat.succ_le_succ (List.countP_mono_left fun k _ hk => ?_)
    simp only [decide_eq_true_eq] at hk ⊢
    exact NavStack.mem_of_mem_pop hk
  · rw [← herase, ending]
    congr 1
    refine List.countP_congr fun k hk => ?_
    simp only [decide_eq_true_eq]
    refine ⟨NavStack.mem_of_mem_pop, fun hmem => ?_⟩
    refine (NavStack.mem_pop_or_eq_top hmem).resolve_right fun heq => ?_
    -- the screen that is popped is the one of the utterance, or has none to end
    rcases htop k heq.symm with rfl | hnot
    · exact hs.nodup.not_mem_erase hk
    · exact hnot (List.mem_of_mem_erase hk)

/-- Where an utterance is still to end, one can end without taking another one along. -/
theorem exists_didFinish (h : 0 < s.ending) :
    ∃ i ∈ s.uttering, .speak i ∈ s.nav.viewControllers ∧
      ∀ j, s.nav.top = .speak j → j = i ∨ j ∉ s.uttering := by
  obtain ⟨k, hk, hon⟩ := List.countP_pos_iff.mp h
  by_cases htop : ∃ j ∈ s.uttering, s.nav.top = .speak j
  · -- the one of the screen on top
    obtain ⟨j, hj, htop⟩ := htop
    refine ⟨j, hj, htop ▸ s.nav.top_mem, fun j' hj' => Or.inl ?_⟩
    exact Controller.speak.inj (hj'.symm.trans htop)
  · exact ⟨k, hk, by simpa using hon, fun j hj => Or.inr fun hmem => htop ⟨j, hmem, hj⟩⟩

end Session

/-! ### What the bar can have become -/

namespace NavigationBar

variable {s s' : NavigationBar} {e : LifecycleEvent}

/-- **The invariant.** The bar is hidden on the start screen and on Home, and if it is on another
    screen, that is a quiz. -/
structure Reached (s : NavigationBar) : Prop where
  layered : Layered s.session.nav
  opened : Opened s.session.nav
  numbered : s.session.Numbered
  hidden : s.session.nav.top.showsBar = false → s.isHidden = true
  quiz : s.session.nav.top.showsBar = true → s.isHidden = true → s.session.nav.top = .play

/-- A bar that fits is all that the invariant says of it. -/
theorem reached_of_barFits (hlayered : Layered s.session.nav) (hopened : Opened s.session.nav)
    (hnumbered : s.session.Numbered) (hfits : BarFits s) : Reached s := by
  unfold BarFits at hfits
  refine ⟨hlayered, hopened, hnumbered, fun hbar => by rw [hfits, hbar]; rfl, fun hbar hhidden => ?_⟩
  rw [hfits, hbar] at hhidden
  cases hhidden

/-- A new process has a bar that fits. -/
theorem barFits_start (s : Session) : BarFits (start s.relaunch) := by
  unfold BarFits start
  dsimp only
  rcases nav_relaunch s with hnav | hnav
  · rw [hnav]; rfl
  · rw [hnav]; rfl

theorem opened_relaunch (s : Session) : Opened s.relaunch.nav := by
  refine opened_start _ ?_
  rcases nav_relaunch s with hnav | hnav
  · exact Or.inl (by rw [hnav])
  · exact Or.inr (by rw [hnav])

theorem uttering_relaunch (s : Session) : s.relaunch.uttering = [] := by
  unfold relaunch
  cases s.username with
  | none => rfl
  | some userName => dsimp only; split_ifs <;> rfl

theorem numbered_of_uttering {s : Session} (h : s.uttering = []) : s.Numbered :=
  ⟨h ▸ List.nodup_nil, by rw [h]; nofun⟩

/-- The step lemma. -/
theorem reached_of_step (hs : Reached s) (h : step s e = some s') : Reached s' := by
  have hlayered := layered_of_step hs.layered h
  cases e with
  | relaunch =>
    cases h
    exact reached_of_barFits hlayered (opened_relaunch s.session)
      (numbered_of_uttering (uttering_relaunch s.session)) (barFits_start s.session)
  | session e =>
    obtain ⟨session, hsession, rfl⟩ := Option.map_eq_some_iff.mp h
    have hmove := move_of_step hsession
    have hopened : Opened session.nav := hs.opened.move hs.layered.wf hmove
    have hnumbered := hs.numbered.step hs.layered.wf hsession
    rcases hs.layered.shows_cases hmove s.isHidden with hsame | ⟨-, hshows⟩ | ⟨hplay, -, -⟩
    · refine ⟨hlayered, hopened, hnumbered, ?_, ?_⟩
      · show session.nav.top.showsBar = false →
          s.session.nav.shows _ _ session.nav s.isHidden = true
        rw [hsame, NavStack.shows_self]
        exact hs.hidden
      · show session.nav.top.showsBar = true →
          s.session.nav.shows _ _ session.nav s.isHidden = true → session.nav.top = .play
        rw [hsame, NavStack.shows_self]
        exact hs.quiz
    · exact reached_of_barFits hlayered hopened hnumbered hshows
    · refine ⟨hlayered, hopened, hnumbered, fun hbar => ?_, fun _ _ => hplay⟩
      have hbar : session.nav.top.showsBar = false := hbar
      rw [hplay] at hbar
      cases hbar

theorem reached_of_run {es : List LifecycleEvent} (h : run step (start launch) es = some s) :
    Reached s :=
  run_invariant (fun _ _ _ hs hstep => reached_of_step hs hstep)
    (reached_of_barFits (layered_start launch.nav rfl (Or.inl rfl)) (opened_start _ (Or.inl rfl))
      (numbered_of_uttering rfl) (barFits_start launch)) h

/-- Something is blocked exactly where a speaking screen or a stranded quiz is on top. -/
theorem Reached.blocked_eq_zero_iff (hs : Reached s) :
    blocked s = 0 ↔ s.session.nav.top.isSpeak = false ∧ ¬ Stranded s := by
  constructor
  · intro hzero
    have hcount : (aboveHome s.session.nav).countP Controller.isSpeak = 0 := by
      rw [blocked] at hzero
      omega
    refine ⟨?_, fun hstranded => by simp [blocked, hstranded] at hzero⟩
    rw [List.countP_eq_zero] at hcount
    cases htop : s.session.nav.top with
    | speak i =>
      obtain ⟨below, hpushed⟩ := exists_pushed_of_top_ne s.session.nav (by
        rw [htop, hs.layered.wf.root]
        nofun)
      refine absurd rfl (hcount (.speak i) ?_)
      rw [aboveHome, hpushed, htop]
      exact List.mem_cons_self
    | _ => rfl
  · rintro ⟨hspeak, hstranded⟩
    rw [blocked, hs.opened.countP_aboveHome hs.layered hspeak, if_neg hstranded]

/-- Where something is blocked, the screen on top is. -/
theorem Reached.speak_or_stranded (hs : Reached s) (hblocked : blocked s ≠ 0) :
    s.session.nav.top.isSpeak = true ∨ Stranded s := by
  by_contra hnone
  rw [not_or, Bool.not_eq_true] at hnone
  exact hblocked (hs.blocked_eq_zero_iff.mpr hnone)

/-- Only on a stranded quiz the bar is missing where it should be. -/
theorem Reached.shown (hs : Reached s) (hbar : s.session.nav.top.showsBar = true)
    (hstranded : ¬ Stranded s) : s.isHidden = false := by
  by_contra hhidden
  rw [Bool.not_eq_false] at hhidden
  exact hstranded ⟨hs.quiz hbar hhidden, hhidden⟩

/-- On a speaking screen or a stranded quiz no tap does anything to the stack. -/
theorem not_tapped (htop : s.session.nav.top.isSpeak = true ∨ Stranded s)
    (h : step s e = some s') : ¬ Tapped s e := by
  have hkind : (∃ i, s.session.nav.top = .speak i) ∨ s.session.nav.top = .play := by
    rcases htop with hspeak | hstranded
    · cases htop : s.session.nav.top <;> simp_all [Controller.isSpeak]
    · exact Or.inr hstranded.1
  cases e with
  | relaunch => exact id
  | session e =>
    obtain ⟨session, hsession, rfl⟩ := Option.map_eq_some_iff.mp h
    intro htapped
    cases e with
    | observed i snapshot => exact htapped
    | facebookResult i result => exact htapped
    | didFinish i => exact htapped
    | backClicked =>
      have hshown : s.isHidden = false := htapped
      obtain ⟨hback, -⟩ := Option.ite_none_right_eq_some.mp hsession
      rcases htop with hspeak | ⟨-, hhidden⟩
      · cases htop : s.session.nav.top <;> simp_all [Controller.isSpeak, Controller.hasBack]
      · rw [hhidden] at hshown
        cases hshown
    | didSelectItemAt =>
      have hbuttons : s.session.nav.top = .buttons := htapped
      rcases hkind with ⟨i, htop⟩ | htop
      · rw [htop] at hbuttons
        cases hbuttons
      · rw [htop] at hbuttons
        cases hbuttons
    | _ =>
      rcases hkind with ⟨i, htop⟩ | htop <;>
        simp [Session.step, htop, Controller.isHome] at hsession

/-! ### Getting back -/

/-- A tap on the back button where the bar shows it uncovers a screen on which nothing is
    blocked. -/
theorem Reached.back (hs : Reached s) (hback : s.session.nav.top.hasBack = true)
    (hstranded : ¬ Stranded s) :
    s.isHidden = false ∧ ∃ t, step s (.session .backClicked) = some t ∧
      t.session.nav = s.session.nav.pop ∧ blocked t = 0 := by
  have hbar : s.session.nav.top.showsBar = true := by
    cases htop : s.session.nav.top <;> simp_all [Controller.hasBack, Controller.showsBar]
  have hshown := hs.shown hbar hstranded
  have hsession : s.session.step .backClicked = some { s.session with nav := s.session.nav.pop } := by
    rw [Session.step, if_pos hback]
  obtain ⟨t, hstep, hnav⟩ : ∃ t, step s (.session .backClicked) = some t ∧
      t.session.nav = s.session.nav.pop := ⟨_, congrArg (Option.map _) hsession, rfl⟩
  refine ⟨hshown, t, hstep, hnav, (reached_of_step hs hstep).blocked_eq_zero_iff.mpr ?_⟩
  -- an account screen lies on the start screen, a quiz on the tiles, the tiles on a Home
  have huncovered : t.session.nav.top.isSpeak = false ∧ t.session.nav.top ≠ .play := by
    rw [hnav]
    have hroot := hs.layered.wf.root
    have hbottom := hs.layered.bottom
    have hopened := hs.opened
    generalize s.session.nav = nav at hback hroot hbottom hopened
    obtain ⟨root, pushed⟩ := nav
    dsimp only at hroot hbottom
    subst hroot
    cases pushed with
    | nil => cases hback
    | cons c below =>
      cases c with
      | viewController => cases hback
      | home name => cases hback
      | speak i => cases hback
      | login i => rw [hbottom _ below List.suffix_rfl rfl]; exact ⟨rfl, fun h => by cases h⟩
      | signUp i => rw [hbottom _ below List.suffix_rfl rfl]; exact ⟨rfl, fun h => by cases h⟩
      | buttons =>
        obtain ⟨name, rest, rfl⟩ := hopened.of_buttons rfl
        exact ⟨rfl, fun h => by cases h⟩
      | play =>
        obtain ⟨name, rest, rfl⟩ := hopened.of_play rfl
        exact ⟨rfl, fun h => by cases h⟩
  exact ⟨huncovered.1, fun hstr => huncovered.2 hstr.1⟩

/-- From Home one tap leads to the start screen. -/
theorem exists_logout (hs : Layered s.session.nav) (hhome : s.session.nav.top.isHome = true) :
    ∃ t, step s (.session .logout) = some t ∧ t.session.nav = ⟨.viewController, []⟩ := by
  have hsession : s.session.step .logout
      = some { s.session with username := none, nav := ⟨.viewController, []⟩ } := by
    rw [Session.step, if_pos hhome, hs.wf.popToEach_eq]
    rfl
  exact ⟨_, congrArg (Option.map _) hsession, rfl⟩

/-- Where something is blocked, a pop leaves one screen less that is. -/
theorem Reached.blocked_pop (hs : Reached s) (hblocked : blocked s ≠ 0) (h : step s e = some s')
    (hnav : s'.session.nav = s.session.nav.pop) (hhidden : s.isHidden = false →
      s'.session.nav.top = .play → s'.isHidden = false) : blocked s' + 1 = blocked s := by
  by_cases hstranded : Stranded s
  · -- a stranded quiz uncovers the tiles
    obtain ⟨below, hpushed⟩ := exists_pushed_of_top_ne s.session.nav (by
      rw [hstranded.1, hs.layered.wf.root]
      nofun)
    rw [hstranded.1] at hpushed
    obtain ⟨name, rest, rfl⟩ := hs.opened.of_play hpushed
    have htop : s'.session.nav.top = .buttons := by
      simp [hnav, NavStack.top, NavStack.pop, hpushed]
    have hzero : blocked s' = 0 := by
      refine (reached_of_step hs h).blocked_eq_zero_iff.mpr ⟨by rw [htop]; rfl, ?_⟩
      rintro ⟨hplay, -⟩
      rw [htop] at hplay
      cases hplay
    have hcount := hs.opened.countP_aboveHome hs.layered (by rw [hstranded.1]; rfl)
    rw [hzero, blocked, hcount, if_pos hstranded]
  · -- a speaking screen shows the bar, so that a quiz below it is not stranded
    have hspeak := (hs.speak_or_stranded hblocked).resolve_right hstranded
    have hbar : s.session.nav.top.showsBar = true := by
      cases htop : s.session.nav.top <;> simp_all [Controller.isSpeak, Controller.showsBar]
    have hshown := hs.shown hbar hstranded
    have hstranded' : ¬ Stranded s' := fun hstr => by
      have hshown' := hhidden hshown hstr.1
      rw [hstr.2] at hshown'
      cases hshown'
    obtain ⟨below, hpushed⟩ := exists_pushed_of_top_ne s.session.nav (by
      intro htop
      rw [htop, hs.layered.wf.root] at hspeak
      cases hspeak)
    have hhome : s.session.nav.top.isHome = false := by
      cases htop : s.session.nav.top <;> simp_all [Controller.isSpeak, Controller.isHome]
    rw [blocked, blocked, if_neg hstranded, if_neg hstranded', aboveHome, aboveHome, hnav,
      NavStack.pop, hpushed, List.tail_cons, List.takeWhile_cons, hhome]
    simp [hspeak]

/-- The end of an utterance whose screen is on the stack pops whatever is on top, and a quiz that
    is uncovered leaves the bar as it is. -/
theorem exists_didFinish_step {i : ℕ} (hi : i ∈ s.session.uttering)
    (hon : .speak i ∈ s.session.nav.viewControllers) (hne : s.session.nav.pushed ≠ []) :
    ∃ t, step s (.session (.didFinish i)) = some t ∧
      s.session.step (.didFinish i) = some t.session ∧ t.session.nav = s.session.nav.pop ∧
      (s.isHidden = false → t.session.nav.top = .play → t.isHidden = false) := by
  have hsession := Session.step_didFinish hi
  refine ⟨_, congrArg (Option.map _) hsession, hsession, if_pos hon, fun hshown hplay => ?_⟩
  dsimp only at hplay ⊢
  rw [if_pos hon] at hplay ⊢
  rw [NavStack.shows_of_lt _ _ _ _ ?_, hplay]
  · exact hshown
  · rw [NavStack.pop, List.length_tail]
    have hpos := List.length_pos_iff.mpr hne
    omega

/-- **Getting back**, if there is an end to come for every screen that needs one: a speaking
    screen or a stranded quiz waits for it, Home logs out, and any other screen goes back. -/
theorem Reached.canReturn (hs : Reached s) (hle : blocked s ≤ s.session.ending) : CanReturn s := by
  -- on the number of screens over the start screen
  induction hn : s.session.nav.pushed.length generalizing s with
  | zero =>
    refine ⟨[], s, Nat.zero_le _, trivial, rfl, ?_⟩
    rw [NavStack.viewControllers, List.length_eq_zero_iff.mp hn, hs.layered.wf.root]
    rfl
  | succ n ih =>
    have hcons : ∀ {ev : LifecycleEvent} {t : NavigationBar}, step s ev = some t →
        TappedOrSpoken s ev t → t.session.nav = s.session.nav.pop →
        blocked t ≤ t.session.ending → CanReturn s := by
      intro ev t hstep hev hnav hle'
      have hlength : t.session.nav.pushed.length = n := by
        rw [hnav, NavStack.pop, List.length_tail, hn, Nat.add_sub_cancel]
      obtain ⟨es, s', hes, htaps, hrun, hstart⟩ := ih (reached_of_step hs hstep) hle' hlength
      refine ⟨ev :: es, s', ?_, (along_cons hstep).mpr ⟨hev, htaps⟩, ?_, hstart⟩
      · rw [List.length_cons, hn]; omega
      · exact run_cons_eq_some.mpr ⟨t, hstep, hrun⟩
    by_cases hblocked : blocked s = 0
    · obtain ⟨hspeak, hstranded⟩ := hs.blocked_eq_zero_iff.mp hblocked
      cases hback : s.session.nav.top.hasBack with
      | true =>
        obtain ⟨hshown, t, hstep, hnav, hzero⟩ := hs.back hback hstranded
        exact hcons hstep (Or.inl hshown) hnav (by omega)
      | false =>
        -- something has been pushed, so a screen without a back button is a Home
        have hhome : s.session.nav.top.isHome = true := by
          obtain ⟨c, below, hpushed⟩ := List.exists_cons_of_length_eq_add_one hn
          have hc := hs.layered.wf.start c (hpushed ▸ List.mem_cons_self)
          have htop : s.session.nav.top = c := by simp [NavStack.top, hpushed]
          rw [htop] at hback hspeak ⊢
          cases c <;> simp_all [Controller.hasBack, Controller.isHome, Controller.isViewController,
            Controller.isSpeak]
        obtain ⟨t, hstep, hnav⟩ := exists_logout hs.layered hhome
        refine ⟨[.session .logout], t, ?_, (along_cons hstep).mpr ⟨Or.inl trivial, trivial⟩, ?_, ?_⟩
        · rw [hn]; simp
        · exact run_cons_eq_some.mpr ⟨t, hstep, rfl⟩
        · rw [hnav]; rfl
    · obtain ⟨i, hi, hon, htop⟩ := Session.exists_didFinish (s := s.session) (by omega)
      have hne : s.session.nav.pushed ≠ [] := fun hnil => by rw [hnil] at hn; cases hn
      obtain ⟨t, hstep, hsession, hnav, hhidden⟩ := exists_didFinish_step hi hon hne
      have hpop := hs.blocked_pop hblocked hstep hnav hhidden
      have hending := (Session.ending_of_didFinish hi hon hsession).2 hs.numbered htop
      exact hcons hstep (Or.inr ⟨i, rfl⟩) hnav (by omega)

/-- Too few ends to come stay too few: no tap does anything, and an end that closes a screen is
    one less to come. -/
theorem Reached.lt_step (hs : Reached s) (hlt : s.session.ending < blocked s)
    (hev : TappedOrSpoken s e s') (h : step s e = some s') : s'.session.ending < blocked s' := by
  have hblocked : blocked s ≠ 0 := by omega
  rcases hev with htapped | ⟨i, rfl⟩
  · exact absurd htapped (not_tapped (hs.speak_or_stranded hblocked) h)
  · obtain ⟨session, hsession, hs'⟩ := Option.map_eq_some_iff.mp h
    have hi : i ∈ s.session.uttering := (Option.ite_none_right_eq_some.mp hsession).1
    by_cases hon : .speak i ∈ s.session.nav.viewControllers
    · have hne : s.session.nav.pushed ≠ [] := by
        intro hnil
        rw [NavStack.mem_viewControllers, hs.layered.wf.root, hnil] at hon
        simp at hon
      obtain ⟨t, hstep, hsession', hnav, hhidden⟩ := exists_didFinish_step hi hon hne
      obtain rfl : t = s' := Option.some.inj (hstep.symm.trans h)
      have hpop := hs.blocked_pop hblocked hstep hnav hhidden
      have hending := (Session.ending_of_didFinish hi hon hsession').1
      omega
    · -- the end of an utterance whose screen has been popped changes nothing
      rw [Session.step_didFinish hi, if_neg hon] at hsession
      cases hsession
      subst hs'
      have hending : { s.session with uttering := s.session.uttering.erase i }.ending
          = s.session.ending := by
        rw [Session.ending, Session.ending, List.countP_erase]
        simp only [decide_eq_true_eq, hon, and_false, if_false, Nat.sub_zero]
      rw [NavStack.shows_self, hending]
      exact hlt

/-- There is a way back exactly where as many ends are to come as screens wait for one. -/
theorem Reached.canReturn_iff (hs : Reached s) : CanReturn s ↔ blocked s ≤ s.session.ending := by
  refine ⟨?_, hs.canReturn⟩
  rintro ⟨es, s', -, htaps, hrun, hstart⟩
  by_contra hlt
  obtain ⟨hs', hlt'⟩ := run_invariant_of_along
    (I := fun s => Reached s ∧ s.session.ending < blocked s)
    (fun _ _ _ hI hev hstep => ⟨reached_of_step hI.1 hstep, hI.1.lt_step hI.2 hev hstep⟩)
    ⟨hs, not_le.mp hlt⟩ htaps hrun
  -- on the start screen nothing is blocked
  have htop : s'.session.nav.top = .viewController := by
    have hmem := s'.session.nav.top_mem
    rw [hstart] at hmem
    exact List.mem_singleton.mp hmem
  have hzero : blocked s' = 0 := by
    refine hs'.blocked_eq_zero_iff.mpr ⟨by rw [htop]; rfl, ?_⟩
    rintro ⟨hplay, -⟩
    rw [htop] at hplay
    cases hplay
  omega

/-- **The way back.**  In every state of every history of sessions and relaunches the user can
    get back to the start screen, by taps and by waiting, exactly if there are at least as many
    utterances to end, of screens on the stack, as screens that only such an end can close.  If
    there are fewer, a speaking screen or a quiz without its back button is on top, and no tap
    leads to another screen. -/
theorem canReturn_of_run {es : List LifecycleEvent} (h : run step (start launch) es = some s) :
    (CanReturn s ↔ blocked s ≤ s.session.ending) ∧
      (¬ CanReturn s → (s.session.nav.top.isSpeak = true ∨ Stranded s) ∧
        ∀ e s', step s e = some s' → ¬ Tapped s e) := by
  have hs := reached_of_run h
  have hiff := hs.canReturn_iff
  refine ⟨hiff, fun hnot => ?_⟩
  have hblocked : blocked s ≠ 0 := fun hzero => hnot (hiff.mpr (by omega))
  have htop := hs.speak_or_stranded hblocked
  exact ⟨htop, fun e s' hstep => not_tapped htop hstep⟩

/-- Ann selects two words at once, and the first one is spoken faster. -/
def twoWordsAtOnce : List LifecycleEvent :=
  [.session .openSignUp,
    .session (.signUpcClicked (some "Ann") (some "ann@mail.co") (some "secret")),
    .session (.homeClicked .wordClicked), .session .didSelectItemAt, .session .didSelectItemAt,
    .session (.didFinish 0), .session (.didFinish 1)]

/-- After Ann's three sign-ins a quiz is stranded, and after her two words a speaking screen is
    left that does not speak any more; from neither of them there is a way back. -/
theorem canReturn_of_run_stuck :
    (∃ s, run step (start launch) quizUnderHome = some s ∧ Stranded s ∧ ¬ CanReturn s) ∧
      ∃ s, run step (start launch) twoWordsAtOnce = some s ∧ s.session.nav.top = .speak 0 ∧
        homes s.session.nav = 1 ∧ ¬ CanReturn s := by
  constructor
  · obtain ⟨s, hrun, hstranded, hblocked, hending⟩ : ∃ s,
        run step (start launch) quizUnderHome = some s ∧ Stranded s ∧ blocked s = 1 ∧
          s.session.ending = 0 := ⟨_, rfl, ⟨rfl, rfl⟩, rfl, rfl⟩
    refine ⟨s, hrun, hstranded, fun hreturn => ?_⟩
    have hle := (canReturn_of_run hrun).1.mp hreturn
    omega
  · obtain ⟨s, hrun, htop, hhomes, hblocked, hending⟩ : ∃ s,
        run step (start launch) twoWordsAtOnce = some s ∧ s.session.nav.top = .speak 0 ∧
          homes s.session.nav = 1 ∧ blocked s = 1 ∧ s.session.ending = 0 :=
      ⟨_, rfl, rfl, rfl, rfl, rfl⟩
    refine ⟨s, hrun, htop, hhomes, fun hreturn => ?_⟩
    have hle := (canReturn_of_run hrun).1.mp hreturn
    omega

end NavigationBar

end ChildLearning
