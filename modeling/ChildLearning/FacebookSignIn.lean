import Mathlib.Data.List.Perm.Basic
import ChildLearning.FacebookLogin
import ChildLearning.PendingWrites

namespace ChildLearning

open Transition

/-!
# Sessions with Facebook in full

A session knows of a Facebook sign-in only that it was started and that its result may come at
any time, a profile or none.  Here the app runs with all that lies in between: the dialog, the
token, the comparison of users and the request for the profile.  `session_of_run` says that
nothing is lost: in everything else than how far its sign-ins have come, such a run is one of
a session.
-/

/-- The profile in the answer to the request `me`, in `getFBUserData()`: an error or an answer
    that is no dictionary ends there. -/
def fbProfile (result : Option Json) : Option FbProfile :=
  (result.bind Json.asObject).map fun dict =>
    { id    := Json.stringField "id" dict
      email := (dict.lookup "email").bind Json.asString?
      name  := (dict.lookup "name").bind Json.asString? }

/-- The running app: the session, whose own list of sign-ins is not used, and Facebook. -/
structure FacebookApp where
  session : Session := {}
  facebook : FacebookLogin := {}

/-- One event. -/
inductive FacebookAppEvent where
  /-- An event that has nothing to do with Facebook. -/
  | session (e : SessionEvent)
  /-- `LoginViewController.facebookLoginClicked(_:)` of the screen on top. -/
  | facebookLoginClicked
  /-- Facebook goes on with a sign-in, or with its token. -/
  | facebook (e : FacebookLoginEvent)
  /-- Profile request `k` is answered, or fails. -/
  | answered (k : ℕ) (result : Option Json)

/-- The event is one of a sign-in. -/
def SessionEvent.isFacebook : SessionEvent → Bool
  | .facebookLoginClicked => true
  | .facebookResult _ _   => true
  | _                     => false

/-- The event is caused by the app, not by Facebook. -/
def FacebookLoginEvent.isCaused : FacebookLoginEvent → Bool
  | .facebookLoginClicked _ => true
  | .requestEnded _         => true
  | _                       => false

namespace FacebookLogin

/-- The login screens with a sign-in under way. -/
def waiting (s : FacebookLogin) : List ℕ :=
  s.dialogs ++ (s.reauthentications.map Reauthentication.screen ++ s.requests)

end FacebookLogin

namespace FacebookApp

/-- What the session does with the answer to a profile request of login screen `i`. -/
def received (s : Session) (i : ℕ) (result : Option Json) : Option Session :=
  match fbProfile result with
  | none => some s
  | some profile => s.screens[i]?.map fun users =>
      s.perform (.login i) (LoginViewController.getFBUserData users profile.email profile.name)

/-- One event. -/
def step (s : FacebookApp) : FacebookAppEvent → Option FacebookApp
  | .session e =>
    if e.isFacebook then none
    else (s.session.step e).map fun session => { s with session }
  | .facebookLoginClicked =>
    match s.session.nav.top with
    | .login i => (s.facebook.step (.facebookLoginClicked i)).map fun facebook => { s with facebook }
    | _ => none
  | .facebook e =>
    if e.isCaused then none else (s.facebook.step e).map fun facebook => { s with facebook }
  | .answered k result =>
    s.facebook.requests[k]?.bind fun i => (s.facebook.step (.requestEnded k)).bind fun facebook =>
      (received s.session i result).map fun session => ⟨session, facebook⟩

end FacebookApp

/-! ### Sign-ins under way -/

namespace FacebookLogin

variable {s s' : FacebookLogin} {screen k : ℕ}

/-- A handler ends the sign-in, or goes on to the request. -/
theorem waiting_loginWithFb (s : FacebookLogin) (screen : ℕ)
    (result : Option LoginManagerLoginResult) :
    (s.loginWithFb screen result).waiting = s.waiting ∨
      (s.loginWithFb screen result).waiting = s.waiting ++ [screen] := by
  unfold loginWithFb getFBUserData
  split_ifs
  · cases s.current with
    | none => exact Or.inl rfl
    | some token => exact Or.inr (by simp [logOut, waiting])
  · exact Or.inl rfl

/-- The end of a dialog ends the sign-in, or the sign-in goes on. -/
theorem waiting_completeAuthentication (s : FacebookLogin) (screen : ℕ)
    (parameters : LoginCompletionParameters) :
    (s.completeAuthentication screen parameters).waiting = s.waiting ∨
      (s.completeAuthentication screen parameters).waiting.Perm (s.waiting ++ [screen]) := by
  have hhandler (t : FacebookLogin) (ht : t.waiting = s.waiting)
      (result : Option LoginManagerLoginResult) :
      (t.loginWithFb screen result).waiting = s.waiting ∨
        (t.loginWithFb screen result).waiting.Perm (s.waiting ++ [screen]) := by
    rw [← ht]
    exact (waiting_loginWithFb t screen result).imp_right List.Perm.of_eq
  unfold completeAuthentication
  split
  · exact hhandler s rfl _
  · exact hhandler s rfl _
  · split_ifs
    · exact hhandler s rfl _
    · dsimp only
      split_ifs
      · exact hhandler s rfl _
      · split
        · -- the comparison stands between those that wait longer and the requests
          right
          show (s.dialogs ++ ((s.reauthentications ++ [_]).map Reauthentication.screen
            ++ s.requests)).Perm _
          rw [waiting, List.map_append, List.append_assoc, List.append_assoc, List.append_assoc]
          exact (List.perm_append_comm.append_left _).append_left _
        · refine hhandler _ ?_ _
          rfl

/-- Taking one of several sign-ins out. -/
theorem perm_eraseIdx {xs : List ℕ} (h : xs[k]? = some screen) :
    xs.Perm (xs.eraseIdx k ++ [screen]) := by
  obtain ⟨hk, rfl⟩ := List.getElem?_eq_some_iff.mp h
  exact (List.getElem_cons_eraseIdx_perm hk).symm.trans (List.perm_append_singleton _ _).symm

/-- One sign-in in front of the others, or behind. -/
theorem perm_moved (xs ys : List ℕ) (i : ℕ) : ((xs ++ [i]) ++ ys).Perm ((xs ++ ys) ++ [i]) := by
  rw [List.append_assoc, List.append_assoc]
  exact List.perm_append_comm.append_left _

/-- **How far the sign-ins have come.**  After a step of Facebook the same sign-ins are under
    way, or one has ended. -/
theorem waiting_of_step {e : FacebookLoginEvent} (he : e.isCaused = false)
    (h : s.step e = some s') :
    s.waiting.Perm s'.waiting ∨ ∃ i, s.waiting.Perm (s'.waiting ++ [i]) := by
  cases e with
  | facebookLoginClicked => cases he
  | requestEnded => cases he
  | cleared => cases h; exact Or.inl (List.Perm.refl _)
  | refreshed permissions =>
    obtain ⟨-, hstep⟩ := Option.ite_none_left_eq_some.mp h
    cases hstep
    exact Or.inl (List.Perm.refl _)
  | completed k parameters =>
    obtain ⟨i, hi, rfl⟩ := Option.map_eq_some_iff.mp h
    have hrest : s.waiting.Perm ({ s with dialogs := s.dialogs.eraseIdx k }.waiting ++ [i]) :=
      ((perm_eraseIdx hi).append_right _).trans (perm_moved _ _ i)
    rcases waiting_completeAuthentication { s with dialogs := s.dialogs.eraseIdx k } i parameters with
      hsame | hmore
    · exact Or.inr ⟨i, by rw [hsame]; exact hrest⟩
    · exact Or.inl (hrest.trans hmore.symm)
  | validated k actualID =>
    obtain ⟨r, hr, rfl⟩ := Option.map_eq_some_iff.mp h
    have hscreen : (s.reauthentications.map Reauthentication.screen)[k]? = some r.screen := by
      rw [List.getElem?_map, hr]; rfl
    have hrest : s.waiting.Perm
        ({ s with reauthentications := s.reauthentications.eraseIdx k }.waiting ++ [r.screen]) := by
      show (s.dialogs ++ (s.reauthentications.map Reauthentication.screen ++ s.requests)).Perm
        ((s.dialogs ++ ((s.reauthentications.eraseIdx k).map Reauthentication.screen ++ s.requests))
          ++ [r.screen])
      rw [← List.eraseIdx_map, List.append_assoc]
      exact (((perm_eraseIdx hscreen).append_right _).trans (perm_moved _ _ _)).append_left _
    have hhandler (t : FacebookLogin)
        (ht : t.waiting = { s with reauthentications := s.reauthentications.eraseIdx k }.waiting)
        (result : Option LoginManagerLoginResult) :
        s.waiting.Perm (t.loginWithFb r.screen result).waiting ∨
          ∃ i, s.waiting.Perm ((t.loginWithFb r.screen result).waiting ++ [i]) := by
      rcases waiting_loginWithFb t r.screen result with hsame | hmore
      · exact Or.inr ⟨r.screen, by rw [hsame, ht]; exact hrest⟩
      · exact Or.inl (by rw [hmore, ht]; exact hrest)
    unfold validateReauthentication
    split_ifs
    · refine hhandler _ ?_ _
      rfl
    · refine hhandler _ ?_ _
      rfl

end FacebookLogin

/-! ### Sessions -/

namespace FacebookApp

/-- The session, with these sign-ins under way. -/
def withPending (s : Session) (pending : List ℕ) : Session := { s with facebookPending := pending }

/-- The session is the one of the app, and the same sign-ins are under way. -/
def Related (s : FacebookApp) (t : Session) : Prop :=
  ∃ pending, t = withPending s.session pending ∧ pending.Perm s.facebook.waiting

theorem perform_withPending (s : Session) (pending : List ℕ) (on : Controller)
    (action : ScreenAction) :
    (withPending s pending).perform on action = withPending (s.perform on action) pending := by
  unfold Session.perform
  cases action.storedName <;> rfl

/-- No event but those of a sign-in looks at the sign-ins. -/
theorem step_withPending {s s' : Session} {e : SessionEvent} (pending : List ℕ)
    (he : e.isFacebook = false) (h : s.step e = some s') :
    (withPending s pending).step e = some (withPending s' pending) := by
  cases e with
  | facebookLoginClicked => cases he
  | facebookResult => cases he
  | openLogin =>
    obtain ⟨htop, hs⟩ := Option.ite_none_right_eq_some.mp h
    cases hs
    exact if_pos htop
  | openSignUp =>
    obtain ⟨htop, hs⟩ := Option.ite_none_right_eq_some.mp h
    cases hs
    exact if_pos htop
  | observed i snapshot =>
    obtain ⟨users, husers, hs⟩ := Option.bind_eq_some_iff.mp h
    obtain ⟨users', hobserve, rfl⟩ := Option.map_eq_some_iff.mp hs
    exact Option.bind_eq_some_iff.mpr
      ⟨users, husers, Option.map_eq_some_iff.mpr ⟨users', hobserve, rfl⟩⟩
  | loginClicked txtFEmail txtFPassword =>
    rw [Session.step_loginClicked] at h ⊢
    obtain ⟨d, hd, rfl⟩ := Option.map_eq_some_iff.mp h
    exact Option.map_eq_some_iff.mpr ⟨d, hd, perform_withPending s pending d.1 d.2⟩
  | signUpcClicked txtFName txtFEmail txtFPassword =>
    rw [Session.step_signUpcClicked] at h ⊢
    obtain ⟨d, hd, rfl⟩ := Option.map_eq_some_iff.mp h
    exact Option.map_eq_some_iff.mpr ⟨d, hd, perform_withPending s pending d.1 d.2⟩
  | backClicked =>
    obtain ⟨hback, hs⟩ := Option.ite_none_right_eq_some.mp h
    cases hs
    exact if_pos hback
  | logout =>
    obtain ⟨hhome, hs⟩ := Option.ite_none_right_eq_some.mp h
    obtain ⟨nav, hnav, rfl⟩ := Option.map_eq_some_iff.mp hs
    exact Option.ite_none_right_eq_some.mpr ⟨hhome, Option.map_eq_some_iff.mpr ⟨nav, hnav, rfl⟩⟩
  | homeClicked button =>
    obtain ⟨hhome, hs⟩ := Option.ite_none_right_eq_some.mp h
    cases hs
    exact if_pos hhome
  | didSelectItemAt =>
    obtain ⟨hbuttons, hs⟩ := Option.ite_none_right_eq_some.mp h
    cases hs
    exact if_pos hbuttons
  | playClicked =>
    obtain ⟨htop, hs⟩ := Option.ite_none_right_eq_some.mp h
    cases hs
    exact if_pos htop
  | didFinish i =>
    obtain ⟨huttering, hs⟩ := Option.ite_none_right_eq_some.mp h
    cases hs
    exact if_pos huttering

/-! ### The simulation -/

variable {s s' : FacebookApp} {t : Session} {e : FacebookAppEvent}

/-- A sign-in under way that has ended. -/
theorem perm_erase {pending rest : List ℕ} {i : ℕ} (h : pending.Perm (rest ++ [i])) :
    i ∈ pending ∧ (pending.erase i).Perm rest := by
  refine ⟨h.mem_iff.mpr (List.mem_append_right _ (List.mem_singleton_self i)), ?_⟩
  have herase := (h.trans (List.perm_append_singleton i rest)).erase i
  rwa [List.erase_cons_head] at herase

/-- The result of a sign-in, in the session. -/
theorem step_facebookResult_of_received {session session' : Session} {pending : List ℕ} {i : ℕ}
    {result : Option Json} (hi : i ∈ pending) (h : received session i result = some session') :
    (withPending session pending).step (.facebookResult i (fbProfile result))
      = some (withPending session' (pending.erase i)) := by
  unfold received at h
  have hwaits : i ∈ (withPending session pending).facebookPending := hi
  rw [Session.step, if_pos hwaits]
  cases hprofile : fbProfile result with
  | none =>
    rw [hprofile] at h
    cases h
    rfl
  | some profile =>
    rw [hprofile] at h
    obtain ⟨users, husers, rfl⟩ := Option.map_eq_some_iff.mp h
    refine Option.map_eq_some_iff.mpr ⟨users, husers, ?_⟩
    exact perform_withPending session (pending.erase i) _ _

/-- The step lemma: a step of the app is a step of the session, or none. -/
theorem Related.step (hs : Related s t) (h : s.step e = some s') :
    ∃ fs t', run Session.step t fs = some t' ∧ Related s' t' := by
  obtain ⟨pending, rfl, hpending⟩ := hs
  cases e with
  | session e =>
    obtain ⟨he, hstep⟩ := Option.ite_none_left_eq_some.mp h
    obtain ⟨session, hsession, rfl⟩ := Option.map_eq_some_iff.mp hstep
    have hnext := step_withPending pending (Bool.eq_false_iff.mpr he) hsession
    exact ⟨[e], _, run_cons_eq_some.mpr ⟨_, hnext, rfl⟩, pending, rfl, hpending⟩
  | facebookLoginClicked =>
    simp only [FacebookApp.step] at h
    split at h
    case h_2 => cases h
    case h_1 i htop =>
      obtain ⟨facebook, hfacebook, rfl⟩ := Option.map_eq_some_iff.mp h
      cases hfacebook
      refine ⟨[.facebookLoginClicked], withPending s.session (pending ++ [i]), ?_, _, rfl, ?_⟩
      · show (Session.step (withPending s.session pending) .facebookLoginClicked).bind _ = _
        have hclick : Session.step (withPending s.session pending) .facebookLoginClicked
            = some (withPending s.session (pending ++ [i])) := by
          simp only [Session.step, withPending, htop]
        rw [hclick]
        rfl
      · exact (hpending.append_right [i]).trans (FacebookLogin.perm_moved _ _ i).symm
  | facebook e =>
    obtain ⟨he, hstep⟩ := Option.ite_none_left_eq_some.mp h
    obtain ⟨facebook, hfacebook, rfl⟩ := Option.map_eq_some_iff.mp hstep
    rcases FacebookLogin.waiting_of_step (Bool.eq_false_iff.mpr he) hfacebook with hsame | ⟨i, hended⟩
    · exact ⟨[], _, rfl, pending, rfl, hpending.trans hsame⟩
    · -- the sign-in ends without a profile
      obtain ⟨hi, hrest⟩ := perm_erase (hpending.trans hended)
      have hnext := step_facebookResult_of_received hi
        (show received s.session i none = some s.session from rfl)
      exact ⟨[.facebookResult i none], _, run_cons_eq_some.mpr ⟨_, hnext, rfl⟩, _, rfl, hrest⟩
  | answered k result =>
    obtain ⟨i, hi, hstep⟩ := Option.bind_eq_some_iff.mp h
    obtain ⟨facebook, hfacebook, hreceived⟩ := Option.bind_eq_some_iff.mp hstep
    obtain ⟨session, hsession, rfl⟩ := Option.map_eq_some_iff.mp hreceived
    obtain ⟨_, -, rfl⟩ := Option.map_eq_some_iff.mp hfacebook
    have hended : s.facebook.waiting.Perm
        ({ s.facebook with requests := s.facebook.requests.eraseIdx k }.waiting ++ [i]) := by
      show (s.facebook.dialogs ++ (_ ++ s.facebook.requests)).Perm
        ((s.facebook.dialogs ++ (_ ++ s.facebook.requests.eraseIdx k)) ++ [i])
      rw [List.append_assoc, List.append_assoc]
      exact ((FacebookLogin.perm_eraseIdx hi).append_left _).append_left _
    obtain ⟨hmem, hrest⟩ := perm_erase (hpending.trans hended)
    exact ⟨[.facebookResult i (fbProfile result)], _,
      run_cons_eq_some.mpr ⟨_, step_facebookResult_of_received hmem hsession, rfl⟩, _, rfl, hrest⟩

/-- **Sessions with Facebook in full.**  Wherever the app gets to from a launch with any token,
    through any interleaving of dialogs, comparisons and requests, some session gets to the same
    stack, stored name, lists and utterances, with the same sign-ins under way. -/
theorem session_of_run {cached : Option AccessToken} {es : List FacebookAppEvent}
    (h : run FacebookApp.step { facebook := { current := cached } } es = some s) :
    ∃ fs t, run Session.step Session.launch fs = some t ∧
      t = { s.session with facebookPending := t.facebookPending } ∧
      t.facebookPending.Perm s.facebook.waiting := by
  have hlaunch : Related { facebook := { current := cached } } Session.launch :=
    ⟨[], rfl, List.Perm.refl _⟩
  obtain ⟨fs, t, hrun, pending, rfl, hpending⟩ :=
    run_related (fun _ _ _ _ hs hstep => hs.step hstep) hlaunch h
  exact ⟨fs, _, hrun, rfl, hpending⟩

/-- Ann comes in through Facebook, and logs out while a second dialog is open. -/
def annSignsIn : List FacebookAppEvent :=
  [.session .openLogin, .facebookLoginClicked, .facebookLoginClicked,
    .facebook (.completed 0 ⟨false, true, some "EAA", some "7", {"public_profile", "email"}⟩),
    .answered 0 (some (.object [("id", .string "7"), ("name", .string "Ann")])),
    .session .logout]

theorem session_of_run_annSignsIn :
    ∃ fs t, run Session.step Session.launch fs = some t ∧
      t.nav.viewControllers = [.viewController] ∧ t.username = none ∧
      t.facebookPending.Perm [0] := by
  obtain ⟨fs, t, hrun, ht, hpending⟩ := @session_of_run _ none annSignsIn rfl
  exact ⟨fs, t, hrun, congrArg (fun t => t.nav.viewControllers) ht,
    congrArg (fun t => t.username) ht, hpending⟩

end FacebookApp

end ChildLearning
