import Mathlib.Data.Finset.Basic
import ChildLearning.Lib.Transition

namespace ChildLearning

open Transition

/-!
# Logging in to Facebook

Before a profile is requested, `loginWithFb()` runs a login of the Facebook SDK, which keeps one
access token for the whole app, also across launches.  The app logs out again only when the
e-mail is granted, so a login that grants something, but not the e-mail, leaves its token
behind; and where a token is left, the SDK takes the next login for one more of the same user.
`lockedOut_along_iff` says what follows where no token was left and no login was being compared
before: until that user grants the e-mail, or Facebook clears the token, no profile of anybody
is requested any more.
-/

/-- `FBSDKAccessToken`: whose it is and what it grants. -/
structure AccessToken where
  tokenString : String
  userID : Option String
  permissions : Finset String
  deriving DecidableEq

/-- `FBSDKLoginManagerLoginResult`. -/
structure LoginManagerLoginResult where
  token : Option AccessToken
  isCancelled : Bool
  grantedPermissions : Finset String

/-- `FBSDKLoginCompletionParameters`, what a dialog ends with: without a token it was
    cancelled.  Whether the challenge of the answer is the one expected is part of them. -/
structure LoginCompletionParameters where
  error : Bool
  challengePassed : Bool
  accessTokenString : Option String
  userID : Option String
  permissions : Finset String

/-- The token of a login that has gone through. -/
def LoginCompletionParameters.token? (parameters : LoginCompletionParameters) : Option AccessToken :=
  if parameters.error = false ∧ parameters.challengePassed = true then
    parameters.accessTokenString.map fun token =>
      ⟨token, parameters.userID, parameters.permissions⟩
  else none

/-- A login whose user is being compared with the one of the current token. -/
structure Reauthentication where
  screen : ℕ
  currentToken : AccessToken
  loginResult : LoginManagerLoginResult

/-- Facebook as the app uses it: the current token, and of which login screens a dialog is
    open, a user is being compared, a profile is being requested; `asked` has all tokens that
    a profile was ever requested with (ghost). -/
structure FacebookLogin where
  current : Option AccessToken := none
  dialogs : List ℕ := []
  reauthentications : List Reauthentication := []
  requests : List ℕ := []
  asked : List AccessToken := []

/-- One event. -/
inductive FacebookLoginEvent where
  /-- `facebookLoginClicked(_:)` on login screen `i`: its dialog opens. -/
  | facebookLoginClicked (i : ℕ)
  /-- Dialog `k` ends; dismissing it is a cancellation. -/
  | completed (k : ℕ) (parameters : LoginCompletionParameters)
  /-- Comparison `k` ends with the user of the new token, or with an error. -/
  | validated (k : ℕ) (actualID : Option String)
  /-- Profile request `k` ends. -/
  | requestEnded (k : ℕ)
  /-- The SDK refreshes what the current token grants, which is never nothing. -/
  | refreshed (permissions : Finset String)
  /-- Facebook has declared the current token invalid, and the SDK clears it. -/
  | cleared

namespace FacebookLogin

/-- `LoginManager.logOut()`. -/
def logOut (s : FacebookLogin) : FacebookLogin := { s with current := none }

/-- `LoginViewController.getFBUserData()`, up to the start of the request. -/
def getFBUserData (s : FacebookLogin) (screen : ℕ) : FacebookLogin :=
  match s.current with
  | some token => { s with requests := s.requests ++ [screen], asked := s.asked ++ [token] }
  | none       => s

/-- The handler in `LoginViewController.loginWithFb()`; a cancellation is only printed. -/
def loginWithFb (s : FacebookLogin) (screen : ℕ) (result : Option LoginManagerLoginResult) :
    FacebookLogin :=
  if result.any fun r => "email" ∈ r.grantedPermissions then (s.getFBUserData screen).logOut else s

/-- `determineRecentlyGrantedPermissions`: where something has been granted before, only what
    was requested counts. -/
def recentlyGranted (current : Option AccessToken) (requested granted : Finset String) :
    Finset String :=
  if (current.map AccessToken.permissions).getD ∅ ≠ ∅ ∧ requested ≠ ∅ then granted ∩ requested
  else granted

/-- `completeAuthentication:expectChallenge:` of a login that requests the e-mail. -/
def completeAuthentication (s : FacebookLogin) (screen : ℕ) (parameters : LoginCompletionParameters) :
    FacebookLogin :=
  match parameters.error, parameters.accessTokenString with
  | true, _           => s.loginWithFb screen none
  | false, none       => s.loginWithFb screen (some ⟨none, true, ∅⟩)
  | false, some token =>
    -- a wrong challenge is an error too, but no reason to call a cancellation one
    if parameters.challengePassed = false then s.loginWithFb screen none
    else
      let recently := recentlyGranted s.current {"email"} parameters.permissions
      if recently = ∅ then s.loginWithFb screen (some ⟨none, false, ∅⟩)
      else
        let newToken : AccessToken := ⟨token, parameters.userID, parameters.permissions⟩
        let result : LoginManagerLoginResult := ⟨some newToken, false, recently⟩
        match s.current with
        | some currentToken =>
          -- the handler waits until the users have been compared
          { s with reauthentications := s.reauthentications ++ [⟨screen, currentToken, result⟩] }
        | none => { s with current := some newToken }.loginWithFb screen (some result)

/-- The end of `validateReauthentication:withResult:`; `isEqualToString:` is false of `nil`. -/
def validateReauthentication (s : FacebookLogin) (r : Reauthentication) (actualID : Option String) :
    FacebookLogin :=
  if actualID.isSome ∧ r.currentToken.userID = actualID then
    { s with current := r.loginResult.token }.loginWithFb r.screen (some r.loginResult)
  else s.loginWithFb r.screen none

/-- One event. -/
def step (s : FacebookLogin) : FacebookLoginEvent → Option FacebookLogin
  | .facebookLoginClicked i => some { s with dialogs := s.dialogs ++ [i] }
  | .completed k parameters => s.dialogs[k]?.map fun screen =>
      { s with dialogs := s.dialogs.eraseIdx k }.completeAuthentication screen parameters
  | .validated k actualID => s.reauthentications[k]?.map fun r =>
      { s with
        reauthentications := s.reauthentications.eraseIdx k }.validateReauthentication r actualID
  | .requestEnded k => s.requests[k]?.map fun _ => { s with requests := s.requests.eraseIdx k }
  | .refreshed permissions =>
    if permissions = ∅ then none
    else some { s with current := s.current.map fun token => { token with permissions } }
  | .cleared => some { s with current := none }

/-! ### What a handler does -/

variable {s s' : FacebookLogin} {e : FacebookLoginEvent} {user : Option String} {screen : ℕ}

/-- Without a result nothing happens. -/
@[simp] theorem loginWithFb_none (s : FacebookLogin) (screen : ℕ) :
    s.loginWithFb screen none = s := rfl

/-- Without the e-mail nothing happens. -/
theorem loginWithFb_of_notMem {result : LoginManagerLoginResult}
    (h : "email" ∉ result.grantedPermissions) : s.loginWithFb screen (some result) = s := by
  simp [loginWithFb, h]

/-- With the e-mail the profile is requested, with the current token, which is then dropped. -/
theorem loginWithFb_of_mem {result : LoginManagerLoginResult} {token : AccessToken}
    (h : "email" ∈ result.grantedPermissions) (htoken : s.current = some token) :
    s.loginWithFb screen (some result) =
      { s with
        current := none, requests := s.requests ++ [screen], asked := s.asked ++ [token] } := by
  simp [loginWithFb, h, getFBUserData, htoken, logOut]

/-- Without a current token a login counts with all that it grants: it asks for a profile and
    logs out, or it leaves its token. -/
theorem completeAuthentication_of_none (hcurrent : s.current = none) (screen : ℕ)
    (parameters : LoginCompletionParameters) :
    s.completeAuthentication screen parameters =
      match parameters.token? with
      | none => s
      | some token =>
        if "email" ∈ token.permissions then
          { s with requests := s.requests ++ [screen], asked := s.asked ++ [token] }
        else if token.permissions = ∅ then s
        else { s with current := some token } := by
  obtain ⟨error, challengePassed, accessTokenString, userID, permissions⟩ := parameters
  have hempty : s.loginWithFb screen (some ⟨none, true, ∅⟩) = s :=
    loginWithFb_of_notMem (Finset.notMem_empty _)
  have hnothing : s.loginWithFb screen (some ⟨none, false, ∅⟩) = s :=
    loginWithFb_of_notMem (Finset.notMem_empty _)
  have hrecently : recentlyGranted none {"email"} permissions = permissions := by
    simp [recentlyGranted]
  unfold completeAuthentication LoginCompletionParameters.token?
  cases error with
  | true => rfl
  | false =>
    cases accessTokenString with
    | none => simpa using hempty
    | some tokenString =>
      cases challengePassed with
      | false => rfl
      | true =>
        simp only [hcurrent, hrecently, Bool.true_eq_false, if_false, and_self, if_true,
          Option.map_some]
        by_cases hemail : "email" ∈ permissions
        · have hne : permissions ≠ ∅ := Finset.ne_empty_of_mem hemail
          rw [if_neg hne, if_pos hemail, loginWithFb_of_mem hemail rfl, ← hcurrent]
        · by_cases hgranted : permissions = ∅
          · rw [if_pos hgranted, if_neg hemail, if_pos hgranted, hnothing]
          · rw [if_neg hgranted, if_neg hemail, if_neg hgranted, loginWithFb_of_notMem hemail]

/-- Where something has been granted before, a login counts if it grants the e-mail. -/
theorem recentlyGranted_eq {current : Option AccessToken} {token : AccessToken}
    (hcurrent : current = some token) (h : token.permissions ≠ ∅) (granted : Finset String) :
    recentlyGranted current {"email"} granted = if "email" ∈ granted then {"email"} else ∅ := by
  subst hcurrent
  unfold recentlyGranted
  rw [if_pos ⟨h, Finset.singleton_ne_empty _⟩]
  ext permission
  by_cases hemail : "email" ∈ granted
  · simp only [hemail, if_true, Finset.mem_inter, Finset.mem_singleton]
    constructor
    · exact fun h => h.2
    · rintro rfl; exact ⟨hemail, rfl⟩
  · simp only [hemail, if_false, Finset.mem_inter, Finset.mem_singleton, Finset.notMem_empty,
      iff_false]
    rintro ⟨hgranted, rfl⟩
    exact hemail hgranted

/-! ### Behind a token that was left -/

/-- The login is compared with a token of this user, and will have granted the e-mail. -/
structure Awaits (user : Option String) (r : Reauthentication) : Prop where
  userID : r.currentToken.userID = user
  token : ∃ token, r.loginResult.token = some token
  email : "email" ∈ r.loginResult.grantedPermissions

/-- A token of this user is left, and all comparisons are with this user. -/
structure Locked (user : Option String) (s : FacebookLogin) : Prop where
  token : ∃ token, s.current = some token ∧ token.userID = user ∧ token.permissions ≠ ∅
  pending : ∀ r ∈ s.reauthentications, Awaits user r

/-- No profile is requested, and the token of this user stays. -/
def NobodyAsked (user : Option String) (s : FacebookLogin) (_ : FacebookLoginEvent)
    (s' : FacebookLogin) : Prop :=
  s'.asked = s.asked ∧ s'.current.map AccessToken.userID = some user

/-- This user has logged in again and granted the e-mail, or the token is cleared. -/
def Releases (user : Option String) : FacebookLoginEvent → Prop
  | .validated _ actualID => actualID.isSome = true ∧ user = actualID
  | .cleared              => True
  | _                     => False

/-- A dialog that ends behind a left token asks for nothing; at most its user is compared. -/
theorem Locked.completeAuthentication (hs : Locked user s) (screen : ℕ)
    (parameters : LoginCompletionParameters) :
    (s.completeAuthentication screen parameters).asked = s.asked ∧
      Locked user (s.completeAuthentication screen parameters) := by
  obtain ⟨token, hcurrent, huser, hgranted⟩ := hs.token
  unfold FacebookLogin.completeAuthentication
  split
  · exact ⟨rfl, hs⟩
  · rw [loginWithFb_of_notMem (Finset.notMem_empty _)]
    exact ⟨rfl, hs⟩
  · split_ifs with hchallenge
    · exact ⟨rfl, hs⟩
    · rw [recentlyGranted_eq hcurrent hgranted]
      by_cases hemail : "email" ∈ parameters.permissions
      · rw [if_pos hemail, if_neg (Finset.singleton_ne_empty _)]
        simp only [hcurrent]
        refine ⟨trivial, ⟨token, rfl, huser, hgranted⟩, fun r hr => ?_⟩
        rcases List.mem_append.mp hr with hold | hnew
        · exact hs.pending r hold
        · obtain rfl := List.mem_singleton.mp hnew
          exact ⟨huser, ⟨_, rfl⟩, Finset.mem_singleton_self _⟩
      · rw [if_neg hemail, if_pos rfl, loginWithFb_of_notMem (Finset.notMem_empty _)]
        exact ⟨rfl, hs⟩

/-- The step lemma: behind a left token, a step that does not release it asks for nothing. -/
theorem Locked.step (hs : Locked user s) (hrelease : ¬ Releases user e) (h : s.step e = some s') :
    s'.asked = s.asked ∧ Locked user s' := by
  cases e with
  | facebookLoginClicked i => cases h; exact ⟨rfl, hs.token, hs.pending⟩
  | cleared => exact absurd trivial hrelease
  | requestEnded k =>
    obtain ⟨screen, -, rfl⟩ := Option.map_eq_some_iff.mp h
    exact ⟨rfl, hs.token, hs.pending⟩
  | refreshed permissions =>
    obtain ⟨hne, hstep⟩ := Option.ite_none_left_eq_some.mp h
    cases hstep
    obtain ⟨token, hcurrent, huser, -⟩ := hs.token
    exact ⟨rfl, ⟨{ token with permissions }, by rw [hcurrent]; rfl, huser, hne⟩, hs.pending⟩
  | completed k parameters =>
    obtain ⟨screen, -, rfl⟩ := Option.map_eq_some_iff.mp h
    have hopen : Locked user { s with dialogs := s.dialogs.eraseIdx k } := ⟨hs.token, hs.pending⟩
    exact hopen.completeAuthentication screen parameters
  | validated k actualID =>
    obtain ⟨r, hr, rfl⟩ := Option.map_eq_some_iff.mp h
    have hdiffers : ¬ (actualID.isSome = true ∧ r.currentToken.userID = actualID) := by
      rw [(hs.pending r (List.mem_of_getElem? hr)).userID]
      exact hrelease
    unfold validateReauthentication
    rw [if_neg hdiffers]
    exact ⟨rfl, hs.token, fun r' hr' => hs.pending r' (List.mem_of_mem_eraseIdx hr')⟩

/-- A release logs out, after the profile has been requested. -/
theorem Locked.current_of_releases (hs : Locked user s) (hrelease : Releases user e)
    (h : s.step e = some s') : s'.current = none := by
  cases e with
  | cleared => cases h; rfl
  | validated k actualID =>
    obtain ⟨r, hr, rfl⟩ := Option.map_eq_some_iff.mp h
    obtain ⟨huser, ⟨token, htoken⟩, hemail⟩ := hs.pending r (List.mem_of_getElem? hr)
    have hsame : actualID.isSome = true ∧ r.currentToken.userID = actualID := by
      rw [huser]
      exact hrelease
    unfold validateReauthentication
    rw [if_pos hsame, loginWithFb_of_mem hemail htoken]
  | facebookLoginClicked => exact hrelease.elim
  | completed => exact hrelease.elim
  | requestEnded => exact hrelease.elim
  | refreshed => exact hrelease.elim

/-- **Locked out.**  On a device without a token, and with no login being compared, let a user
    log in and grant something, but not the e-mail.  Then, whatever follows, no profile is
    requested and the token stays, exactly as long as this user does not log in again and grant
    the e-mail, and Facebook does not clear the token. -/
theorem lockedOut_along_iff {k : ℕ} {parameters : LoginCompletionParameters} {token : AccessToken}
    (hcurrent : s.current = none) (hpending : s.reauthentications = [])
    (htoken : parameters.token? = some token) (hgranted : token.permissions ≠ ∅)
    (hemail : "email" ∉ token.permissions) (h : s.step (.completed k parameters) = some s')
    (es : List FacebookLoginEvent) :
    Along FacebookLogin.step (NobodyAsked token.userID) s' es ↔
      Along FacebookLogin.step (fun _ e _ => ¬ Releases token.userID e) s' es := by
  have hlocked : Locked token.userID s' := by
    obtain ⟨screen, -, rfl⟩ := Option.map_eq_some_iff.mp h
    rw [@completeAuthentication_of_none { s with dialogs := s.dialogs.eraseIdx k } hcurrent, htoken]
    dsimp only
    rw [if_neg hemail, if_neg hgranted]
    exact ⟨⟨token, rfl, rfl, hgranted⟩, fun r hr => by simp [hpending] at hr⟩
  apply along_iff_along (I := Locked token.userID)
  · intro s e s' hs hstep
    constructor
    · intro hasked hrelease
      rw [NobodyAsked, hs.current_of_releases hrelease hstep] at hasked
      cases hasked.2
    · intro hrelease
      obtain ⟨hasked, ⟨token, hcurrent, huser, -⟩, -⟩ := hs.step hrelease hstep
      exact ⟨hasked, by rw [hcurrent, ← huser]; rfl⟩
  · intro s e s' hs hstep hasked
    refine (hs.step (fun hrelease => ?_) hstep).2
    rw [NobodyAsked, hs.current_of_releases hrelease hstep] at hasked
    cases hasked.2
  · exact hlocked

/-- What Bob does on Ann's device: he logs in and grants the e-mail. -/
def bobLogsIn : List FacebookLoginEvent :=
  [.facebookLoginClicked 1,
    .completed 0 ⟨false, true, some "EAB", some "8", {"public_profile", "email"}⟩,
    .validated 0 (some "8")]

/-- After Ann has logged in without granting the e-mail, Bob's profile is not requested: he is
    not Ann. -/
theorem lockedOut_along_iff_bob :
    Along FacebookLogin.step (NobodyAsked (some "7"))
      { current := some ⟨"EAA", some "7", {"public_profile"}⟩ } bobLogsIn := by
  have hiff := @lockedOut_along_iff { dialogs := [0] } _ 0
    ⟨false, true, some "EAA", some "7", {"public_profile"}⟩ _ rfl rfl rfl (by decide) (by decide)
    rfl bobLogsIn
  refine hiff.mpr ?_
  refine (along_cons rfl).mpr ⟨id, (along_cons rfl).mpr ⟨id, (along_cons rfl).mpr ⟨?_, trivial⟩⟩⟩
  simp [Releases]

/-! ### Without a token -/

/-- The token that a dialog ends with. -/
def broughtToken : FacebookLoginEvent → Option AccessToken
  | .completed _ parameters => parameters.token?
  | _                       => none

/-- A login goes through that grants something, but not the e-mail. -/
def LeavesToken (e : FacebookLoginEvent) : Prop :=
  ∃ token, broughtToken e = some token ∧ token.permissions ≠ ∅ ∧ "email" ∉ token.permissions

/-- The app is logged out of Facebook, and has asked for the profile of a login that grants the
    e-mail, and for no other. -/
def LoggedOut (s : FacebookLogin) (e : FacebookLoginEvent) (s' : FacebookLogin) : Prop :=
  s'.current = none ∧
    s'.asked = s.asked ++ ((broughtToken e).filter fun token => "email" ∈ token.permissions).toList

/-- Nobody is logged in to Facebook, and no login is being compared. -/
structure Open (s : FacebookLogin) : Prop where
  current : s.current = none
  pending : s.reauthentications = []

/-- A step that brings no token leaves all as it is. -/
theorem open_of_quiet (hb : broughtToken e = none) (hcurrent : s'.current = none)
    (hasked : s'.asked = s.asked) (hpending : s'.reauthentications = []) :
    ¬ LeavesToken e ∧ LoggedOut s e s' ∧ Open s' := by
  refine ⟨?_, ⟨hcurrent, ?_⟩, hcurrent, hpending⟩
  · rintro ⟨token, hsome, -⟩
    rw [hb] at hsome
    cases hsome
  · rw [hb, hasked]
    simp

/-- The step lemma without a token: it is left exactly by a login without the e-mail. -/
theorem Open.step (hs : Open s) (h : s.step e = some s') :
    (LeavesToken e ∧ s'.current ≠ none) ∨ (¬ LeavesToken e ∧ LoggedOut s e s' ∧ Open s') := by
  cases e with
  | facebookLoginClicked i => cases h; exact Or.inr (open_of_quiet rfl hs.current rfl hs.pending)
  | cleared => cases h; exact Or.inr (open_of_quiet rfl rfl rfl hs.pending)
  | requestEnded k =>
    obtain ⟨screen, -, rfl⟩ := Option.map_eq_some_iff.mp h
    exact Or.inr (open_of_quiet rfl hs.current rfl hs.pending)
  | refreshed permissions =>
    obtain ⟨-, hstep⟩ := Option.ite_none_left_eq_some.mp h
    cases hstep
    exact Or.inr (open_of_quiet rfl (by simp [hs.current]) rfl hs.pending)
  | validated k actualID =>
    obtain ⟨r, hr, -⟩ := Option.map_eq_some_iff.mp h
    rw [hs.pending] at hr
    cases hr
  | completed k parameters =>
    obtain ⟨screen, -, rfl⟩ := Option.map_eq_some_iff.mp h
    rw [@completeAuthentication_of_none { s with dialogs := s.dialogs.eraseIdx k } hs.current]
    cases htoken : parameters.token? with
    | none => exact Or.inr (open_of_quiet htoken hs.current rfl hs.pending)
    | some token =>
      have hbrought : broughtToken (.completed k parameters) = some token := htoken
      have hleaves : LeavesToken (.completed k parameters) ↔
          token.permissions ≠ ∅ ∧ "email" ∉ token.permissions := by
        unfold LeavesToken
        simp [hbrought]
      rw [hleaves]
      dsimp only
      by_cases hemail : "email" ∈ token.permissions
      · rw [if_pos hemail]
        refine Or.inr ⟨fun hnot => hnot.2 hemail, ⟨hs.current, ?_⟩, hs.current, hs.pending⟩
        rw [hbrought, Option.filter_some, if_pos (decide_eq_true hemail)]
        rfl
      · rw [if_neg hemail]
        by_cases hgranted : token.permissions = ∅
        · rw [if_pos hgranted]
          refine Or.inr ⟨fun hnot => hnot.1 hgranted, ⟨hs.current, ?_⟩, hs.current, hs.pending⟩
          simp [hbrought, hemail]
        · rw [if_neg hgranted]
          exact Or.inl ⟨⟨hgranted, hemail⟩, nofun⟩

/-- **Logged out.**  Along every run of logins, each of which may be interleaved with the others,
    the app stays logged out of Facebook and asks for the profiles of exactly the logins that
    grant the e-mail, if and only if no login goes through that grants something, but not the
    e-mail. -/
theorem loggedOut_along_iff (es : List FacebookLoginEvent) :
    Along FacebookLogin.step LoggedOut {} es ↔
      Along FacebookLogin.step (fun _ e _ => ¬ LeavesToken e) {} es := by
  apply along_iff_along (I := Open)
  · intro s e s' hs hstep
    rcases hs.step hstep with ⟨hleaves, hcurrent⟩ | ⟨hnot, hout, -⟩
    · exact iff_of_false (fun hout => hcurrent hout.1) (fun hnot => hnot hleaves)
    · exact iff_of_true hout hnot
  · intro s e s' hs hstep hout
    rcases hs.step hstep with ⟨-, hcurrent⟩ | ⟨-, -, hopen⟩
    · exact absurd hout.1 hcurrent
    · exact hopen
  · exact ⟨rfl, rfl⟩

end FacebookLogin

end ChildLearning
