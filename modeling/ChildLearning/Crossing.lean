import Mathlib.Data.Set.Defs
import ChildLearning.Network

namespace ChildLearning

open Transition Network

/-!
# Password accounts and Facebook accounts

The origin of a record is not stored: the Facebook path writes the password "facebook"
and later takes every record with that password for its own.  `noCross_iff` says along which
histories the two kinds of accounts are kept apart, and which passwords do so along all of
them: exactly those sets of sign-up and of login passwords that do not contain "facebook".
-/

/-- A password login opens Home only through a record that a sign-up created with this
    e-mail and exactly this password; a Facebook sign-in opens Home through an existing
    record only if a Facebook sign-in created it. -/
def NoCross (s : Network) : NetEvent → Prop
  | .loginClicked i txtFEmail txtFPassword => ∀ scr stored, s.screen .login i = some scr →
      LoginViewController.loginClicked scr.users txtFEmail txtFPassword = .openHome stored →
      ∃ r name, scr.matchedRecord (txtFEmail.getD "") = some r ∧
        r.origin = .signUp name (txtFEmail.getD "") (txtFPassword.getD "")
  | .facebookResult i _ profile => ∀ scr stored, s.screen .login i = some scr →
      LoginViewController.getFBUserData scr.users profile.email profile.name = .openHome stored →
      ∃ r creator, scr.matchedRecord (profile.email.getD "") = some r ∧
        r.origin = .facebook creator
  | _ => True

/-- No login with the password "facebook", whose form passes, meets a record that a Facebook
    sign-in created; and no Facebook sign-in meets one of a sign-up with this password. -/
def KeptApart (s : Network) : NetEvent → Prop
  | .loginClicked i txtFEmail txtFPassword => ∀ scr r creator, s.screen .login i = some scr →
      scr.matchedRecord (txtFEmail.getD "") = some r → r.origin = .facebook creator →
      LoginViewController.formAccepted txtFEmail txtFPassword = true →
      txtFPassword.getD "" ≠ "facebook"
  | .facebookResult i _ profile => ∀ scr r name email, s.screen .login i = some scr →
      scr.matchedRecord (profile.email.getD "") = some r → r.origin ≠ .signUp name email "facebook"
  | _ => True

/-- The password typed in the event is in `P` at a sign-up and in `Q` at a login. -/
def TypedIn (P Q : Set String) : NetEvent → Prop
  | .signUpcClicked _ _ _ _ txtFPassword => txtFPassword.getD "" ∈ P
  | .loginClicked _ _ txtFPassword       => txtFPassword.getD "" ∈ Q
  | _                                    => True

/-- The record was created in this history; if by a sign-up, with a password in `P`. -/
def CreatedWith (P : Set String) (r : Record) : Prop :=
  (∃ name email password, r.origin = .signUp name email password ∧ password ∈ P) ∨
    ∃ profile, r.origin = .facebook profile

/-- The invariant: screens hold records of the node, all created in this history. -/
def OriginsKnown (P : Set String) (s : Network) : Prop :=
  s.ReceivedFromNode ∧ ∀ r ∈ s.node, CreatedWith P r

variable {P Q : Set String} {s s' : Network} {e : NetEvent}

/-- A record written by an event whose password is in `P`. -/
theorem createdWith_of_registration {i : ℕ} {email : String} {r : Record} (he : TypedIn P Q e)
    (h : e.registration = some (i, email, r)) : CreatedWith P r := by
  rcases NetEvent.registration_cases h with ⟨_, _, _, _, rfl, -, -, rfl⟩ | ⟨_, _, rfl, -, rfl⟩
  · exact Or.inl ⟨_, _, _, rfl, he⟩
  · exact Or.inr ⟨_, rfl⟩

theorem OriginsKnown.step (hs : OriginsKnown P s) (he : TypedIn P Q e)
    (h : step s e = some s') : OriginsKnown P s' := by
  refine ⟨hs.1.step h, fun r hr => ?_⟩
  rcases step_node h with ⟨hnode, -⟩ | ⟨_, _, r', _, hreg, -, -, hnode⟩
  · exact hs.2 r (hnode ▸ hr)
  · rw [hnode, List.mem_append, List.mem_singleton] at hr
    rcases hr with hold | rfl
    · exact hs.2 r hold
    · exact createdWith_of_registration he hreg

/-- In an invariant state the record behind a lookup was created in this history, and
    the entry picked is its decoding. -/
theorem exists_createdWith (hs : OriginsKnown P s) {kind : ScreenKind} {i : ℕ}
    {scr : AccountScreen} (hscr : s.screen kind i = some scr) {email : String} {user : Users}
    (hu : singleUser scr.users email = some user) :
    ∃ r, scr.matchedRecord email = some r ∧ r.account = some user ∧ CreatedWith P r := by
  obtain ⟨r, hr, hacc⟩ := AccountScreen.exists_matchedRecord hu
  have hmem : scr ∈ s.screens := List.mem_of_getElem? (screen_eq_some hscr).1
  have hnode : r ∈ s.node := hs.1 scr hmem r (AccountScreen.matchedRecord_spec hr).1
  exact ⟨r, hr, hacc, hs.2 r hnode⟩

/-- The step lemma: what opens Home through a record of the other kind is the password. -/
theorem noCross_iff_keptApart (hs : OriginsKnown P s) : NoCross s e ↔ KeptApart s e := by
  cases e with
  | loginClicked i txtFEmail txtFPassword =>
    constructor
    · -- with the password of a Facebook record, `fetchLogin` opens it
      intro hno scr r creator hscr hr ho hform hpw
      have hu := scr.singleUser_eq_matchedRecord (txtFEmail.getD "")
      rw [hr, Option.bind_some, Record.account_of_facebook ho] at hu
      have hopen := LoginViewController.loginClicked_eq_openHome.mpr
        ⟨hform, LoginViewController.fetchLogin_eq_openHome.mpr ⟨_, hu, hpw.symm, rfl⟩⟩
      obtain ⟨r', name, hr', ho'⟩ := hno scr _ hscr hopen
      rw [hr] at hr'
      cases hr'
      rw [ho] at ho'
      cases ho'
    · intro hkept scr stored hscr hopen
      obtain ⟨hform, hfetch⟩ := LoginViewController.loginClicked_eq_openHome.mp hopen
      obtain ⟨user, hu, hpw, -⟩ := LoginViewController.fetchLogin_eq_openHome.mp hfetch
      obtain ⟨r, hr, hacc, ⟨name, email, password, ho, -⟩ | ⟨creator, ho⟩⟩ :=
        exists_createdWith hs hscr hu
      · -- the entry decodes the texts of the sign-up, and its password was typed
        rw [Record.account_of_signUp ho] at hacc
        cases hacc
        exact ⟨r, name, hr, by rw [ho, ← (singleUser_eq_some hu).2, ← hpw]⟩
      · -- a Facebook record holds the password "facebook"
        rw [Record.account_of_facebook ho] at hacc
        cases hacc
        exact absurd hpw.symm (hkept scr r creator hscr hr ho hform)
  | facebookResult i key profile =>
    constructor
    · intro hno scr r name email hscr hr ho
      have hu := scr.singleUser_eq_matchedRecord (profile.email.getD "")
      rw [hr, Option.bind_some, Record.account_of_signUp ho] at hu
      obtain ⟨r', creator, hr', ho'⟩ := hno scr _ hscr
        (LoginViewController.signupObserverFirebase_eq_openHome.mpr ⟨_, hu, rfl, rfl⟩)
      rw [hr] at hr'
      cases hr'
      rw [ho] at ho'
      cases ho'
    · intro hkept scr stored hscr hopen
      obtain ⟨user, hu, hpw, -⟩ := LoginViewController.signupObserverFirebase_eq_openHome.mp hopen
      obtain ⟨r, hr, hacc, ⟨name, email, password, ho, -⟩ | ⟨creator, ho⟩⟩ :=
        exists_createdWith hs hscr hu
      · -- the Facebook path took a sign-up record for its own: its password is "facebook"
        rw [Record.account_of_signUp ho] at hacc
        cases hacc
        have hfb : password = "facebook" := hpw
        exact absurd (hfb ▸ ho) (hkept scr r name email hscr hr)
      · exact ⟨r, creator, hr, ho⟩
  | opened => exact Iff.rfl
  | deliver => exact Iff.rfl
  | signUpcClicked => exact Iff.rfl

/-- Where nobody types "facebook", the accounts are kept apart. -/
theorem keptApart_of_originsKnown (hP : "facebook" ∉ P) (hQ : "facebook" ∉ Q)
    (hs : OriginsKnown P s) (he : TypedIn P Q e) : KeptApart s e := by
  cases e with
  | loginClicked i txtFEmail txtFPassword =>
    intro scr r creator _ _ _ _ hpw
    exact hQ (hpw ▸ he)
  | facebookResult i key profile =>
    intro scr r name email hscr hr ho
    have hmem : scr ∈ s.screens := List.mem_of_getElem? (screen_eq_some hscr).1
    rcases hs.2 r (hs.1 scr hmem r (AccountScreen.matchedRecord_spec hr).1) with
      ⟨_, _, password, ho', hin⟩ | ⟨creator, ho'⟩
    · rw [ho] at ho'
      cases ho'
      exact hP hin
    · rw [ho] at ho'
      cases ho'
  | opened => trivial
  | deliver => trivial
  | signUpcClicked => trivial

/-! ### The password "facebook" -/

/-- Ann signs up with the password "facebook"; then Facebook signs in with her e-mail. -/
def facebookAtSignUp : List NetEvent :=
  [.opened .signUp,
    .signUpcClicked 0 "-M1" (some "Ann") (some "ann@mail.co") (some "facebook"),
    .opened .login, .deliver 1 [0], .facebookResult 1 "-M2" ⟨"7", some "ann@mail.co", some "Eve"⟩]

/-- Ann signs in with Facebook; then somebody logs in with her e-mail and "facebook". -/
def facebookAtLogin : List NetEvent :=
  [.opened .login, .facebookResult 0 "-M1" ⟨"7", some "ann@mail.co", some "Ann"⟩,
    .deliver 0 [0], .loginClicked 0 (some "ann@mail.co") (some "facebook")]

private theorem facebookAtSignUp_crosses :
    ¬ Along step (fun s e _ => NoCross s e) (launch []) facebookAtSignUp := by
  intro h
  have hlast := along_last facebookAtSignUp.dropLast h rfl rfl
  obtain ⟨r, creator, hr, ho⟩ := hlast _ "Ann" rfl rfl
  cases hr
  cases ho

private theorem facebookAtLogin_crosses :
    ¬ Along step (fun s e _ => NoCross s e) (launch []) facebookAtLogin := by
  intro h
  have hlast := along_last facebookAtLogin.dropLast h rfl rfl
  obtain ⟨r, name, hr, ho⟩ := hlast _ "Ann" rfl rfl
  cases hr
  cases ho

/-- **No crossing.** No step of a history crosses exactly when every step keeps the accounts
    apart.  And for any sets `P` of sign-up passwords and `Q` of login passwords: no history
    with these passwords crosses exactly when neither set has "facebook". -/
theorem noCross_iff (es : List NetEvent) (P Q : Set String) :
    (Along step (fun s e _ => NoCross s e) (launch []) es ↔
      Along step (fun s e _ => KeptApart s e) (launch []) es) ∧
    ((∀ es, (∀ e ∈ es, TypedIn P Q e) → Along step (fun s e _ => NoCross s e) (launch []) es) ↔
      "facebook" ∉ P ∧ "facebook" ∉ Q) := by
  have hlaunch : ∀ P, OriginsKnown P (launch []) := fun P => ⟨receivedFromNode_launch [], nofun⟩
  refine ⟨?_, fun h => ?_, ?_⟩
  · have htyped : ∀ e, TypedIn Set.univ Set.univ e := fun e => by
      cases e <;> trivial
    exact along_iff_along (I := OriginsKnown Set.univ)
      (fun s e s' hs _ => noCross_iff_keptApart hs)
      (fun s e s' hs hstep _ => hs.step (htyped e) hstep) (hlaunch Set.univ) es
  · -- a set with "facebook" admits one of the two histories above
    refine ⟨fun hP => facebookAtSignUp_crosses (h _ ?_), fun hQ => facebookAtLogin_crosses (h _ ?_)⟩
    · simpa [facebookAtSignUp, TypedIn] using hP
    · simpa [facebookAtLogin, TypedIn] using hQ
  · rintro ⟨hP, hQ⟩ es hes
    refine along_of_invariant (I := OriginsKnown P) ?_ (hlaunch P) hes
    exact fun s e s' hs he hstep =>
      ⟨(noCross_iff_keptApart hs).mpr (keptApart_of_originsKnown hP hQ hs he), hs.step he hstep⟩

/-- Both ways to cross happen. -/
theorem facebookPassword_crosses :
    ¬ Along step (fun s e _ => NoCross s e) (launch []) facebookAtSignUp ∧
      ¬ Along step (fun s e _ => NoCross s e) (launch []) facebookAtLogin :=
  ⟨facebookAtSignUp_crosses, facebookAtLogin_crosses⟩

end ChildLearning
