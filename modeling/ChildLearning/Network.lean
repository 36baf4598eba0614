import ChildLearning.Accounts

namespace ChildLearning

open Transition

/-!
# The network of account screens

The state is the `User` node and all screens that were ever opened on it; `step` runs
one event.  Every write is taken to be accepted and applied at once; `PendingWrites` and
`SyncedPhones` are about writes that are not.  Everything the account claims need to know
about a step is in two lemmas: `step_node` (what is written) and `step_screens` (how a
screen's list grows).
-/

/-- The `User` node and the screens opened on it, on any device. -/
structure Network where
  node : List Record
  screens : List AccountScreen

/-- One event on one screen, given by its number; `key` is what `childByAutoId`
    returns. -/
inductive NetEvent where
  /-- A screen is opened and starts observing. -/
  | opened (kind : ScreenKind)
  /-- The observer of screen `i` receives the records at these positions. -/
  | deliver (i : ℕ) (positions : List ℕ)
  /-- `SignUpViewController.signUpcClicked(_:)`. -/
  | signUpcClicked (i : ℕ) (key : String) (txtFName txtFEmail txtFPassword : Option String)
  /-- The Facebook profile arrives at `LoginViewController.getFBUserData()`. -/
  | facebookResult (i : ℕ) (key : String) (profile : FbProfile)
  /-- `LoginViewController.loginClicked(_:)`. -/
  | loginClicked (i : ℕ) (txtFEmail txtFPassword : Option String)

namespace Network

/-- No screen is open yet. -/
def launch (node : List Record) : Network := ⟨node, []⟩

/-- The records at the given positions of the node. -/
def select (node : List Record) (positions : List ℕ) : List Record :=
  positions.filterMap fun j => node[j]?

/-- Screen `i`, when it is of this class. -/
def screen (s : Network) (kind : ScreenKind) (i : ℕ) : Option AccountScreen :=
  s.screens[i]?.filter fun scr => scr.kind = kind

/-- `ref.child("User").childByAutoId().setValue(data)`: the key is fresh, and the write is
    applied. -/
def setValue (s : Network) (r : Record) : Option Network :=
  if r.key ∈ s.node.map Record.key then none else some { s with node := s.node ++ [r] }

/-- One event. -/
def step (s : Network) : NetEvent → Option Network
  | .opened kind => some { s with screens := s.screens ++ [.opened kind] }
  | .deliver i positions =>
    s.screens[i]?.bind fun scr =>
      (scr.observe (select s.node positions)).map fun scr' =>
        { s with screens := s.screens.set i scr' }
  | .signUpcClicked i key txtFName txtFEmail txtFPassword =>
    (s.screen .signUp i).bind fun scr =>
      -- check and write are one event on the screen's own list, whatever the node holds
      match (SignUpViewController.signUpcClicked scr.users txtFName txtFEmail txtFPassword).written with
      | some _ => s.setValue
          (.ofSignUp key (txtFName.getD "") (txtFEmail.getD "") (txtFPassword.getD ""))
      | none   => some s
  | .facebookResult i key profile =>
    (s.screen .login i).bind fun scr =>
      match (LoginViewController.getFBUserData scr.users profile.email profile.name).written with
      | some _ => s.setValue (.ofFacebook key profile)
      | none   => some s
  | .loginClicked i _ _ => (s.screen .login i).map fun _ => s

end Network

/-- What an event may register: the screen it acts on, the e-mail it checks and the
    record it writes when the e-mail is not on the screen's list. -/
def NetEvent.registration : NetEvent → Option (ℕ × String × Record)
  | .signUpcClicked i key txtFName txtFEmail txtFPassword =>
    if SignUpViewController.formAccepted txtFName txtFEmail txtFPassword then
      some (i, txtFEmail.getD "",
        .ofSignUp key (txtFName.getD "") (txtFEmail.getD "") (txtFPassword.getD ""))
    else none
  | .facebookResult i key profile => some (i, profile.email.getD "", .ofFacebook key profile)
  | _ => none

/-- **The two registrations.** A sign-up whose form is accepted, or a Facebook sign-in. -/
theorem NetEvent.registration_cases {e : NetEvent} {i : ℕ} {email : String} {r : Record}
    (h : e.registration = some (i, email, r)) :
    (∃ key txtFName txtFEmail txtFPassword,
      e = .signUpcClicked i key txtFName txtFEmail txtFPassword ∧
      SignUpViewController.formAccepted txtFName txtFEmail txtFPassword = true ∧
      email = txtFEmail.getD "" ∧
      r = .ofSignUp key (txtFName.getD "") (txtFEmail.getD "") (txtFPassword.getD "")) ∨
    (∃ key profile, e = .facebookResult i key profile ∧ email = profile.email.getD "" ∧
      r = .ofFacebook key profile) := by
  cases e with
  | signUpcClicked j key txtFName txtFEmail txtFPassword =>
    obtain ⟨hform, hreg⟩ := Option.ite_none_right_eq_some.mp h
    cases hreg
    exact Or.inl ⟨_, _, _, _, rfl, hform, rfl, rfl⟩
  | facebookResult j key profile =>
    cases h
    exact Or.inr ⟨_, _, rfl, rfl, rfl⟩
  | opened => cases h
  | deliver => cases h
  | loginClicked => cases h

/-- The record to be written has the e-mail that was checked. -/
theorem NetEvent.email_of_registration {e : NetEvent} {i : ℕ} {email : String} {r : Record}
    (h : e.registration = some (i, email, r)) : r.email = some email := by
  rcases registration_cases h with ⟨_, _, _, _, -, -, rfl, rfl⟩ | ⟨_, _, -, rfl, rfl⟩
  · rfl
  · rfl

namespace Network

variable {s s' : Network} {e : NetEvent}

theorem screen_eq_some {kind : ScreenKind} {i : ℕ} {scr : AccountScreen}
    (h : s.screen kind i = some scr) : s.screens[i]? = some scr ∧ scr.kind = kind := by
  obtain ⟨hscr, hkind⟩ := Option.filter_eq_some_iff.mp h
  exact ⟨hscr, by simpa using hkind⟩

theorem setValue_eq_some {r : Record} (h : s.setValue r = some s') :
    s'.node = s.node ++ [r] ∧ s'.screens = s.screens ∧ r.key ∉ s.node.map Record.key := by
  unfold setValue at h
  split at h
  case isTrue => cases h
  case isFalse hkey => cases h; exact ⟨rfl, rfl, hkey⟩

/-- A registration is decided by the screen's list alone. -/
theorem step_of_registration {i : ℕ} {email : String} {r : Record}
    (h : e.registration = some (i, email, r)) :
    ∃ kind, step s e = (s.screen kind i).bind fun scr =>
      if isRegistered scr.users email = true then some s else s.setValue r := by
  rcases NetEvent.registration_cases h with
    ⟨key, txtFName, txtFEmail, txtFPassword, rfl, hform, rfl, rfl⟩ | ⟨key, profile, rfl, rfl, rfl⟩
  -- either handler writes exactly when its screen's list does not have the e-mail
  · refine ⟨.signUp, congrArg (s.screen .signUp i).bind (funext fun scr => ?_)⟩
    rw [SignUpViewController.signUpcClicked_written]
    by_cases hreg : isRegistered scr.users (txtFEmail.getD "") = true
    · simp [hreg]
    · simp [hform, hreg]
  · refine ⟨.login, congrArg (s.screen .login i).bind (funext fun scr => ?_)⟩
    rw [LoginViewController.getFBUserData, LoginViewController.signupObserverFirebase_written]
    by_cases hreg : isRegistered scr.users (profile.email.getD "") = true
    · simp [hreg]
    · simp [hreg]

/-- An event that registers nothing leaves the node alone. -/
theorem node_of_registration_none (hnone : e.registration = none) (h : step s e = some s') :
    s'.node = s.node := by
  cases e with
  | opened kind => cases h; rfl
  | deliver i positions =>
    obtain ⟨scr, -, hscr⟩ := Option.bind_eq_some_iff.mp h
    obtain ⟨scr', -, rfl⟩ := Option.map_eq_some_iff.mp hscr
    rfl
  | loginClicked i txtFEmail txtFPassword =>
    obtain ⟨scr, -, rfl⟩ := Option.map_eq_some_iff.mp h
    rfl
  | signUpcClicked i key txtFName txtFEmail txtFPassword =>
    -- the form did not pass its checks
    have hform : SignUpViewController.formAccepted txtFName txtFEmail txtFPassword ≠ true := by
      intro hform
      simp [NetEvent.registration, hform] at hnone
    obtain ⟨scr, -, hstep⟩ := Option.bind_eq_some_iff.mp h
    rw [SignUpViewController.signUpcClicked_written, if_neg fun h => hform h.1] at hstep
    cases hstep
    rfl
  | facebookResult i key profile => cases hnone

/-- **What a step writes.**  Either nothing, and then the e-mail checked, if any, was on
    the screen's list; or the event's record, and then it was not. -/
theorem step_node (h : step s e = some s') :
    (s'.node = s.node ∧ ∀ i email r scr, e.registration = some (i, email, r) →
        s.screens[i]? = some scr → isRegistered scr.users email = true) ∨
    (∃ i email r scr, e.registration = some (i, email, r) ∧ s.screens[i]? = some scr ∧
        isRegistered scr.users email = false ∧ s'.node = s.node ++ [r]) := by
  cases hreg : e.registration with
  | none => exact Or.inl ⟨node_of_registration_none hreg h, nofun⟩
  | some registration =>
    obtain ⟨i, email, r⟩ := registration
    obtain ⟨kind, hstep⟩ := @step_of_registration s e i email r hreg
    rw [hstep] at h
    obtain ⟨scr, hscr, hdecide⟩ := Option.bind_eq_some_iff.mp h
    obtain ⟨hget, -⟩ := screen_eq_some hscr
    by_cases hknown : isRegistered scr.users email = true
    · rw [if_pos hknown] at hdecide
      cases hdecide
      refine Or.inl ⟨rfl, ?_⟩
      intro i' email' r' scr' hevent hget'
      cases hevent
      rw [hget] at hget'
      cases hget'
      exact hknown
    · rw [if_neg hknown] at hdecide
      refine Or.inr ⟨i, email, r, scr, rfl, hget, ?_, (setValue_eq_some hdecide).1⟩
      exact Bool.eq_false_iff.mpr hknown

/-- **How the screens change.**  A screen after a step was there before, has just been
    opened, or has received records of the node. -/
theorem step_screens (h : step s e = some s') {scr' : AccountScreen} (hscr' : scr' ∈ s'.screens) :
    scr' ∈ s.screens ∨ (∃ kind, scr' = .opened kind) ∨
      ∃ scr ∈ s.screens, ∃ snapshot, (∀ r ∈ snapshot, r ∈ s.node) ∧
        scr'.kind = scr.kind ∧ scr'.received = scr.received ++ [snapshot] := by
  cases e with
  | opened kind =>
    cases h
    rcases List.mem_append.mp hscr' with hold | hnew
    · exact Or.inl hold
    · exact Or.inr (Or.inl ⟨kind, List.mem_singleton.mp hnew⟩)
  | deliver i positions =>
    obtain ⟨scr, hget, hscr⟩ := Option.bind_eq_some_iff.mp h
    obtain ⟨scr₁, hobs, rfl⟩ := Option.map_eq_some_iff.mp hscr
    rcases List.mem_or_eq_of_mem_set hscr' with hold | rfl
    · exact Or.inl hold
    · -- the screen that observed: what it received was selected from the node
      refine Or.inr (Or.inr ⟨scr, List.mem_of_getElem? hget, select s.node positions, ?_,
        AccountScreen.observe_eq_some hobs⟩)
      intro r hr
      obtain ⟨j, -, hj⟩ := List.mem_filterMap.mp hr
      exact List.mem_of_getElem? hj
  | loginClicked i txtFEmail txtFPassword =>
    obtain ⟨scr, -, rfl⟩ := Option.map_eq_some_iff.mp h
    exact Or.inl hscr'
  | signUpcClicked i key txtFName txtFEmail txtFPassword =>
    obtain ⟨scr, -, hstep⟩ := Option.bind_eq_some_iff.mp h
    split at hstep
    · rw [(setValue_eq_some hstep).2.1] at hscr'; exact Or.inl hscr'
    · cases hstep; exact Or.inl hscr'
  | facebookResult i key profile =>
    obtain ⟨scr, -, hstep⟩ := Option.bind_eq_some_iff.mp h
    split at hstep
    · rw [(setValue_eq_some hstep).2.1] at hscr'; exact Or.inl hscr'
    · cases hstep; exact Or.inl hscr'

/-! ### What every history keeps -/

/-- A step keeps all records. -/
theorem node_subset_of_step (h : step s e = some s') {r : Record} (hr : r ∈ s.node) :
    r ∈ s'.node := by
  rcases step_node h with ⟨hnode, -⟩ | ⟨_, _, _, _, -, -, -, hnode⟩
  · rw [hnode]; exact hr
  · rw [hnode]; exact List.mem_append_left _ hr

/-- Screens hold records of the node only. -/
def ReceivedFromNode (s : Network) : Prop := ∀ scr ∈ s.screens, ∀ r ∈ scr.records, r ∈ s.node

theorem receivedFromNode_launch (node : List Record) : (launch node).ReceivedFromNode := nofun

theorem ReceivedFromNode.step (hs : s.ReceivedFromNode) (h : step s e = some s') :
    s'.ReceivedFromNode := by
  intro scr' hscr' r hr
  rcases step_screens h hscr' with hold | ⟨kind, rfl⟩ | ⟨scr, hscr, snapshot, hsnap, -, hrec⟩
  · exact node_subset_of_step h (hs scr' hold r hr)
  · simp [AccountScreen.records, AccountScreen.opened] at hr
  · rw [AccountScreen.records, hrec, List.flatten_append, List.mem_append] at hr
    rcases hr with hbefore | hnew
    · exact node_subset_of_step h (hs scr hscr r hbefore)
    · exact node_subset_of_step h (hsnap r (by simpa using hnew))

end Network

end ChildLearning
