import ChildLearning.AccountDirectory
import ChildLearning.PendingWrites
import ChildLearning.NavigationBar

namespace ChildLearning

open Transition Network

/-!
# All phones together

The sessions know of the `User` node only that snapshots arrive, and the network knows of the
screens neither on which phone they are nor what they open.  Here both run together: any number
of phones, each with its session, over one node.  `network_of_run` says that the screens of all
phones, numbered in the order in which they were opened, are a network over the same node, so
that what is proved of networks is true of phones.  As there, every write is accepted and
applied; `SyncedPhones` has the phones whose writes are still on their way, or rejected.
-/

/-! ### Phones over one node -/

/-- The sessions of all phones, and the `User` node that they share. -/
structure Phones where
  node : List Record
  phones : List Session

/-- One event on phone `p`. -/
inductive PhoneEvent where
  /-- An event of its session; `key` is what `childByAutoId` returns if it registers. -/
  | session (p : ℕ) (key : String) (e : SessionEvent)
  /-- The observer of its account screen `i` receives the records at these positions. -/
  | observed (p i : ℕ) (positions : List ℕ)
  /-- The app is terminated and started again. -/
  | relaunch (p : ℕ)

namespace Session

/-- The record that an event writes under this key, if it registers. -/
def record (s : Session) (key : String) (e : SessionEvent) : Option Record :=
  ((s.handled e).bind fun decision => decision.2.written).bind fun _ =>
    match e with
    | .signUpcClicked txtFName txtFEmail txtFPassword =>
      some (.ofSignUp key (txtFName.getD "") (txtFEmail.getD "") (txtFPassword.getD ""))
    | .facebookResult _ (some profile) => some (.ofFacebook key profile)
    | _ => none

/-- The list of the account screen that an event is decided on. -/
def deciding (s : Session) : SessionEvent → Option (List Users)
  | .loginClicked _ _ =>
    match s.nav.top with
    | .login i => s.screens[i]?
    | _ => none
  | .signUpcClicked _ _ _ =>
    match s.nav.top with
    | .signUp i => s.screens[i]?
    | _ => none
  | .facebookResult i (some _) => s.screens[i]?
  | _ => none

/-- The name that an event stores under "username", if it stores one. -/
def storedName (s : Session) (e : SessionEvent) : Option String :=
  (s.handled e).bind fun decision => decision.2.storedName

end Session

/-- The event is a snapshot of the `User` node. -/
def SessionEvent.isObserved : SessionEvent → Bool
  | .observed _ _ => true
  | _             => false

/-- The class of the account screen that the event opens. -/
def SessionEvent.opens : SessionEvent → Option ScreenKind
  | .openLogin  => some .login
  | .openSignUp => some .signUp
  | _           => none

namespace Phones

/-- This many phones without a stored name, over an empty node. -/
def launch (n : ℕ) : Phones := ⟨[], List.replicate n .launch⟩

/-- One event. -/
def step (s : Phones) : PhoneEvent → Option Phones
  | .session p key e =>
    -- snapshots come from the node that the phones share
    if e.isObserved then none
    else s.phones[p]?.bind fun phone => (phone.step e).bind fun phone' =>
      match phone.record key e with
      | some r =>
        if r.key ∈ s.node.map Record.key then none
        else some ⟨s.node ++ [r], s.phones.set p phone'⟩
      | none => some { s with phones := s.phones.set p phone' }
  | .observed p i positions => s.phones[p]?.bind fun phone =>
    (phone.step (.observed i (nodeSnapshot (select s.node positions)))).map fun phone' =>
      { s with phones := s.phones.set p phone' }
  | .relaunch p => s.phones[p]?.map fun phone =>
    { s with phones := s.phones.set p phone.relaunch }

/-- The name that an event stores under "username" on its phone, if it stores one. -/
def storedName (s : Phones) : PhoneEvent → Option String
  | .session p _ e => s.phones[p]?.bind fun phone => phone.storedName e
  | _              => none

end Phones

/-- **What a session does to the phones**: its phone makes the step, and writes its record, if there
    is one, under a key that is not in use. -/
theorem Phones.session_eq_some {s s' : Phones} {p : ℕ} {key : String} {e : SessionEvent}
    (h : s.step (.session p key e) = some s') :
    e.isObserved = false ∧ ∃ phone phone', s.phones[p]? = some phone ∧ phone.step e = some phone' ∧
      (∀ r, phone.record key e = some r → r.key ∉ s.node.map Record.key) ∧
      s' = ⟨s.node ++ (phone.record key e).toList, s.phones.set p phone'⟩ := by
  obtain ⟨hobserved, hbind⟩ := Option.ite_none_left_eq_some.mp h
  obtain ⟨phone, hphone, hbind⟩ := Option.bind_eq_some_iff.mp hbind
  obtain ⟨phone', hstep, hwrite⟩ := Option.bind_eq_some_iff.mp hbind
  refine ⟨Bool.not_eq_true _ ▸ hobserved, phone, phone', hphone, hstep, ?_⟩
  cases hrecord : phone.record key e with
  | none =>
    rw [hrecord] at hwrite
    cases hwrite
    exact ⟨nofun, by simp⟩
  | some r =>
    rw [hrecord] at hwrite
    obtain ⟨hkey, hs'⟩ := Option.ite_none_left_eq_some.mp hwrite
    cases hs'
    exact ⟨fun r' hr' => Option.some.inj hr' ▸ hkey, rfl⟩

/-! ### The screens of a session -/

/-- The decision of an account screen as an event of a network in which the screen has the
    number `k`. -/
def SessionEvent.atScreen (k : ℕ) (key : String) : SessionEvent → Option NetEvent
  | .signUpcClicked txtFName txtFEmail txtFPassword =>
    some (.signUpcClicked k key txtFName txtFEmail txtFPassword)
  | .facebookResult _ (some profile) => some (.facebookResult k key profile)
  | .loginClicked txtFEmail txtFPassword => some (.loginClicked k txtFEmail txtFPassword)
  | _ => none

/-- What the event asks the directory of accounts. -/
def PhoneEvent.request : PhoneEvent → Option (Directory.Request String String String)
  | .session _ key e => (e.atScreen 0 key).bind NetEvent.request
  | _                => none

namespace Session

/-- Account screen `i` is on the stack, or waits for a Facebook result, as one of this class. -/
def Uses (s : Session) : ScreenKind → ℕ → Prop
  | .login, i  => .login i ∈ s.nav.viewControllers ∨ i ∈ s.facebookPending
  | .signUp, i => .signUp i ∈ s.nav.viewControllers

variable {s s' : Session} {e : SessionEvent}

theorem uses_login_of_top {i : ℕ} (h : s.nav.top = .login i) : s.Uses .login i :=
  Or.inl (h ▸ s.nav.top_mem)

theorem uses_signUp_of_top {i : ℕ} (h : s.nav.top = .signUp i) : s.Uses .signUp i := by
  show .signUp i ∈ s.nav.viewControllers
  exact h ▸ s.nav.top_mem

/-- With fewer screens on the stack and fewer results to come, fewer are in use. -/
theorem Uses.mono {kind : ScreenKind} {i : ℕ} (h : s'.Uses kind i)
    (hnav : ∀ c, c.isAccount = true → c ∈ s'.nav.viewControllers → c ∈ s.nav.viewControllers)
    (hpending : ∀ j ∈ s'.facebookPending, s.Uses .login j) : s.Uses kind i := by
  cases kind with
  | login =>
    rcases h with hmem | hmem
    · exact Or.inl (hnav _ rfl hmem)
    · exact hpending i hmem
  | signUp => exact hnav _ rfl h

/-- Pushing another screen puts none in use. -/
theorem Uses.of_push {kind : ScreenKind} {i : ℕ} {c : Controller} (h : s'.Uses kind i)
    (hnav : s'.nav = s.nav.push c) (hc : c.isAccount = false)
    (hpending : ∀ j ∈ s'.facebookPending, j ∈ s.facebookPending) : s.Uses kind i := by
  refine h.mono (fun d hd hmem => ?_) fun j hj => Or.inr (hpending j hj)
  rw [hnav] at hmem
  rcases NavStack.mem_viewControllers_push.mp hmem with rfl | hold
  · rw [hc] at hd
    cases hd
  · exact hold

/-- Only the start screen opens account screens, a new one each time. -/
theorem screens_of_opens {kind : ScreenKind} (he : e.opens = some kind) (h : s.step e = some s') :
    s'.screens = s.screens ++ [[]] ∧
      ∀ kind' i, s'.Uses kind' i → s.Uses kind' i ∨ kind' = kind ∧ i = s.screens.length := by
  cases e with
  | openLogin =>
    cases he
    obtain ⟨-, hs⟩ := Option.ite_none_right_eq_some.mp h
    cases hs
    refine ⟨rfl, fun kind' i huses => ?_⟩
    cases kind' with
    | login =>
      rcases huses with hmem | hpending
      · rcases NavStack.mem_viewControllers_push.mp hmem with hnew | hold
        · exact Or.inr ⟨rfl, Controller.login.inj hnew⟩
        · exact Or.inl (Or.inl hold)
      · exact Or.inl (Or.inr hpending)
    | signUp =>
      rcases NavStack.mem_viewControllers_push.mp huses with hnew | hold
      · cases hnew
      · exact Or.inl hold
  | openSignUp =>
    cases he
    obtain ⟨-, hs⟩ := Option.ite_none_right_eq_some.mp h
    cases hs
    refine ⟨rfl, fun kind' i huses => ?_⟩
    cases kind' with
    | login =>
      rcases huses with hmem | hpending
      · rcases NavStack.mem_viewControllers_push.mp hmem with hnew | hold
        · cases hnew
        · exact Or.inl (Or.inl hold)
      · exact Or.inl (Or.inr hpending)
    | signUp =>
      rcases NavStack.mem_viewControllers_push.mp huses with hnew | hold
      · exact Or.inr ⟨rfl, Controller.signUp.inj hnew⟩
      · exact Or.inl hold
  | _ => cases he

/-- A decision keeps the lists, and opens no account screen. -/
theorem uses_perform {pending : List ℕ} {on : Controller} {action : ScreenAction}
    (hpending : ∀ i ∈ pending, i ∈ s.facebookPending) :
    ({ s with facebookPending := pending }.perform on action).screens = s.screens ∧
      ∀ kind i, ({ s with facebookPending := pending }.perform on action).Uses kind i →
        s.Uses kind i := by
  unfold perform
  cases action.storedName with
  | none => exact ⟨rfl, fun kind i huses => huses.mono (fun _ _ hc => hc) fun j hj =>
      Or.inr (hpending j hj)⟩
  | some name =>
    refine ⟨rfl, fun kind i huses => ?_⟩
    by_cases hon : on ∈ s.nav.viewControllers
    · simp only [hon, if_true] at huses
      exact huses.of_push rfl rfl hpending
    · simp only [hon, if_false] at huses
      exact huses.mono (fun _ _ hc => hc) fun j hj => Or.inr (hpending j hj)

/-- No other event but a snapshot changes the lists, and none opens an account screen. -/
theorem screens_of_step (hopens : e.opens = none) (hobserved : e.isObserved = false)
    (hwf : WellFormed s.nav) (h : s.step e = some s') :
    s'.screens = s.screens ∧ ∀ kind i, s'.Uses kind i → s.Uses kind i := by
  cases e with
  | openLogin => cases hopens
  | openSignUp => cases hopens
  | observed i snapshot => cases hobserved
  | loginClicked txtFEmail txtFPassword =>
    simp only [step] at h
    split at h
    · obtain ⟨users, -, rfl⟩ := Option.map_eq_some_iff.mp h
      exact uses_perform fun j hj => hj
    · cases h
  | signUpcClicked txtFName txtFEmail txtFPassword =>
    simp only [step] at h
    split at h
    · obtain ⟨users, -, rfl⟩ := Option.map_eq_some_iff.mp h
      exact uses_perform fun j hj => hj
    · cases h
  | facebookLoginClicked =>
    simp only [step] at h
    split at h
    case h_1 i htop =>
      cases h
      refine ⟨rfl, fun kind j huses => huses.mono (fun _ _ hc => hc) fun j hj => ?_⟩
      rcases List.mem_append.mp hj with hold | hnew
      · exact Or.inr hold
      · rw [List.mem_singleton.mp hnew]
        exact uses_login_of_top htop
    case h_2 => cases h
  | facebookResult i result =>
    obtain ⟨-, hstep⟩ := Option.ite_none_right_eq_some.mp h
    cases result with
    | none =>
      cases hstep
      exact ⟨rfl, fun kind j huses => huses.mono (fun _ _ hc => hc) fun j hj =>
        Or.inr (List.mem_of_mem_erase hj)⟩
    | some profile =>
      obtain ⟨users, -, rfl⟩ := Option.map_eq_some_iff.mp hstep
      exact uses_perform fun j hj => List.mem_of_mem_erase hj
  | backClicked =>
    obtain ⟨-, hs⟩ := Option.ite_none_right_eq_some.mp h
    cases hs
    exact ⟨rfl, fun kind j huses => huses.mono (fun _ _ hc => NavStack.mem_of_mem_pop hc)
      fun j hj => Or.inr hj⟩
  | logout =>
    obtain ⟨-, hs⟩ := Option.ite_none_right_eq_some.mp h
    rw [hwf.popToEach_eq] at hs
    cases hs
    refine ⟨rfl, fun kind j huses => huses.mono (fun c haccount hc => ?_) fun j hj => Or.inr hj⟩
    obtain rfl : c = .viewController := List.mem_singleton.mp hc
    cases haccount
  | homeClicked button =>
    obtain ⟨-, hs⟩ := Option.ite_none_right_eq_some.mp h
    cases hs
    exact ⟨rfl, fun kind j huses => huses.of_push rfl rfl fun i hi => hi⟩
  | didSelectItemAt =>
    obtain ⟨-, hs⟩ := Option.ite_none_right_eq_some.mp h
    cases hs
    exact ⟨rfl, fun kind j huses => huses.of_push rfl rfl fun i hi => hi⟩
  | playClicked =>
    obtain ⟨-, hs⟩ := Option.ite_none_right_eq_some.mp h
    cases hs
    exact ⟨rfl, fun kind j huses => huses.of_push rfl rfl fun i hi => hi⟩
  | didFinish i =>
    obtain ⟨-, hs⟩ := Option.ite_none_right_eq_some.mp h
    cases hs
    refine ⟨rfl, fun kind j huses => huses.mono (fun c _ hc => ?_) fun j hj => Or.inr hj⟩
    dsimp only at hc
    split_ifs at hc
    · exact NavStack.mem_of_mem_pop hc
    · exact hc

end Session

/-! ### The screens of all phones as a network -/

/-- Screen `i` of a phone is the screen of the network with the number `number i`. -/
structure Mirrored (number : ℕ → Option ℕ) (phone : Session) (t : Network) : Prop where
  wf : Session.WellFormed phone.nav
  lt : ∀ i k, number i = some k → i < phone.screens.length
  users : ∀ i users, phone.screens[i]? = some users →
    ∃ k scr, number i = some k ∧ t.screens[k]? = some scr ∧ scr.users = users
  kind : ∀ kind i, phone.Uses kind i →
    ∃ k scr, number i = some k ∧ t.screens[k]? = some scr ∧ scr.kind = kind

/-- **The relation.** The network has the node of the phones, and each of their screens under a
    number of its own. -/
structure Mirrors (number : ℕ → ℕ → Option ℕ) (s : Phones) (t : Network) : Prop where
  node : t.node = s.node
  lt : ∀ p i k, number p i = some k → k < t.screens.length
  inj : ∀ p q i j k, number p i = some k → number q j = some k → p = q ∧ i = j
  phones : ∀ p phone, s.phones[p]? = some phone → Mirrored (number p) phone t

variable {number : ℕ → Option ℕ} {phone phone' : Session} {t t' : Network}

/-- Changes of the network in other screens do not matter. -/
theorem Mirrored.congr (hs : Mirrored number phone t)
    (h : ∀ i k, number i = some k → t'.screens[k]? = t.screens[k]?) :
    Mirrored number phone t' := by
  refine ⟨hs.wf, hs.lt, fun i users husers => ?_, fun kind i huses => ?_⟩
  · obtain ⟨k, scr, hk, hscr, heq⟩ := hs.users i users husers
    exact ⟨k, scr, hk, (h i k hk).trans hscr, heq⟩
  · obtain ⟨k, scr, hk, hscr, heq⟩ := hs.kind kind i huses
    exact ⟨k, scr, hk, (h i k hk).trans hscr, heq⟩

/-- A screen in use is there for the network, with its list. -/
theorem Mirrored.exists_screen (hs : Mirrored number phone t) {kind : ScreenKind} {i : ℕ}
    {users : List Users} (huses : phone.Uses kind i) (husers : phone.screens[i]? = some users) :
    ∃ k scr, number i = some k ∧ t.screen kind k = some scr ∧ scr.users = users := by
  obtain ⟨k, scr, hk, hscr, heq⟩ := hs.users i users husers
  obtain ⟨k', scr', hk', hscr', hkind⟩ := hs.kind kind i huses
  obtain rfl : k = k' := Option.some.inj (hk.symm.trans hk')
  obtain rfl : scr = scr' := Option.some.inj (hscr.symm.trans hscr')
  exact ⟨k, scr, hk, Option.filter_eq_some_iff.mpr ⟨hscr, by simp [hkind]⟩, heq⟩

/-- An app that has just started has no account screen. -/
theorem Session.screens_relaunch (s : Session) : s.relaunch.screens = [] := by
  unfold relaunch
  cases s.username with
  | none => rfl
  | some userName => dsimp only; split_ifs <;> rfl

/-- Its phone needs none of the network. -/
theorem mirrored_relaunch (s : Session) (t : Network) : Mirrored (fun _ => none) s.relaunch t := by
  have hpending : s.relaunch.facebookPending = [] := by
    unfold Session.relaunch
    cases s.username with
    | none => rfl
    | some userName => dsimp only; split_ifs <;> rfl
  have hnav := NavigationBar.nav_relaunch s
  refine ⟨(NavigationBar.layered_relaunch s).wf, nofun, fun i users husers => ?_, fun kind i huses => ?_⟩
  · rw [s.screens_relaunch] at husers
    cases husers
  · -- neither stack of a launch has an account screen
    have hnone : ∀ c, c.isAccount = true → c ∉ s.relaunch.nav.viewControllers := by
      intro c hc hmem
      rcases hnav with hnav | hnav
      · rw [hnav] at hmem
        obtain rfl : c = .viewController := List.mem_singleton.mp hmem
        cases hc
      · rw [hnav] at hmem
        rcases List.mem_cons.mp hmem with rfl | hmem
        · cases hc
        · obtain rfl : c = .home "" := List.mem_singleton.mp hmem
          cases hc
    cases kind with
    | login =>
      rcases huses with hmem | hmem
      · exact absurd hmem (hnone _ rfl)
      · rw [hpending] at hmem
        cases hmem
    | signUp => exact absurd huses (hnone _ rfl)

theorem mirrors_launch (n : ℕ) :
    Mirrors (fun _ _ => none) (Phones.launch n) (Network.launch []) := by
  refine ⟨rfl, nofun, nofun, fun p phone hphone => ?_⟩
  rw [Phones.launch, List.getElem?_replicate] at hphone
  obtain ⟨-, hlaunch⟩ := Option.ite_none_right_eq_some.mp hphone
  cases hlaunch
  exact mirrored_relaunch .launch _

/-! ### Every step of a phone is one of the network -/

section Step

variable {number : ℕ → ℕ → Option ℕ} {s : Phones} {p : ℕ} {e : SessionEvent} {node : List Record}

/-- One phone changes, and of the network only its screens. -/
theorem Mirrors.set (hs : Mirrors number s t) (hphone : Mirrored (number p) phone' t')
    (hnode : t'.node = node) (hlength : t'.screens.length = t.screens.length)
    (hother : ∀ q j k, q ≠ p → number q j = some k → t'.screens[k]? = t.screens[k]?) :
    Mirrors number ⟨node, s.phones.set p phone'⟩ t' := by
  refine ⟨hnode, fun q j k hk => hlength ▸ hs.lt q j k hk, hs.inj, fun q other hq => ?_⟩
  rcases Gather.getElem?_set_cases hq with ⟨rfl, rfl⟩ | ⟨hne, hold⟩
  · exact hphone
  · exact (hs.phones q other hold).congr fun j k hk => hother q j k hne hk

/-- A step that neither opens nor observes: the screens stay. -/
theorem Mirrored.step {number : ℕ → Option ℕ} (hs : Mirrored number phone t)
    (hopens : e.opens = none) (hobserved : e.isObserved = false) (h : phone.step e = some phone') :
    Mirrored number phone' t := by
  obtain ⟨hscreens, huses⟩ := Session.screens_of_step hopens hobserved hs.wf h
  refine ⟨hs.wf.step h, fun i k hk => ?_, fun i users husers => ?_, fun kind i hkind =>
    hs.kind kind i (huses kind i hkind)⟩
  · rw [hscreens]
    exact hs.lt i k hk
  · rw [hscreens] at husers
    exact hs.users i users husers

/-- A screen is opened on a phone: it gets the next number. -/
theorem Mirrors.opened {kind : ScreenKind} (hs : Mirrors number s t)
    (hphone : s.phones[p]? = some phone) (hopens : e.opens = some kind)
    (h : phone.step e = some phone') :
    ∃ number', Mirrors number' { s with phones := s.phones.set p phone' }
      { t with screens := t.screens ++ [.opened kind] } := by
  obtain ⟨hscreens, huses⟩ := Session.screens_of_opens hopens h
  have hold := hs.phones p phone hphone
  let number' : ℕ → ℕ → Option ℕ := fun q j =>
    if q = p ∧ j = phone.screens.length then some t.screens.length else number q j
  have hnew : number' p phone.screens.length = some t.screens.length := by simp [number']
  -- a number that was given is still the same, and its screen is still there
  have hgiven : ∀ q j k, number q j = some k → number' q j = some k := by
    intro q j k hk
    have hne : ¬ (q = p ∧ j = phone.screens.length) := by
      rintro ⟨rfl, rfl⟩
      exact lt_irrefl _ (hold.lt _ k hk)
    simp [number', hne, hk]
  have hcases : ∀ q j k, number' q j = some k →
      number q j = some k ∨ q = p ∧ j = phone.screens.length ∧ k = t.screens.length := by
    intro q j k hk
    simp only [number'] at hk
    split_ifs at hk with hqj
    · exact Or.inr ⟨hqj.1, hqj.2, (Option.some.inj hk).symm⟩
    · exact Or.inl hk
  have hkept : ∀ (k : ℕ) (scr : AccountScreen), t.screens[k]? = some scr →
      (t.screens ++ [AccountScreen.opened kind])[k]? = some scr := by
    intro k scr hscr
    rw [List.getElem?_append_left (List.getElem?_eq_some_iff.mp hscr).1, hscr]
  have hlast : (t.screens ++ [AccountScreen.opened kind])[t.screens.length]?
      = some (.opened kind) := List.getElem?_concat_length
  refine ⟨number', hs.node, ?_, ?_, ?_⟩
  · intro q j k hk
    rw [List.length_append, List.length_singleton]
    rcases hcases q j k hk with hk | ⟨-, -, rfl⟩
    · exact Nat.lt_succ_of_lt (hs.lt q j k hk)
    · exact Nat.lt_succ_self _
  · intro q q' j j' k hk hk'
    rcases hcases q j k hk with hbefore | ⟨rfl, rfl, hlength⟩
    · rcases hcases q' j' k hk' with hbefore' | ⟨-, -, hlength⟩
      · exact hs.inj q q' j j' k hbefore hbefore'
      · have hlt := hs.lt q j k hbefore
        omega
    · rcases hcases q' j' k hk' with hbefore' | ⟨rfl, rfl, -⟩
      · have hlt := hs.lt q' j' k hbefore'
        omega
      · exact ⟨rfl, rfl⟩
  · intro q other hq
    rcases Gather.getElem?_set_cases hq with ⟨rfl, rfl⟩ | ⟨hne, hother⟩
    · refine ⟨hold.wf.step h, fun i k hk => ?_, fun i users husers => ?_, fun kind' i hkind => ?_⟩
      · rw [hscreens, List.length_append, List.length_singleton]
        rcases hcases q i k hk with hk | ⟨-, rfl, -⟩
        · exact Nat.lt_succ_of_lt (hold.lt i k hk)
        · exact Nat.lt_succ_self _
      · rw [hscreens] at husers
        rcases Gather.getElem?_concat_cases husers with hbefore | ⟨rfl, rfl⟩
        · obtain ⟨k, scr, hk, hscr, heq⟩ := hold.users i users hbefore
          exact ⟨k, scr, hgiven q i k hk, hkept k scr hscr, heq⟩
        · exact ⟨_, _, hnew, hlast, rfl⟩
      · rcases huses kind' i hkind with hbefore | ⟨rfl, rfl⟩
        · obtain ⟨k, scr, hk, hscr, heq⟩ := hold.kind kind' i hbefore
          exact ⟨k, scr, hgiven q i k hk, hkept k scr hscr, heq⟩
        · exact ⟨_, _, hnew, hlast, rfl⟩
    · have hsame : number' q = number q := by
        funext j
        simp [number', hne]
      rw [hsame]
      refine (hs.phones q other hother).congr fun j k hk => ?_
      exact List.getElem?_append_left (hs.lt q j k hk)

/-- An observation of the phone's list is one of the screen. -/
theorem AccountScreen.exists_observe {scr : AccountScreen} {snapshot : List Record}
    {users : List Users} (h : observeValue scr.users (nodeSnapshot snapshot) = some users) :
    ∃ scr', scr.observe snapshot = some scr' ∧ scr'.users = users ∧ scr'.kind = scr.kind := by
  unfold AccountScreen.observe
  split
  case h_1 users' hobs =>
    obtain rfl : users = users' := Option.some.inj (h.symm.trans hobs)
    exact ⟨_, rfl, rfl, rfl⟩
  case h_2 hobs =>
    rw [h] at hobs
    cases hobs

/-- A snapshot that an observer of a phone receives is delivered to the screen. -/
theorem Mirrors.observed {i : ℕ} {positions : List ℕ} (hs : Mirrors number s t)
    (hphone : s.phones[p]? = some phone)
    (h : phone.step (.observed i (nodeSnapshot (select s.node positions))) = some phone') :
    ∃ k t', t.step (.deliver k positions) = some t' ∧ t'.node = t.node ∧
      Mirrors number { s with phones := s.phones.set p phone' } t' := by
  obtain ⟨users, husers, hstep⟩ := Option.bind_eq_some_iff.mp h
  obtain ⟨users', hobs, rfl⟩ := Option.map_eq_some_iff.mp hstep
  have hold := hs.phones p phone hphone
  obtain ⟨k, scr, hk, hscr, rfl⟩ := hold.users i users husers
  obtain ⟨scr', hscr', rfl, hkind⟩ := AccountScreen.exists_observe hobs
  have hlt : k < t.screens.length := hs.lt p i k hk
  have hself : (t.screens.set k scr')[k]? = some scr' := List.getElem?_set_self hlt
  -- screens with other numbers stay
  have hne : ∀ q j k', ¬ (q = p ∧ j = i) → number q j = some k' →
      (t.screens.set k scr')[k']? = t.screens[k']? := by
    intro q j k' hqj hk'
    refine List.getElem?_set_ne ?_
    rintro rfl
    exact hqj (hs.inj q p j i k hk' hk)
  refine ⟨k, { t with screens := t.screens.set k scr' }, ?_, rfl, ?_⟩
  · rw [Network.step, hscr, Option.bind_some, hs.node, hscr']
    rfl
  · refine hs.set ⟨hold.wf, fun j k' hk' => ?_, fun j users hj => ?_, fun kind j huses => ?_⟩ hs.node
      (List.length_set ..) fun q j k' hq hk' => hne q j k' (fun h => hq h.1) hk'
    · rw [List.length_set]
      exact hold.lt j k' hk'
    · rcases Gather.getElem?_set_cases hj with ⟨rfl, rfl⟩ | ⟨hji, hbefore⟩
      · exact ⟨k, scr', hk, hself, rfl⟩
      · obtain ⟨k', other, hk', hother, heq⟩ := hold.users j users hbefore
        exact ⟨k', other, hk', (hne p j k' (fun h => hji h.2) hk').trans hother, heq⟩
    · obtain ⟨k', other, hk', hother, heq⟩ := hold.kind kind j huses
      by_cases hji : j = i
      · subst hji
        obtain rfl : k = k' := Option.some.inj (hk.symm.trans hk')
        obtain rfl : scr = other := Option.some.inj (hscr.symm.trans hother)
        exact ⟨k, scr', hk, hself, hkind.trans heq⟩
      · exact ⟨k', other, hk', (hne p j k' (fun h => hji h.2) hk').trans hother, heq⟩

/-- What the network does at a decision of a phone: it takes the same one, on the same list. -/
structure Decides (number : ℕ → Option ℕ) (phone : Session) (t : Network) (key : String)
    (e : SessionEvent) (f : NetEvent) : Prop where
  list : ∃ i k scr, number i = some k ∧ e.atScreen k key = some f ∧ t.screens[k]? = some scr ∧
    phone.deciding e = some scr.users
  stored : t.storedName f = phone.storedName e
  step : t.step f = match phone.record key e with
    | some r => t.setValue r
    | none   => some t

/-- A decision of a phone is one of the screen. -/
theorem Mirrored.exists_decides {number : ℕ → Option ℕ} (hs : Mirrored number phone t) (key : String)
    (hdecision : (e.atScreen 0 key).isSome) (h : phone.step e = some phone') :
    ∃ f, Decides number phone t key e f := by
  cases e with
  | signUpcClicked txtFName txtFEmail txtFPassword =>
    simp only [Session.step] at h
    split at h
    case h_1 i htop =>
      obtain ⟨users, husers, -⟩ := Option.map_eq_some_iff.mp h
      obtain ⟨k, scr, hk, hscr, rfl⟩ :=
        hs.exists_screen (Session.uses_signUp_of_top htop) husers
      have hhandled : phone.handled (.signUpcClicked txtFName txtFEmail txtFPassword) = some
          (.signUp i, SignUpViewController.signUpcClicked scr.users txtFName txtFEmail
            txtFPassword) := by simp [Session.handled, htop, husers]
      refine ⟨.signUpcClicked k key txtFName txtFEmail txtFPassword,
        ⟨i, k, scr, hk, rfl, (screen_eq_some hscr).1, ?_⟩, ?_, ?_⟩
      · simp [Session.deciding, htop, husers]
      · simp [Network.storedName, Session.storedName, hscr, hhandled]
      · simp only [Network.step, hscr, Option.bind_some, Session.record, hhandled]
        cases (SignUpViewController.signUpcClicked scr.users txtFName txtFEmail
          txtFPassword).written <;> rfl
    case h_2 => cases h
  | loginClicked txtFEmail txtFPassword =>
    simp only [Session.step] at h
    split at h
    case h_1 i htop =>
      obtain ⟨users, husers, -⟩ := Option.map_eq_some_iff.mp h
      obtain ⟨k, scr, hk, hscr, rfl⟩ :=
        hs.exists_screen (Session.uses_login_of_top htop) husers
      have hhandled : phone.handled (.loginClicked txtFEmail txtFPassword) = some
          (.login i, LoginViewController.loginClicked scr.users txtFEmail txtFPassword) := by
        simp [Session.handled, htop, husers]
      refine ⟨.loginClicked k txtFEmail txtFPassword,
        ⟨i, k, scr, hk, rfl, (screen_eq_some hscr).1, ?_⟩, ?_, ?_⟩
      · simp [Session.deciding, htop, husers]
      · simp [Network.storedName, Session.storedName, hscr, hhandled]
      · -- a login writes nothing
        simp [Network.step, hscr, Session.record, hhandled,
          LoginViewController.loginClicked_written]
    case h_2 => cases h
  | facebookResult i result =>
    cases result with
    | none => cases hdecision
    | some profile =>
      obtain ⟨hpending, hstep⟩ := Option.ite_none_right_eq_some.mp h
      obtain ⟨users, husers, -⟩ := Option.map_eq_some_iff.mp hstep
      have husers : phone.screens[i]? = some users := husers
      have huses : phone.Uses .login i := Or.inr hpending
      obtain ⟨k, scr, hk, hscr, rfl⟩ := hs.exists_screen huses husers
      have hhandled : phone.handled (.facebookResult i (some profile)) = some
          (.login i, LoginViewController.getFBUserData scr.users profile.email profile.name) := by
        simp [Session.handled, husers]
      refine ⟨.facebookResult k key profile,
        ⟨i, k, scr, hk, rfl, (screen_eq_some hscr).1, ?_⟩, ?_, ?_⟩
      · simp [Session.deciding, husers]
      · simp [Network.storedName, Session.storedName, hscr, hhandled]
      · simp only [Network.step, hscr, Option.bind_some, Session.record, hhandled]
        cases (LoginViewController.getFBUserData scr.users profile.email profile.name).written <;>
          rfl
  | _ => cases hdecision

/-- Events that decide nothing write nothing and store nothing. -/
theorem Session.record_eq_none (phone : Session) {key : String} (h : e.atScreen 0 key = none) :
    phone.record key e = none ∧ phone.storedName e = none := by
  cases e with
  | facebookResult i result =>
    cases result with
    | none => exact ⟨rfl, rfl⟩
    | some profile => cases h
  | signUpcClicked => cases h
  | loginClicked => cases h
  | _ => exact ⟨rfl, rfl⟩

/-- A phone that starts again leaves its screens behind. -/
theorem Mirrors.relaunch (hs : Mirrors number s t) :
    Mirrors (fun q => if q = p then fun _ => none else number q)
      { s with phones := s.phones.set p phone.relaunch } t := by
  have hcases : ∀ q j k, (if q = p then fun _ => none else number q) j = some k →
      number q j = some k := by
    intro q j k hk
    split_ifs at hk
    exact hk
  refine ⟨hs.node, fun q j k hk => hs.lt q j k (hcases q j k hk), fun q q' j j' k hk hk' =>
    hs.inj q q' j j' k (hcases q j k hk) (hcases q' j' k hk'), fun q other hq => ?_⟩
  rcases Gather.getElem?_set_cases hq with ⟨rfl, rfl⟩ | ⟨hne, hold⟩
  · rw [if_pos rfl]
    exact mirrored_relaunch phone t
  · rw [if_neg hne]
    exact hs.phones q other hold

/-- A decision of a phone goes through exactly as the one of the screen, and both write the same
    record. -/
theorem Mirrors.decided {key : String} {f : NetEvent} (hs : Mirrors number s t)
    (hphone : s.phones[p]? = some phone) (hopens : e.opens = none) (hobserved : e.isObserved = false)
    (hsession : phone.step e = some phone') (hf : Decides (number p) phone t key e f)
    (hkey : ∀ r, phone.record key e = some r → r.key ∉ s.node.map Record.key) :
    ∃ t', t.step f = some t' ∧
      Mirrors number ⟨s.node ++ (phone.record key e).toList, s.phones.set p phone'⟩ t' := by
  have hmirrored := (hs.phones p phone hphone).step hopens hobserved hsession
  rw [hf.step]
  cases hrecord : phone.record key e with
  | none =>
    refine ⟨t, rfl, hs.set hmirrored ?_ rfl fun _ _ _ _ _ => rfl⟩
    rw [hs.node]
    exact (List.append_nil s.node).symm
  | some r =>
    refine ⟨{ t with node := t.node ++ [r] }, ?_, ?_⟩
    · show t.setValue r = _
      rw [Network.setValue, hs.node, if_neg (hkey r hrecord)]
    · refine hs.set (hmirrored.congr fun _ _ _ => rfl) ?_ rfl fun _ _ _ _ _ => rfl
      rw [hs.node]
      rfl

/-- **What a step of the phones is for the network.**  An event that decides nothing is no event,
    or an opening or a delivery; a decision is one. -/
theorem Mirrors.step {ev : PhoneEvent} {s' : Phones} (hs : Mirrors number s t)
    (h : s.step ev = some s') :
    (ev.request = none ∧ s.storedName ev = none ∧ ∃ number' fs t', run Network.step t fs = some t' ∧
        (∀ f ∈ fs, f.registration = none) ∧ Mirrors number' s' t') ∨
      ∃ p key e phone f t', ev = .session p key e ∧ s.phones[p]? = some phone ∧
        Decides (number p) phone t key e f ∧ t.step f = some t' ∧ Mirrors number s' t' := by
  cases ev with
  | observed p i positions =>
    obtain ⟨phone, hphone, hsession⟩ := Option.bind_eq_some_iff.mp h
    obtain ⟨phone', hobserved, rfl⟩ := Option.map_eq_some_iff.mp hsession
    obtain ⟨k, t', hstep, -, hs'⟩ := hs.observed hphone hobserved
    refine Or.inl ⟨rfl, rfl, number, [.deliver k positions], t', ?_, ?_, hs'⟩
    · exact run_cons_eq_some.mpr ⟨t', hstep, rfl⟩
    · simp [NetEvent.registration]
  | relaunch p =>
    obtain ⟨phone, -, rfl⟩ := Option.map_eq_some_iff.mp h
    exact Or.inl ⟨rfl, rfl, _, [], t, rfl, by simp, hs.relaunch⟩
  | session p key e =>
    obtain ⟨hobserved, phone, phone', hphone, hsession, hkey, rfl⟩ := Phones.session_eq_some h
    cases hdecision : e.atScreen 0 key with
    | some f =>
      obtain ⟨f, hf⟩ := (hs.phones p phone hphone).exists_decides key
        (by rw [hdecision]; rfl) hsession
      have hopens : e.opens = none := by
        cases e <;> first | rfl | cases hdecision
      obtain ⟨t', hstep, hs'⟩ := hs.decided hphone hopens hobserved hsession hf hkey
      exact Or.inr ⟨p, key, e, phone, f, t', rfl, hphone, hf, hstep, hs'⟩
    | none =>
      obtain ⟨hrecord, hstored⟩ := phone.record_eq_none hdecision
      have hrequest : PhoneEvent.request (.session p key e) = none := by
        simp [PhoneEvent.request, hdecision]
      have hname : s.storedName (.session p key e) = none := by
        simp [Phones.storedName, hphone, hstored]
      rw [hrecord, Option.toList_none, List.append_nil]
      refine Or.inl ⟨hrequest, hname, ?_⟩
      cases hopens : e.opens with
      | some kind =>
        obtain ⟨number', hs'⟩ := hs.opened hphone hopens hsession
        refine ⟨number', [.opened kind], _, rfl, ?_, hs'⟩
        simp [NetEvent.registration]
      | none =>
        refine ⟨number, [], t, rfl, by simp, hs.set ?_ hs.node rfl fun _ _ _ _ _ => rfl⟩
        exact (hs.phones p phone hphone).step hopens hobserved hsession

end Step

/-- **Phones are networks.**  Wherever any number of phones get to, their screens being opened,
    used and left in any order, through any sessions and relaunches, a network gets to the same
    node, with every list that a phone has on a screen of its own. -/
theorem network_of_run {n : ℕ} {es : List PhoneEvent} {s : Phones}
    (h : run Phones.step (.launch n) es = some s) :
    ∃ fs t number, run Network.step (Network.launch []) fs = some t ∧ Mirrors number s t := by
  have hstep : ∀ (s : Phones) (t : Network) ev s', (∃ number, Mirrors number s t) →
      s.step ev = some s' → ∃ fs t', run Network.step t fs = some t' ∧ ∃ number, Mirrors number s' t' := by
    rintro s t ev s' ⟨number, hs⟩ hstep
    rcases hs.step hstep with ⟨-, -, number', fs, t', hrun, -, hs'⟩ |
      ⟨-, -, -, -, f, t', -, -, -, hnet, hs'⟩
    · exact ⟨fs, t', hrun, number', hs'⟩
    · exact ⟨[f], t', run_cons_eq_some.mpr ⟨t', hnet, rfl⟩, number, hs'⟩
  obtain ⟨fs, t, hrun, number, hs⟩ := run_related hstep ⟨_, mirrors_launch n⟩ h
  exact ⟨fs, t, number, hrun, hs⟩

/-- Ann signs up on one phone and logs in on another one, which is then started again. -/
def annOnTwoPhones : List PhoneEvent :=
  [.session 0 "" .openSignUp, .session 1 "" .openLogin,
    .session 0 "-M1" (.signUpcClicked (some "Ann") (some "ann@mail.co") (some "pw")),
    .observed 1 0 [0], .session 1 "" (.loginClicked (some "ann@mail.co") (some "pw")), .relaunch 1]

/-- A network of one sign-up and one login screen has written her record. -/
theorem network_of_run_annOnTwoPhones :
    ∃ s fs t number, run Phones.step (.launch 2) annOnTwoPhones = some s ∧
      s.phones.map Session.username = [some "Ann", some "Ann"] ∧
      run Network.step (Network.launch []) fs = some t ∧ Mirrors number s t ∧
      t.node.map Record.key = ["-M1"] := by
  obtain ⟨s, hrun, hnames, hkeys⟩ : ∃ s, run Phones.step (.launch 2) annOnTwoPhones = some s ∧
      s.phones.map Session.username = [some "Ann", some "Ann"] ∧
      s.node.map Record.key = ["-M1"] := ⟨_, rfl, rfl, rfl⟩
  obtain ⟨fs, t, number, hnet, hs⟩ := network_of_run hrun
  exact ⟨s, fs, t, number, hrun, hnames, hnet, hs, by rw [hs.node, hkeys]⟩

end ChildLearning
