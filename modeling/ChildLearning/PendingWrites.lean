import ChildLearning.Session
import ChildLearning.Lib.Gather

namespace ChildLearning

open Transition Session Gather FSnapshotUtilities

/-!
# Writes without an answer

Both `signupObserverFirebase` hand a record to `setValue` and open the session at once;
the server answers later, and may reject the write.  `PendingWrites` is a session with the
`User` node and all writes made so far.  `registration_of_run` says what the answer
decides, the record, and what it does not touch, the session.
-/

/-- `HomeViewController.logout()`. -/
def SessionEvent.isLogout : SessionEvent → Bool
  | .logout => true
  | _       => false

namespace Session

/-- The handler of an account screen that an event runs: the screen and the decision. -/
def handled (s : Session) : SessionEvent → Option (Controller × ScreenAction)
  | .loginClicked txtFEmail txtFPassword =>
    match s.nav.top with
    | .login i => s.screens[i]?.map fun users =>
        (.login i, LoginViewController.loginClicked users txtFEmail txtFPassword)
    | _ => none
  | .signUpcClicked txtFName txtFEmail txtFPassword =>
    match s.nav.top with
    | .signUp i => s.screens[i]?.map fun users =>
        (.signUp i, SignUpViewController.signUpcClicked users txtFName txtFEmail txtFPassword)
    | _ => none
  | .facebookResult i (some profile) => s.screens[i]?.map fun users =>
      (.login i, LoginViewController.getFBUserData users profile.email profile.name)
  | _ => none

variable {s s' : Session} {e : SessionEvent} {on : Controller} {action : ScreenAction}

/-- The two forms: the decision is performed. -/
theorem step_loginClicked (s : Session) (txtFEmail txtFPassword : Option String) :
    s.step (.loginClicked txtFEmail txtFPassword)
      = (s.handled (.loginClicked txtFEmail txtFPassword)).map fun d => s.perform d.1 d.2 := by
  simp only [step, handled]
  cases s.nav.top with
  | login i => simp only [Option.map_map]; rfl
  | _ => rfl

theorem step_signUpcClicked (s : Session) (txtFName txtFEmail txtFPassword : Option String) :
    s.step (.signUpcClicked txtFName txtFEmail txtFPassword)
      = (s.handled (.signUpcClicked txtFName txtFEmail txtFPassword)).map
          fun d => s.perform d.1 d.2 := by
  simp only [step, handled]
  cases s.nav.top with
  | signUp i => simp only [Option.map_map]; rfl
  | _ => rfl

/-- A profile that arrives ends its request, and the decision is performed. -/
theorem step_facebookResult {i : ℕ} {profile : FbProfile}
    (h : s.step (.facebookResult i (some profile)) = some s') :
    (s.handled (.facebookResult i (some profile))).map (fun d =>
      { s with facebookPending := s.facebookPending.erase i }.perform d.1 d.2) = some s' := by
  obtain ⟨-, hstep⟩ := Option.ite_none_right_eq_some.mp h
  rw [handled, Option.map_map]
  exact hstep

/-- **Steps that decide.** The decision is performed; at most a request has ended. -/
theorem step_of_handled (hh : s.handled e = some (on, action)) (h : s.step e = some s') :
    ∃ pending, s' = { s with facebookPending := pending }.perform on action := by
  cases e with
  | loginClicked txtFEmail txtFPassword =>
    rw [step_loginClicked, hh] at h
    cases h
    exact ⟨s.facebookPending, rfl⟩
  | signUpcClicked txtFName txtFEmail txtFPassword =>
    rw [step_signUpcClicked, hh] at h
    cases h
    exact ⟨s.facebookPending, rfl⟩
  | facebookResult i result =>
    cases result with
    | none => cases hh
    | some profile =>
      have hstep := step_facebookResult h
      rw [hh] at hstep
      cases hstep
      exact ⟨s.facebookPending.erase i, rfl⟩
  | _ => cases hh

/-- Steps that decide nothing keep the name, logging out apart. -/
theorem username_of_step (hh : s.handled e = none) (hne : e.isLogout = false)
    (h : s.step e = some s') : s'.username = s.username := by
  cases e with
  | openLogin => obtain ⟨-, hs⟩ := Option.ite_none_right_eq_some.mp h; cases hs; rfl
  | openSignUp => obtain ⟨-, hs⟩ := Option.ite_none_right_eq_some.mp h; cases hs; rfl
  | observed i snapshot =>
    obtain ⟨users, -, hs⟩ := Option.bind_eq_some_iff.mp h
    obtain ⟨users', -, rfl⟩ := Option.map_eq_some_iff.mp hs
    rfl
  | loginClicked txtFEmail txtFPassword =>
    rw [step_loginClicked, hh] at h
    cases h
  | signUpcClicked txtFName txtFEmail txtFPassword =>
    rw [step_signUpcClicked, hh] at h
    cases h
  | facebookLoginClicked =>
    simp only [step] at h
    split at h
    · cases h; rfl
    · cases h
  | facebookResult i result =>
    cases result with
    | none => obtain ⟨-, hs⟩ := Option.ite_none_right_eq_some.mp h; cases hs; rfl
    | some profile =>
      have hstep := step_facebookResult h
      rw [hh] at hstep
      cases hstep
  | backClicked => obtain ⟨-, hs⟩ := Option.ite_none_right_eq_some.mp h; cases hs; rfl
  | logout => cases hne
  | homeClicked button => obtain ⟨-, hs⟩ := Option.ite_none_right_eq_some.mp h; cases hs; rfl
  | didSelectItemAt => obtain ⟨-, hs⟩ := Option.ite_none_right_eq_some.mp h; cases hs; rfl
  | playClicked => obtain ⟨-, hs⟩ := Option.ite_none_right_eq_some.mp h; cases hs; rfl
  | didFinish i => obtain ⟨-, hs⟩ := Option.ite_none_right_eq_some.mp h; cases hs; rfl

/-- A handler that registers writes the dictionary of both registration paths. -/
theorem handled_register {data : List (String × Json)} {name : String}
    (hh : s.handled e = some (on, .register data name)) :
    ∃ email password, data = userData name email password := by
  cases e with
  | loginClicked txtFEmail txtFPassword =>
    simp only [handled] at hh
    split at hh
    case h_1 i htop =>
      obtain ⟨users, -, hdecided⟩ := Option.map_eq_some_iff.mp hh
      have hwritten := LoginViewController.loginClicked_written users txtFEmail txtFPassword
      rw [(Prod.mk.inj hdecided).2] at hwritten
      cases hwritten
    case h_2 => cases hh
  | signUpcClicked txtFName txtFEmail txtFPassword =>
    simp only [handled] at hh
    split at hh
    case h_1 i htop =>
      obtain ⟨users, -, hdecided⟩ := Option.map_eq_some_iff.mp hh
      exact ⟨_, _, SignUpViewController.signUpcClicked_eq_register (Prod.mk.inj hdecided).2⟩
    case h_2 => cases hh
  | facebookResult i result =>
    cases result with
    | none => cases hh
    | some profile =>
      obtain ⟨users, -, hdecided⟩ := Option.map_eq_some_iff.mp hh
      exact ⟨_, _, LoginViewController.getFBUserData_eq_register (Prod.mk.inj hdecided).2⟩
  | _ => cases hh

end Session

/-! ### The machine -/

/-- `ref.child("User").childByAutoId().setValue(data)`; the outcome is still to come, or
    tells whether the server accepted the write. -/
structure Write where
  key : String
  data : List (String × Json)
  outcome : Option Bool := none

/-- A session with the children of the `User` node and the writes made so far.  `openedBy`
    is a ghost: the write of the registration that opened the session. -/
structure PendingWrites where
  session : Session := .launch
  node : List (String × FNode)
  writes : List Write := []
  openedBy : Option ℕ := none

/-- An event of the session, with the key that `childByAutoId` returns if it registers;
    the outcome of write `k`; a child that another device has written. -/
inductive WriteEvent where
  | session (e : SessionEvent) (key : String)
  | outcome (k : ℕ) (accepted : Bool)
  | remote (key : String) (value : FNode)

/-- The child of the `User` node that a write asks for. -/
def Write.child (w : Write) : String × List (String × Json) := (w.key, w.data)

namespace PendingWrites

/-- The app is launched over a node with these children. -/
def launch (node : List (String × FNode)) : PendingWrites := { node := node }

/-- The keys in use. -/
def keys (s : PendingWrites) : List String := s.node.map Prod.fst ++ s.writes.map Write.key

/-- The `User` node. -/
def userNode (s : PendingWrites) : DataSnapshot := ⟨"User", .childrenNode s.node⟩

/-- One event. -/
def step (s : PendingWrites) : WriteEvent → Option PendingWrites
  | .session e key => (s.session.step e).bind fun session =>
    match s.session.handled e with
    | some (_, .register data _) =>
      -- `setValue` is called and nobody waits for it
      if key ∈ s.keys then none else some
        { s with
          session := session
          writes := s.writes ++ [{ key := key, data := data }]
          openedBy := some s.writes.length }
    | some (_, .openHome _) => some { s with session := session, openedBy := none }
    | _ => some { s with session := session, openedBy := if e.isLogout then none else s.openedBy }
  | .outcome k accepted => s.writes[k]?.bind fun w => (nodeFrom (.object w.data)).bind fun value =>
    if w.outcome = none then some
      { s with
        writes := s.writes.set k { w with outcome := some accepted }
        node := if accepted then s.node ++ [(w.key, value)] else s.node }
    else none
  | .remote key value =>
    if key ∈ s.keys then none else some { s with node := s.node ++ [(key, value)] }

variable {s s' : PendingWrites} {e : SessionEvent} {key name : String} {k : ℕ}
  {data : List (String × Json)} {on : Controller}

/-! ### What a step can do -/

/-- **A registration.** The session is opened and the write is made, in one step. -/
theorem step_register (hh : s.session.handled e = some (on, .register data name))
    (h : s.step (.session e key) = some s') :
    key ∉ s.keys ∧ s'.node = s.node ∧ s'.writes = s.writes ++ [{ key := key, data := data }] ∧
      s'.openedBy = some s.writes.length ∧ s'.session.username = some name ∧
      (on ∈ s.session.nav.viewControllers → s'.session.nav = s.session.nav.push (.home name)) := by
  obtain ⟨session, hsession, hs⟩ := Option.bind_eq_some_iff.mp h
  simp only [hh] at hs
  obtain ⟨hkey, hs⟩ := Option.ite_none_left_eq_some.mp hs
  cases hs
  obtain ⟨pending, rfl⟩ := step_of_handled hh hsession
  exact ⟨hkey, rfl, rfl, rfl, rfl, fun hon => if_pos hon⟩

/-- **Any other event of the session** writes nothing.  A session that a registration has
    opened goes on under its name, or the user logs out or in. -/
theorem step_session (hh : ∀ on data name, s.session.handled e ≠ some (on, .register data name))
    (h : s.step (.session e key) = some s') :
    s'.node = s.node ∧ s'.writes = s.writes ∧
      (s'.openedBy = none ∧
          (e.isLogout = true ∨ ∃ on name, s.session.handled e = some (on, .openHome name)) ∨
        s'.openedBy = s.openedBy ∧ s'.session.username = s.session.username) := by
  obtain ⟨session, hsession, hs⟩ := Option.bind_eq_some_iff.mp h
  -- either the handler stores no name, or it opens Home
  have hkept : ∀ on action, s.session.handled e = some (on, action) → action.storedName = none →
      session.username = s.session.username := by
    intro on action hhandled hnone
    obtain ⟨pending, rfl⟩ := step_of_handled hhandled hsession
    rw [perform, hnone]
  cases hhandled : s.session.handled e with
  | none =>
    rw [hhandled] at hs
    cases hs
    cases hlogout : e.isLogout with
    | true => exact ⟨rfl, rfl, Or.inl ⟨rfl, Or.inl rfl⟩⟩
    | false => exact ⟨rfl, rfl, Or.inr ⟨rfl, username_of_step hhandled hlogout hsession⟩⟩
  | some decision =>
    obtain ⟨on, action⟩ := decision
    rw [hhandled] at hs
    have hlogout : e.isLogout = false := by cases e <;> first | rfl | cases hhandled
    cases action with
    | register data name => exact absurd hhandled (hh on data name)
    | openHome name => cases hs; exact ⟨rfl, rfl, Or.inl ⟨rfl, Or.inr ⟨on, name, rfl⟩⟩⟩
    | alert strTittle strMessage =>
      simp only [hlogout] at hs
      cases hs
      exact ⟨rfl, rfl, Or.inr ⟨rfl, hkept on _ hhandled rfl⟩⟩
    | nothing =>
      simp only [hlogout] at hs
      cases hs
      exact ⟨rfl, rfl, Or.inr ⟨rfl, hkept on _ hhandled rfl⟩⟩

/-- **The outcome** touches the node and the write, and nothing else. -/
theorem step_outcome {accepted : Bool} (h : s.step (.outcome k accepted) = some s') :
    ∃ w value, s.writes[k]? = some w ∧ nodeFrom (.object w.data) = some value ∧
      w.outcome = none ∧ s' =
      { s with
        writes := s.writes.set k { w with outcome := some accepted }
        node := if accepted then s.node ++ [(w.key, value)] else s.node } := by
  obtain ⟨w, hw, hs⟩ := Option.bind_eq_some_iff.mp h
  obtain ⟨value, hvalue, hs⟩ := Option.bind_eq_some_iff.mp hs
  obtain ⟨hpending, hs⟩ := Option.ite_none_right_eq_some.mp hs
  cases hs
  exact ⟨w, value, hw, hvalue, hpending, rfl⟩

/-! ### The records and the session -/

/-- **The invariant.** Every write is of an account, the children of the node under the
    keys of the writes are the accepted ones, and the session that a registration has opened
    is stored under the name in its write. -/
structure Consistent (s : PendingWrites) : Prop where
  keys : ∀ (i j : ℕ) (w w' : Write), s.writes[i]? = some w → s.writes[j]? = some w' →
    w.key = w'.key → i = j
  account : ∀ (k : ℕ) (w : Write), s.writes[k]? = some w → ∃ a : Users,
    w.data = userData a.name a.email a.password
  accepted : ∀ (k : ℕ) (w : Write), s.writes[k]? = some w → w.outcome = some true →
    ∃ value, nodeFrom (.object w.data) = some value ∧ (w.key, value) ∈ s.node
  absent : ∀ (k : ℕ) (w : Write), s.writes[k]? = some w → w.outcome ≠ some true →
    w.key ∉ s.node.map Prod.fst
  opened : ∀ k, s.openedBy = some k → ∃ (w : Write) (a : Users), s.writes[k]? = some w ∧
    w.data = userData a.name a.email a.password ∧ s.session.username = some a.name

theorem consistent_launch (node : List (String × FNode)) : (launch node).Consistent :=
  ⟨nofun, nofun, nofun, nofun, nofun⟩

theorem not_mem_keys : key ∉ s.keys ↔ key ∉ s.node.map Prod.fst ∧ key ∉ s.writes.map Write.key := by
  rw [keys, List.mem_append, not_or]

/-- A registration: the write is new, and nothing is known about it. -/
theorem Consistent.register (hs : s.Consistent)
    (hh : s.session.handled e = some (on, .register data name))
    (h : s.step (.session e key) = some s') : s'.Consistent := by
  obtain ⟨hkey, hnode, hwrites, hopened, husername, -⟩ := step_register hh h
  obtain ⟨hfresh, hnew⟩ := not_mem_keys.mp hkey
  have hother : ∀ (j : ℕ) (w : Write), s.writes[j]? = some w → w.key ≠ key := fun j w hw heq =>
    hnew (heq ▸ List.mem_map_of_mem (List.mem_of_getElem? hw))
  obtain ⟨email, password, hdata⟩ := handled_register hh
  refine ⟨fun i j w w' hw hw' heq => ?_, fun j w hw => ?_, fun j w hw hacc => ?_,
    fun j w hw hnot => ?_, fun k hk => ?_⟩
  · rw [hwrites] at hw hw'
    rcases getElem?_concat_cases hw with hold | ⟨rfl, rfl⟩
    · rcases getElem?_concat_cases hw' with hold' | ⟨rfl, rfl⟩
      · exact hs.keys i j w w' hold hold' heq
      · exact absurd heq (hother i w hold)
    · rcases getElem?_concat_cases hw' with hold' | ⟨rfl, rfl⟩
      · exact absurd heq.symm (hother j w' hold')
      · rfl
  · rw [hwrites] at hw
    rcases getElem?_concat_cases hw with hold | ⟨rfl, rfl⟩
    · exact hs.account j w hold
    · exact ⟨⟨name, email, password⟩, hdata⟩
  · rw [hwrites] at hw
    rw [hnode]
    rcases getElem?_concat_cases hw with hold | ⟨rfl, rfl⟩
    · exact hs.accepted j w hold hacc
    · cases hacc
  · rw [hwrites] at hw
    rw [hnode]
    rcases getElem?_concat_cases hw with hold | ⟨rfl, rfl⟩
    · exact hs.absent j w hold hnot
    · exact hfresh
  · rw [hopened] at hk
    cases hk
    refine ⟨{ key := key, data := data }, ⟨name, email, password⟩, ?_, hdata, husername⟩
    rw [hwrites]
    exact List.getElem?_concat_length

/-- An outcome: exactly an accepted write becomes a child. -/
theorem Consistent.outcome {accepted : Bool} (hs : s.Consistent)
    (h : s.step (.outcome k accepted) = some s') : s'.Consistent := by
  obtain ⟨w, value, hw, hvalue, hpending, rfl⟩ := step_outcome h
  -- the write keeps its key and data
  have hsame : (s.writes.set k { w with outcome := some accepted }).map Write.child
      = s.writes.map Write.child := map_set_eq Write.child hw rfl
  have hsub : ∀ child ∈ s.node, child ∈
      (if accepted then s.node ++ [(w.key, value)] else s.node) := by
    intro child hchild
    split_ifs
    · exact List.mem_append_left _ hchild
    · exact hchild
  refine ⟨fun i j v v' hv hv' heq => ?_, fun j v hv => ?_, fun j v hv hacc => ?_,
    fun j v hv hnot => ?_, fun k' hk' => ?_⟩
  · obtain ⟨u, hu, huv⟩ := exists_getElem?_of_map_eq hsame.symm hv
    obtain ⟨u', hu', huv'⟩ := exists_getElem?_of_map_eq hsame.symm hv'
    have hukeys : u.key = u'.key :=
      (congrArg Prod.fst huv).trans (heq.trans (congrArg Prod.fst huv').symm)
    exact hs.keys i j u u' hu hu' hukeys
  · obtain ⟨u, hu, huv⟩ := exists_getElem?_of_map_eq hsame.symm hv
    have hudata : u.data = v.data := congrArg Prod.snd huv
    rw [← hudata]
    exact hs.account j u hu
  · rcases getElem?_set_cases hv with ⟨rfl, rfl⟩ | ⟨-, hold⟩
    · obtain rfl : accepted = true := Option.some.inj hacc
      exact ⟨value, hvalue, List.mem_append_right _ (List.mem_singleton_self _)⟩
    · obtain ⟨stored, hstored, hin⟩ := hs.accepted j v hold hacc
      exact ⟨stored, hstored, hsub _ hin⟩
  · rcases getElem?_set_cases hv with ⟨rfl, rfl⟩ | ⟨hne, hold⟩
    · cases accepted with
      | true => exact absurd rfl hnot
      | false => exact hs.absent j w hw (by rw [hpending]; nofun)
    · have hold' := hs.absent j v hold hnot
      cases accepted with
      | false => exact hold'
      | true =>
        intro hmem
        rw [if_pos rfl, List.map_append, List.mem_append] at hmem
        rcases hmem with hmem | hmem
        · exact hold' hmem
        · exact hne (hs.keys j k v w hold hw (List.mem_singleton.mp hmem))
  · obtain ⟨v, a, hv, hdata, husername⟩ := hs.opened k' hk'
    obtain ⟨v', hv', hvv⟩ := exists_getElem?_of_map_eq hsame hv
    exact ⟨v', a, hv', (congrArg Prod.snd hvv).trans hdata, husername⟩

/-- The step lemma. -/
theorem Consistent.step (hs : s.Consistent) {ev : WriteEvent} (h : s.step ev = some s') :
    s'.Consistent := by
  cases ev with
  | outcome k accepted => exact hs.outcome h
  | remote key value =>
    obtain ⟨hkey, hstep⟩ := Option.ite_none_left_eq_some.mp h
    cases hstep
    obtain ⟨-, hnew⟩ := not_mem_keys.mp hkey
    refine ⟨hs.keys, hs.account, fun k w hw hacc => ?_, fun k w hw hnot hmem => ?_, hs.opened⟩
    · obtain ⟨stored, hstored, hin⟩ := hs.accepted k w hw hacc
      exact ⟨stored, hstored, List.mem_append_left _ hin⟩
    · simp only [List.map_append, List.map_singleton, List.mem_append, List.mem_singleton] at hmem
      rcases hmem with hmem | rfl
      · exact hs.absent k w hw hnot hmem
      · exact hnew (List.mem_map_of_mem (List.mem_of_getElem? hw))
  | session e key =>
    by_cases hh : ∃ on data name, s.session.handled e = some (on, .register data name)
    · obtain ⟨on, data, name, hh⟩ := hh
      exact hs.register hh h
    · push Not at hh
      obtain ⟨hnode, hwrites, hsession⟩ := step_session hh h
      refine ⟨?_, ?_, ?_, ?_, fun k hk => ?_⟩
      · rw [hwrites]; exact hs.keys
      · rw [hwrites]; exact hs.account
      · rw [hwrites, hnode]; exact hs.accepted
      · rw [hwrites, hnode]; exact hs.absent
      · rcases hsession with ⟨hnone, -⟩ | ⟨hopened, husername⟩
        · rw [hnone] at hk
          cases hk
        · rw [hopened] at hk
          rw [hwrites, husername]
          exact hs.opened k hk

/-- The session that a registration has opened is stored under the name in its write. -/
theorem Consistent.username (hs : s.Consistent) {w : Write} (hw : s.writes[k]? = some w)
    {account : Users} (hdata : w.data = userData account.name account.email account.password)
    (h : s.openedBy = some k) : s.session.username = some account.name := by
  obtain ⟨w', a, hw', hdata', husername⟩ := hs.opened k h
  obtain rfl : w = w' := Option.some.inj (hw.symm.trans hw')
  rw [userData_injective (hdata.symm.trans hdata')]
  exact husername

/-- An accepted write is found on every list that has observed the node. -/
theorem Consistent.finds (hs : s.Consistent) {w : Write} (hw : s.writes[k]? = some w)
    {account : Users} (hdata : w.data = userData account.name account.email account.password)
    (hacc : w.outcome = some true) {users users' : List Users}
    (h : observeValue users s.userNode = some users') :
    LoginViewController.Finds users' account := by
  obtain ⟨value, hvalue, hin⟩ := hs.accepted k w hw hacc
  rw [hdata] at hvalue
  obtain ⟨stored, hstored, hplace⟩ :=
    initSnapshot_userData w.key account.name account.email account.password
  obtain rfl : value = stored := Option.some.inj (hvalue.symm.trans hstored)
  exact LoginViewController.finds_of_mem (mem_of_observeValue h (List.mem_map_of_mem hin) hplace)

/-! ### Runs -/

variable {node : List (String × FNode)} {es : List WriteEvent}

theorem consistent_of_run (h : run step (launch node) es = some s) : s.Consistent :=
  run_invariant (fun _ _ _ hs hstep => hs.step hstep) (consistent_launch node) h

/-- **A registration opens its session at once, and for good.**  In every state of every run:
    registering, through either path, stores the name and opens Home while the write is
    without an answer; the answer leaves the session as it is; the session lasts until the
    user logs out, in, or registers; and behind it there is a write.  Of all writes that the
    registrations have made, a rejected one is no child of the node, and an accepted one is
    found by a later login. -/
theorem registration_of_run (h : run step (launch node) es = some s) :
    (∀ e key s' on data name, s.step (.session e key) = some s' →
      s.session.handled e = some (on, .register data name) →
      s'.session.username = some name ∧
      (on ∈ s.session.nav.viewControllers →
        s'.session.nav = s.session.nav.push (.home name)) ∧
      s'.openedBy = some s.writes.length ∧ s'.writes = s.writes ++ [⟨key, data, none⟩]) ∧
    (∀ k accepted s', s.step (.outcome k accepted) = some s' →
      s'.session = s.session ∧ s'.openedBy = s.openedBy) ∧
    (∀ e key s', s.step (.session e key) = some s' → e.isLogout = false →
      (∀ on action, s.session.handled e = some (on, action) → action.storedName = none) →
      s'.openedBy = s.openedBy ∧ s'.session.username = s.session.username) ∧
    (∀ k, s.openedBy = some k → ∃ w, s.writes[k]? = some w) ∧
    (∀ k w, s.writes[k]? = some w → ∃ account : Users,
      w.data = userData account.name account.email account.password ∧
      (s.openedBy = some k → s.session.username = some account.name) ∧
      (w.outcome = some false → w.key ∉ s.node.map Prod.fst) ∧
      (w.outcome = some true → ∀ users users', observeValue users s.userNode = some users' →
        LoginViewController.Finds users' account)) := by
  have hs := consistent_of_run h
  refine ⟨?_, ?_, ?_, ?_, ?_⟩
  · intro e key s' on data name hstep hh
    obtain ⟨-, -, hwrites, hopened, husername, hnav⟩ := step_register hh hstep
    exact ⟨husername, hnav, hopened, hwrites⟩
  · intro k accepted s' hstep
    obtain ⟨w, value, -, -, -, rfl⟩ := step_outcome hstep
    exact ⟨rfl, rfl⟩
  · intro e key s' hstep hlogout hnone
    have hh : ∀ on data name, s.session.handled e ≠ some (on, .register data name) :=
      fun on data name heq => by cases hnone on _ heq
    obtain ⟨-, -, ⟨-, hends⟩ | hsame⟩ := step_session hh hstep
    · rcases hends with htrue | ⟨on, name, heq⟩
      · rw [htrue] at hlogout
        cases hlogout
      · cases hnone on _ heq
    · exact hsame
  · intro k hk
    obtain ⟨w, -, hw, -⟩ := hs.opened k hk
    exact ⟨w, hw⟩
  · intro k w hw
    obtain ⟨account, hdata⟩ := hs.account k w hw
    refine ⟨account, hdata, hs.username hw hdata, fun hrejected => ?_, ?_⟩
    · exact hs.absent k w hw (by rw [hrejected]; nofun)
    · intro hacc users users' hobs
      exact hs.finds hw hdata hacc hobs

/-- Ann signs up, and the server accepts the write or rejects it. -/
def annSignsUp (accepted : Bool) : List WriteEvent :=
  [.session .openSignUp "",
    .session (.signUpcClicked (some "Ann") (some "ann@mail.co") (some "pw")) "k1",
    .outcome 0 accepted]

/-- Bob signs in with Facebook for the first time, and the server rejects the write. -/
def bobRejected : List WriteEvent :=
  [.session .openLogin "", .session .facebookLoginClicked "",
    .session (.facebookResult 0 (some ⟨"7", some "bob@mail.co", some "Bob"⟩)) "k1",
    .outcome 0 false]

/-- Once Ann's write has been accepted, a login finds her. -/
theorem registration_of_run_annAccepted :
    ∃ s, run step (launch []) (annSignsUp true) = some s ∧
      ∃ account : Users, s.session.username = some account.name ∧
        LoginViewController.Finds [⟨"Ann", "ann@mail.co", "pw"⟩] account := by
  obtain ⟨s, hrun, hopened, hw, hobs⟩ : ∃ s, run step (launch []) (annSignsUp true) = some s ∧
      s.openedBy = some 0 ∧ s.writes[0]?.map Write.outcome = some (some true) ∧
      observeValue [] s.userNode = some [⟨"Ann", "ann@mail.co", "pw"⟩] :=
    ⟨_, rfl, rfl, rfl, rfl⟩
  obtain ⟨w, hget, hacc⟩ := Option.map_eq_some_iff.mp hw
  obtain ⟨account, -, husername, -, hfinds⟩ := (registration_of_run hrun).2.2.2.2 0 w hget
  exact ⟨s, hrun, account, husername hopened, hfinds hacc [] _ hobs⟩

/-- After a rejected write, of either path, the session is still there, and no record. -/
theorem rejected_keeps_session :
    (∃ s, run step (launch []) (annSignsUp false) = some s ∧
      s.writes[0]?.map Write.outcome = some (some false) ∧ s.node = [] ∧
      s.openedBy = some 0 ∧ s.session.username = some "Ann" ∧ s.session.nav.top = .home "Ann") ∧
    (∃ s, run step (launch []) bobRejected = some s ∧
      s.writes[0]?.map Write.outcome = some (some false) ∧ s.node = [] ∧
      s.openedBy = some 0 ∧ s.session.username = some "Bob" ∧ s.session.nav.top = .home "Bob") :=
  ⟨⟨_, rfl, rfl, rfl, rfl, rfl, rfl⟩, ⟨_, rfl, rfl, rfl, rfl, rfl, rfl⟩⟩

-- Ann's write is accepted behind an older record with her e-mail, of which her sign-up screen had
-- not heard: a later login finds the older one, and refuses her password
example : ∃ s users, run step (launch [("k0", accountNode "Anna" "ann@mail.co" "old")])
      (annSignsUp true) = some s ∧
    s.writes[0]?.map Write.outcome = some (some true) ∧ s.session.username = some "Ann" ∧
    observeValue [] s.userNode = some users ∧
    users = [⟨"Anna", "ann@mail.co", "old"⟩, ⟨"Ann", "ann@mail.co", "pw"⟩] ∧
    LoginViewController.loginClicked users (some "ann@mail.co") (some "pw")
      = .alert "Error!" "Incorrect Password" :=
  ⟨_, _, rfl, rfl, rfl, rfl, rfl, rfl⟩

end PendingWrites

end ChildLearning
