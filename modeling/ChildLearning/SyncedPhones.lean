import ChildLearning.KeyedPhones

namespace ChildLearning

open Transition Network FUtilities

/-!
# Phones whose writes are under way

`Phones` has every registration in the node at once.  Here it is what `setValue` makes of it in
the SDK (`FRepo`): the phone sees its own write first, over what the server has sent; the server
answers in its own time and may reject the write, which the phone then takes out again; and what
the server has accepted reaches the other phones one after the other.  As in `Phones`, no two
writes have the same key.  `named_of_run` says whose names the phones store and show.
-/

/-! ### The machine -/

/-- `childByAutoId().setValue(data)`: the phone that has called it, the child that it asks for,
    and the answer of the server. -/
structure PhoneWrite where
  phone : ℕ
  record : Record
  outcome : Option Bool := none

/-- A phone: its session, the statics of `FNextPushId`, how many children of `User` the server has
    sent, its own writes that it has no answer for, and the events that wait for the main queue,
    each with its account screen and the children in the snapshot. -/
structure SyncedPhone where
  session : Session := .launch
  generator : FNextPushId := .launch
  received : ℕ := 0
  own : List Record := []
  raised : List (ℕ × List Record) := []

/-- All phones; the children that the server has accepted, in this order; and all writes made so
    far. -/
structure SyncedPhones where
  node : List Record := []
  writes : List PhoneWrite := []
  phones : List SyncedPhone

/-- One event. -/
inductive SyncEvent where
  /-- An event of the session of phone `p`, other than a snapshot; `call` is how `childByAutoId`
      calls `get` if it registers. -/
  | session (p : ℕ) (call : PushCall) (e : SessionEvent)
  /-- The server accepts write `k`, or rejects it. -/
  | answered (k : ℕ) (accepted : Bool)
  /-- Phone `p` has now been sent the first `k` children. -/
  | received (p k : ℕ)
  /-- Phone `p` gets the answer to its write `k`. -/
  | acked (p k : ℕ)
  /-- The SDK raises an event for account screen `i` of phone `p`: here at any time, in the SDK when
      the view has changed, or the screen has just been opened, and the whole node is known. -/
  | raised (p i : ℕ)
  /-- The main queue of phone `p` hands the next event to its screen. -/
  | delivered (p : ℕ)
  /-- The app is terminated and started again. -/
  | relaunch (p : ℕ)

namespace SyncedPhones

/-- This many phones that have just been started, over an empty node. -/
def launch (n : ℕ) : SyncedPhones := { phones := List.replicate n {} }

/-- The children that the server has sent a phone. -/
def sent (s : SyncedPhones) (phone : SyncedPhone) : List Record := s.node.take phone.received

/-- The children of `User` on a phone, in the order of their keys: what the server has sent, and
    its own writes over it. -/
def view (s : SyncedPhones) (phone : SyncedPhone) : List Record :=
  (s.sent phone ++ phone.own.filter fun r => r.key ∉ (s.sent phone).map Record.key).insertionSort
    fun r r' => (compareKey r.key r'.key).isLE

/-- Phone `p` becomes this one. -/
def set (s : SyncedPhones) (p : ℕ) (phone : SyncedPhone) : SyncedPhones :=
  { s with phones := s.phones.set p phone }

/-- One event. -/
def step (s : SyncedPhones) : SyncEvent → Option SyncedPhones
  | .session p call e =>
    if e.isObserved then none
    else s.phones[p]?.bind fun phone => (phone.session.step e).bind fun session =>
      match phone.session.record "" e with
      | none => some (s.set p { phone with session := session })
      | some _ => (phone.generator.get call).bind fun pushed =>
        (phone.session.record pushed.1 e).bind fun r =>
          if r.key ∈ s.writes.map (·.record.key) then none
          else some
            { s.set p
                { phone with
                  session := session
                  generator := pushed.2
                  own := phone.own ++ [r] } with
              writes := s.writes ++ [{ phone := p, record := r }] }
  | .answered k accepted => s.writes[k]?.bind fun w =>
    if w.outcome = none then some
      { s with
        writes := s.writes.set k { w with outcome := some accepted }
        node := if accepted then s.node ++ [w.record] else s.node }
    else none
  | .received p k => s.phones[p]?.bind fun phone =>
    if phone.received ≤ k ∧ k ≤ s.node.length then some (s.set p { phone with received := k })
    else none
  | .acked p k => s.phones[p]?.bind fun phone => s.writes[k]?.bind fun w =>
    -- accepted or not, what the server has sent shows again
    if w.phone = p ∧ w.outcome.isSome then
      some (s.set p { phone with own := phone.own.filter fun r => r.key ≠ w.record.key })
    else none
  | .raised p i => s.phones[p]?.bind fun phone =>
    if i < phone.session.screens.length then
      some (s.set p { phone with raised := phone.raised ++ [(i, s.view phone)] })
    else none
  | .delivered p => s.phones[p]?.bind fun phone =>
    match phone.raised with
    | [] => none
    | (i, children) :: raised =>
      (phone.session.step (.observed i (nodeSnapshot children))).map fun session =>
        s.set p { phone with session := session, raised := raised }
  | .relaunch p => s.phones[p]?.map fun phone =>
    -- nothing is kept on disk, and the server begins with all that it has
    s.set p { session := phone.session.relaunch, received := s.node.length }

end SyncedPhones

/-! ### What a step can do -/

/-- What an event of phone `p` makes of it, and the record that it writes. -/
inductive SyncedPhones.Turns (s : SyncedPhones) (p : ℕ) (phone : SyncedPhone) :
    SyncEvent → Option Record → SyncedPhone → Prop
  | session {call : PushCall} {e : SessionEvent} {session : Session}
      (hobserved : e.isObserved = false) (hstep : phone.session.step e = some session)
      (hrecord : phone.session.record "" e = none) :
      Turns s p phone (.session p call e) none { phone with session := session }
  | pushed {call : PushCall} {e : SessionEvent} {session : Session}
      {pushed : String × FNextPushId} {r : Record}
      (hobserved : e.isObserved = false) (hstep : phone.session.step e = some session)
      (hget : phone.generator.get call = some pushed)
      (hrecord : phone.session.record pushed.1 e = some r)
      (hkey : r.key ∉ s.writes.map (·.record.key)) :
      Turns s p phone (.session p call e) (some r)
        { phone with session := session, generator := pushed.2, own := phone.own ++ [r] }
  | received {k : ℕ} (hle : phone.received ≤ k) (hlen : k ≤ s.node.length) :
      Turns s p phone (.received p k) none { phone with received := k }
  | acked {k : ℕ} {own : List Record} (hown : ∀ r ∈ own, r ∈ phone.own) :
      Turns s p phone (.acked p k) none { phone with own := own }
  | raised {i : ℕ} (hscreen : i < phone.session.screens.length) :
      Turns s p phone (.raised p i) none
        { phone with raised := phone.raised ++ [(i, s.view phone)] }
  | delivered {i : ℕ} {children : List Record} {raised : List (ℕ × List Record)}
      {session : Session} (hraised : phone.raised = (i, children) :: raised)
      (hstep : phone.session.step (.observed i (nodeSnapshot children)) = some session) :
      Turns s p phone (.delivered p) none { phone with session := session, raised := raised }
  | relaunch :
      Turns s p phone (.relaunch p) none
        { session := phone.session.relaunch, received := s.node.length }

namespace SyncedPhones

variable {s s' : SyncedPhones} {ev : SyncEvent}

/-- **What a step can do**: the server answers a write, or one phone takes a turn, and may write a
    record. -/
theorem step_cases (h : s.step ev = some s') :
    (∃ k w accepted, ev = .answered k accepted ∧ s.writes[k]? = some w ∧ s'.phones = s.phones ∧
      s'.writes = s.writes.set k { w with outcome := some accepted } ∧
      s'.node = if accepted then s.node ++ [w.record] else s.node) ∨
    ∃ p phone new phone', s.phones[p]? = some phone ∧ s.Turns p phone ev new phone' ∧
      s'.phones = s.phones.set p phone' ∧
      s'.writes = s.writes ++ new.toList.map (fun r => ⟨p, r, none⟩) ∧ s'.node = s.node := by
  have hsame : s.writes = s.writes ++ none.toList.map fun r => (⟨0, r, none⟩ : PhoneWrite) :=
    (List.append_nil _).symm
  cases ev with
  | answered k accepted =>
    obtain ⟨w, hw, hstep⟩ := Option.bind_eq_some_iff.mp h
    obtain ⟨-, hs'⟩ := Option.ite_none_right_eq_some.mp hstep
    cases hs'
    exact Or.inl ⟨k, w, accepted, rfl, hw, rfl, rfl, rfl⟩
  | session p call e =>
    obtain ⟨hobserved, hbind⟩ := Option.ite_none_left_eq_some.mp h
    rw [Bool.not_eq_true] at hobserved
    obtain ⟨phone, hphone, hbind⟩ := Option.bind_eq_some_iff.mp hbind
    obtain ⟨session, hsession, hwrite⟩ := Option.bind_eq_some_iff.mp hbind
    cases hrecord : phone.session.record "" e with
    | none =>
      rw [hrecord] at hwrite
      cases hwrite
      exact Or.inr ⟨p, phone, none, _, hphone, .session hobserved hsession hrecord, rfl, hsame,
        rfl⟩
    | some _ =>
      rw [hrecord] at hwrite
      obtain ⟨pushed, hget, hwrite⟩ := Option.bind_eq_some_iff.mp hwrite
      obtain ⟨r, hr, hwrite⟩ := Option.bind_eq_some_iff.mp hwrite
      obtain ⟨hkey, hs'⟩ := Option.ite_none_left_eq_some.mp hwrite
      cases hs'
      exact Or.inr ⟨p, phone, some r, _, hphone, .pushed hobserved hsession hget hr hkey, rfl, rfl,
        rfl⟩
  | received p k =>
    obtain ⟨phone, hphone, hstep⟩ := Option.bind_eq_some_iff.mp h
    obtain ⟨⟨hle, hlen⟩, hs'⟩ := Option.ite_none_right_eq_some.mp hstep
    cases hs'
    exact Or.inr ⟨p, phone, none, _, hphone, .received hle hlen, rfl, hsame, rfl⟩
  | acked p k =>
    obtain ⟨phone, hphone, hstep⟩ := Option.bind_eq_some_iff.mp h
    obtain ⟨w, -, hstep⟩ := Option.bind_eq_some_iff.mp hstep
    obtain ⟨-, hs'⟩ := Option.ite_none_right_eq_some.mp hstep
    cases hs'
    exact Or.inr ⟨p, phone, none, _, hphone, .acked fun r hr => List.mem_of_mem_filter hr,
      rfl, hsame, rfl⟩
  | raised p i =>
    obtain ⟨phone, hphone, hstep⟩ := Option.bind_eq_some_iff.mp h
    obtain ⟨hscreen, hs'⟩ := Option.ite_none_right_eq_some.mp hstep
    cases hs'
    exact Or.inr ⟨p, phone, none, _, hphone, .raised hscreen, rfl, hsame, rfl⟩
  | delivered p =>
    obtain ⟨phone, hphone, hstep⟩ := Option.bind_eq_some_iff.mp h
    cases hraised : phone.raised with
    | nil =>
      rw [hraised] at hstep
      cases hstep
    | cons event raised =>
      obtain ⟨i, children⟩ := event
      rw [hraised] at hstep
      obtain ⟨session, hsession, rfl⟩ := Option.map_eq_some_iff.mp hstep
      exact Or.inr ⟨p, phone, none, _, hphone, .delivered hraised hsession, rfl, hsame, rfl⟩
  | relaunch p =>
    obtain ⟨phone, hphone, rfl⟩ := Option.map_eq_some_iff.mp h
    exact Or.inr ⟨p, phone, none, _, hphone, .relaunch, rfl, hsame, rfl⟩

end SyncedPhones

/-! ### The names of a session -/

namespace Session

variable {s s' : Session} {e : SessionEvent} {name : String}

/-- The name is stored, or a Home shows it.  A Home that a relaunch has restored shows none. -/
def ShowsName (s : Session) (name : String) : Prop :=
  s.username = some name ∨ name ≠ "" ∧ .home name ∈ s.nav.viewControllers

/-- A step keeps the stored name, or stores that of its decision, or removes it. -/
theorem username_or_storedName (h : s.step e = some s') (hname : s'.username = some name) :
    s.username = some name ∨ s.storedName e = some name := by
  cases hhandled : s.handled e with
  | some decision =>
    obtain ⟨on, action⟩ := decision
    obtain ⟨pending, rfl⟩ := step_of_handled hhandled h
    have hstored : s.storedName e = action.storedName := by
      simp [storedName, hhandled]
    rw [hstored]
    unfold perform at hname
    cases haction : action.storedName with
    | none => rw [haction] at hname; exact Or.inl hname
    | some stored => rw [haction] at hname; exact Or.inr hname
  | none =>
    cases hlogout : e.isLogout with
    | false => exact Or.inl (username_of_step hhandled hlogout h ▸ hname)
    | true =>
      cases e with
      | logout =>
        obtain ⟨-, hs⟩ := Option.ite_none_right_eq_some.mp h
        obtain ⟨nav, -, rfl⟩ := Option.map_eq_some_iff.mp hs
        cases hname
      | _ => cases hlogout

/-- A Home that is new on the stack shows the name that is now stored. -/
theorem home_or_username (hwf : WellFormed s.nav) (h : s.step e = some s')
    (hmem : .home name ∈ s'.nav.viewControllers) :
    .home name ∈ s.nav.viewControllers ∨ s'.username = some name := by
  rcases effect_of_step h with ⟨-, -, hnav⟩ | ⟨-, heffect⟩
  · rw [hnav] at hmem
    exact Or.inl hmem
  · generalize s'.username = username at heffect ⊢
    generalize s'.nav = nav at heffect hmem
    cases heffect with
    | same => exact Or.inl hmem
    | pushed c hhome =>
      rcases NavStack.mem_viewControllers_push.mp hmem with rfl | hold
      · cases hhome
      · exact Or.inl hold
    | popped => exact Or.inl (NavStack.mem_of_mem_pop hmem)
    | opened stored =>
      rcases NavStack.mem_viewControllers_push.mp hmem with hnew | hold
      · exact Or.inr (congrArg some (Controller.home.inj hnew).symm)
      · exact Or.inl hold
    | loggedOut nav' hlogout =>
      rw [hwf.popToEach_eq] at hlogout
      cases hlogout
      cases List.mem_singleton.mp hmem

/-- A step adds no other name than the one that its decision stores. -/
theorem ShowsName.of_step (hwf : WellFormed s.nav) (h : s.step e = some s')
    (hname : s'.ShowsName name) : s.ShowsName name ∨ s.storedName e = some name := by
  rcases hname with hstored | ⟨hne, hmem⟩
  · exact (username_or_storedName h hstored).imp_left Or.inl
  · rcases home_or_username hwf h hmem with hold | hstored
    · exact Or.inl (Or.inr ⟨hne, hold⟩)
    · exact (username_or_storedName h hstored).imp_left Or.inl

/-- A relaunch keeps the stored name, and shows none. -/
theorem ShowsName.of_relaunch (hname : s.relaunch.ShowsName name) : s.ShowsName name := by
  rcases hname with hstored | ⟨hne, hmem⟩
  · refine Or.inl ?_
    unfold relaunch at hstored
    cases husername : s.username with
    | none => rw [husername] at hstored; cases hstored
    | some userName =>
      rw [husername] at hstored
      dsimp only at hstored
      split_ifs at hstored <;> exact hstored
  · rcases NavigationBar.nav_relaunch s with hnav | hnav
    · rw [hnav] at hmem
      cases List.mem_singleton.mp hmem
    · rw [hnav] at hmem
      rcases List.mem_cons.mp hmem with hroot | hmem
      · cases hroot
      · exact absurd (Controller.home.inj (List.mem_singleton.mp hmem)) hne

/-- **Where a stored name comes from**: from the list of a screen, or from the record that is
    written. -/
theorem storedName_cases (h : s.storedName e = some name) :
    (∃ users ∈ s.screens, ∃ user ∈ users, user.name = name) ∨
      (s.record "" e).isSome = true ∧ ∀ key r, s.record key e = some r →
        ∃ user, r.account = some user ∧ user.name = name := by
  obtain ⟨⟨on, action⟩, hhandled, hname⟩ := Option.bind_eq_some_iff.mp h
  cases e with
  | loginClicked txtFEmail txtFPassword =>
    simp only [handled] at hhandled
    split at hhandled
    case h_1 i htop =>
      obtain ⟨users, husers, hdecided⟩ := Option.map_eq_some_iff.mp hhandled
      cases hdecided
      rw [loginClicked_storedName] at hname
      obtain ⟨-, hname⟩ := Option.ite_none_right_eq_some.mp hname
      obtain ⟨user, hu, hname⟩ := Option.bind_eq_some_iff.mp hname
      obtain ⟨-, hname⟩ := Option.ite_none_right_eq_some.mp hname
      cases hname
      exact Or.inl ⟨users, List.mem_of_getElem? husers, user, List.mem_of_find?_eq_some hu, rfl⟩
    case h_2 => cases hhandled
  | signUpcClicked txtFName txtFEmail txtFPassword =>
    have hrecord := hhandled
    simp only [handled] at hhandled
    split at hhandled
    case h_1 i htop =>
      obtain ⟨users, husers, hdecided⟩ := Option.map_eq_some_iff.mp hhandled
      cases hdecided
      rw [signUpcClicked_storedName] at hname
      obtain ⟨haccepted, hname⟩ := Option.ite_none_right_eq_some.mp hname
      cases hname
      refine Or.inr ⟨?_, fun key r hr => ?_⟩
      · simp [record, hrecord, SignUpViewController.signUpcClicked_written, haccepted]
      · obtain ⟨-, -, hr⟩ := Option.bind_eq_some_iff.mp hr
        cases hr
        exact ⟨_, Record.account_of_signUp rfl, rfl⟩
    case h_2 => cases hhandled
  | facebookResult i result =>
    cases result with
    | none => cases hhandled
    | some profile =>
      have hrecord := hhandled
      obtain ⟨users, husers, hdecided⟩ := Option.map_eq_some_iff.mp hhandled
      cases hdecided
      rcases LoginViewController.getFBUserData_storedName_eq_some.mp hname with
        ⟨hnew, rfl⟩ | ⟨user, hu, -, rfl⟩
      · refine Or.inr ⟨?_, fun key r hr => ?_⟩
        · simp [record, hrecord, LoginViewController.getFBUserData,
            LoginViewController.signupObserverFirebase_written, isRegistered_eq_isSome, hnew]
        · obtain ⟨-, -, hr⟩ := Option.bind_eq_some_iff.mp hr
          cases hr
          exact ⟨_, Record.account_of_facebook rfl, rfl⟩
      · exact Or.inl ⟨users, List.mem_of_getElem? husers, user, List.mem_of_find?_eq_some hu, rfl⟩
  | _ => cases hhandled

end Session

/-! ### Whose names a phone shows -/

/-- A record that is known is of an account with this name. -/
def HasAccount (known : Record → Prop) (name : String) : Prop :=
  ∃ r, known r ∧ ∃ user, r.account = some user ∧ user.name = name

/-- A session shows the names of known accounts only, and has no others on its lists. -/
structure Session.Tracks (known : Record → Prop) (s : Session) : Prop where
  wf : Session.WellFormed s.nav
  listed : ∀ users ∈ s.screens, ∀ user ∈ users, ∃ r, known r ∧ r.account = some user
  named : ∀ name, s.ShowsName name → HasAccount known name

/-- And neither has its phone, among its writes and in its events, each of which is for a screen
    that there is. -/
structure SyncedPhone.Tracks (known : Record → Prop) (phone : SyncedPhone) : Prop where
  session : phone.session.Tracks known
  own : ∀ r ∈ phone.own, known r
  raised : ∀ event ∈ phone.raised,
    event.1 < phone.session.screens.length ∧ ∀ r ∈ event.2, known r

section Tracks

variable {known known' : Record → Prop} {s s' : Session} {e : SessionEvent} {name : String}
  {phone : SyncedPhone}

theorem HasAccount.mono (h : HasAccount known name) (hsub : ∀ r, known r → known' r) :
    HasAccount known' name := by
  obtain ⟨r, hr, hacc⟩ := h
  exact ⟨r, hsub r hr, hacc⟩

theorem Session.Tracks.mono (h : s.Tracks known) (hsub : ∀ r, known r → known' r) :
    s.Tracks known' := by
  refine ⟨h.wf, fun users husers user huser => ?_, fun name hname => (h.named name hname).mono hsub⟩
  obtain ⟨r, hr, hacc⟩ := h.listed users husers user huser
  exact ⟨r, hsub r hr, hacc⟩

theorem SyncedPhone.Tracks.mono (h : phone.Tracks known) (hsub : ∀ r, known r → known' r) :
    phone.Tracks known' :=
  ⟨h.session.mono hsub, fun r hr => hsub r (h.own r hr), fun event hevent =>
    ⟨(h.raised event hevent).1, fun r hr => hsub r ((h.raised event hevent).2 r hr)⟩⟩

namespace Session

/-- Other events than snapshots only open new lists. -/
theorem screens_of_session (hobserved : e.isObserved = false) (hwf : WellFormed s.nav)
    (h : s.step e = some s') : s'.screens = s.screens ∨ s'.screens = s.screens ++ [[]] := by
  cases hopens : e.opens with
  | none => exact Or.inl (screens_of_step hopens hobserved hwf h).1
  | some kind => exact Or.inr (screens_of_opens hopens h).1

/-- No list is lost. -/
theorem length_screens_le (hobserved : e.isObserved = false) (hwf : WellFormed s.nav)
    (h : s.step e = some s') : s.screens.length ≤ s'.screens.length := by
  rcases screens_of_session hobserved hwf h with hscreens | hscreens
  · rw [hscreens]
  · rw [hscreens, List.length_append]
    exact Nat.le_add_right _ _

/-- An event of a session, other than a snapshot, that writes known records only. -/
theorem Tracks.step (hs : s.Tracks known) (hobserved : e.isObserved = false)
    (h : s.step e = some s')
    (hrecord : (s.record "" e).isSome = true → ∃ key r, s.record key e = some r ∧ known r) :
    s'.Tracks known := by
  refine ⟨hs.wf.step h, fun users husers => ?_, fun name hname => ?_⟩
  · rcases screens_of_session hobserved hs.wf h with hscreens | hscreens
    · rw [hscreens] at husers
      exact hs.listed users husers
    · rw [hscreens] at husers
      rcases List.mem_append.mp husers with hold | hnew
      · exact hs.listed users hold
      · rw [List.mem_singleton.mp hnew]
        exact nofun
  · rcases hname.of_step hs.wf h with hold | hstored
    · exact hs.named name hold
    · rcases storedName_cases hstored with ⟨users, husers, user, huser, rfl⟩ | ⟨hsome, hwritten⟩
      · obtain ⟨r, hr, hacc⟩ := hs.listed users husers user huser
        exact ⟨r, hr, user, hacc, rfl⟩
      · obtain ⟨key, r, hr, hknown⟩ := hrecord hsome
        exact ⟨r, hknown, hwritten key r hr⟩

/-- A snapshot is appended to the list of its screen. -/
theorem observed_eq_some {i : ℕ} {children : List Record}
    (h : s.step (.observed i (nodeSnapshot children)) = some s') :
    ∃ users places, s.screens[i]? = some users ∧ children.mapM Record.account = some places ∧
      s' = { s with screens := s.screens.set i (users ++ places) } := by
  obtain ⟨users, husers, hobserved⟩ := Option.bind_eq_some_iff.mp h
  obtain ⟨users', hobs, rfl⟩ := Option.map_eq_some_iff.mp hobserved
  rw [observeValue_eq, children_nodeSnapshot, List.mapM_map] at hobs
  obtain ⟨places, hplaces, rfl⟩ := Option.map_eq_some_iff.mp hobs
  exact ⟨users, places, husers, hplaces, rfl⟩

/-- A snapshot of known records. -/
theorem Tracks.observed {i : ℕ} {children : List Record} (hs : s.Tracks known)
    (h : s.step (.observed i (nodeSnapshot children)) = some s')
    (hchildren : ∀ r ∈ children, known r) : s'.Tracks known := by
  refine ⟨hs.wf.step h, fun users husers user huser => ?_, ?_⟩
  · obtain ⟨users₀, places, husers₀, hplaces, rfl⟩ := observed_eq_some h
    rcases List.mem_or_eq_of_mem_set husers with hold | rfl
    · exact hs.listed users hold user huser
    · rcases List.mem_append.mp huser with hold | hnew
      · exact hs.listed users₀ (List.mem_of_getElem? husers₀) user hold
      · obtain ⟨r, hr, hacc⟩ := Decode.exists_of_mem_mapM hplaces hnew
        exact ⟨r, hchildren r hr, hacc⟩
  · obtain ⟨users₀, places, -, -, rfl⟩ := observed_eq_some h
    exact hs.named

/-- A relaunch. -/
theorem Tracks.relaunch (hs : s.Tracks known) : s.relaunch.Tracks known := by
  refine ⟨(NavigationBar.layered_relaunch s).wf, fun users husers => ?_, fun name hname =>
    hs.named name hname.of_relaunch⟩
  rw [s.screens_relaunch] at husers
  cases husers

end Session

end Tracks

namespace SyncedPhones

/-- Who has asked for which child. -/
def requests (s : SyncedPhones) : List (ℕ × Record) := s.writes.map fun w => (w.phone, w.record)

/-- A phone knows the records of the node, and those that it has written itself, whatever has
    become of them. -/
def KnownTo (s : SyncedPhones) (p : ℕ) (r : Record) : Prop := r ∈ s.node ∨ (p, r) ∈ s.requests

/-- The invariant. -/
structure Consistent (s : SyncedPhones) : Prop where
  tracks : ∀ (p : ℕ) (phone : SyncedPhone), s.phones[p]? = some phone → phone.Tracks (s.KnownTo p)
  accepted : ∀ w ∈ s.writes, w.outcome = some true → w.record ∈ s.node
  requested : ∀ r ∈ s.node, ∃ p, (p, r) ∈ s.requests
  emails : ∀ q ∈ s.requests, q.2.email.isSome = true
  keys : (s.requests.map fun q => q.2.key).Nodup

variable {s s' : SyncedPhones} {ev : SyncEvent} {p : ℕ} {phone phone' : SyncedPhone}
  {r : Record} {new : Option Record}

/-- An answer keeps the requests. -/
theorem requests_of_answer {k : ℕ} {w : PhoneWrite} {outcome : Option Bool}
    (hw : s.writes[k]? = some w) (hwrites : s'.writes = s.writes.set k { w with outcome := outcome }) :
    s'.requests = s.requests := by
  have hget : s.requests[k]? = some (w.phone, w.record) := by
    rw [requests, List.getElem?_map, hw, Option.map_some]
  obtain ⟨hk, hrequest⟩ := List.getElem?_eq_some_iff.mp hget
  rw [requests, hwrites, List.map_set]
  show s.requests.set k (w.phone, w.record) = s.requests
  rw [← hrequest, List.set_getElem_self]

/-- A turn may add one. -/
theorem requests_of_turn
    (hwrites : s'.writes = s.writes ++ new.toList.map fun r => ⟨p, r, none⟩) :
    s'.requests = s.requests ++ new.toList.map fun r => (p, r) := by
  rw [requests, hwrites, List.map_append, List.map_map]
  rfl

theorem mem_view (hr : r ∈ s.view phone) : r ∈ s.sent phone ∨ r ∈ phone.own := by
  rw [view, List.mem_insertionSort, List.mem_append] at hr
  exact hr.imp_right List.mem_of_mem_filter

/-- A view is in the order of the keys. -/
theorem pairwise_view (s : SyncedPhones) (phone : SyncedPhone) :
    (s.view phone).Pairwise fun r r' => (compareKey r.key r'.key).isLE := by
  let le : Record → Record → Prop := fun r r' => (compareKey r.key r'.key).isLE
  have htotal : Std.Total le := by
    refine ⟨fun r r' => ?_⟩
    show (compareKey r.key r'.key).isLE = true ∨ (compareKey r'.key r.key).isLE = true
    rw [@Std.OrientedCmp.eq_swap _ compareKey _ r'.key r.key]
    cases compareKey r.key r'.key <;> simp
  have htrans : IsTrans Record le := ⟨fun _ _ _ => Std.TransCmp.isLE_trans⟩
  exact List.pairwise_insertionSort le _

/-- A view has known records only. -/
theorem knownTo_of_mem_view (hs : phone.Tracks (s.KnownTo p)) (hr : r ∈ s.view phone) :
    s.KnownTo p r :=
  (mem_view hr).elim (fun hsent => Or.inl (List.mem_of_mem_take hsent)) (hs.own r)

/-- A turn of a phone keeps it to what it knows. -/
theorem Turns.tracks (h : s.Turns p phone ev new phone') (hs : phone.Tracks (s.KnownTo p))
    {known : Record → Prop} (hsub : ∀ r, s.KnownTo p r → known r) (hnew : ∀ r ∈ new, known r) :
    phone'.Tracks known := by
  have hs' := hs.mono hsub
  cases h with
  | session hobserved hstep hrecord =>
    have hsession := hs'.session.step hobserved hstep fun hsome => by
      rw [hrecord] at hsome
      cases hsome
    have hle := Session.length_screens_le hobserved hs.session.wf hstep
    exact ⟨hsession, hs'.own, fun event hevent =>
      ⟨(hs'.raised event hevent).1.trans_le hle, (hs'.raised event hevent).2⟩⟩
  | pushed hobserved hstep hget hrecord hkey =>
    have hsession := hs'.session.step hobserved hstep fun _ => ⟨_, _, hrecord, hnew _ rfl⟩
    have hle := Session.length_screens_le hobserved hs.session.wf hstep
    refine ⟨hsession, fun r hr => ?_, fun event hevent =>
      ⟨(hs'.raised event hevent).1.trans_le hle, (hs'.raised event hevent).2⟩⟩
    rcases List.mem_append.mp hr with hold | hlast
    · exact hs'.own r hold
    · rw [List.mem_singleton.mp hlast]
      exact hnew _ rfl
  | received hle hlen => exact ⟨hs'.session, hs'.own, hs'.raised⟩
  | acked hown => exact ⟨hs'.session, fun r hr => hs'.own r (hown r hr), hs'.raised⟩
  | raised hscreen =>
    refine ⟨hs'.session, hs'.own, fun event hevent => ?_⟩
    rcases List.mem_append.mp hevent with hold | hlast
    · exact hs'.raised event hold
    · rw [List.mem_singleton.mp hlast]
      exact ⟨hscreen, fun r hr => hsub r (knownTo_of_mem_view hs hr)⟩
  | delivered hraised hstep =>
    have hmem : ∀ event ∈ _ :: _, event ∈ phone.raised := fun event hevent => hraised ▸ hevent
    have hchildren := (hs'.raised _ (hmem _ List.mem_cons_self)).2
    refine ⟨hs'.session.observed hstep hchildren, hs'.own, fun event hevent => ?_⟩
    obtain ⟨hlt, hknown⟩ := hs'.raised event (hmem _ (List.mem_cons_of_mem _ hevent))
    obtain ⟨users, places, -, -, rfl⟩ := Session.observed_eq_some hstep
    exact ⟨by rwa [List.length_set], hknown⟩
  | relaunch => exact ⟨hs'.session.relaunch, nofun, nofun⟩

/-- The record of a turn has a new key, and an e-mail. -/
theorem Turns.record_spec (h : s.Turns p phone ev (some r) phone') :
    r.key ∉ s.requests.map (fun q => q.2.key) ∧ r.email.isSome = true := by
  cases h with
  | pushed hobserved hstep hget hrecord hkey =>
    refine ⟨?_, (Session.record_spec hrecord).2⟩
    rw [requests, List.map_map]
    exact hkey

/-- Known records have an e-mail. -/
theorem Consistent.email_isSome (hs : s.Consistent) (hr : s.KnownTo p r) :
    r.email.isSome = true := by
  rcases hr with hnode | hown
  · obtain ⟨q, hq⟩ := hs.requested r hnode
    exact hs.emails _ hq
  · exact hs.emails _ hown

theorem consistent_launch (n : ℕ) : (launch n).Consistent := by
  refine ⟨fun p phone hphone => ?_, nofun, nofun, nofun, List.nodup_nil⟩
  rw [launch, List.getElem?_replicate] at hphone
  obtain ⟨-, heq⟩ := Option.ite_none_right_eq_some.mp hphone
  cases heq
  refine ⟨⟨Session.wellFormed_launch, nofun, fun name hname => ?_⟩, nofun, nofun⟩
  rcases hname with hstored | ⟨-, hmem⟩
  · cases hstored
  · cases List.mem_singleton.mp hmem

/-- The step lemma. -/
theorem Consistent.step (hs : s.Consistent) (h : s.step ev = some s') : s'.Consistent := by
  rcases step_cases h with ⟨k, w, accepted, -, hw, hphones, hwrites, hnode⟩ |
    ⟨p, phone, new, phone', hphone, hturn, hphones, hwrites, hnode⟩
  · -- an answer: a request may be granted
    have hrequests := requests_of_answer hw hwrites
    have hgranted : ∀ r, r ∈ s'.node ↔ r ∈ s.node ∨ accepted = true ∧ r = w.record := by
      intro r
      rw [hnode]
      cases accepted <;> simp
    refine ⟨fun q phone hphone => ?_, fun w' hw' haccepted => ?_, fun r hr => ?_,
      hrequests ▸ hs.emails, hrequests ▸ hs.keys⟩
    · rw [hphones] at hphone
      refine (hs.tracks q phone hphone).mono fun r hr => ?_
      rw [KnownTo, hrequests]
      exact hr.imp_left fun hmem => (hgranted r).mpr (Or.inl hmem)
    · rw [hwrites] at hw'
      rcases List.mem_or_eq_of_mem_set hw' with hold | rfl
      · exact (hgranted _).mpr (Or.inl (hs.accepted w' hold haccepted))
      · exact (hgranted _).mpr (Or.inr ⟨Option.some.inj haccepted, rfl⟩)
    · rw [hrequests]
      rcases (hgranted r).mp hr with hold | ⟨-, rfl⟩
      · exact hs.requested r hold
      · exact ⟨w.phone, List.mem_map_of_mem (List.mem_of_getElem? hw)⟩
  · -- a turn: its phone may make a request
    have hrequests := requests_of_turn hwrites
    have hsub : ∀ q ∈ s.requests, q ∈ s'.requests := fun q hq =>
      hrequests ▸ List.mem_append_left _ hq
    have hknown : ∀ q r, s.KnownTo q r → s'.KnownTo q r := fun q r hr =>
      hr.imp (fun hmem => hnode ▸ hmem) (hsub _)
    refine ⟨fun q other hother => ?_, fun w hw haccepted => ?_, fun r hr => ?_, fun q hq => ?_, ?_⟩
    · rw [hphones] at hother
      rcases Gather.getElem?_set_cases hother with ⟨rfl, rfl⟩ | ⟨-, hold⟩
      · refine hturn.tracks (hs.tracks q phone hphone) (hknown q) fun r hr => Or.inr ?_
        rw [hrequests]
        exact List.mem_append_right _ (List.mem_map_of_mem (by simpa using hr))
      · exact (hs.tracks q other hold).mono (hknown q)
    · rw [hwrites] at hw
      rcases List.mem_append.mp hw with hold | hlast
      · exact hnode ▸ hs.accepted w hold haccepted
      · obtain ⟨r, -, rfl⟩ := List.mem_map.mp hlast
        cases haccepted
    · obtain ⟨q, hq⟩ := hs.requested r (hnode ▸ hr)
      exact ⟨q, hsub _ hq⟩
    · rw [hrequests] at hq
      rcases List.mem_append.mp hq with hold | hlast
      · exact hs.emails q hold
      · obtain ⟨r, hr, rfl⟩ := List.mem_map.mp hlast
        obtain rfl : new = some r := by simpa using hr
        exact hturn.record_spec.2
    · rw [hrequests]
      cases new with
      | none => simpa using hs.keys
      | some r =>
        rw [List.map_append, List.nodup_append]
        refine ⟨hs.keys, List.nodup_singleton _, fun key hkey key' hkey' => ?_⟩
        rw [List.mem_singleton.mp hkey']
        rintro rfl
        exact hturn.record_spec.1 hkey

theorem consistent_of_run {n : ℕ} {es : List SyncEvent} (h : run step (launch n) es = some s) :
    s.Consistent :=
  run_invariant (fun _ _ _ hs hstep => hs.step hstep) (consistent_launch n) h

/-- **Nobody without an account.**  In every state that any number of phones get to, through any
    sessions, writes, answers, snapshots and relaunches in any order: a name that a phone has
    stored, or that one of its Homes shows, is that of an account of the node, or of one that this
    phone has registered itself, whatever has become of its write; and if the server has accepted
    all writes of the phone, it is that of an account of the node. -/
theorem named_of_run {n : ℕ} {es : List SyncEvent} (h : run step (launch n) es = some s)
    (hphone : s.phones[p]? = some phone) {name : String} (hname : phone.session.ShowsName name) :
    HasAccount (fun r => r ∈ s.node ∨ ∃ w ∈ s.writes, w.phone = p ∧ w.record = r) name ∧
      ((∀ w ∈ s.writes, w.phone = p → w.outcome = some true) →
        HasAccount (fun r => r ∈ s.node) name) := by
  have hs := consistent_of_run h
  have hacc := (hs.tracks p phone hphone).session.named name hname
  have hwrite : ∀ r, (p, r) ∈ s.requests → ∃ w ∈ s.writes, w.phone = p ∧ w.record = r := by
    intro r hr
    obtain ⟨w, hw, heq⟩ := List.mem_map.mp hr
    exact ⟨w, hw, (Prod.mk.inj heq).1, (Prod.mk.inj heq).2⟩
  refine ⟨hacc.mono fun r hr => hr.imp_right (hwrite r), fun haccepted =>
    hacc.mono fun r hr => hr.elim id fun hreq => ?_⟩
  obtain ⟨w, hw, hphone, rfl⟩ := hwrite r hreq
  exact hs.accepted w hw (haccepted w hw hphone)

/-- Ann signs up, and the server rejects her record. -/
def annRejected : List SyncEvent :=
  [.session 0 (KeyedPhones.callAt 0) .openSignUp,
    .session 0 (KeyedPhones.callAt 1700000000000)
      (.signUpcClicked (some "Ann") (some "ann@mail.co") (some "pw")),
    .raised 0 0, .answered 0 false, .delivered 0, .acked 0 0]

/-- Her name is stored on her phone: the node is empty, but the phone has written her record. -/
theorem named_of_run_annRejected :
    ∃ s phone, run step (launch 1) annRejected = some s ∧ s.phones[0]? = some phone ∧
      phone.session.username = some "Ann" ∧ s.node = [] ∧
      ∃ w ∈ s.writes, w.record.account.map Users.name = some "Ann" := by
  have hstate : ((run step (launch 1) annRejected).bind fun s => s.phones[0]?.map fun phone =>
      (phone.session.username, s.node.length)) = some (some "Ann", 0) := by decide +kernel
  obtain ⟨s, hrun, hstate⟩ := Option.bind_eq_some_iff.mp hstate
  obtain ⟨phone, hphone, hstate⟩ := Option.map_eq_some_iff.mp hstate
  obtain ⟨hstored, hlength⟩ := Prod.mk.inj hstate
  have hnode : s.node = [] := List.length_eq_zero_iff.mp hlength
  obtain ⟨r, hknown, user, hacc, hname⟩ := (named_of_run hrun hphone (Or.inl hstored)).1
  rw [hnode] at hknown
  obtain ⟨w, hw, -, rfl⟩ := hknown.resolve_left List.not_mem_nil
  refine ⟨s, phone, hrun, hphone, hstored, hnode, w, hw, ?_⟩
  rw [hacc, Option.map_some, hname]

end SyncedPhones

end ChildLearning
