import ChildLearning.Lib.Directory
import ChildLearning.LoginAfterSignUp
import ChildLearning.Crossing

namespace ChildLearning

open Transition Network LoginViewController Directory

/-!
# The screens as one account service

What the account screens are for is a `Directory`: one account for each e-mail, entered with
the password of the sign-up or through Facebook.  The code has no such server: every screen
decides on its own list and writes to the node.  `storedNames_of_run` says that the screens
nevertheless answer as the one server does, as long as every screen that decides on an
e-mail has received its record, and nobody types "facebook" for a password.
-/

/-! ### Requests and answers -/

/-- The screen of the event and what it asks the directory; nothing if the form does not
    pass its checks. -/
def NetEvent.asks : NetEvent → Option (ℕ × Request String String String)
  | .signUpcClicked i _ txtFName txtFEmail txtFPassword =>
    if SignUpViewController.formAccepted txtFName txtFEmail txtFPassword then
      some (i, .register (txtFEmail.getD "") (txtFName.getD "") (txtFPassword.getD ""))
    else none
  | .facebookResult i _ profile =>
    some (i, .vouched (profile.email.getD "") (profile.name.getD ""))
  | .loginClicked i txtFEmail txtFPassword =>
    if LoginViewController.formAccepted txtFEmail txtFPassword then
      some (i, .enter (txtFEmail.getD "") (txtFPassword.getD ""))
    else none
  | _ => none

/-- What the event asks the directory. -/
def NetEvent.request (e : NetEvent) : Option (Request String String String) :=
  e.asks.map Prod.snd

/-- The name that the event stores under "username", if it stores one. -/
def Network.storedName (s : Network) : NetEvent → Option String
  | .signUpcClicked i _ txtFName txtFEmail txtFPassword => (s.screen .signUp i).bind fun scr =>
      (SignUpViewController.signUpcClicked scr.users txtFName txtFEmail txtFPassword).storedName
  | .facebookResult i _ profile => (s.screen .login i).bind fun scr =>
      (getFBUserData scr.users profile.email profile.name).storedName
  | .loginClicked i txtFEmail txtFPassword => (s.screen .login i).bind fun scr =>
      (loginClicked scr.users txtFEmail txtFPassword).storedName
  | _ => none

/-! ### The node as a directory -/

/-- The account of the first record with this e-mail. -/
def lookup (node : List Record) (email : String) : Option Users :=
  (node.find? fun r => r.email = some email).bind Record.account

/-- The account as the directory has it: the password "facebook" stands for Facebook. -/
def Users.entry (user : Users) : Account String String :=
  ⟨user.name, if user.password = "facebook" then .federated else .secret user.password⟩

/-- The node as a directory. -/
def directory (node : List Record) (email : String) : Option (Account String String) :=
  (lookup node email).map Users.entry

/-- The acting screen has received the record of the e-mail it decides on, if there is one;
    and a typed password is not "facebook". -/
structure Orderly (s : Network) (e : NetEvent) : Prop where
  sees : ∀ i request scr, e.asks = some (i, request) → s.screens[i]? = some scr →
    ∀ r ∈ s.node, r.email = some request.key → r ∈ scr.records
  typed : TypedIn {"facebook"}ᶜ {"facebook"}ᶜ e

variable {s s' : Network} {e : NetEvent} {scr : AccountScreen} {email : String}

/-! ### What the screens answer -/

/-- A login stores the name of the first match, if its password is the one typed. -/
theorem loginClicked_storedName (users : List Users) (txtFEmail txtFPassword : Option String) :
    (loginClicked users txtFEmail txtFPassword).storedName
      = if LoginViewController.formAccepted txtFEmail txtFPassword then
          (singleUser users (txtFEmail.getD "")).bind fun user =>
            if user.password = txtFPassword.getD "" then some user.name else none
        else none := by
  unfold loginClicked LoginViewController.formAccepted fetchLogin
  -- the tests of the form one after the other, then the one of the password
  by_cases h₁ : txtFEmail = some ""
  · simp [h₁, ScreenAction.storedName]
  by_cases h₂ : txtFPassword.map String.length = some 0
  · simp [h₁, h₂, ScreenAction.storedName]
  by_cases h₃ : isValidEmail (txtFEmail.getD "") = true
  · cases singleUser users (txtFEmail.getD "") with
    | none => simp [h₁, h₂, h₃, ScreenAction.storedName]
    | some user =>
      by_cases h₄ : user.password = txtFPassword.getD ""
      · simp [h₁, h₂, h₃, h₄, ScreenAction.storedName]
      · simp [h₁, h₂, h₃, h₄, ScreenAction.storedName]
  · simp [h₁, h₂, h₃, ScreenAction.storedName]

/-- A sign-up stores the typed name, if the form passes and the e-mail is not on the list. -/
theorem signUpcClicked_storedName (users : List Users)
    (txtFName txtFEmail txtFPassword : Option String) :
    (SignUpViewController.signUpcClicked users txtFName txtFEmail txtFPassword).storedName
      = if SignUpViewController.formAccepted txtFName txtFEmail txtFPassword ∧
            isRegistered users (txtFEmail.getD "") = false
        then some (txtFName.getD "") else none := by
  unfold SignUpViewController.signUpcClicked SignUpViewController.signupObserverFirebase
    SignUpViewController.formAccepted
  by_cases h₁ : txtFName.map String.length = some 0
  · simp [h₁, ScreenAction.storedName]
  by_cases h₂ : txtFEmail.map String.length = some 0
  · simp [h₁, h₂, ScreenAction.storedName]
  by_cases h₃ : txtFPassword.map String.length = some 0
  · simp [h₁, h₂, h₃, ScreenAction.storedName]
  by_cases h₄ : isValidEmail (txtFEmail.getD "") = true
  · by_cases h₅ : isRegistered users (txtFEmail.getD "") = true
    · simp [h₁, h₂, h₃, h₄, h₅, ScreenAction.storedName]
    · simp [h₁, h₂, h₃, h₄, h₅, ScreenAction.storedName]
  · simp [h₁, h₂, h₃, h₄, ScreenAction.storedName]

/-- A Facebook sign-in stores the name of the profile if the e-mail is new, and that of the
    first match if its password is "facebook". -/
theorem getFBUserData_storedName (users : List Users) (email name : Option String) :
    (getFBUserData users email name).storedName
      = match singleUser users (email.getD "") with
        | none      => some (name.getD "")
        | some user => if user.password = "facebook" then some user.name else none := by
  ext stored
  rw [getFBUserData_storedName_eq_some]
  cases singleUser users (email.getD "") with
  | none => simp
  | some user => simp

/-- The entry opens to a typed password exactly when that is the password. -/
theorem Users.entry_opens_secret (user : Users) {password : String} (h : password ≠ "facebook") :
    user.entry.opens (.secret password)
      = if user.password = password then some user.name else none := by
  unfold Account.opens Users.entry
  by_cases hfacebook : user.password = "facebook"
  · simp [hfacebook, Ne.symm h]
  · simp [hfacebook]

/-- The entry opens to Facebook exactly when the password is "facebook". -/
theorem Users.entry_opens_federated (user : Users) :
    user.entry.opens .federated = if user.password = "facebook" then some user.name else none := by
  unfold Account.opens Users.entry
  by_cases hfacebook : user.password = "facebook"
  · simp [hfacebook]
  · simp [hfacebook]

/-! ### The node after a registration -/

/-- Without an account no record has the e-mail. -/
theorem find?_of_lookup {node : List Record} (h : lookup node email = none) :
    node.find? (fun r => r.email = some email) = none := by
  cases hfind : node.find? fun r => r.email = some email with
  | none => rfl
  | some r =>
    -- a record with a string e-mail decodes
    have hemail : r.email = some email := by simpa using List.find?_some hfind
    obtain ⟨user, hacc, -⟩ := Record.exists_account hemail
    rw [lookup, hfind, Option.bind_some, hacc] at h
    cases h

/-- A record with a new e-mail enters its account. -/
theorem directory_concat {node : List Record} {r : Record} {user : Users}
    (hnew : lookup node email = none) (hemail : r.email = some email)
    (hacc : r.account = some user) :
    directory (node ++ [r]) = Function.update (directory node) email (some user.entry) := by
  funext other
  unfold directory lookup
  rw [List.find?_append]
  by_cases h : other = email
  · subst h
    simp [find?_of_lookup hnew, hemail, hacc]
  · rw [Function.update_of_ne h]
    simp [hemail, Ne.symm h]

/-! ### The refinement -/

/-- A screen that has received the record of an e-mail looks up the account of the node. -/
theorem OneRecordEach.singleUser_eq_lookup (hs : OneRecordEach s) (hscr : scr ∈ s.screens)
    (hsees : ∀ r ∈ s.node, r.email = some email → r ∈ scr.records) :
    singleUser scr.users email = lookup s.node email := by
  cases hfind : s.node.find? fun r => r.email = some email with
  | none =>
    -- an entry on the list would come from a record of the node
    have hnone : singleUser scr.users email = none := by
      by_contra hsome
      obtain ⟨user, hu⟩ := Option.ne_none_iff_exists'.mp hsome
      obtain ⟨r, hr, -, hemail⟩ := hs.exists_record hscr hu
      exact List.find?_eq_none.mp hfind r hr (by simpa using hemail)
    rw [hnone, lookup, hfind]
    rfl
  | some r =>
    have hemail : r.email = some email := by simpa using List.find?_some hfind
    obtain ⟨user, hacc, rfl⟩ := Record.exists_account hemail
    rw [hs.singleUser_of_received hscr (hsees r (List.mem_of_find?_eq_some hfind) hemail) hacc,
      lookup, hfind, Option.bind_some, hacc]

/-- An event that registers asks for the e-mail it checks. -/
theorem asks_of_registration {i : ℕ} {r : Record} (h : e.registration = some (i, email, r)) :
    ∃ request, e.asks = some (i, request) ∧ request.key = email := by
  rcases NetEvent.registration_cases h with
    ⟨key, txtFName, txtFEmail, txtFPassword, rfl, hform, rfl, rfl⟩ | ⟨key, profile, rfl, rfl, rfl⟩
  · exact ⟨.register (txtFEmail.getD "") (txtFName.getD "") (txtFPassword.getD ""),
      if_pos hform, rfl⟩
  · exact ⟨.vouched (profile.email.getD "") (profile.name.getD ""), rfl, rfl⟩

/-- An orderly event sees the e-mail it registers. -/
theorem Orderly.seesEmail (h : Orderly s e) : SeesEmail s e := by
  intro i email r scr hreg hscr hmem
  obtain ⟨request, hasks, hkey⟩ := asks_of_registration hreg
  obtain ⟨seen, hseen, hemail⟩ := List.mem_filterMap.mp hmem
  obtain ⟨user, hacc, huser⟩ := Record.exists_account hemail
  exact ⟨seen, h.sees i request scr hasks hscr seen hseen (hkey ▸ hemail), user, hacc, huser⟩

/-- In an orderly step the screen and the node have the same account for the e-mail. -/
theorem OneRecordEach.singleUser_of_asks (hs : OneRecordEach s) (ho : Orderly s e) {kind : ScreenKind}
    {i : ℕ} {request : Request String String String} (hasks : e.asks = some (i, request))
    (hscr : s.screen kind i = some scr) :
    singleUser scr.users request.key = lookup s.node request.key := by
  obtain ⟨hget, -⟩ := screen_eq_some hscr
  exact hs.singleUser_eq_lookup (List.mem_of_getElem? hget) (ho.sees i request scr hasks hget)

/-- A login is answered as the directory answers, which it leaves alone. -/
theorem serve_loginClicked (hs : OneRecordEach s) {i : ℕ} {txtFEmail txtFPassword : Option String}
    (ho : Orderly s (.loginClicked i txtFEmail txtFPassword))
    (h : step s (.loginClicked i txtFEmail txtFPassword) = some s') :
    serve (directory s.node) (NetEvent.request (.loginClicked i txtFEmail txtFPassword))
      = (s.storedName (.loginClicked i txtFEmail txtFPassword), directory s'.node) := by
  rw [node_of_registration_none rfl h]
  obtain ⟨scr, hscr, rfl⟩ := Option.map_eq_some_iff.mp h
  have hstored : s.storedName (.loginClicked i txtFEmail txtFPassword)
      = (loginClicked scr.users txtFEmail txtFPassword).storedName := by simp [storedName, hscr]
  rw [hstored, loginClicked_storedName]
  by_cases hform : LoginViewController.formAccepted txtFEmail txtFPassword = true
  · have hpick : singleUser scr.users (txtFEmail.getD "") = lookup s.node (txtFEmail.getD "") :=
      hs.singleUser_of_asks ho (if_pos hform) hscr
    have hpassword : txtFPassword.getD "" ≠ "facebook" := ho.typed
    rw [if_pos hform, hpick]
    cases hlookup : lookup s.node (txtFEmail.getD "") with
    | none => simp [NetEvent.request, NetEvent.asks, hform, serve, directory, hlookup]
    | some user =>
      simp [NetEvent.request, NetEvent.asks, hform, serve, directory, hlookup,
        user.entry_opens_secret hpassword]
  · simp [NetEvent.request, NetEvent.asks, hform, serve]

/-- A registration on a list that has the account of the node: written exactly when the node
    has none. -/
theorem directory_of_registration (ho : Orderly s e) (hs : OneRecordEach s) {i : ℕ} {r : Record}
    {user : Users} (hreg : e.registration = some (i, email, r)) (hacc : r.account = some user)
    (h : step s e = some s') :
    ∃ scr, s.screens[i]? = some scr ∧ singleUser scr.users email = lookup s.node email ∧
      directory s'.node = match lookup s.node email with
        | some _ => directory s.node
        | none   => Function.update (directory s.node) email (some user.entry) := by
  obtain ⟨request, hasks, rfl⟩ := asks_of_registration hreg
  obtain ⟨kind, hstep⟩ := @step_of_registration s e i request.key r hreg
  rw [hstep] at h
  obtain ⟨scr, hscr, hdecide⟩ := Option.bind_eq_some_iff.mp h
  have hpick := hs.singleUser_of_asks ho hasks hscr
  refine ⟨scr, (screen_eq_some hscr).1, hpick, ?_⟩
  rw [isRegistered_eq_isSome, hpick] at hdecide
  cases hlookup : lookup s.node request.key with
  | some known =>
    rw [hlookup] at hdecide
    obtain rfl : s = s' := Option.some.inj hdecide
    rfl
  | none =>
    rw [hlookup] at hdecide
    rw [(setValue_eq_some hdecide).1,
      directory_concat hlookup (NetEvent.email_of_registration hreg) hacc]

/-- **One step.** In an orderly step the screen answers as the directory, and the node becomes
    the directory afterwards. -/
theorem serve_directory (hs : OneRecordEach s) (ho : Orderly s e) (h : step s e = some s') :
    serve (directory s.node) e.request = (s.storedName e, directory s'.node) := by
  cases e with
  | opened kind => rw [node_of_registration_none rfl h]; rfl
  | deliver i positions => rw [node_of_registration_none rfl h]; rfl
  | loginClicked i txtFEmail txtFPassword => exact serve_loginClicked hs ho h
  | signUpcClicked i key txtFName txtFEmail txtFPassword =>
    obtain ⟨scr, hscr, -⟩ := Option.bind_eq_some_iff.mp h
    have hstored : s.storedName (.signUpcClicked i key txtFName txtFEmail txtFPassword)
        = (SignUpViewController.signUpcClicked scr.users txtFName txtFEmail txtFPassword).storedName :=
      by simp [storedName, hscr]
    rw [hstored, signUpcClicked_storedName]
    by_cases hform : SignUpViewController.formAccepted txtFName txtFEmail txtFPassword = true
    · obtain ⟨scr', hscr', hpick, hnode⟩ :=
        directory_of_registration ho hs (if_pos hform) (Record.account_of_signUp rfl) h
      obtain rfl : scr = scr' := Option.some.inj ((screen_eq_some hscr).1.symm.trans hscr')
      have hpassword : txtFPassword.getD "" ≠ "facebook" := ho.typed
      rw [isRegistered_eq_isSome, hpick, hnode]
      cases hlookup : lookup s.node (txtFEmail.getD "") with
      | none =>
        simp [NetEvent.request, NetEvent.asks, hform, serve, directory, hlookup, Users.entry,
          hpassword]
      | some user => simp [NetEvent.request, NetEvent.asks, hform, serve, directory, hlookup]
    · have hnone : (NetEvent.signUpcClicked i key txtFName txtFEmail txtFPassword).registration
          = none := if_neg hform
      rw [node_of_registration_none hnone h]
      simp [NetEvent.request, NetEvent.asks, hform, serve]
  | facebookResult i key profile =>
    obtain ⟨scr, hscr, -⟩ := Option.bind_eq_some_iff.mp h
    have hstored : s.storedName (.facebookResult i key profile)
        = (getFBUserData scr.users profile.email profile.name).storedName := by
      simp [storedName, hscr]
    obtain ⟨scr', hscr', hpick, hnode⟩ :=
      directory_of_registration ho hs rfl (Record.account_of_facebook rfl) h
    obtain rfl : scr = scr' := Option.some.inj ((screen_eq_some hscr).1.symm.trans hscr')
    rw [hstored, getFBUserData_storedName, hpick, hnode]
    cases hlookup : lookup s.node (profile.email.getD "") with
    | none => simp [NetEvent.request, NetEvent.asks, serve, directory, hlookup, Users.entry]
    | some user =>
      simp [NetEvent.request, NetEvent.asks, serve, directory, hlookup,
        user.entry_opens_federated]

variable {es : List NetEvent}

/-- From a node with one record for each e-mail, an orderly history refines the directory. -/
theorem outputs_of_orderly {s₀ : Network} (hs : OneRecordEach s₀) (hrun : run step s₀ es = some s)
    (horderly : Along step (fun s e _ => Orderly s e) s₀ es) :
    outputs step storedName s₀ es = answers serve (directory s₀.node) (es.map NetEvent.request) ∧
      directory s.node = served serve (directory s₀.node) (es.map NetEvent.request) :=
  outputs_eq_answers (I := OneRecordEach) (C := fun s e _ => Orderly s e)
    (fun _ _ _ hs ho hstep =>
      ⟨hs.step_of_seesEmail ho.seesEmail hstep, serve_directory hs ho hstep⟩)
    hs horderly hrun

/-- **One account service.**  Along every orderly history, on any number of screens, the names
    stored are the answers of one directory that serves the same requests one after the other,
    and the node ends as that directory does. -/
theorem storedNames_of_run (hrun : run step (launch []) es = some s)
    (horderly : Along step (fun s e _ => Orderly s e) (launch []) es) :
    outputs step storedName (launch []) es
        = answers serve (fun _ => none) (es.map NetEvent.request) ∧
      directory s.node = served serve (fun _ => none) (es.map NetEvent.request) :=
  outputs_of_orderly oneRecordEach_launch hrun horderly

/-- A screen with all records of the node decides in order. -/
theorem Orderly.of_received {i : ℕ} {request : Request String String String}
    (hasks : e.asks = some (i, request)) (hscr : s.screens[i]? = some scr)
    (hall : ∀ r ∈ s.node, r ∈ scr.records) (htyped : TypedIn {"facebook"}ᶜ {"facebook"}ᶜ e) :
    Orderly s e := by
  refine ⟨?_, htyped⟩
  intro i' request' scr' hasks' hscr' r hr _
  rw [hasks] at hasks'
  cases hasks'
  rw [hscr] at hscr'
  cases hscr'
  exact hall r hr

/-- Ann logs in after her sign-up, and Bob comes through Facebook. -/
def annThenBob : List NetEvent :=
  annSignsUp ++ [.loginClicked 1 (some "ann@mail.co") (some "pw")]
    ++ [.facebookResult 1 "-M2" ⟨"8", some "bob@mail.co", some "Bob"⟩]

private theorem annThenBob_orderly :
    Along step (fun s e _ => Orderly s e) (launch []) annThenBob := by
  refine (along_cons rfl).mpr ⟨⟨nofun, trivial⟩, ?_⟩
  refine (along_cons rfl).mpr ⟨⟨nofun, trivial⟩, ?_⟩
  -- the node is empty, and then has one record, which the login screen has received
  refine (along_cons rfl).mpr ⟨.of_received rfl rfl nofun (by decide : "pw" ≠ "facebook"), ?_⟩
  refine (along_cons rfl).mpr ⟨⟨nofun, trivial⟩, ?_⟩
  refine (along_cons rfl).mpr ⟨⟨nofun, trivial⟩, ?_⟩
  refine (along_cons rfl).mpr
    ⟨.of_received rfl rfl (fun r hr => hr) (by decide : "pw" ≠ "facebook"), ?_⟩
  exact (along_cons rfl).mpr ⟨.of_received rfl rfl (fun r hr => hr) trivial, trivial⟩

theorem storedNames_of_run_annThenBob :
    outputs step storedName (launch []) annThenBob
      = [none, none, some "Ann", none, none, some "Ann", some "Bob"] := by
  have h := (@storedNames_of_run _ annThenBob rfl annThenBob_orderly).1
  rw [h]
  rfl

/-- **The first registration owns the e-mail.**  What a screen stores in an orderly history is
    decided by the first request that created an account for the e-mail, however long ago: a
    login stores a name exactly when that request was a sign-up with this name and the typed
    password, a sign-up or a Facebook sign-in its own exactly when there was none, and a
    Facebook sign-in another one exactly when it was a Facebook sign-in with that name. -/
theorem storedName_of_run (hrun : run step (launch []) es = some s)
    (horderly : Along step (fun s e _ => Orderly s e) (launch []) es) (h : step s e = some s')
    (ho : Orderly s e) :
    (e.request = none → s.storedName e = none) ∧
    ∀ request, e.request = some request → ∀ stored, s.storedName e = some stored ↔
      Granted ((es.map NetEvent.request).findSome? (creates request.key)) request stored := by
  have hs : OneRecordEach s :=
    run_invariant_of_along (fun _ _ _ hs ho hstep => hs.step_of_seesEmail ho.seesEmail hstep)
      oneRecordEach_launch horderly hrun
  have hserve := serve_directory hs ho h
  constructor
  · intro hnone
    rw [hnone] at hserve
    exact (congrArg Prod.fst hserve).symm
  · intro request hrequest stored
    rw [hrequest] at hserve
    have hfirst : directory s.node request.key
        = (es.map NetEvent.request).findSome? (creates request.key) := by
      rw [(outputs_of_orderly oneRecordEach_launch hrun horderly).2, served_eq_first]
      rfl
    rw [← hfirst, ← serve_fst_eq_some, hserve]

/-- After Ann's sign-up her password opens her account. -/
theorem storedName_of_run_annSignsUp :
    ∃ s, run step (launch []) annSignsUp = some s ∧
      s.storedName (.loginClicked 1 (some "ann@mail.co") (some "pw")) = some "Ann" := by
  have hlogin : Along step (fun s e _ => Orderly s e) (launch [])
      (annSignsUp ++ [.loginClicked 1 (some "ann@mail.co") (some "pw")]) :=
    (along_append annThenBob_orderly rfl).1
  have horderly : Along step (fun s e _ => Orderly s e) (launch []) annSignsUp :=
    (along_append hlogin rfl).1
  have ho := along_last annSignsUp hlogin rfl rfl
  exact ⟨_, rfl, ((storedName_of_run rfl horderly rfl ho).2 _ rfl "Ann").mpr rfl⟩

end ChildLearning
