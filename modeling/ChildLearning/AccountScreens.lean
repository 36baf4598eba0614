import Mathlib.Data.List.Find
import ChildLearning.Lib.Decode
import ChildLearning.CommonFunctions
import ChildLearning.FirebaseModel

namespace ChildLearning

/-!
# `LoginViewController` and `SignUpViewController`

Both screens keep a local list `users`, filled by the observer of the `User` node, and
decide on it alone.  A decision is a `ScreenAction`: what the handler asks the rest of
the app to do.  The effects of an action on the database and on the session are the
business of the modules that run the screens.

The text of a field is optional, as `UITextField.text` is.
-/

/-- What a handler of an account screen ends in. -/
inductive ScreenAction where
  /-- `Alert.addAlertController(strTittle:strMessage:viewC:)`. -/
  | alert (strTittle strMessage : String)
  /-- Store the name under "username" and push a `HomeViewController` showing it. -/
  | openHome (strUserName : String)
  /-- `setValue(data)` under a fresh key of the `User` node, then as `openHome`. -/
  | register (data : List (String × Json)) (strUserName : String)
  /-- Neither an alert nor a push. -/
  | nothing

namespace ScreenAction

/-- The name that the action stores under "username", if it stores one. -/
def storedName : ScreenAction → Option String
  | .openHome name   => some name
  | .register _ name => some name
  | _                => none

/-- The record that the action writes, if it writes one. -/
def written : ScreenAction → Option (List (String × Json))
  | .register data _ => some data
  | _                => none

end ScreenAction

/-! ### The observer of the `User` node -/

/-- The `.value` handler in `fetchAllUsers` of either screen: append every child of
    the snapshot to `users`; `none` when a child is not an object, which traps. -/
def observeValue (users : List Users) (snapshot : DataSnapshot) : Option (List Users) :=
  snapshot.children.foldlM
    (fun users eachPlace => (Users.initSnapshot eachPlace).map fun place => users ++ [place])
    users

/-- The list of a screen to whose observer the snapshots were delivered in this order. -/
def delivered (snapshots : List DataSnapshot) : Option (List Users) :=
  snapshots.foldlM observeValue []

/-- The handler decodes all children and appends them in order. -/
theorem observeValue_eq (users : List Users) (snapshot : DataSnapshot) :
    observeValue users snapshot
      = (snapshot.children.mapM Users.initSnapshot).map fun places => users ++ places :=
  Decode.foldlM_append_eq _ _ _

/-- After an observation every child that decodes is on the list. -/
theorem mem_of_observeValue {users users' : List Users} {snapshot eachPlace : DataSnapshot}
    {place : Users} (h : observeValue users snapshot = some users')
    (hchild : eachPlace ∈ snapshot.children) (hplace : Users.initSnapshot eachPlace = some place) :
    place ∈ users' := by
  rw [observeValue_eq, Option.map_eq_some_iff] at h
  obtain ⟨places, hplaces, rfl⟩ := h
  exact List.mem_append_right _ (Decode.mem_of_mapM hplaces hchild hplace)

/-- One delivery in terms of what it adds to an empty list. -/
theorem observeValue_eq_append (users : List Users) (snapshot : DataSnapshot) :
    observeValue users snapshot = (observeValue [] snapshot).map fun places => users ++ places := by
  simp [observeValue_eq]

/-- One more delivery. -/
theorem delivered_concat (snapshots : List DataSnapshot) (snapshot : DataSnapshot) :
    delivered (snapshots ++ [snapshot])
      = (delivered snapshots).bind fun users => observeValue users snapshot := by
  rw [delivered, List.foldlM_append]
  cases h : snapshots.foldlM observeValue [] <;> simp [delivered, h]

/-! ### Decisions on the local list -/

/-- `users.contains(where: {$0.email == email})`. -/
def isRegistered (users : List Users) (email : String) : Bool :=
  users.any fun user => user.email == email

/-- `users.enumerated().first(where: {$0.element.email == email})`, the element. -/
def singleUser (users : List Users) (email : String) : Option Users :=
  users.find? fun user => user.email == email

/-- The match has the e-mail asked for and is on the list. -/
theorem singleUser_eq_some {users : List Users} {email : String} {user : Users}
    (h : singleUser users email = some user) : user ∈ users ∧ user.email = email :=
  ⟨List.mem_of_find?_eq_some h, by simpa using List.find?_some h⟩

/-- The two lookups agree on whether the e-mail is known. -/
theorem isRegistered_eq_isSome (users : List Users) (email : String) :
    isRegistered users email = (singleUser users email).isSome := by
  rw [Bool.eq_iff_iff]
  simp [isRegistered, singleUser]

/-- A registered e-mail has a first match. -/
theorem exists_singleUser {users : List Users} {email : String}
    (h : isRegistered users email = true) : ∃ user, singleUser users email = some user :=
  Option.isSome_iff_exists.mp (isRegistered_eq_isSome users email ▸ h)

/-- **What Swift compares.** With `==` in place of the comparison of the characters the lookups
    and the tests of a password have the same outcome, as long as the texts that are compared
    are among those that are written alike if they are canonically equivalent. -/
theorem tests_of_writtenAlike {canonical : String → String} {texts : List String}
    {users : List Users} {email password : String} (h : WrittenAlike canonical texts)
    (husers : ∀ user ∈ users, user.email ∈ texts ∧ user.password ∈ texts) (hemail : email ∈ texts)
    (hpassword : password ∈ texts) :
    (users.any fun user => swiftEq canonical user.email email) = isRegistered users email ∧
      (users.find? fun user => swiftEq canonical user.email email) = singleUser users email ∧
      ∀ user ∈ users, swiftEq canonical user.password password = (user.password == password) := by
  have hemails : ∀ user ∈ users, swiftEq canonical user.email email = (user.email == email) :=
    fun user huser => h.swiftEq_eq (husers user huser).1 hemail
  have hfind := List.find?_congr hemails
  refine ⟨?_, hfind, fun user huser => h.swiftEq_eq (husers user huser).2 hpassword⟩
  rw [isRegistered_eq_isSome, singleUser, ← hfind, Bool.eq_iff_iff]
  simp

namespace LoginViewController

/-- `fetchLogin(email:password:)`. -/
def fetchLogin (users : List Users) (email password : String) : ScreenAction :=
  match singleUser users email with
  | some user =>
    if user.password ≠ password then .alert "Error!" "Incorrect Password"
    else .openHome user.name
  | none => .alert "Error!" "Email not registered"

/-- `loginClicked(_:)`, with the texts of its two fields. -/
def loginClicked (users : List Users) (txtFEmail txtFPassword : Option String) : ScreenAction :=
  -- the alert for an empty e-mail asks for a name; a field without text passes both tests
  if txtFEmail = some "" then .alert "" "Please add the name "
  else if txtFPassword.map String.length = some 0 then .alert "" "Please add the password "
  else if !isValidEmail (txtFEmail.getD "") then .alert "" "Please add valid email"
  else fetchLogin users (txtFEmail.getD "") (txtFPassword.getD "")

/-- `fetchFbLogin(email:)`; without a match it does nothing. -/
def fetchFbLogin (users : List Users) (email : String) : ScreenAction :=
  match singleUser users email with
  | some user =>
    if user.password = "facebook" then .openHome user.name
    else .alert "Error!" "User not registered with facebook"
  | none => .nothing

/-- `signupObserverFirebase(email:name:)`, the Facebook registration. -/
def signupObserverFirebase (users : List Users) (email name : String) : ScreenAction :=
  let data := userData name email "facebook"
  -- the password is all that later tells this record from one of a sign-up
  if isRegistered users email then fetchFbLogin users email
  else .register data name

/-- The completion of the profile request in `getFBUserData`: Facebook may omit the
    e-mail or the name. -/
def getFBUserData (users : List Users) (email name : Option String) : ScreenAction :=
  signupObserverFirebase users (email.getD "") (name.getD "")

/-- A password login opens Home exactly through a first match with that password. -/
theorem fetchLogin_eq_openHome {users : List Users} {email password name : String} :
    fetchLogin users email password = .openHome name ↔
      ∃ user, singleUser users email = some user ∧ user.password = password ∧ user.name = name := by
  unfold fetchLogin
  cases singleUser users email with
  | none => simp
  | some user => by_cases h : user.password = password <;> simp [h]

/-- The form passes the checks of `loginClicked`. -/
def formAccepted (txtFEmail txtFPassword : Option String) : Bool :=
  txtFEmail != some "" && txtFPassword.map String.length != some 0 &&
    isValidEmail (txtFEmail.getD "")

/-- A login opens Home when its form passes and `fetchLogin` does. -/
theorem loginClicked_eq_openHome {users : List Users} {txtFEmail txtFPassword : Option String}
    {name : String} :
    loginClicked users txtFEmail txtFPassword = .openHome name ↔
      formAccepted txtFEmail txtFPassword = true ∧
        fetchLogin users (txtFEmail.getD "") (txtFPassword.getD "") = .openHome name := by
  unfold loginClicked formAccepted
  by_cases h₁ : txtFEmail = some ""
  · simp [h₁]
  by_cases h₂ : txtFPassword.map String.length = some 0
  · simp [h₁, h₂]
  by_cases h₃ : isValidEmail (txtFEmail.getD "") = true
  · simp [h₁, h₂, h₃]
  · simp [h₁, h₂, h₃]

/-- With a valid e-mail and a non-empty password the check goes to `fetchLogin`. -/
theorem loginClicked_of_valid {users : List Users} {email password : String}
    (he : isValidEmail email = true) (hp : password ≠ "") :
    loginClicked users (some email) (some password) = fetchLogin users email password := by
  have hne : email ≠ "" := by rintro rfl; simp [isValidEmail_empty] at he
  simp [loginClicked, hne, hp, he]

/-- A password login never writes. -/
theorem loginClicked_written (users : List Users) (txtFEmail txtFPassword : Option String) :
    (loginClicked users txtFEmail txtFPassword).written = none := by
  unfold loginClicked fetchLogin
  split_ifs <;> try rfl
  cases singleUser users (txtFEmail.getD "") with
  | none => rfl
  | some user => dsimp only; split_ifs <;> rfl

/-- A Facebook sign-in writes exactly when the e-mail is not registered, and then its
    own record. -/
theorem signupObserverFirebase_written (users : List Users) (email name : String) :
    (signupObserverFirebase users email name).written
      = if isRegistered users email then none else some (userData name email "facebook") := by
  unfold signupObserverFirebase fetchFbLogin
  by_cases h : isRegistered users email
  · -- registered: `fetchFbLogin` finds the record and never writes
    obtain ⟨user, hu⟩ := exists_singleUser h
    simp only [h, hu, if_true]
    split_ifs <;> rfl
  · simp [h, ScreenAction.written]

/-- A Facebook sign-in opens Home without writing exactly through a first match whose
    password is "facebook". -/
theorem signupObserverFirebase_eq_openHome {users : List Users} {email name stored : String} :
    signupObserverFirebase users email name = .openHome stored ↔
      ∃ user, singleUser users email = some user ∧ user.password = "facebook" ∧
        user.name = stored := by
  unfold signupObserverFirebase fetchFbLogin
  rw [isRegistered_eq_isSome]
  cases singleUser users email with
  | none => simp
  | some user => by_cases h : user.password = "facebook" <;> simp [h]

/-- What a Facebook sign-in registers. -/
theorem getFBUserData_eq_register {users : List Users} {email name : Option String}
    {data : List (String × Json)} {stored : String}
    (h : getFBUserData users email name = .register data stored) :
    data = userData stored (email.getD "") "facebook" := by
  unfold getFBUserData signupObserverFirebase at h
  by_cases hreg : isRegistered users (email.getD "") = true
  · -- registered: `fetchFbLogin` finds the record and never registers
    obtain ⟨user, hu⟩ := exists_singleUser hreg
    simp only [hreg, if_true, fetchFbLogin, hu] at h
    split_ifs at h
  · simp only [hreg] at h
    cases h
    rfl

/-- An account is found: either login finds an account with its e-mail, and this very
    account if it is the only one with that e-mail. -/
def Finds (users : List Users) (account : Users) : Prop :=
  (singleUser users account.email).isSome ∧
    ((∀ user ∈ users, user.email = account.email → user = account) →
      fetchLogin users account.email account.password = .openHome account.name ∧
      (account.password = "facebook" → fetchFbLogin users account.email = .openHome account.name))

/-- An account on the list is found. -/
theorem finds_of_mem {users : List Users} {account : Users} (h : account ∈ users) :
    Finds users account := by
  have hreg : isRegistered users account.email = true :=
    List.any_eq_true.mpr ⟨account, h, beq_self_eq_true _⟩
  obtain ⟨user, hu⟩ := exists_singleUser hreg
  refine ⟨by rw [hu]; rfl, fun honly => ?_⟩
  obtain ⟨hmem, hemail⟩ := singleUser_eq_some hu
  obtain rfl := honly user hmem hemail
  refine ⟨fetchLogin_eq_openHome.mpr ⟨user, hu, rfl, rfl⟩, fun hfacebook => ?_⟩
  rw [fetchFbLogin, hu]
  exact if_pos hfacebook

/-- A Facebook sign-in with this e-mail gets in: the e-mail is not registered, or its first
    match has the password "facebook". -/
def acceptsFacebook (users : List Users) (email : String) : Bool :=
  (singleUser users email).all fun user => user.password == "facebook"

/-- A Facebook sign-in stores a name exactly when it gets in. -/
theorem getFBUserData_storedName_isSome (users : List Users) (email name : Option String) :
    (getFBUserData users email name).storedName.isSome
      = acceptsFacebook users (email.getD "") := by
  unfold getFBUserData signupObserverFirebase fetchFbLogin acceptsFacebook
  rw [isRegistered_eq_isSome]
  cases singleUser users (email.getD "") with
  | none => rfl
  | some user => by_cases h : user.password = "facebook" <;> simp [h, ScreenAction.storedName]

/-- **What a Facebook sign-in stores.** The name of the profile if the e-mail is new, else
    the name of the first match, if its password is "facebook". -/
theorem getFBUserData_storedName_eq_some {users : List Users} {email name : Option String}
    {stored : String} :
    (getFBUserData users email name).storedName = some stored ↔
      (singleUser users (email.getD "") = none ∧ name.getD "" = stored) ∨
      ∃ user, singleUser users (email.getD "") = some user ∧ user.password = "facebook" ∧
        user.name = stored := by
  unfold getFBUserData signupObserverFirebase fetchFbLogin
  rw [isRegistered_eq_isSome]
  cases singleUser users (email.getD "") with
  | none => simp [ScreenAction.storedName]
  | some user => by_cases h : user.password = "facebook" <;> simp [h, ScreenAction.storedName]

end LoginViewController

namespace SignUpViewController

/-- `signupObserverFirebase(email:name:password:)`. -/
def signupObserverFirebase (users : List Users) (email name password : String) : ScreenAction :=
  let data := userData name email password
  if isRegistered users email then .alert "" "Email alreday registered"
  else .register data name

/-- `signUpcClicked(_:)`, with the texts of its three fields. -/
def signUpcClicked (users : List Users) (txtFName txtFEmail txtFPassword : Option String) :
    ScreenAction :=
  -- `nil?.count == 0` is false: a field without text passes its test
  if txtFName.map String.length = some 0 then .alert "" "Please add the name "
  else if txtFEmail.map String.length = some 0 then .alert "" "Please add the email "
  else if txtFPassword.map String.length = some 0 then .alert "" "Please add the password "
  else if !isValidEmail (txtFEmail.getD "") then .alert "" "Please add valid email"
  else signupObserverFirebase users (txtFEmail.getD "") (txtFName.getD "") (txtFPassword.getD "")

/-- The form passes the checks of `signUpcClicked`. -/
def formAccepted (txtFName txtFEmail txtFPassword : Option String) : Bool :=
  txtFName.map String.length != some 0 && txtFEmail.map String.length != some 0 &&
    txtFPassword.map String.length != some 0 && isValidEmail (txtFEmail.getD "")

/-- **What a sign-up writes.** The typed texts, exactly when the form passes its checks
    and the e-mail is not on the list. -/
theorem signUpcClicked_written (users : List Users) (txtFName txtFEmail txtFPassword : Option String) :
    (signUpcClicked users txtFName txtFEmail txtFPassword).written
      = if formAccepted txtFName txtFEmail txtFPassword ∧
            isRegistered users (txtFEmail.getD "") = false
        then some (userData (txtFName.getD "") (txtFEmail.getD "") (txtFPassword.getD ""))
        else none := by
  unfold signUpcClicked signupObserverFirebase formAccepted
  -- the tests of the form one after the other, then the one of the list
  by_cases h₁ : txtFName.map String.length = some 0
  · simp [h₁, ScreenAction.written]
  by_cases h₂ : txtFEmail.map String.length = some 0
  · simp [h₁, h₂, ScreenAction.written]
  by_cases h₃ : txtFPassword.map String.length = some 0
  · simp [h₁, h₂, h₃, ScreenAction.written]
  by_cases h₄ : isValidEmail (txtFEmail.getD "") = true
  · by_cases h₅ : isRegistered users (txtFEmail.getD "") = true
    · simp [h₁, h₂, h₃, h₄, h₅, ScreenAction.written]
    · simp [h₁, h₂, h₃, h₄, h₅, ScreenAction.written]
  · simp [h₁, h₂, h₃, h₄, ScreenAction.written]

/-- What a sign-up registers. -/
theorem signUpcClicked_eq_register {users : List Users}
    {txtFName txtFEmail txtFPassword : Option String} {data : List (String × Json)} {stored : String}
    (h : signUpcClicked users txtFName txtFEmail txtFPassword = .register data stored) :
    data = userData stored (txtFEmail.getD "") (txtFPassword.getD "") := by
  unfold signUpcClicked signupObserverFirebase at h
  split_ifs at h
  cases h
  rfl

end SignUpViewController

end ChildLearning
