import ChildLearning.Lib.Transition
import ChildLearning.AccountScreens

namespace ChildLearning

open Transition FSnapshotUtilities

/-!
# Many screens over one `User` node

The machine behind the account claims: any number of `LoginViewController` and
`SignUpViewController` instances, on any number of devices, each with its own list,
over one `User` node to which records are only added.

* a **tap** decides on the acting screen's list and, if it registers, writes a record
  under a fresh key (`childByAutoId`);
* a **delivery** hands some of the records already written, in any order, to the
  observer of one screen.  This covers every value the node ever had, however late it
  arrives and in whatever order the writes of different devices were applied.

A record carries a ghost `origin`: which path created it, with which texts.
-/

/-! ### Records and screens -/

/-- The profile Facebook returns for a sign-in; it may omit the e-mail or the name. -/
structure FbProfile where
  id : String
  email : Option String
  name : Option String
  deriving DecidableEq, Repr

/-- Who created a record (ghost): nobody in this history, `SignUpViewController` with
    the typed texts, or a Facebook sign-in. -/
inductive Origin where
  | preexisting
  | signUp (name email password : String)
  | facebook (profile : FbProfile)

/-- What the content of a record of this origin is: the dictionary that was written, as the SDK
    stores it.  Of a preexisting record only that the database stores it. -/
def Origin.Wrote : Origin → FNode → Prop
  | .preexisting, node                => node.isEmpty = false
  | .signUp name email password, node =>
    nodeFrom (.object (userData name email password)) = some node
  | .facebook profile, node           =>
    nodeFrom (.object (userData (profile.name.getD "") (profile.email.getD "") "facebook"))
      = some node

/-- A child of the `User` node, with its origin. -/
structure Record where
  key : String
  node : FNode
  origin : Origin
  wrote : origin.Wrote node

namespace Record

/-- The child as an observer sees it. -/
def snapshot (r : Record) : DataSnapshot := ⟨r.key, r.node⟩

/-- The account that the app decodes the child to. -/
def account (r : Record) : Option Users := Users.initSnapshot r.snapshot

/-- The `email` field of the record, when it is a string. -/
def email (r : Record) : Option String :=
  r.snapshot.value.asObject.bind fun fields => (fields.lookup "email").bind Json.asString?

/-- The record a sign-up with these texts writes. -/
def ofSignUp (key name email password : String) : Record :=
  ⟨key, accountNode name email password, .signUp name email password,
    nodeFrom_userData name email password⟩

/-- The record a Facebook sign-in of this profile writes. -/
def ofFacebook (key : String) (profile : FbProfile) : Record :=
  ⟨key, accountNode (profile.name.getD "") (profile.email.getD "") "facebook", .facebook profile,
    nodeFrom_userData _ _ _⟩

/-- The content of a sign-up record. -/
theorem node_of_signUp {r : Record} {name email password : String}
    (h : r.origin = .signUp name email password) : r.node = accountNode name email password := by
  have hw := r.wrote
  rw [h] at hw
  exact Option.some.inj (hw.symm.trans (nodeFrom_userData name email password))

/-- The content of a Facebook record. -/
theorem node_of_facebook {r : Record} {profile : FbProfile} (h : r.origin = .facebook profile) :
    r.node = accountNode (profile.name.getD "") (profile.email.getD "") "facebook" := by
  have hw := r.wrote
  rw [h] at hw
  exact Option.some.inj (hw.symm.trans (nodeFrom_userData _ _ _))

/-- A sign-up record decodes to the typed texts. -/
theorem account_of_signUp {r : Record} {name email password : String}
    (h : r.origin = .signUp name email password) : r.account = some ⟨name, email, password⟩ := by
  rw [account, snapshot, node_of_signUp h]
  rfl

/-- A Facebook record decodes to the profile, with the password "facebook". -/
theorem account_of_facebook {r : Record} {profile : FbProfile} (h : r.origin = .facebook profile) :
    r.account = some ⟨profile.name.getD "", profile.email.getD "", "facebook"⟩ := by
  rw [account, snapshot, node_of_facebook h]
  rfl

/-- The `email` field of a sign-up record. -/
theorem email_of_signUp {r : Record} {name email password : String}
    (h : r.origin = .signUp name email password) : r.email = some email := by
  rw [Record.email, snapshot, node_of_signUp h]
  rfl

/-- The `email` field of a Facebook record. -/
theorem email_of_facebook {r : Record} {profile : FbProfile} {email : String}
    (h : r.origin = .facebook profile) (hemail : profile.email.getD "" = email) :
    r.email = some email := by
  rw [Record.email, snapshot, node_of_facebook h, ← hemail]
  rfl

/-- The decoded e-mail is the `email` field; a missing field is read as `""`. -/
theorem email_of_account {r : Record} {user : Users} (h : r.account = some user) :
    user.email = r.email.getD "" := by
  obtain ⟨fields, hfields, rfl⟩ := Option.map_eq_some_iff.mp h
  simp only [email, show r.snapshot.value.asObject = some fields from hfields, Option.bind_some]
  rfl

/-- A record with a string e-mail decodes to an account with that e-mail. -/
theorem exists_account {r : Record} {e : String} (h : r.email = some e) :
    ∃ user, r.account = some user ∧ user.email = e := by
  obtain ⟨fields, hfields, -⟩ := Option.bind_eq_some_iff.mp h
  have hacc : r.account = some _ := Option.map_eq_some_iff.mpr ⟨fields, hfields, rfl⟩
  exact ⟨_, hacc, by rw [email_of_account hacc, h]; rfl⟩

end Record

/-- The `User` node with these records as its children. -/
def nodeSnapshot (records : List Record) : DataSnapshot :=
  ⟨"User", .childrenNode (records.map fun r => (r.key, r.node))⟩

/-- An observer sees the records, one child each. -/
theorem children_nodeSnapshot (records : List Record) :
    (nodeSnapshot records).children = records.map Record.snapshot := by
  rw [DataSnapshot.children, nodeSnapshot, FNode.childList, List.map_map]
  rfl

/-- The two classes of account screens. -/
inductive ScreenKind where
  | login
  | signUp
  deriving DecidableEq, Repr

/-- An account screen: the snapshots its observer has received and the list they have
    left in `users`. -/
structure AccountScreen where
  kind : ScreenKind
  received : List (List Record)
  users : List Users
  users_eq : delivered (received.map nodeSnapshot) = some users

namespace AccountScreen

/-- A screen just opened. -/
def opened (kind : ScreenKind) : AccountScreen := ⟨kind, [], [], rfl⟩

/-- The observer receives the node with these records; `none` when decoding traps. -/
def observe (scr : AccountScreen) (snapshot : List Record) : Option AccountScreen :=
  match h : observeValue scr.users (nodeSnapshot snapshot) with
  | some users => some
      { scr with
        received := scr.received ++ [snapshot]
        users := users
        users_eq := by simp [delivered_concat, scr.users_eq, h] }
  | none => none

/-- All records the screen has received, in the order of its list. -/
def records (scr : AccountScreen) : List Record := scr.received.flatten

/-- The first record received with this e-mail: the one behind the entry that
    `fetchLogin` and `fetchFbLogin` pick. -/
def matchedRecord (scr : AccountScreen) (email : String) : Option Record :=
  scr.records.find? fun r => r.account.any fun user => user.email == email

/-- What an observation changes. -/
theorem observe_eq_some {scr scr' : AccountScreen} {snapshot : List Record}
    (h : scr.observe snapshot = some scr') :
    scr'.kind = scr.kind ∧ scr'.received = scr.received ++ [snapshot] := by
  unfold observe at h
  split at h
  · cases h; exact ⟨rfl, rfl⟩
  · cases h

end AccountScreen

/-! ### From list entries back to records -/

/-- The list of a screen is the decoding of all its records, in order. -/
theorem mapM_account_of_delivered {received : List (List Record)} {users : List Users}
    (h : delivered (received.map nodeSnapshot) = some users) :
    received.flatten.mapM Record.account = some users := by
  -- on the deliveries from the last one, as `delivered` folds them
  induction received using List.reverseRecOn generalizing users with
  | nil => cases h; rfl
  | append_singleton received snapshot ih =>
    rw [List.map_append, List.map_singleton, delivered_concat, Option.bind_eq_some_iff] at h
    obtain ⟨before, hbefore, hobs⟩ := h
    rw [observeValue_eq, children_nodeSnapshot, Option.map_eq_some_iff] at hobs
    obtain ⟨places, hplaces, rfl⟩ := hobs
    have hlast : snapshot.mapM Record.account = some places := by
      rw [← hplaces, List.mapM_map]; rfl
    simp [List.mapM_append, ih hbefore, hlast]

namespace AccountScreen

variable {scr : AccountScreen} {email : String}

/-- **The entry behind a decision.** A lookup picks the decoding of the matched
    record. -/
theorem singleUser_eq_matchedRecord (scr : AccountScreen) (email : String) :
    singleUser scr.users email = (scr.matchedRecord email).bind Record.account :=
  Decode.find?_of_mapM (mapM_account_of_delivered scr.users_eq) _

/-- A picked entry has a record behind it. -/
theorem exists_matchedRecord {user : Users} (h : singleUser scr.users email = some user) :
    ∃ r, scr.matchedRecord email = some r ∧ r.account = some user := by
  rw [singleUser_eq_matchedRecord] at h
  exact Option.bind_eq_some_iff.mp h

/-- The matched record has been received and decodes to the e-mail. -/
theorem matchedRecord_spec {r : Record} (h : scr.matchedRecord email = some r) :
    r ∈ scr.records ∧ ∃ user, r.account = some user ∧ user.email = email := by
  refine ⟨List.mem_of_find?_eq_some h, ?_⟩
  have hany := List.find?_some h
  obtain ⟨user, hacc, hemail⟩ := (Option.any_eq_true _ _).mp hany
  exact ⟨user, hacc, by simpa using hemail⟩

/-- An e-mail is on the list exactly when a received record decodes to it. -/
theorem isRegistered_iff_record :
    isRegistered scr.users email = true ↔
      ∃ r ∈ scr.records, ∃ user, r.account = some user ∧ user.email = email := by
  rw [isRegistered_eq_isSome]
  constructor
  · intro h
    obtain ⟨user, hu⟩ := Option.isSome_iff_exists.mp h
    obtain ⟨r, hr, -⟩ := exists_matchedRecord hu
    exact ⟨r, matchedRecord_spec hr⟩
  · rintro ⟨r, hr, user, hacc, rfl⟩
    -- the matched record may be an earlier one than `r`
    have hfound : (scr.matchedRecord user.email).isSome := by
      rw [matchedRecord, List.find?_isSome]
      exact ⟨r, hr, by simp [hacc]⟩
    obtain ⟨r', hr'⟩ := Option.isSome_iff_exists.mp hfound
    obtain ⟨-, user', hacc', -⟩ := matchedRecord_spec hr'
    simp [singleUser_eq_matchedRecord, hr', hacc']

end AccountScreen

end ChildLearning
