import ChildLearning.AccountScreens

namespace ChildLearning

open LoginViewController

/-!
# Decisions on the accumulated list and on the latest snapshot

`fetchAllUsers` never empties `users`: every delivery appends the whole node again, and
lookups take the first match.  So a screen decides on the *earliest* snapshot that has
a record with the e-mail.  `sameDecisions_latest_iff` says when this is the decision of
the latest snapshot: exactly when the two snapshots agree on the first such record.
-/

/-- The `User` node with these children. -/
def userNode (children : List (String × FNode)) : DataSnapshot :=
  ⟨"User", .childrenNode children⟩

/-- The accounts of the latest snapshot alone; none when nothing was delivered. -/
def latestUsers (snapshots : List DataSnapshot) : Option (List Users) :=
  match snapshots.getLast? with
  | some latest => observeValue [] latest
  | none        => some []

/-- The first record of a snapshot with the given e-mail. -/
def firstRecord (email : String) (snapshot : DataSnapshot) : Option Users :=
  (observeValue [] snapshot).bind fun users => singleUser users email

/-- Password login, Facebook login and the already-registered test of either screen
    have the same outcome for this e-mail on both lists, whatever the password. -/
def SameDecisions (users latest : List Users) (email : String) : Prop :=
  ∀ password, fetchLogin users email password = fetchLogin latest email password ∧
    fetchFbLogin users email = fetchFbLogin latest email ∧
    isRegistered users email = isRegistered latest email

/-! ### Decisions see the first match only -/

/-- A match that opens Home with its own password has the other list's match behind it. -/
private theorem singleUser_eq_of_fetchLogin {users latest : List Users} {email : String}
    {user : Users} (hu : singleUser users email = some user)
    (h : fetchLogin users email user.password = fetchLogin latest email user.password) :
    singleUser latest email = some user := by
  have hopen : fetchLogin users email user.password = .openHome user.name :=
    fetchLogin_eq_openHome.mpr ⟨user, hu, rfl, rfl⟩
  -- the other list opens Home too: its match has the same password and the same name
  obtain ⟨other, ho, hpw, hname⟩ := fetchLogin_eq_openHome.mp (h ▸ hopen)
  have hemail : other.email = user.email :=
    (singleUser_eq_some ho).2.trans (singleUser_eq_some hu).2.symm
  rw [ho, Option.some.injEq]
  cases other; cases user
  simp_all

/-- Two lists decide alike on an e-mail exactly when they have the same first match. -/
theorem sameDecisions_iff (users latest : List Users) (email : String) :
    SameDecisions users latest email ↔ singleUser users email = singleUser latest email := by
  constructor
  · intro h
    -- a login with the match's own password opens Home and so shows the match
    cases hu : singleUser users email with
    | some user => exact (singleUser_eq_of_fetchLogin hu (h user.password).1).symm
    | none =>
      cases hl : singleUser latest email with
      | none => rfl
      | some other =>
        exact absurd (singleUser_eq_of_fetchLogin hl (h other.password).1.symm) (by simp [hu])
  · intro h password
    refine ⟨?_, ?_, ?_⟩
    · simp [fetchLogin, h]
    · simp [fetchFbLogin, h]
    · simp [isRegistered_eq_isSome, h]

/-! ### First matches of accumulated and of latest lists -/

/-- **The accumulated list decides on the earliest snapshot** that has a record with
    the e-mail. -/
theorem singleUser_delivered {snapshots : List DataSnapshot} {users : List Users}
    (h : delivered snapshots = some users) (email : String) :
    singleUser users email = snapshots.findSome? (firstRecord email) := by
  -- on the deliveries from the last one: it appends, so it matters only without a match before
  induction snapshots using List.reverseRecOn generalizing users with
  | nil => cases h; rfl
  | append_singleton snapshots snapshot ih =>
    rw [delivered_concat, Option.bind_eq_some_iff] at h
    obtain ⟨before, hbefore, hobs⟩ := h
    rw [observeValue_eq_append, Option.map_eq_some_iff] at hobs
    obtain ⟨places, hplaces, rfl⟩ := hobs
    rw [List.findSome?_append, ← ih hbefore]
    simp [singleUser, List.find?_append, firstRecord, hplaces]

/-- A screen that has taken its snapshots has decoded the latest one. -/
theorem exists_latestUsers {snapshots : List DataSnapshot} {users : List Users}
    (h : delivered snapshots = some users) : ∃ latest, latestUsers snapshots = some latest := by
  induction snapshots using List.reverseRecOn with
  | nil => exact ⟨[], rfl⟩
  | append_singleton snapshots snapshot _ =>
    rw [delivered_concat, Option.bind_eq_some_iff] at h
    obtain ⟨before, -, hobs⟩ := h
    rw [observeValue_eq_append, Option.map_eq_some_iff] at hobs
    obtain ⟨places, hplaces, -⟩ := hobs
    exact ⟨places, by simp [latestUsers, hplaces]⟩

/-- The latest list decides on the latest snapshot. -/
theorem singleUser_latestUsers {snapshots : List DataSnapshot} {latest : List Users}
    (h : latestUsers snapshots = some latest) (email : String) :
    singleUser latest email = snapshots.getLast?.bind (firstRecord email) := by
  unfold latestUsers at h
  cases hlast : snapshots.getLast? with
  | none => rw [hlast] at h; cases h; rfl
  | some snapshot => rw [hlast] at h; simp [firstRecord, show observeValue [] snapshot = _ from h]

/-! ### When the latest snapshot is what decides -/

/-- **Latest-snapshot decisions.** For every sequence of snapshots that a screen has
    taken, and every e-mail, the screen decides as the latest snapshot does exactly when
    the earliest snapshot with a record for the e-mail and the latest snapshot agree on
    their first record for it. -/
theorem sameDecisions_latest_iff {snapshots : List DataSnapshot} {users : List Users}
    (h : delivered snapshots = some users) (email : String) :
    ∃ latest, latestUsers snapshots = some latest ∧
      (SameDecisions users latest email ↔
        snapshots.findSome? (firstRecord email) = snapshots.getLast?.bind (firstRecord email)) := by
  obtain ⟨latest, hlatest⟩ := exists_latestUsers h
  refine ⟨latest, hlatest, ?_⟩
  rw [sameDecisions_iff, singleUser_delivered h, singleUser_latestUsers hlatest]

/-- Two deliveries of one account, whose password was changed in between. -/
def changedPassword : List DataSnapshot :=
  [userNode [("-M1", accountNode "ann" "ann@mail.co" "old")],
    userNode [("-M1", accountNode "ann" "ann@mail.co" "new")]]

theorem sameDecisions_latest_iff_changedPassword :
    ∃ latest, latestUsers changedPassword = some latest ∧
      (SameDecisions [⟨"ann", "ann@mail.co", "old"⟩, ⟨"ann", "ann@mail.co", "new"⟩] latest
          "bob@mail.co" ↔
        changedPassword.findSome? (firstRecord "bob@mail.co")
          = changedPassword.getLast?.bind (firstRecord "bob@mail.co")) :=
  sameDecisions_latest_iff (by rfl) "bob@mail.co"

/-- After the change the screen refuses the new password, which the latest snapshot
    accepts. -/
theorem changedPassword_not_sameDecisions :
    ∃ users latest, delivered changedPassword = some users ∧
      latestUsers changedPassword = some latest ∧
      fetchLogin users "ann@mail.co" "new" = .alert "Error!" "Incorrect Password" ∧
      fetchLogin latest "ann@mail.co" "new" = .openHome "ann" ∧
      ¬ SameDecisions users latest "ann@mail.co" := by
  refine ⟨[⟨"ann", "ann@mail.co", "old"⟩, ⟨"ann", "ann@mail.co", "new"⟩],
    [⟨"ann", "ann@mail.co", "new"⟩], rfl, rfl, rfl, rfl, fun h => ?_⟩
  have hsame := (h "new").1
  simp [fetchLogin, singleUser] at hsame

end ChildLearning
