import ChildLearning.LoginAfterSignUp

namespace ChildLearning

open Transition Network LoginViewController

/-!
# Facebook accounts

A Facebook sign-in looks its account up by the e-mail of the profile, and by the empty
e-mail if Facebook omits it.  `ownAccount_along_iff` says which histories of sign-ins keep
the accounts of different profiles apart: exactly those in which all sign-ins without an
e-mail are of one profile.
-/

/-- The profile of a Facebook sign-in. -/
def NetEvent.profile : NetEvent → Option FbProfile
  | .facebookResult _ _ profile => some profile
  | _                           => none

/-- The profiles of the sign-ins of a history. -/
def signIns (es : List NetEvent) : List FbProfile := es.filterMap NetEvent.profile

/-- The event is no sign-up: only Facebook sign-ins write records. -/
def FacebookOnly : NetEvent → Prop
  | .signUpcClicked .. => False
  | _                  => True

/-- Facebook gives different e-mails to different profiles. -/
def DifferentEmails (es : List NetEvent) : Prop :=
  ∀ p ∈ signIns es, ∀ q ∈ signIns es, p.id ≠ q.id →
    ∀ email, p.email = some email → q.email ≠ some email

/-- Facebook omits the e-mail of the profile, or leaves it empty. -/
def FbProfile.WithoutEmail (profile : FbProfile) : Prop := profile.email.getD "" = ""

/-- All sign-ins without an e-mail are of one profile. -/
def OneWithoutEmail (es : List NetEvent) : Prop :=
  ∀ p ∈ signIns es, ∀ q ∈ signIns es, p.WithoutEmail → q.WithoutEmail → p.id = q.id

/-- The record that a sign-in opens: the first match for the e-mail, or else the record it
    writes. -/
def openedRecord (scr : AccountScreen) (key : String) (profile : FbProfile) : Record :=
  (scr.matchedRecord (profile.email.getD "")).getD (.ofFacebook key profile)

/-- A sign-in that stores a name takes it, as the record it opens, from a record that a
    sign-in of the same profile has created. -/
def OwnAccount (s : Network) : NetEvent → Prop
  | .facebookResult i key profile => ∀ scr name, s.screen .login i = some scr →
      (getFBUserData scr.users profile.email profile.name).storedName = some name →
      ∃ creator, (openedRecord scr key profile).origin = .facebook creator ∧
        creator.id = profile.id ∧ name = creator.name.getD ""
  | _ => True

variable {s s' : Network} {e : NetEvent} {es : List NetEvent} {scr : AccountScreen} {i : ℕ}
  {key name : String} {profile : FbProfile}

theorem signIns_concat (es : List NetEvent) (e : NetEvent) :
    signIns (es ++ [e]) = signIns es ++ e.profile.toList := by
  rw [signIns, List.filterMap_append]
  cases h : e.profile <;> simp [signIns, h]

/-! ### The records -/

/-- The invariant: screens hold records of the node, and these were created by sign-ins of
    the history. -/
structure CreatedBySignIns (es : List NetEvent) (s : Network) : Prop where
  received : s.ReceivedFromNode
  creators : ∀ r ∈ s.node, ∃ creator ∈ signIns es, r.origin = .facebook creator

theorem createdBySignIns_launch (es : List NetEvent) : CreatedBySignIns es (launch []) :=
  ⟨receivedFromNode_launch [], nofun⟩

theorem CreatedBySignIns.step (hs : CreatedBySignIns es s) (honly : FacebookOnly e)
    (he : ∀ profile, e.profile = some profile → profile ∈ signIns es) (h : step s e = some s') :
    CreatedBySignIns es s' := by
  refine ⟨hs.received.step h, fun r hr => ?_⟩
  rcases step_node h with ⟨hnode, -⟩ | ⟨i, email, new, scr, hreg, -, -, hnode⟩
  · exact hs.creators r (hnode ▸ hr)
  · rw [hnode, List.mem_append, List.mem_singleton] at hr
    rcases hr with hold | rfl
    · exact hs.creators r hold
    · rcases NetEvent.registration_cases hreg with ⟨_, _, _, _, rfl, -⟩ | ⟨key, profile, rfl, -, rfl⟩
      · exact honly.elim
      · exact ⟨profile, he profile rfl, rfl⟩

/-- A first match was created by a sign-in with the same e-mail, and holds its name. -/
theorem CreatedBySignIns.exists_creator (hs : CreatedBySignIns es s)
    (hscr : s.screen .login i = some scr) {email : String} {user : Users}
    (hu : singleUser scr.users email = some user) :
    ∃ r ∈ s.node, ∃ creator ∈ signIns es, scr.matchedRecord email = some r ∧
      r.origin = .facebook creator ∧ creator.email.getD "" = email ∧
      user = ⟨creator.name.getD "", email, "facebook"⟩ := by
  obtain ⟨r, hr, hacc⟩ := AccountScreen.exists_matchedRecord hu
  have hmem : scr ∈ s.screens := List.mem_of_getElem? (screen_eq_some hscr).1
  have hnode : r ∈ s.node := hs.received scr hmem r (AccountScreen.matchedRecord_spec hr).1
  obtain ⟨creator, hcreator, horigin⟩ := hs.creators r hnode
  rw [Record.account_of_facebook horigin] at hacc
  cases hacc
  have hemail : creator.email.getD "" = email := (singleUser_eq_some hu).2
  exact ⟨r, hnode, creator, hcreator, hr, horigin, hemail, by rw [← hemail]⟩

/-- Without a first match the sign-in opens its own record. -/
theorem openedRecord_of_new (h : singleUser scr.users (profile.email.getD "") = none) :
    openedRecord scr key profile = .ofFacebook key profile := by
  have hreg : isRegistered scr.users (profile.email.getD "") = false := by
    rw [isRegistered_eq_isSome, h]; rfl
  cases hmatched : scr.matchedRecord (profile.email.getD "") with
  | none => rw [openedRecord, hmatched]; rfl
  | some r =>
    -- a first match would be on the list
    have hin := AccountScreen.isRegistered_iff_record.mpr ⟨r, AccountScreen.matchedRecord_spec hmatched⟩
    rw [hreg] at hin
    cases hin

/-! ### One profile without an e-mail -/

/-- Two sign-ins of the history with one e-mail, possibly empty, are of one profile. -/
theorem id_eq_of_email (hdiff : DifferentEmails es) (hone : OneWithoutEmail es) {p q : FbProfile}
    (hp : p ∈ signIns es) (hq : q ∈ signIns es) (h : p.email.getD "" = q.email.getD "") :
    p.id = q.id := by
  by_cases hempty : p.email.getD "" = ""
  · exact hone p hp q hq hempty (h.symm.trans hempty)
  · by_contra hne
    -- both e-mails are given, and they are the same
    obtain ⟨email, hemail⟩ : ∃ email, p.email = some email := by
      cases hcase : p.email with
      | none => exact absurd (by rw [hcase]; rfl) hempty
      | some email => exact ⟨email, rfl⟩
    obtain ⟨email', hemail'⟩ : ∃ email, q.email = some email := by
      cases hcase : q.email with
      | none => exact absurd (by rw [h, hcase]; rfl) hempty
      | some email => exact ⟨email, rfl⟩
    rw [hemail, hemail', Option.getD_some, Option.getD_some] at h
    exact hdiff p hp q hq hne email hemail (h ▸ hemail')

/-- The step lemma: if one profile at most is without an e-mail, every sign-in opens an
    account of its own. -/
theorem ownAccount_of_createdBySignIns (hdiff : DifferentEmails es) (hone : OneWithoutEmail es)
    (hs : CreatedBySignIns es s)
    (he : ∀ profile, e.profile = some profile → profile ∈ signIns es) : OwnAccount s e := by
  cases e with
  | facebookResult i key profile =>
    intro scr name hscr hstored
    rcases getFBUserData_storedName_eq_some.mp hstored with ⟨hnone, hname⟩ | ⟨user, hu, -, hname⟩
    · refine ⟨profile, ?_, rfl, hname.symm⟩
      rw [openedRecord_of_new hnone]
      rfl
    · obtain ⟨r, -, creator, hcreator, hmatched, horigin, hemail, rfl⟩ := hs.exists_creator hscr hu
      refine ⟨creator, ?_, id_eq_of_email hdiff hone hcreator (he profile rfl) hemail, hname.symm⟩
      rw [openedRecord, hmatched]
      exact horigin
  | opened => trivial
  | deliver => trivial
  | signUpcClicked => trivial
  | loginClicked => trivial

/-! ### Several profiles without an e-mail -/

/-- A sign-in without an e-mail that opens an account of its own leaves a record behind
    that has no e-mail and was created by its profile. -/
theorem exists_record_of_signIn (hs : CreatedBySignIns es s) (hnone : profile.WithoutEmail)
    (hown : OwnAccount s (.facebookResult i key profile))
    (h : step s (.facebookResult i key profile) = some s') :
    ∃ r ∈ s'.node, ∃ creator, r.origin = .facebook creator ∧ creator.WithoutEmail ∧
      creator.id = profile.id := by
  obtain ⟨scr, hscr, hstep⟩ := Option.bind_eq_some_iff.mp h
  rw [getFBUserData, signupObserverFirebase_written] at hstep
  by_cases hreg : isRegistered scr.users (profile.email.getD "") = true
  · -- the first match is opened: it is the profile's own
    rw [if_pos hreg] at hstep
    cases hstep
    obtain ⟨user, hu⟩ := exists_singleUser hreg
    obtain ⟨r, hr, creator, -, hmatched, horigin, hemail, rfl⟩ := hs.exists_creator hscr hu
    have hstored : (getFBUserData scr.users profile.email profile.name).storedName
        = some (creator.name.getD "") :=
      getFBUserData_storedName_eq_some.mpr (Or.inr ⟨_, hu, rfl, rfl⟩)
    obtain ⟨creator', hopened, hid, -⟩ := hown scr _ hscr hstored
    rw [openedRecord, hmatched, Option.getD_some, horigin, Origin.facebook.injEq] at hopened
    exact ⟨r, hr, creator, horigin, hemail.trans hnone, hopened ▸ hid⟩
  · -- the record is new
    rw [if_neg hreg] at hstep
    refine ⟨.ofFacebook key profile, ?_, profile, rfl, hnone, rfl⟩
    rw [(setValue_eq_some hstep).1]
    exact List.mem_append_right _ (List.mem_singleton_self _)

/-- If all sign-ins of a history open accounts of their own, each one without an e-mail has
    such a record in the end. -/
theorem exists_record_of_run (hrun : run step (launch []) es = some s)
    (honly : ∀ e ∈ es, FacebookOnly e)
    (hown : Along step (fun s e _ => OwnAccount s e) (launch []) es) :
    CreatedBySignIns es s ∧ ∀ p ∈ signIns es, p.WithoutEmail →
      ∃ r ∈ s.node, ∃ creator, r.origin = .facebook creator ∧ creator.WithoutEmail ∧
        creator.id = p.id := by
  revert honly hown
  refine run_history (I := fun es s => (∀ e ∈ es, FacebookOnly e) →
    Along step (fun s e _ => OwnAccount s e) (launch []) es → CreatedBySignIns es s ∧
      ∀ p ∈ signIns es, p.WithoutEmail → ∃ r ∈ s.node, ∃ creator,
        r.origin = .facebook creator ∧ creator.WithoutEmail ∧ creator.id = p.id) ?_ ?_ hrun
  · intro es s e s' hbefore ih hstep honly hown
    obtain ⟨hs, hrecords⟩ := ih (fun f hf => honly f (List.mem_append_left _ hf))
      (along_append hown hbefore).1
    have hlast : OwnAccount s e := along_last es hown hbefore hstep
    -- the history has grown by the last sign-in
    have hgrown : CreatedBySignIns (es ++ [e]) s := by
      refine ⟨hs.received, fun r hr => ?_⟩
      obtain ⟨creator, hcreator, horigin⟩ := hs.creators r hr
      refine ⟨creator, ?_, horigin⟩
      rw [signIns_concat]
      exact List.mem_append_left _ hcreator
    refine ⟨hgrown.step (honly e (List.mem_append_right _ (List.mem_singleton_self e))) ?_ hstep, ?_⟩
    · intro profile hprofile
      rw [signIns_concat, hprofile]
      exact List.mem_append_right _ (List.mem_singleton_self profile)
    · intro p hp hnone
      rw [signIns_concat, List.mem_append] at hp
      rcases hp with hp | hp
      · obtain ⟨r, hr, hcreator⟩ := hrecords p hp hnone
        exact ⟨r, node_subset_of_step hstep hr, hcreator⟩
      · cases e with
        | facebookResult i key profile =>
          obtain rfl : p = profile := List.mem_singleton.mp hp
          exact exists_record_of_signIn hs hnone hlast hstep
        | opened => cases hp
        | deliver => cases hp
        | signUpcClicked => cases hp
        | loginClicked => cases hp
  · exact fun _ _ => ⟨createdBySignIns_launch [], nofun⟩

/-- **One account for one profile.**  In a history of Facebook sign-ins on up-to-date
    screens, with different e-mails for different profiles that have one: every sign-in
    opens an account of its own profile exactly when all sign-ins without an e-mail are of
    one profile. -/
theorem ownAccount_along_iff (hrun : run step (launch []) es = some s)
    (honly : ∀ e ∈ es, FacebookOnly e)
    (hup : Along step (fun s e _ => ActsUpToDate s e) (launch []) es) (hdiff : DifferentEmails es) :
    Along step (fun s e _ => OwnAccount s e) (launch []) es ↔ OneWithoutEmail es := by
  constructor
  · intro hown p hp q hq hnone hnone'
    obtain ⟨hs, hrecords⟩ := exists_record_of_run hrun honly hown
    obtain ⟨r, hr, creator, horigin, hempty, hid⟩ := hrecords p hp hnone
    obtain ⟨r', hr', creator', horigin', hempty', hid'⟩ := hrecords q hq hnone'
    -- the e-mails of the node are distinct, so the two records are one
    have hdistinct : OneRecordEach s :=
      run_invariant_of_along (fun _ _ _ hs hup hstep => hs.step hup hstep) oneRecordEach_launch
        hup hrun
    have hsame : r = r' := eq_of_email hdistinct.distinct hr hr'
      (Record.email_of_facebook horigin hempty) (Record.email_of_facebook horigin' hempty')
    rw [hsame, horigin', Origin.facebook.injEq] at horigin
    rw [← hid, ← hid', horigin]
  · intro hone
    refine along_of_invariant (I := CreatedBySignIns es)
      (E := fun e => FacebookOnly e ∧ ∀ profile, e.profile = some profile → profile ∈ signIns es)
      ?_ (createdBySignIns_launch es) ?_
    · exact fun s e s' hs he hstep =>
        ⟨ownAccount_of_createdBySignIns hdiff hone hs he.2, hs.step he.1 he.2 hstep⟩
    · exact fun e he => ⟨honly e he, fun profile hprofile => List.mem_filterMap.mpr ⟨e, he, hprofile⟩⟩

/-- Ann signs in, of whom Facebook has no e-mail; then another profile does. -/
def annThen (profile : FbProfile) : List NetEvent :=
  [.opened .login, .deliver 0 [], .facebookResult 0 "-M1" ⟨"7", none, some "Ann"⟩,
    .opened .login, .deliver 1 [0], .facebookResult 1 "-M2" profile]

private theorem signIns_annThen (profile : FbProfile) :
    signIns (annThen profile) = [⟨"7", none, some "Ann"⟩, profile] := rfl

private theorem annThen_actsUpToDate (profile : FbProfile) :
    Along step (fun s e _ => ActsUpToDate s e) (launch []) (annThen profile) := by
  refine (along_cons rfl).mpr ⟨nofun, ?_⟩
  refine (along_cons rfl).mpr ⟨nofun, ?_⟩
  refine (along_cons rfl).mpr ⟨?_, ?_⟩
  · -- Ann's screen has received the empty node
    intro i email r scr hreg hscr
    cases hreg
    cases hscr
    exact ⟨[], List.mem_singleton.mpr rfl, nofun⟩
  refine (along_cons rfl).mpr ⟨nofun, ?_⟩
  refine (along_cons rfl).mpr ⟨nofun, ?_⟩
  refine fun s' _ => ⟨?_, trivial⟩
  -- the other screen has received Ann's record
  intro i email r scr hreg hscr
  cases hreg
  cases hscr
  exact ⟨_, List.mem_singleton.mpr rfl, fun r' hr' => hr'⟩

private theorem annThen_facebookOnly (profile : FbProfile) :
    ∀ e ∈ annThen profile, FacebookOnly e := by
  simp [annThen, FacebookOnly]

/-- A second profile that has an e-mail opens its own account. -/
theorem ownAccount_along_iff_bob :
    Along step (fun s e _ => OwnAccount s e) (launch [])
      (annThen ⟨"8", some "bob@mail.co", some "Bob"⟩) := by
  have hdiff : DifferentEmails (annThen ⟨"8", some "bob@mail.co", some "Bob"⟩) := by
    simp [DifferentEmails, signIns_annThen]
  refine (ownAccount_along_iff rfl (annThen_facebookOnly _) (annThen_actsUpToDate _) hdiff).mpr ?_
  simp [OneWithoutEmail, FbProfile.WithoutEmail, signIns_annThen]

/-- A second profile without an e-mail enters Ann's account, under her name. -/
theorem annThen_not_ownAccount :
    (∃ s, run step (launch []) (annThen ⟨"8", none, some "Bob"⟩) = some s) ∧
    DifferentEmails (annThen ⟨"8", none, some "Bob"⟩) ∧
    (∀ e ∈ annThen ⟨"8", none, some "Bob"⟩, FacebookOnly e) ∧
    Along step (fun s e _ => ActsUpToDate s e) (launch []) (annThen ⟨"8", none, some "Bob"⟩) ∧
    ¬ Along step (fun s e _ => OwnAccount s e) (launch []) (annThen ⟨"8", none, some "Bob"⟩) := by
  refine ⟨⟨_, rfl⟩, ?_, annThen_facebookOnly _, annThen_actsUpToDate _, fun h => ?_⟩
  · simp [DifferentEmails, signIns_annThen]
  · have hlast := along_last (annThen ⟨"8", none, some "Bob"⟩).dropLast h rfl rfl
    obtain ⟨creator, horigin, hid, -⟩ := hlast _ "Ann" rfl rfl
    cases horigin
    exact absurd hid (by decide)

end ChildLearning
