import Mathlib.Data.List.Pairwise
import ChildLearning.UniqueEmails

namespace ChildLearning

open Transition Network LoginViewController

/-!
# Every account accepted by sign-up can log in

When every registration is made on an up-to-date screen, the e-mails of the node stay
distinct (`UniqueEmails`), so a repetitive local list still has one record for each
e-mail, and the first match of a login is the account that was signed up.
-/

/-- The acting screen has received a snapshot with all records of the node. -/
def ActsUpToDate (s : Network) (e : NetEvent) : Prop :=
  ∀ i email r scr, e.registration = some (i, email, r) → s.screens[i]? = some scr →
    ∃ snapshot ∈ scr.received, ∀ r' ∈ s.node, r' ∈ snapshot

/-- A record created in this history; a sign-up was accepted with a valid e-mail. -/
def Accepted (r : Record) : Prop :=
  (∃ name email password, r.origin = .signUp name email password ∧ isValidEmail email = true) ∨
    ∃ profile, r.origin = .facebook profile

/-- The invariant of up-to-date histories. -/
structure OneRecordEach (s : Network) : Prop where
  received : s.ReceivedFromNode
  accepted : ∀ r ∈ s.node, Accepted r
  distinct : DistinctEmails s.node

variable {s s' : Network} {e : NetEvent}

/-- An accepted record decodes, and its e-mail field is what the decoder reads. -/
theorem Accepted.exists_account {r : Record} (h : Accepted r) :
    ∃ user, r.account = some user ∧ r.email = some user.email := by
  rcases h with ⟨name, email, password, ho, -⟩ | ⟨profile, ho⟩
  · exact ⟨_, Record.account_of_signUp ho, Record.email_of_signUp ho⟩
  · exact ⟨_, Record.account_of_facebook ho, Record.email_of_facebook ho rfl⟩

/-- A record written by an event is an accepted one. -/
theorem accepted_of_registration {i : ℕ} {email : String} {r : Record}
    (h : e.registration = some (i, email, r)) : Accepted r := by
  rcases NetEvent.registration_cases h with ⟨_, _, _, _, -, hform, -, rfl⟩ | ⟨_, _, -, -, rfl⟩
  · -- the last check of the form is the one of the e-mail
    simp only [SignUpViewController.formAccepted, Bool.and_eq_true] at hform
    exact Or.inl ⟨_, _, _, rfl, hform.2⟩
  · exact Or.inr ⟨_, rfl⟩

/-- An up-to-date screen sees every e-mail of the node. -/
theorem ActsUpToDate.seesEmail (h : ActsUpToDate s e) : SeesEmail s e := by
  intro i email r scr hreg hscr hmem
  obtain ⟨snapshot, hsnap, hall⟩ := h i email r scr hreg hscr
  obtain ⟨seen, hseen, hemail⟩ := List.mem_filterMap.mp hmem
  obtain ⟨user, hacc, huser⟩ := Record.exists_account hemail
  exact ⟨seen, List.mem_flatten.mpr ⟨snapshot, hsnap, hall seen hseen⟩, user, hacc, huser⟩

theorem oneRecordEach_launch : OneRecordEach (launch []) :=
  ⟨receivedFromNode_launch [], nofun, by decide⟩

/-- The step lemma: all it takes of the acting screen is to see the e-mail it registers. -/
theorem OneRecordEach.step_of_seesEmail (hs : OneRecordEach s) (hsees : SeesEmail s e)
    (h : step s e = some s') : OneRecordEach s' := by
  refine ⟨hs.received.step h, fun r hr => ?_, (distinctEmails_step_iff hs.distinct h).mpr hsees⟩
  rcases step_node h with ⟨hnode, -⟩ | ⟨_, _, r', _, hreg, -, -, hnode⟩
  · exact hs.accepted r (hnode ▸ hr)
  · rw [hnode, List.mem_append, List.mem_singleton] at hr
    rcases hr with hold | rfl
    · exact hs.accepted r hold
    · exact accepted_of_registration hreg

theorem OneRecordEach.step (hs : OneRecordEach s) (hup : ActsUpToDate s e)
    (h : step s e = some s') : OneRecordEach s' :=
  hs.step_of_seesEmail hup.seesEmail h

/-- Where e-mails are distinct, a record is determined by its e-mail. -/
theorem eq_of_email {node : List Record} (h : DistinctEmails node) {r r' : Record} {email : String}
    (hr : r ∈ node) (hr' : r' ∈ node) (he : r.email = some email) (he' : r'.email = some email) :
    r = r' := by
  have hpair := List.pairwise_filterMap.mp h
  -- the relation "no common e-mail" is symmetric, so it holds of any two records that differ
  have hsymm : Std.Symm fun a a' : Record =>
      ∀ b, a.email = some b → ∀ b', a'.email = some b' → b ≠ b' :=
    ⟨fun _ _ hR b hb b' hb' heq => hR b' hb' b hb heq.symm⟩
  by_contra hne
  exact hpair.forall hr hr' hne email he email he' rfl

namespace OneRecordEach

variable {scr : AccountScreen} {email : String}

/-- A picked entry decodes a record of the node with the e-mail asked for. -/
theorem exists_record (hs : OneRecordEach s) (hscr : scr ∈ s.screens) {user : Users}
    (hu : singleUser scr.users email = some user) :
    ∃ r ∈ s.node, r.account = some user ∧ r.email = some email := by
  obtain ⟨r, hr, hacc⟩ := AccountScreen.exists_matchedRecord hu
  have hnode : r ∈ s.node := hs.received scr hscr r (AccountScreen.matchedRecord_spec hr).1
  obtain ⟨user', hacc', hemail⟩ := (hs.accepted r hnode).exists_account
  rw [hacc, Option.some.injEq] at hacc'
  refine ⟨r, hnode, hacc, ?_⟩
  rw [hemail, ← hacc', (singleUser_eq_some hu).2]

/-- A received account is the one a lookup picks. -/
theorem singleUser_of_received (hs : OneRecordEach s) (hscr : scr ∈ s.screens) {r : Record}
    (hr : r ∈ scr.records) {user : Users} (hacc : r.account = some user) :
    singleUser scr.users user.email = some user := by
  have hreg : isRegistered scr.users user.email = true :=
    AccountScreen.isRegistered_iff_record.mpr ⟨r, hr, user, hacc, rfl⟩
  -- the list may repeat the account, but all its entries come from the same record
  obtain ⟨picked, hpicked⟩ := exists_singleUser hreg
  obtain ⟨r', hr', hacc', hemail'⟩ := hs.exists_record hscr hpicked
  have hnode : r ∈ s.node := hs.received scr hscr r hr
  obtain ⟨user', hacc'', hemail⟩ := (hs.accepted r hnode).exists_account
  rw [hacc, Option.some.injEq] at hacc''
  have hsame : r = r' := eq_of_email hs.distinct hnode hr' (hacc'' ▸ hemail) hemail'
  rw [hpicked, ← hacc', ← hsame, hacc]

end OneRecordEach

/-- **Sign-up, then login.**  After any history whose registrations are made on
    up-to-date screens, on any login screen: an account signed up and received since
    logs in with its own password and with no other, and an e-mail that is in no record
    never opens Home. -/
theorem loginClicked_of_run {es : List NetEvent}
    (hrun : run step (launch []) es = some s)
    (hseq : Along step (fun s e _ => ActsUpToDate s e) (launch []) es)
    {i : ℕ} {scr : AccountScreen} (hscr : s.screen .login i = some scr) :
    (∀ r ∈ s.node, ∀ name email password, r.origin = .signUp name email password →
      (∃ snapshot ∈ scr.received, r ∈ snapshot) → ∀ q, q ≠ "" →
        loginClicked scr.users (some email) (some q)
          = if q = password then .openHome name else .alert "Error!" "Incorrect Password") ∧
    (∀ email, isValidEmail email = true → (∀ r ∈ s.node, r.email ≠ some email) →
      ∀ txtFPassword stored,
        loginClicked scr.users (some email) txtFPassword ≠ .openHome stored) := by
  have hs : OneRecordEach s :=
    run_invariant_of_along (fun _ _ _ hs hup hstep => hs.step hup hstep) oneRecordEach_launch
      hseq hrun
  have hmem : scr ∈ s.screens := List.mem_of_getElem? (screen_eq_some hscr).1
  constructor
  · rintro r hr name email password ho ⟨snapshot, hsnap, hin⟩ q hq
    -- the form of the sign-up made the same test as the one of the login
    have hvalid : isValidEmail email = true := by
      rcases hs.accepted r hr with ⟨_, _, _, ho', hv⟩ | ⟨_, ho'⟩
      · rw [ho] at ho'; cases ho'; exact hv
      · rw [ho] at ho'; cases ho'
    have hpick : singleUser scr.users email = some ⟨name, email, password⟩ :=
      hs.singleUser_of_received hmem (List.mem_flatten.mpr ⟨snapshot, hsnap, hin⟩)
        (Record.account_of_signUp ho)
    rw [loginClicked_of_valid hvalid hq]
    by_cases h : q = password
    · simp [fetchLogin, hpick, h]
    · simp [fetchLogin, hpick, h, Ne.symm h]
  · intro email hvalid hnone txtFPassword stored hopen
    obtain ⟨user, hu, -⟩ := fetchLogin_eq_openHome.mp (loginClicked_eq_openHome.mp hopen).2
    obtain ⟨r, hr, -, hemail⟩ := hs.exists_record hmem hu
    exact hnone r hr hemail

/-- Ann signs up on an up-to-date screen; a login screen then receives the node. -/
def annSignsUp : List NetEvent :=
  [.opened .signUp, .deliver 0 [],
    .signUpcClicked 0 "-M1" (some "Ann") (some "ann@mail.co") (some "pw"),
    .opened .login, .deliver 1 [0]]

private theorem annSignsUp_actsUpToDate :
    Along step (fun s e _ => ActsUpToDate s e) (launch []) annSignsUp := by
  refine (along_cons rfl).mpr ⟨nofun, ?_⟩
  refine (along_cons rfl).mpr ⟨nofun, ?_⟩
  refine (along_cons rfl).mpr ⟨?_, ?_⟩
  · -- the one registration: screen 0 has received the empty node
    intro i email r scr hreg hscr
    obtain rfl : 0 = i := Option.some.inj (congrArg (Option.map Prod.fst) hreg)
    cases hscr
    exact ⟨[], List.mem_singleton.mpr rfl, nofun⟩
  · refine (along_cons rfl).mpr ⟨nofun, ?_⟩
    exact (along_cons rfl).mpr ⟨nofun, trivial⟩

theorem loginClicked_of_run_annSignsUp :
    ∃ s scr, run step (launch []) annSignsUp = some s ∧ s.screen .login 1 = some scr ∧
      loginClicked scr.users (some "ann@mail.co") (some "pw") = .openHome "Ann" ∧
      loginClicked scr.users (some "ann@mail.co") (some "wp")
        = .alert "Error!" "Incorrect Password" := by
  have hlogin := (@loginClicked_of_run _ annSignsUp rfl annSignsUp_actsUpToDate 1 _ rfl).1 _
    (List.mem_singleton.mpr rfl) "Ann" "ann@mail.co" "pw" rfl
    ⟨_, List.mem_singleton.mpr rfl, List.mem_singleton.mpr rfl⟩
  exact ⟨_, _, rfl, rfl, hlogin "pw" (by decide), hlogin "wp" (by decide)⟩

end ChildLearning
