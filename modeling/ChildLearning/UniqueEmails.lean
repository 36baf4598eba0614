import ChildLearning.Network

namespace ChildLearning

open Transition Network

/-!
# Distinct e-mails in the `User` node

Both registration paths look the e-mail up in their local list and then write, without
a transaction.  `distinctEmails_along_iff` says exactly which histories keep the
e-mails of the node distinct: those in which every registration with an e-mail that the
node already holds is made on a screen that has received a record with it.
-/

/-- The `email` fields of the node. -/
def emails (node : List Record) : List String := node.filterMap Record.email

/-- No two records of the node have the same e-mail. -/
def DistinctEmails (node : List Record) : Prop := (emails node).Nodup

instance : DecidablePred DistinctEmails := fun node =>
  inferInstanceAs (Decidable (emails node).Nodup)

/-- If the event checks an e-mail that the node holds, the acting screen has received a
    record that decodes to it. -/
def SeesEmail (s : Network) (e : NetEvent) : Prop :=
  ∀ i email r scr, e.registration = some (i, email, r) → s.screens[i]? = some scr →
    email ∈ emails s.node →
      ∃ seen ∈ scr.records, ∃ user, seen.account = some user ∧ user.email = email

variable {s s' : Network} {e : NetEvent}

/-- The step lemma: from distinct e-mails, one step keeps them distinct exactly when it
    does not register an e-mail of the node unseen. -/
theorem distinctEmails_step_iff (hs : DistinctEmails s.node) (h : step s e = some s') :
    DistinctEmails s'.node ↔ SeesEmail s e := by
  rcases step_node h with ⟨hnode, hseen⟩ | ⟨i, email, r, scr, hreg, hscr, hfree, hnode⟩
  · -- nothing was written: an e-mail checked, if any, was on the list
    rw [hnode]
    refine ⟨fun _ => ?_, fun _ => hs⟩
    intro i email r scr hreg hscr _
    exact AccountScreen.isRegistered_iff_record.mp (hseen i email r scr hreg hscr)
  · -- a record was written: its e-mail was not on the list, so it must be new to the node
    have hemails : emails s'.node = emails s.node ++ [email] := by
      simp [emails, hnode, NetEvent.email_of_registration hreg]
    have hunseen : ¬ ∃ seen ∈ scr.records, ∃ user, seen.account = some user ∧ user.email = email := by
      rw [← AccountScreen.isRegistered_iff_record, hfree]; exact Bool.false_ne_true
    have hnew : DistinctEmails s'.node ↔ email ∉ emails s.node := by
      rw [DistinctEmails, hemails, List.nodup_append_comm, List.singleton_append, List.nodup_cons]
      exact and_iff_left hs
    rw [hnew]
    constructor
    · intro hnot i' email' r' scr' hreg' hscr' hmem
      rw [hreg] at hreg'
      cases hreg'
      exact absurd hmem hnot
    · exact fun hsees hmem => hunseen (hsees i email r scr hreg hscr hmem)

/-- **Distinct e-mails.** Starting from a node with distinct e-mails, the e-mails stay
    distinct along a history exactly when every registration in it sees its e-mail. -/
theorem distinctEmails_along_iff (node : List Record) (h : DistinctEmails node)
    (es : List NetEvent) :
    Along step (fun _ _ s' => DistinctEmails s'.node) (launch node) es ↔
      Along step (fun s e _ => SeesEmail s e) (launch node) es := by
  apply along_iff_along (I := fun s => DistinctEmails s.node)
  · exact fun s e s' hs hstep => distinctEmails_step_iff hs hstep
  · exact fun s e s' _ _ hdistinct => hdistinct
  · exact h

/-- Two sign-up screens, neither of which has received a snapshot, and one e-mail. -/
def twoPhones : List NetEvent :=
  [.opened .signUp, .opened .signUp,
    .signUpcClicked 0 "-M1" (some "Ann") (some "ann@mail.co") (some "pw1"),
    .signUpcClicked 1 "-M2" (some "Bob") (some "ann@mail.co") (some "pw2")]

theorem distinctEmails_along_iff_twoPhones :
    Along step (fun _ _ s' => DistinctEmails s'.node) (launch []) twoPhones ↔
      Along step (fun s e _ => SeesEmail s e) (launch []) twoPhones :=
  distinctEmails_along_iff [] (by decide) twoPhones

/-- Both sign-ups are accepted, and the node holds the e-mail twice. -/
theorem twoPhones_not_distinctEmails :
    ∃ s, run step (launch []) twoPhones = some s ∧ ¬ DistinctEmails s.node := by
  refine ⟨_, rfl, ?_⟩
  decide

end ChildLearning
