import ChildLearning.SyncedPhones
import ChildLearning.Lib.AssocList

namespace ChildLearning

open Transition Network FUtilities

/-!
# The oldest account

Nothing keeps two phones from registering the same e-mail, and the server may accept their writes
in either order.  `oldest_of_run` says that the phones agree on one of the accounts nevertheless:
the order of the keys decides, and once a phone has been sent the account with the first key, its
screens pick that one.
-/

namespace SyncedPhones

variable {s s' : SyncedPhones} {ev : SyncEvent} {p : ℕ} {phone phone' : SyncedPhone}
  {r : Record} {new : Option Record}

/-- The key of the record comes before those of all other requests with its e-mail. -/
def First (s : SyncedPhones) (email : String) (r : Record) : Prop :=
  ∀ q ∈ s.requests, q.2.email = some email → q.2 = r ∨ r.Before q.2

/-- Whether a record has the e-mail. -/
def hasEmail (email : String) (r : Record) : Bool := r.email = some email

/-- On a phone that has been sent the first record, it is the first one with its e-mail. -/
theorem find?_view {email : String} (hs : s.Consistent) (htracks : phone.Tracks (s.KnownTo p))
    (hfirst : s.First email r) (hemail : r.email = some email) (hr : r ∈ s.sent phone) :
    (s.view phone).find? (hasEmail email) = some r := by
  have hmem : r ∈ s.view phone := by
    rw [view, List.mem_insertionSort]
    exact List.mem_append_left _ hr
  have hmatch : hasEmail email r = true := decide_eq_true hemail
  obtain ⟨r', hr'⟩ := Option.isSome_iff_exists.mp
    (List.find?_isSome.mpr ⟨r, hmem, hmatch⟩ : ((s.view phone).find? (hasEmail email)).isSome = true)
  obtain ⟨q, hq⟩ : ∃ q, (q, r') ∈ s.requests :=
    (knownTo_of_mem_view htracks (List.mem_of_find?_eq_some hr')).elim (hs.requested r')
      fun hown => ⟨p, hown⟩
  have hsorted := s.pairwise_view phone
  rw [hr']
  have hmatch' : hasEmail email r' = true := List.find?_some hr'
  rcases hfirst _ hq (of_decide_eq_true hmatch') with heq | hbefore
  · exact congrArg some heq
  · -- the other one does not come after it
    rcases AssocList.rel_of_find? hsorted hr' hmem hmatch with heq | hle
    · exact congrArg some heq
    · rw [@Std.OrientedCmp.eq_swap _ compareKey, hbefore] at hle
      cases hle

/-- The decoded records, looked up by the e-mail. -/
theorem singleUser_of_find? {children : List Record} {places : List Users} {email : String}
    (hplaces : children.mapM Record.account = some places)
    (hemails : ∀ r ∈ children, r.email.isSome = true)
    (hfind : children.find? (hasEmail email) = some r) : singleUser places email = r.account := by
  have hread : ∀ r ∈ children,
      (r.account.any fun user => user.email == email) = hasEmail email r := by
    intro r hr
    obtain ⟨stored, hstored⟩ := Option.isSome_iff_exists.mp (hemails r hr)
    obtain ⟨user, hacc, rfl⟩ := Record.exists_account hstored
    rw [hacc, hasEmail, hstored, Option.any_some, beq_eq_decide]
    simp
  rw [singleUser, Decode.find?_of_mapM hplaces, List.find?_congr hread, hfind, Option.bind_some]

/-- From its account screen `n₀` on, a phone picks the account of the record for the e-mail, and
    the events that wait for these screens have it first. -/
structure Agrees (n₀ : ℕ) (email : String) (r : Record) (phone : SyncedPhone) : Prop where
  raised : ∀ event ∈ phone.raised, n₀ ≤ event.1 → event.2.find? (hasEmail email) = some r
  listed : ∀ (i : ℕ) (users : List Users), n₀ ≤ i → phone.session.screens[i]? = some users →
    users = [] ∨ singleUser users email = r.account

variable {n₀ : ℕ} {email : String}

/-- Opening an empty list changes nothing of this. -/
theorem Agrees.session {e : SessionEvent} {session : Session} (h : Agrees n₀ email r phone)
    (hobserved : e.isObserved = false) (hwf : Session.WellFormed phone.session.nav)
    (hstep : phone.session.step e = some session) {i : ℕ} {users : List Users} (hi : n₀ ≤ i)
    (husers : session.screens[i]? = some users) : users = [] ∨ singleUser users email = r.account := by
  rcases Session.screens_of_session hobserved hwf hstep with hscreens | hscreens
  · rw [hscreens] at husers
    exact h.listed i users hi husers
  · rw [hscreens] at husers
    rcases Gather.getElem?_concat_cases husers with hold | ⟨-, rfl⟩
    · exact h.listed i users hi hold
    · exact Or.inl rfl

/-- A snapshot that has the record first is appended. -/
theorem Agrees.delivered {i : ℕ} {children : List Record} {session : Session}
    (h : Agrees n₀ email r phone) (hemail : r.email = some email)
    (hemails : ∀ r ∈ children, r.email.isSome = true)
    (hfind : n₀ ≤ i → children.find? (hasEmail email) = some r)
    (hstep : phone.session.step (.observed i (nodeSnapshot children)) = some session) {j : ℕ}
    {users : List Users} (hj : n₀ ≤ j) (husers : session.screens[j]? = some users) :
    users = [] ∨ singleUser users email = r.account := by
  obtain ⟨users₀, places, husers₀, hplaces, rfl⟩ := Session.observed_eq_some hstep
  rcases Gather.getElem?_set_cases husers with ⟨rfl, rfl⟩ | ⟨-, hold⟩
  · refine Or.inr ?_
    have hpicked := singleUser_of_find? hplaces hemails (hfind hj)
    rcases h.listed j users₀ hj husers₀ with rfl | hlisted
    · exact hpicked
    · -- what the list already has comes first
      obtain ⟨user, hacc, -⟩ := Record.exists_account hemail
      rw [hacc] at hlisted
      rw [singleUser, List.find?_append, ← singleUser, hlisted, Option.some_or, hacc]
  · exact h.listed j users hj hold

/-- A turn, other than a relaunch. -/
theorem Turns.agrees (hturn : s.Turns p phone ev new phone') (hs : s.Consistent)
    (htracks : phone.Tracks (s.KnownTo p)) (hne : ev ≠ .relaunch p)
    (hemail : r.email = some email) (hview : (s.view phone).find? (hasEmail email) = some r)
    (h : Agrees n₀ email r phone) : Agrees n₀ email r phone' := by
  cases hturn with
  | session hobserved hstep hrecord =>
    exact ⟨h.raised, fun i users hi husers =>
      h.session hobserved htracks.session.wf hstep hi husers⟩
  | pushed hobserved hstep hget hrecord hkey =>
    exact ⟨h.raised, fun i users hi husers =>
      h.session hobserved htracks.session.wf hstep hi husers⟩
  | received hle hlen => exact ⟨h.raised, h.listed⟩
  | acked hown => exact ⟨h.raised, h.listed⟩
  | raised hscreen =>
    refine ⟨fun event hevent hi => ?_, h.listed⟩
    rcases List.mem_append.mp hevent with hold | hlast
    · exact h.raised event hold hi
    · rw [List.mem_singleton.mp hlast]
      exact hview
  | delivered hraised hstep =>
    have hmem : ∀ event ∈ _ :: _, event ∈ phone.raised := fun event hevent => hraised ▸ hevent
    refine ⟨fun event hevent => h.raised event (hmem event (List.mem_cons_of_mem _ hevent)), ?_⟩
    have hemails := fun r hr =>
      hs.email_isSome ((htracks.raised _ (hmem _ List.mem_cons_self)).2 r hr)
    exact fun j users hj husers => h.delivered hemail hemails
      (h.raised _ (hmem _ List.mem_cons_self)) hstep hj husers
  | relaunch => exact absurd rfl hne

/-- A phone that has just been started has no account screen. -/
theorem agrees_relaunch (n₀ : ℕ) (session : Session) (received : ℕ) :
    Agrees n₀ email r { session := session.relaunch, received := received } := by
  refine ⟨nofun, fun i users _ husers => ?_⟩
  rw [session.screens_relaunch] at husers
  cases husers

/-- The call with which an event registers, if it does. -/
def pushes (s : SyncedPhones) : SyncEvent → Option PushCall
  | .session p call e =>
    if (s.phones[p]?.bind fun phone => phone.session.record "" e).isSome then some call else none
  | _ => none

/-- A phone that registers reads a time after this one. -/
def Later (t : ℕ) (s : SyncedPhones) (ev : SyncEvent) : Prop :=
  ∀ call, s.pushes ev = some call → call.InRange ∧ t < call.now

/-- A turn with a later time keeps the first record where it is. -/
theorem Turns.before {t : ℕ} {randChars : Vector (Fin 64) 12} {r' : Record}
    (hturn : s.Turns p phone ev (some r') phone') (hphone : s.phones[p]? = some phone)
    (hstamped : r.Stamped t randChars) (hlater : s.Later t ev) : r.Before r' := by
  cases hturn with
  | pushed hobserved hstep hget hrecord hkey =>
    rename_i call e session pushed
    have hsome : (phone.session.record "" e).isSome = true := by
      rw [Session.record_isSome phone.session "" pushed.1, hrecord]
      rfl
    obtain ⟨hcall, hlt⟩ := hlater call (by simp [pushes, hphone, hsome])
    obtain ⟨-, hpushId⟩ := FNextPushId.spec_of_get hcall hget
    have htlt := hstamped.lt
    obtain ⟨hnonneg, hcall⟩ := hcall
    rw [Record.Before, (Session.record_spec hrecord).1, hpushId, hstamped.key, compareKey_pushId,
      Nat.mod_eq_of_lt htlt, Nat.mod_eq_of_lt (by omega), Ordering.then_eq_lt, Nat.compare_eq_lt]
    omega

/-- What a phone has been sent stays with it. -/
theorem sent_mono (more : List Record) (hnode : s'.node = s.node ++ more)
    (hr : r ∈ s.sent phone) : r ∈ s'.sent phone := by
  rw [sent, hnode]
  exact ((List.prefix_append s.node more).take phone.received).subset hr

theorem Turns.sent (hturn : s.Turns p phone ev new phone') (hr : r ∈ s.sent phone) :
    r ∈ s.sent phone' := by
  cases hturn with
  | received hle hlen => exact List.take_subset_take_left s.node hle hr
  | relaunch =>
    show r ∈ s.node.take s.node.length
    rw [List.take_length]
    exact List.mem_of_mem_take hr
  | _ => exact hr

/-- Only a relaunch of its own ends what a phone has. -/
theorem Turns.agrees_or (hturn : s.Turns p phone ev new phone') (hs : s.Consistent)
    (htracks : phone.Tracks (s.KnownTo p)) (hemail : r.email = some email)
    (hfirst : s.First email r) (hr : r ∈ s.sent phone) (h : Agrees n₀ email r phone) :
    ev ≠ .relaunch p ∧ Agrees n₀ email r phone' ∨ Agrees 0 email r phone' := by
  by_cases hne : ev = .relaunch p
  · subst hne
    cases hturn
    exact Or.inr (agrees_relaunch 0 _ _)
  · exact Or.inl ⟨hne, hturn.agrees hs htracks hne hemail
      (find?_view hs htracks hfirst hemail hr) h⟩

/-- What a phone has of the first record, after these events since it had this many account
    screens. -/
structure Settled (opened : ℕ) (p : ℕ) (email : String) (r : Record) (es : List SyncEvent)
    (s : SyncedPhones) : Prop where
  consistent : s.Consistent
  first : s.First email r
  phone : ∀ phone, s.phones[p]? = some phone → r ∈ s.sent phone ∧
    ∃ n₀, Agrees n₀ email r phone ∧ n₀ ≤ opened ∧ (.relaunch p ∈ es → n₀ = 0)

/-- The step lemma. -/
theorem Settled.step {opened t : ℕ} {randChars : Vector (Fin 64) 12} {es : List SyncEvent}
    (hs : Settled opened p email r es s) (hstamped : r.Stamped t randChars)
    (hemail : r.email = some email) (hlater : s.Later t ev) (h : s.step ev = some s') :
    Settled opened p email r (es ++ [ev]) s' := by
  have hold : ∀ n₀, ev ≠ .relaunch p → (.relaunch p ∈ es → n₀ = 0) →
      .relaunch p ∈ es ++ [ev] → n₀ = 0 := by
    intro n₀ hne hes hmem
    exact hes ((List.mem_append.mp hmem).resolve_right fun hlast =>
      hne (List.mem_singleton.mp hlast).symm)
  rcases step_cases h with ⟨k, w, accepted, rfl, hw, hphones, hwrites, hnode⟩ |
    ⟨q, phone, new, phone', hphone, hturn, hphones, hwrites, hnode⟩
  · refine ⟨hs.consistent.step h, ?_, fun phone hphone => ?_⟩
    · rw [First, requests_of_answer hw hwrites]
      exact hs.first
    · rw [hphones] at hphone
      obtain ⟨hr, n₀, hagrees, hle, hes⟩ := hs.phone phone hphone
      refine ⟨?_, n₀, hagrees, hle, hold n₀ (by simp) hes⟩
      refine sent_mono (if accepted then [w.record] else []) ?_ hr
      rw [hnode]
      cases accepted <;> simp
  · refine ⟨hs.consistent.step h, fun request hrequest hsame => ?_, fun other hother => ?_⟩
    · rw [requests_of_turn hwrites] at hrequest
      rcases List.mem_append.mp hrequest with hmem | hlast
      · exact hs.first request hmem hsame
      · obtain ⟨r', hr', rfl⟩ := List.mem_map.mp hlast
        obtain rfl : new = some r' := by simpa using hr'
        exact Or.inr (hturn.before hphone hstamped hlater)
    · have hsent : ∀ phone, s'.sent phone = s.sent phone := fun phone => by
        rw [sent, sent, hnode]
      rw [hsent]
      rw [hphones] at hother
      rcases Gather.getElem?_set_cases hother with ⟨rfl, rfl⟩ | ⟨hne, hkept⟩
      · obtain ⟨hr, n₀, hagrees, hle, hes⟩ := hs.phone phone hphone
        refine ⟨hturn.sent hr, ?_⟩
        rcases hturn.agrees_or hs.consistent (hs.consistent.tracks p phone hphone) hemail hs.first hr
          hagrees with ⟨hne, hagrees'⟩ | hagrees'
        · exact ⟨n₀, hagrees', hle, hold n₀ hne hes⟩
        · exact ⟨0, hagrees', Nat.zero_le _, fun _ => rfl⟩
      · obtain ⟨hr, n₀, hagrees, hle, hes⟩ := hs.phone other hkept
        refine ⟨hr, n₀, hagrees, hle, hold n₀ ?_ hes⟩
        rintro rfl
        cases hturn
        exact hne rfl

/-- **All phones let in the account with the first key.**  Wherever any number of phones get to,
    through sessions, writes, answers, snapshots and relaunches in any order: once a phone has been
    sent a record whose key comes before those of all other writes with its e-mail, accepted or
    not, then whatever happens afterwards, as long as every phone that registers reads a later
    time, each account screen that the phone opens has received no snapshot yet, or picks the
    account of this record for the e-mail.  So any two phones that have been sent it let the same
    account in, even where both of them have registered the e-mail. -/
theorem oldest_of_run {n : ℕ} {es : List SyncEvent} (h : run step (launch n) es = some s)
    (hphone : s.phones[p]? = some phone) (hr : r ∈ s.sent phone) {t : ℕ}
    {randChars : Vector (Fin 64) 12} (hstamped : r.Stamped t randChars)
    (hemail : r.email = some email)
    (hfirst : ∀ w ∈ s.writes, w.record.email = some email → w.record.key ≠ r.key →
      r.Before w.record)
    {more : List SyncEvent} (hmore : run step s more = some s')
    (hlater : Along step (fun s ev _ => s.Later t ev) s more)
    (hphone' : s'.phones[p]? = some phone') {i : ℕ} {users : List Users}
    (husers : phone'.session.screens[i]? = some users)
    (hopened : phone.session.screens.length ≤ i ∨ .relaunch p ∈ more) :
    users = [] ∨ singleUser users email = r.account := by
  have hs := consistent_of_run h
  have htracks := hs.tracks p phone hphone
  have hstart : Settled phone.session.screens.length p email r [] s := by
    refine ⟨hs, fun q hq => ?_, fun other hother => ?_⟩
    · obtain ⟨w, hw, rfl⟩ := List.mem_map.mp hq
      by_cases hkey : w.record.key = r.key
      · -- keys are used once
        obtain ⟨q', hq'⟩ := hs.requested r (List.mem_of_mem_take hr)
        exact fun _ => Or.inl (congrArg Prod.snd (List.inj_on_of_nodup_map hs.keys hq hq' hkey))
      · exact fun hsame => Or.inr (hfirst w hw hsame hkey)
    · obtain rfl : phone = other := Option.some.inj (hphone.symm.trans hother)
      refine ⟨hr, phone.session.screens.length, ⟨fun event hevent hle => ?_, fun j users hle hj => ?_⟩,
        le_rfl, nofun⟩
      · exact absurd (htracks.raised event hevent).1 (not_lt.mpr hle)
      · exact absurd (List.getElem?_eq_some_iff.mp hj).1 (not_lt.mpr hle)
  have hsettled : Along step (fun s ev _ => s.Later t ev) s more →
      Settled phone.session.screens.length p email r more s' := by
    refine run_history (I := fun es s' => Along step (fun s ev _ => s.Later t ev) s es →
      Settled phone.session.screens.length p email r es s') ?_ (fun _ => hstart) hmore
    intro es mid ev last hrun ih hstep halong
    exact (ih (along_append halong hrun).1).step hstamped hemail (along_last es halong hrun hstep)
      hstep
  obtain ⟨-, n₀, hagrees, hle, hrelaunched⟩ := (hsettled hlater).phone phone' hphone'
  refine hagrees.listed i users ?_ husers
  rcases hopened with hopened | hrelaunch
  · exact hle.trans hopened
  · rw [hrelaunched hrelaunch]
    exact Nat.zero_le i

/-- Ann registers the same e-mail on two phones, one millisecond after the other; the server accepts
    the second one first, and sends both to a third phone. -/
def annAtOnce : List SyncEvent :=
  [.session 0 (KeyedPhones.callAt 0) .openSignUp, .session 1 (KeyedPhones.callAt 0) .openSignUp,
    .session 0 (KeyedPhones.callAt 1700000000000)
      (.signUpcClicked (some "Ann") (some "ann@mail.co") (some "pw")),
    .session 1 (KeyedPhones.callAt 1700000000001)
      (.signUpcClicked (some "Anna") (some "ann@mail.co") (some "pw2")),
    .answered 1 true, .answered 0 true, .received 2 2]

/-- The third phone opens a login screen, which receives both. -/
def loginAfterwards : List SyncEvent :=
  [.session 2 (KeyedPhones.callAt 0) .openLogin, .raised 2 0, .delivered 2]

/-- The login screen lets in the Ann with the first key, although the other one was accepted
    first. -/
theorem oldest_of_run_annAtOnce :
    ∃ s phone users, run step (launch 3) (annAtOnce ++ loginAfterwards) = some s ∧
      s.phones[2]? = some phone ∧ phone.session.screens[0]? = some users ∧
        s.node.map Record.account
          = [some ⟨"Anna", "ann@mail.co", "pw2"⟩, some ⟨"Ann", "ann@mail.co", "pw"⟩] ∧
        singleUser users "ann@mail.co" = some ⟨"Ann", "ann@mail.co", "pw"⟩ := by
  have hwrites : (run step (launch 3) annAtOnce).map (fun s => s.writes.map (·.record.key))
      = some ["-NjEtLV-666666666666", "-NjEtLV0666666666666"] := by decide +kernel
  have hphone : ((run step (launch 3) annAtOnce).bind fun s => s.phones[2]?.map fun phone =>
      ((s.sent phone).map fun r => (r.key, r.account), phone.session.screens.length))
      = some ([("-NjEtLV0666666666666", some ⟨"Anna", "ann@mail.co", "pw2"⟩),
        ("-NjEtLV-666666666666", some ⟨"Ann", "ann@mail.co", "pw"⟩)], 0) := by decide +kernel
  have hafter : ((run step (launch 3) (annAtOnce ++ loginAfterwards)).bind fun s =>
      s.phones[2]?.bind fun phone => phone.session.screens[0]?.map fun users =>
        (s.node.map Record.account, users.length))
      = some ([some ⟨"Anna", "ann@mail.co", "pw2"⟩, some ⟨"Ann", "ann@mail.co", "pw"⟩], 2) := by
    decide +kernel
  obtain ⟨s, hrun, hwrites⟩ := Option.map_eq_some_iff.mp hwrites
  rw [hrun, Option.bind_some] at hphone
  obtain ⟨phone, hphone, hstate⟩ := Option.map_eq_some_iff.mp hphone
  obtain ⟨hsent, hscreens⟩ := Prod.mk.inj hstate
  obtain ⟨s', hmore, hstate⟩ := Option.bind_eq_some_iff.mp hafter
  obtain ⟨phone', hphone', hstate⟩ := Option.bind_eq_some_iff.mp hstate
  obtain ⟨users, husers, hstate⟩ := Option.map_eq_some_iff.mp hstate
  obtain ⟨hnode, hlength⟩ := Prod.mk.inj hstate
  refine ⟨s', phone', users, hmore, hphone', husers, hnode, ?_⟩
  -- the record of the Ann with the first key
  obtain ⟨r, hr, heq⟩ := List.mem_map.mp (hsent ▸ List.mem_cons_of_mem _ List.mem_cons_self)
  obtain ⟨hkey, hacc⟩ := Prod.mk.inj heq
  have hemail : r.email = some "ann@mail.co" := by
    obtain ⟨email, hemail⟩ := Option.isSome_iff_exists.mp
      ((consistent_of_run hrun).email_isSome (p := 2) (Or.inl (List.mem_of_mem_take hr)))
    obtain ⟨user, huser, rfl⟩ := Record.exists_account hemail
    rw [hacc] at huser
    rw [hemail, ← Option.some.inj huser]
  have hstamped : r.Stamped 1700000000000 (.replicate 12 7) :=
    ⟨by decide, by decide, hkey.trans (by decide +kernel)⟩
  have hfirst : ∀ w ∈ s.writes, w.record.email = some "ann@mail.co" → w.record.key ≠ r.key →
      r.Before w.record := by
    intro w hw _ hne
    have hmem : w.record.key ∈ ["-NjEtLV-666666666666", "-NjEtLV0666666666666"] :=
      hwrites ▸ List.mem_map_of_mem hw
    rcases List.mem_pair.mp hmem with hfirst | hsecond
    · exact absurd (hfirst.trans hkey.symm) hne
    · rw [Record.Before, hkey, hsecond]
      decide +kernel
  have hlater : Along step (fun s ev _ => s.Later 1700000000000 ev) s loginAfterwards := by
    -- none of the events registers
    refine along_of_invariant (I := fun _ => True)
      (E := fun ev => ∀ s : SyncedPhones, s.pushes ev = none) ?_ trivial ?_
    · intro s ev _ _ hnone _
      refine ⟨fun call hcall => ?_, trivial⟩
      rw [hnone s] at hcall
      cases hcall
    · intro ev hev s
      simp only [loginAfterwards, List.mem_cons, List.not_mem_nil, or_false] at hev
      rcases hev with rfl | rfl | rfl
      · simp [pushes, Session.record, Session.handled]
      · rfl
      · rfl
  rw [run_append, hrun, Option.bind_some] at hmore
  rcases oldest_of_run hrun hphone hr hstamped hemail hfirst hmore hlater hphone' husers
    (Or.inl hscreens.le) with rfl | hpicked
  · cases hlength
  · rw [hpicked, hacc]

end SyncedPhones

end ChildLearning
