import ChildLearning.Phones

namespace ChildLearning

open Transition Network Directory

/-!
# Accounts on phones

What `Phones` carries over from networks to phones: `storedNames_of_phones` says that the names
that all phones store are the answers of one directory of accounts.
-/

/-! ### The directory -/

/-- As for a network: the account asked for, if there is one, is on the list that decides, and a
    typed password is not "facebook". -/
structure Phones.Orderly (s : Phones) (ev : PhoneEvent) : Prop where
  sees : ∀ p key e phone users request, ev = .session p key e → s.phones[p]? = some phone →
    phone.deciding e = some users → ev.request = some request →
    ∀ r ∈ s.node, r.email = some request.key → ∃ user ∈ users, r.account = some user
  typed : ∀ p key e k f, ev = .session p key e → e.atScreen k key = some f →
    TypedIn {"facebook"}ᶜ {"facebook"}ᶜ f

variable {number : ℕ → ℕ → Option ℕ} {s s' : Phones} {t t' : Network} {phone phone' : Session}
  {p k : ℕ} {key : String} {e : SessionEvent} {f : NetEvent}

/-- What an event asks does not depend on the number of its screen. -/
theorem SessionEvent.request_atScreen (h : e.atScreen k key = some f) :
    PhoneEvent.request (.session p key e) = f.request := by
  cases e with
  | signUpcClicked txtFName txtFEmail txtFPassword =>
    cases h
    simp only [PhoneEvent.request, atScreen, Option.bind_some, NetEvent.request, NetEvent.asks]
    split_ifs <;> rfl
  | loginClicked txtFEmail txtFPassword =>
    cases h
    simp only [PhoneEvent.request, atScreen, Option.bind_some, NetEvent.request, NetEvent.asks]
    split_ifs <;> rfl
  | facebookResult i result =>
    cases result with
    | none => cases h
    | some profile => cases h; rfl
  | _ => cases h

/-- The decision is asked of its screen. -/
theorem SessionEvent.eq_of_asks (h : e.atScreen k key = some f) {i : ℕ}
    {request : Request String String String} (hasks : f.asks = some (i, request)) : i = k := by
  cases e with
  | signUpcClicked txtFName txtFEmail txtFPassword =>
    cases h
    obtain ⟨-, heq⟩ := Option.ite_none_right_eq_some.mp hasks
    cases heq
    rfl
  | loginClicked txtFEmail txtFPassword =>
    cases h
    obtain ⟨-, heq⟩ := Option.ite_none_right_eq_some.mp hasks
    cases heq
    rfl
  | facebookResult j result =>
    cases result with
    | none => cases h
    | some profile => cases h; cases hasks; rfl
  | _ => cases h

/-- A received entry with the e-mail of a record comes from this record. -/
theorem OneRecordEach.mem_records (hs : OneRecordEach t) {scr : AccountScreen}
    (hscr : scr ∈ t.screens) {r : Record} (hr : r ∈ t.node) {email : String}
    (hemail : r.email = some email) {user : Users} (huser : user ∈ scr.users)
    (hacc : r.account = some user) : r ∈ scr.records := by
  have hreg : isRegistered scr.users email = true := by
    refine List.any_eq_true.mpr ⟨user, huser, ?_⟩
    rw [Record.email_of_account hacc, hemail]
    exact beq_self_eq_true email
  obtain ⟨r', hr', user', hacc', hemail'⟩ := AccountScreen.isRegistered_iff_record.mp hreg
  have hnode := hs.received scr hscr r' hr'
  obtain ⟨user'', hacc'', hread⟩ := (hs.accepted r' hnode).exists_account
  obtain rfl : user' = user'' := Option.some.inj (hacc'.symm.trans hacc'')
  rw [hemail'] at hread
  rwa [eq_of_email hs.distinct hr hnode hemail hread]

/-- An orderly decision of a phone is an orderly one of the network. -/
theorem Phones.Orderly.of_decides (ho : s.Orderly (.session p key e)) (hs : Mirrors number s t)
    (hone : OneRecordEach t) (hphone : s.phones[p]? = some phone)
    (hf : Decides (number p) phone t key e f) : ChildLearning.Orderly t f := by
  obtain ⟨i, k, scr, -, hevent, hscr, hdeciding⟩ := hf.list
  refine ⟨fun j request scr' hasks hscr' r hr hemail => ?_,
    ho.typed p key e k f rfl hevent⟩
  obtain rfl : j = k := SessionEvent.eq_of_asks hevent hasks
  obtain rfl : scr = scr' := Option.some.inj (hscr.symm.trans hscr')
  have hrequest : PhoneEvent.request (.session p key e) = some request := by
    rw [SessionEvent.request_atScreen hevent, NetEvent.request, hasks]
    rfl
  obtain ⟨user, huser, hacc⟩ := ho.sees p key e phone scr.users request rfl hphone hdeciding
    hrequest r (hs.node ▸ hr) hemail
  exact hone.mem_records (List.mem_of_getElem? hscr) hr hemail huser hacc

/-- Without registrations the node stays, and so does the invariant of orderly histories. -/
theorem OneRecordEach.run {fs : List NetEvent} (hs : OneRecordEach t)
    (hfs : ∀ f ∈ fs, f.registration = none) (h : run Network.step t fs = some t') :
    OneRecordEach t' ∧ t'.node = t.node := by
  induction fs generalizing t with
  | nil =>
    obtain rfl : t = t' := Option.some.inj h
    exact ⟨hs, rfl⟩
  | cons f fs ih =>
    obtain ⟨mid, hstep, hrest⟩ := run_cons_eq_some.mp h
    have hnone := hfs f List.mem_cons_self
    have hsees : SeesEmail t f := by
      intro i email r scr hreg
      rw [hnone] at hreg
      cases hreg
    obtain ⟨ht', hnode⟩ := ih (hs.step_of_seesEmail hsees hstep)
      (fun g hg => hfs g (List.mem_cons_of_mem f hg)) hrest
    exact ⟨ht', hnode.trans (node_of_registration_none hnone hstep)⟩

/-- The phones are a network with one record for each e-mail. -/
def Phones.OneRecordEach (s : Phones) : Prop :=
  ∃ number t, Mirrors number s t ∧ ChildLearning.OneRecordEach t

/-- The step lemma: an orderly step answers as the directory, and ends where the directory
    does. -/
theorem Phones.OneRecordEach.answered {ev : PhoneEvent} (hs : s.OneRecordEach) (ho : s.Orderly ev)
    (h : s.step ev = some s') :
    s'.OneRecordEach ∧
      serve (directory s.node) ev.request = (s.storedName ev, directory s'.node) := by
  obtain ⟨number, t, hs, hone⟩ := hs
  rcases hs.step h with ⟨hrequest, hname, number', fs, t', hnet, hfs, hs'⟩ |
    ⟨p, key, e, phone, f, t', rfl, hphone, hf, hnet, hs'⟩
  · obtain ⟨hone', hnode⟩ := hone.run hfs hnet
    refine ⟨⟨number', t', hs', hone'⟩, ?_⟩
    rw [hrequest, hname, ← hs'.node, hnode, hs.node]
    rfl
  · have hnetwork := ho.of_decides hs hone hphone hf
    refine ⟨⟨number, t', hs', hone.step_of_seesEmail hnetwork.seesEmail hnet⟩, ?_⟩
    obtain ⟨i, k, scr, -, hevent, -⟩ := hf.list
    have hname : s.storedName (.session p key e) = t.storedName f := by
      simp [Phones.storedName, hphone, hf.stored]
    rw [SessionEvent.request_atScreen hevent, hname, ← hs.node, ← hs'.node]
    exact serve_directory hone hnetwork hnet

/-- From a node with one record for each e-mail, an orderly history refines the directory. -/
theorem Phones.OneRecordEach.refines {s₀ : Phones} {es : List PhoneEvent}
    (hs : s₀.OneRecordEach) (hrun : run Phones.step s₀ es = some s)
    (horderly : Along Phones.step (fun s ev _ => s.Orderly ev) s₀ es) :
    outputs Phones.step Phones.storedName s₀ es
        = answers serve (directory s₀.node) (es.map PhoneEvent.request) ∧
      directory s.node = served serve (directory s₀.node) (es.map PhoneEvent.request) :=
  outputs_eq_answers (I := Phones.OneRecordEach) (C := fun s ev _ => s.Orderly ev)
    (fun _ _ _ hs ho hstep => hs.answered ho hstep) hs horderly hrun

/-- **One account service for all phones.**  Along every orderly history of any number of phones,
    the names that they store are the answers of one directory that serves the same requests one
    after the other, and the node ends as that directory does. -/
theorem storedNames_of_phones {n : ℕ} {es : List PhoneEvent}
    (hrun : run Phones.step (.launch n) es = some s)
    (horderly : Along Phones.step (fun s ev _ => s.Orderly ev) (.launch n) es) :
    outputs Phones.step Phones.storedName (.launch n) es
        = answers serve (fun _ => none) (es.map PhoneEvent.request) ∧
      directory s.node = served serve (fun _ => none) (es.map PhoneEvent.request) :=
  Phones.OneRecordEach.refines ⟨_, _, mirrors_launch n, oneRecordEach_launch⟩ hrun horderly

/-- Where nothing is asked, nothing has to be seen. -/
theorem Phones.Orderly.of_request_none {ev : PhoneEvent} (h : ev.request = none)
    (htyped : ∀ p key e k f, ev = .session p key e → e.atScreen k key = some f →
      TypedIn {"facebook"}ᶜ {"facebook"}ᶜ f) : s.Orderly ev := by
  refine ⟨fun p key e phone users request _ _ _ hrequest => ?_, htyped⟩
  rw [h] at hrequest
  cases hrequest

private theorem annOnTwoPhones_orderly :
    Along Phones.step (fun s ev _ => s.Orderly ev) (.launch 2) annOnTwoPhones := by
  have hpw : "pw" ∈ ({"facebook"} : Set String)ᶜ := (by decide : "pw" ≠ "facebook")
  refine (along_cons rfl).mpr ⟨.of_request_none rfl ?_, ?_⟩
  · intro _ _ _ _ _ hev hf; cases hev; cases hf
  refine (along_cons rfl).mpr ⟨.of_request_none rfl ?_, ?_⟩
  · intro _ _ _ _ _ hev hf; cases hev; cases hf
  -- the node is empty
  refine (along_cons rfl).mpr ⟨⟨?_, ?_⟩, ?_⟩
  · intro _ _ _ _ _ _ _ _ _ _ r hr; cases hr
  · intro _ _ _ _ _ hev hf; cases hev; cases hf; exact hpw
  refine (along_cons rfl).mpr ⟨.of_request_none rfl ?_, ?_⟩
  · intro _ _ _ _ _ hev; cases hev
  -- Ann's record is on the list of the login screen
  refine (along_cons rfl).mpr ⟨⟨?_, ?_⟩, ?_⟩
  · intro _ _ _ phone users request hev hphone hdeciding _ r hr _
    cases hev
    obtain rfl := Option.some.inj hphone
    obtain rfl := Option.some.inj hdeciding
    obtain rfl := List.mem_singleton.mp hr
    exact ⟨⟨"Ann", "ann@mail.co", "pw"⟩, List.mem_singleton_self _, rfl⟩
  · intro _ _ _ _ _ hev hf; cases hev; cases hf; exact hpw
  refine (along_cons rfl).mpr ⟨.of_request_none rfl ?_, trivial⟩
  intro _ _ _ _ _ hev; cases hev

/-- Both phones store the name of the one account. -/
theorem storedNames_of_phones_annOnTwoPhones :
    outputs Phones.step Phones.storedName (.launch 2) annOnTwoPhones
      = [none, none, some "Ann", none, some "Ann", none] := by
  obtain ⟨s, hrun⟩ : ∃ s, run Phones.step (.launch 2) annOnTwoPhones = some s := ⟨_, rfl⟩
  rw [(storedNames_of_phones hrun annOnTwoPhones_orderly).1]
  rfl

end ChildLearning
