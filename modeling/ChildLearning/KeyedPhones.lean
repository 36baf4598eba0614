import ChildLearning.PushIds
import ChildLearning.PhoneAccounts

namespace ChildLearning

open Transition Network FUtilities

/-!
# Phones with their push ids

`Phones` takes the key of a record from its event and refuses one that is in use.  Here every
phone makes its keys itself, with the generator of its running app, from the time that its clock
shows.  `keys_of_run` says that with clocks that agree no key is ever refused, and the order of
the keys is the order of the registrations.
-/

/-! ### Phones that make their keys -/

/-- The phones, and the statics of `FNextPushId` in the app that runs on each. -/
structure KeyedPhones extends Phones where
  generators : List FNextPushId

/-- One event on phone `p`. -/
inductive KeyedEvent where
  /-- An event of its session; `call` is how `childByAutoId` calls `get` if it registers. -/
  | session (p : ℕ) (call : PushCall) (e : SessionEvent)
  /-- The observer of its account screen `i` receives the records at these positions. -/
  | observed (p i : ℕ) (positions : List ℕ)
  /-- The app is terminated and started again. -/
  | relaunch (p : ℕ)

namespace KeyedPhones

/-- This many phones that have just been started, over an empty node. -/
def launch (n : ℕ) : KeyedPhones := ⟨.launch n, List.replicate n .launch⟩

/-- One event. -/
def step (s : KeyedPhones) : KeyedEvent → Option KeyedPhones
  | .session p call e => s.phones[p]?.bind fun phone =>
    -- whether it registers is decided before there is a key
    match phone.record "" e with
    | some _ => s.generators[p]?.bind fun generator => (generator.get call).bind fun pushed =>
        (s.toPhones.step (.session p pushed.1 e)).map fun after =>
          ⟨after, s.generators.set p pushed.2⟩
    | none => (s.toPhones.step (.session p "" e)).map fun after => ⟨after, s.generators⟩
  | .observed p i positions =>
    (s.toPhones.step (.observed p i positions)).map fun after => ⟨after, s.generators⟩
  | .relaunch p => (s.toPhones.step (.relaunch p)).map fun after =>
    ⟨after, s.generators.set p .launch⟩

/-- The phone and the call, if the event registers. -/
def pushes (s : KeyedPhones) : KeyedEvent → Option (ℕ × PushCall)
  | .session p call e =>
    if (s.phones[p]?.bind fun phone => phone.record "" e).isSome then some (p, call) else none
  | _ => none

end KeyedPhones

/-! ### Clocks -/

/-- The record has a push id with this time stamp and these random characters. -/
structure Record.Stamped (r : Record) (t : ℕ) (randChars : Vector (Fin 64) 12) : Prop where
  pos : 0 < t
  lt : t < 64 ^ 8
  key : r.key = pushId t randChars

/-- The order in which the database lists the children. -/
def Record.Before (r r' : Record) : Prop := compareKey r.key r'.key = .lt

namespace KeyedPhones

/-- The clocks agree: a phone that registers reads a time that no record has passed, and if one
    has the same millisecond, it is one that this app has made last; and the random characters
    that then count up are not used up. -/
structure Clocked (s : KeyedPhones) (ev : KeyedEvent) : Prop where
  pos : ∀ p call, s.pushes ev = some (p, call) → 0 < call.now
  inRange : ∀ p call, s.pushes ev = some (p, call) → call.InRange
  latest : ∀ p call, s.pushes ev = some (p, call) → ∀ r ∈ s.node, ∀ t randChars,
    r.Stamped t randChars → t ≤ call.now
  own : ∀ p call, s.pushes ev = some (p, call) → ∀ r ∈ s.node, ∀ t randChars,
    r.Stamped t randChars → t = call.now → ∀ generator, s.generators[p]? = some generator →
      generator.lastPushTime = call.now
  left : ∀ p call, s.pushes ev = some (p, call) → ∀ generator,
    s.generators[p]? = some generator → ¬ generator.UsedUp call

end KeyedPhones

/-! ### What a step does to the node and to the generators -/

section Record

variable {phone : Session} {key : String} {e : SessionEvent} {r : Record}

/-- The record that is written has the key, and an e-mail. -/
theorem Session.record_spec (h : phone.record key e = some r) :
    r.key = key ∧ r.email.isSome = true := by
  obtain ⟨data, -, hrecord⟩ := Option.bind_eq_some_iff.mp h
  cases e with
  | signUpcClicked txtFName txtFEmail txtFPassword =>
    cases hrecord
    exact ⟨rfl, by rw [Record.email_of_signUp rfl]; rfl⟩
  | facebookResult i result =>
    cases result with
    | none => cases hrecord
    | some profile =>
      cases hrecord
      exact ⟨rfl, by rw [Record.email_of_facebook rfl rfl]; rfl⟩
  | _ => cases hrecord

/-- Whether a record is written does not depend on the key. -/
theorem Session.record_isSome (phone : Session) (key key' : String) (e : SessionEvent) :
    (phone.record key e).isSome = (phone.record key' e).isSome := by
  unfold record
  cases (phone.handled e).bind fun decision => decision.2.written with
  | none => rfl
  | some data =>
    cases e with
    | facebookResult i result => cases result <;> rfl
    | _ => rfl

/-- Two time stamps or two random characters make two push ids. -/
theorem Record.Stamped.unique {t t' : ℕ} {randChars randChars' : Vector (Fin 64) 12}
    (h : r.Stamped t randChars) (h' : r.Stamped t' randChars') :
    t = t' ∧ rank randChars = rank randChars' := by
  have hself : compareKey r.key r.key = .eq := Std.ReflCmp.compare_self
  nth_rewrite 1 [h.key] at hself
  rw [h'.key, compareKey_pushId, Nat.mod_eq_of_lt h.lt, Nat.mod_eq_of_lt h'.lt,
    Ordering.then_eq_eq, Nat.compare_eq_eq, Nat.compare_eq_eq] at hself
  exact hself

end Record

section Step

variable {s s' : KeyedPhones} {ev : KeyedEvent} {p : ℕ} {call : PushCall} {e : SessionEvent}
  {phone phone' : Session} {generator : FNextPushId} {key : String}

namespace KeyedPhones

/-- The event with the key that it uses, as one of the phones. -/
def phoneEvent (key : String) : KeyedEvent → PhoneEvent
  | .session p _ e           => .session p key e
  | .observed p i positions => .observed p i positions
  | .relaunch p              => .relaunch p

/-- **What a step can do**: it is one of the phones; and it writes nothing, and at most starts a
    generator again, or it writes one record, under the key that the generator of its phone
    makes. -/
theorem step_cases (h : s.step ev = some s') :
    (∃ key, s.toPhones.step (phoneEvent key ev) = some s'.toPhones) ∧
    ((s'.node = s.node ∧ (s'.generators = s.generators ∨
      ∃ p, s'.generators = s.generators.set p .launch)) ∨
    ∃ p call generator pushed r, s.pushes ev = some (p, call) ∧
      s.generators[p]? = some generator ∧ generator.get call = some pushed ∧
      r.key = pushed.1 ∧ r.email.isSome = true ∧ s'.node = s.node ++ [r] ∧
      s'.generators = s.generators.set p pushed.2) := by
  cases ev with
  | observed p i positions =>
    obtain ⟨after, hafter, rfl⟩ := Option.map_eq_some_iff.mp h
    refine ⟨⟨"", hafter⟩, Or.inl ⟨?_, Or.inl rfl⟩⟩
    obtain ⟨phone, -, hsession⟩ := Option.bind_eq_some_iff.mp hafter
    obtain ⟨phone', -, rfl⟩ := Option.map_eq_some_iff.mp hsession
    rfl
  | relaunch p =>
    obtain ⟨after, hafter, rfl⟩ := Option.map_eq_some_iff.mp h
    refine ⟨⟨"", hafter⟩, Or.inl ⟨?_, Or.inr ⟨p, rfl⟩⟩⟩
    obtain ⟨phone, -, rfl⟩ := Option.map_eq_some_iff.mp hafter
    rfl
  | session p call e =>
    obtain ⟨phone, hphone, hstep⟩ := Option.bind_eq_some_iff.mp h
    -- with or without a key, the phones make a step of the same phone
    have hnode : ∀ {key : String} {after : Phones},
        s.toPhones.step (.session p key e) = some after →
          after.node = s.node ++ (phone.record key e).toList := by
      intro key after hafter
      obtain ⟨-, phone₁, phone', hphone₁, -, -, rfl⟩ := Phones.session_eq_some hafter
      obtain rfl : phone = phone₁ := Option.some.inj (hphone.symm.trans hphone₁)
      rfl
    cases hrecord : phone.record "" e with
    | none =>
      rw [hrecord] at hstep
      obtain ⟨after, hafter, rfl⟩ := Option.map_eq_some_iff.mp hstep
      refine ⟨⟨"", hafter⟩, Or.inl ⟨?_, Or.inl rfl⟩⟩
      rw [hnode hafter, hrecord]
      exact List.append_nil s.node
    | some r =>
      rw [hrecord] at hstep
      obtain ⟨generator, hgenerator, hstep⟩ := Option.bind_eq_some_iff.mp hstep
      obtain ⟨pushed, hpushed, hstep⟩ := Option.bind_eq_some_iff.mp hstep
      obtain ⟨after, hafter, rfl⟩ := Option.map_eq_some_iff.mp hstep
      have hsome : (phone.record pushed.1 e).isSome = true := by
        rw [Session.record_isSome phone pushed.1 "", hrecord]
        rfl
      obtain ⟨r', hr'⟩ := Option.isSome_iff_exists.mp hsome
      obtain ⟨hkey, hemail⟩ := Session.record_spec hr'
      have hpushes : s.pushes (.session p call e) = some (p, call) := by
        simp [pushes, hphone, hrecord]
      refine ⟨⟨pushed.1, hafter⟩, Or.inr ⟨p, call, generator, pushed, r', hpushes, hgenerator,
        hpushed, hkey, hemail, ?_, rfl⟩⟩
      rw [hnode hafter, hr']
      rfl

/-! ### The order of the keys -/

/-- What the node has of a generator: its last key, which comes after all others with the same
    time stamp. -/
structure MadeBy (node : List Record) (generator : FNextPushId) : Prop where
  made : generator.lastPushTime = 0 ∨
    ∃ r ∈ node, ∃ t : ℕ, r.Stamped t generator.lastRandChars ∧ t = generator.lastPushTime
  newest : ∀ r ∈ node, ∀ (t : ℕ) (randChars : Vector (Fin 64) 12), r.Stamped t randChars →
    t = generator.lastPushTime → rank randChars ≤ rank generator.lastRandChars

/-- The invariant: the node is in the order of the keys, all of them push ids, and no two
    generators have made their last key at the same time. -/
structure Dated (node : List Record) (generators : List FNextPushId) : Prop where
  ascending : node.Pairwise Record.Before
  stamped : ∀ r ∈ node, ∃ t randChars, r.Stamped t randChars
  madeBy : ∀ (p : ℕ) (generator : FNextPushId), generators[p]? = some generator →
    MadeBy node generator
  own : ∀ (p q : ℕ) (generator generator' : FNextPushId), generators[p]? = some generator →
    generators[q]? = some generator' → 0 < generator.lastPushTime →
      generator.lastPushTime = generator'.lastPushTime → p = q

/-- A generator that has just been started has made nothing. -/
theorem madeBy_launch (node : List Record) : MadeBy node .launch := by
  refine ⟨Or.inl rfl, fun r _ t randChars hstamped hzero => ?_⟩
  have hpos := hstamped.pos
  have hzero : (t : ℤ) = 0 := hzero
  omega

theorem dated_launch (n : ℕ) : Dated (launch n).node (launch n).generators := by
  have hlaunch : ∀ (p : ℕ) (generator : FNextPushId),
      (launch n).generators[p]? = some generator → generator = .launch := by
    intro p generator hgenerator
    rw [launch, List.getElem?_replicate] at hgenerator
    obtain ⟨-, heq⟩ := Option.ite_none_right_eq_some.mp hgenerator
    exact (Option.some.inj heq).symm
  refine ⟨List.Pairwise.nil, nofun, fun p generator hgenerator => ?_,
    fun p q generator generator' hgenerator _ hpos => ?_⟩
  · rw [hlaunch p generator hgenerator]
    exact madeBy_launch _
  · rw [hlaunch p generator hgenerator] at hpos
    exact absurd hpos (lt_irrefl 0)

variable {node : List Record} {generators : List FNextPushId}

/-- An app that starts again loses what its generator has made. -/
theorem Dated.relaunch (hs : Dated node generators) (p : ℕ) :
    Dated node (generators.set p .launch) := by
  refine ⟨hs.ascending, hs.stamped, fun q generator hq => ?_,
    fun q q' generator generator' hq hq' hpos htime => ?_⟩
  · rcases Gather.getElem?_set_cases hq with ⟨-, rfl⟩ | ⟨-, hold⟩
    · exact madeBy_launch node
    · exact hs.madeBy q generator hold
  · rcases Gather.getElem?_set_cases hq with ⟨-, rfl⟩ | ⟨-, hold⟩
    · exact absurd hpos (lt_irrefl 0)
    · rcases Gather.getElem?_set_cases hq' with ⟨-, rfl⟩ | ⟨-, hold'⟩
      · exact absurd hpos (htime ▸ lt_irrefl 0)
      · exact hs.own q q' generator generator' hold hold' hpos htime

/-- A new key comes after all keys of the node. -/
theorem Dated.before_of_get (hs : Dated s.node s.generators) (hclock : s.Clocked ev)
    (hpushes : s.pushes ev = some (p, call)) (hgenerator : s.generators[p]? = some generator)
    {pushed : String × FNextPushId} (hpushed : generator.get call = some pushed) {r r' : Record}
    (hkey : r.key = pushed.1) (hr' : r' ∈ s.node) : r'.Before r := by
  obtain ⟨-, hpushId⟩ := FNextPushId.spec_of_get (hclock.inRange p call hpushes) hpushed
  have hpos := hclock.pos p call hpushes
  obtain ⟨-, hlt⟩ := hclock.inRange p call hpushes
  obtain ⟨t, randChars, hstamped⟩ := hs.stamped r' hr'
  have hle := hclock.latest p call hpushes r' hr' t randChars hstamped
  have htlt := hstamped.lt
  rw [Record.Before, hkey, hpushId, hstamped.key, compareKey_pushId, Nat.mod_eq_of_lt htlt,
    Nat.mod_eq_of_lt (by omega), Ordering.then_eq_lt, Nat.compare_eq_lt, Nat.compare_eq_eq,
    Nat.compare_eq_lt]
  by_cases hsame : (t : ℤ) = call.now
  · -- in the same millisecond: the generator counts up from its own last key
    have hlast := hclock.own p call hpushes r' hr' t randChars hstamped hsame generator hgenerator
    have hrank := (hs.madeBy p generator hgenerator).newest r' hr' t randChars hstamped
      (hsame.trans hlast.symm)
    have hnext := FNextPushId.rank_nextRandChars hlast.symm
      (hclock.left p call hpushes generator hgenerator)
    rw [FNextPushId.lastRandChars_of_get hpushed, hnext]
    omega
  · omega

/-- Nobody else has made its last key at the time of the clock. -/
theorem Dated.ne_of_clocked (hs : Dated s.node s.generators) (hclock : s.Clocked ev)
    (hpushes : s.pushes ev = some (p, call)) (hgenerator : s.generators[p]? = some generator)
    {q : ℕ} {generator' : FNextPushId} (hq : s.generators[q]? = some generator') (hne : q ≠ p) :
    generator'.lastPushTime ≠ call.now := by
  intro htime
  have hpos := hclock.pos p call hpushes
  rcases (hs.madeBy q generator' hq).made with hzero | ⟨r, hr, t, hstamped, ht⟩
  · omega
  · have hlast := hclock.own p call hpushes r hr t _ hstamped (ht.trans htime) generator hgenerator
    exact hne (hs.own q p generator' generator hq hgenerator (by omega) (htime.trans hlast.symm))

/-- A record with another time stamp does not matter to a generator. -/
theorem MadeBy.concat {r : Record} (h : MadeBy node generator)
    (hne : ∀ (t : ℕ) randChars, r.Stamped t randChars → t ≠ generator.lastPushTime) :
    MadeBy (node ++ [r]) generator := by
  refine ⟨h.made.imp_right fun ⟨r', hr', hstamped⟩ =>
    ⟨r', List.mem_append_left _ hr', hstamped⟩, fun r' hr' t randChars hstamped ht => ?_⟩
  rcases List.mem_append.mp hr' with hold | hnew
  · exact h.newest r' hold t randChars hstamped ht
  · rw [List.mem_singleton.mp hnew] at hstamped
    exact absurd ht (hne t randChars hstamped)

/-- A generator that has made the last key of the node. -/
theorem madeBy_concat {r : Record} {t : ℕ} (hbefore : ∀ r' ∈ node, r'.Before r)
    (hnew : r.Stamped t generator.lastRandChars) (ht : t = generator.lastPushTime) :
    MadeBy (node ++ [r]) generator := by
  refine ⟨Or.inr ⟨r, List.mem_append_right _ (List.mem_singleton_self r), t, hnew, ht⟩, ?_⟩
  intro r' hr' t' randChars hstamped ht'
  rcases List.mem_append.mp hr' with hold | hlast
  · have hlt := hbefore r' hold
    rw [Record.Before, hstamped.key, hnew.key, compareKey_pushId, Ordering.then_eq_lt,
      Nat.compare_eq_lt, Nat.compare_eq_lt] at hlt
    obtain rfl : t' = t := by omega
    omega
  · rw [List.mem_singleton.mp hlast] at hstamped
    exact (hstamped.unique hnew).2.le

/-- The step lemma for a registration. -/
theorem Dated.push (hs : Dated s.node s.generators) (hclock : s.Clocked ev)
    (hpushes : s.pushes ev = some (p, call)) (hgenerator : s.generators[p]? = some generator)
    {pushed : String × FNextPushId} (hpushed : generator.get call = some pushed) {r : Record}
    (hkey : r.key = pushed.1) : Dated (s.node ++ [r]) (s.generators.set p pushed.2) := by
  have hbefore : ∀ r' ∈ s.node, r'.Before r := fun r' hr' =>
    hs.before_of_get hclock hpushes hgenerator hpushed hkey hr'
  have hcall := hclock.inRange p call hpushes
  have hpos := hclock.pos p call hpushes
  obtain ⟨htime, hpushId⟩ := FNextPushId.spec_of_get hcall hpushed
  have hnow : (call.now.toNat : ℤ) = call.now := Int.toNat_of_nonneg hcall.1
  have hnew : r.Stamped call.now.toNat pushed.2.lastRandChars := by
    obtain ⟨-, hlt⟩ := hcall
    exact ⟨by omega, by omega, hkey.trans hpushId⟩
  refine ⟨?_, ?_, ?_, ?_⟩
  · rw [List.pairwise_append]
    refine ⟨hs.ascending, List.pairwise_singleton _ _, fun r' hr' r'' hr'' => ?_⟩
    rw [List.mem_singleton.mp hr'']
    exact hbefore r' hr'
  · intro r' hr'
    rcases List.mem_append.mp hr' with hold | hr'
    · exact hs.stamped r' hold
    · rw [List.mem_singleton.mp hr']
      exact ⟨_, _, hnew⟩
  · intro q generator' hq
    rcases Gather.getElem?_set_cases hq with ⟨rfl, rfl⟩ | ⟨hne, hold⟩
    · exact madeBy_concat hbefore hnew (hnow.trans htime.symm)
    · -- another one, whose time is not that of the key
      have hother := hs.ne_of_clocked hclock hpushes hgenerator hold hne
      refine (hs.madeBy q generator' hold).concat fun t randChars hstamped => ?_
      rw [(hstamped.unique hnew).1, hnow]
      exact hother.symm
  · intro q q' generator₁ generator₂ hq hq' hpos' htimes
    rcases Gather.getElem?_set_cases hq with ⟨rfl, rfl⟩ | ⟨hne, hold⟩
    · rcases Gather.getElem?_set_cases hq' with ⟨rfl, -⟩ | ⟨hne', hold'⟩
      · rfl
      · have hother := hs.ne_of_clocked hclock hpushes hgenerator hold' hne'
        omega
    · rcases Gather.getElem?_set_cases hq' with ⟨rfl, rfl⟩ | ⟨hne', hold'⟩
      · have hother := hs.ne_of_clocked hclock hpushes hgenerator hold hne
        omega
      · exact hs.own q q' generator₁ generator₂ hold hold' hpos' htimes

/-- The step lemma. -/
theorem Dated.step (hs : Dated s.node s.generators) (hclock : s.Clocked ev)
    (h : s.step ev = some s') : Dated s'.node s'.generators := by
  obtain ⟨-, ⟨hnode, hgenerators | ⟨p, hgenerators⟩⟩ |
    ⟨p, call, generator, pushed, r, hpushes, hgenerator, hpushed, hkey, -, hnode, hgenerators⟩⟩ :=
    step_cases h
  · rw [hnode, hgenerators]
    exact hs
  · rw [hnode, hgenerators]
    exact hs.relaunch p
  · rw [hnode, hgenerators]
    exact hs.push hclock hpushes hgenerator hpushed hkey

/-! ### No key is refused -/

/-- A session of a phone is refused if it observes, if it cannot make the step, or if it writes
    under a key that is in use. -/
theorem session_eq_none_iff {s : Phones} (hphone : s.phones[p]? = some phone) :
    s.step (.session p key e) = none ↔ e.isObserved = true ∨ phone.step e = none ∨
      ∃ r, phone.record key e = some r ∧ r.key ∈ s.node.map Record.key := by
  rw [Phones.step, hphone, Option.bind_some]
  by_cases hobserved : e.isObserved = true
  · simp [hobserved]
  · rw [if_neg hobserved]
    cases hstep : phone.step e with
    | none => simp
    | some phone' =>
      cases hrecord : phone.record key e with
      | none => simp [hobserved]
      | some r => simp [hobserved]

/-- With clocks that agree, a session is refused only if it cannot make the step. -/
theorem refused_iff (hs : Dated s.node s.generators) (hphone : s.phones[p]? = some phone)
    (hgenerator : s.generators[p]? = some generator) (hclock : s.Clocked (.session p call e)) :
    s.step (.session p call e) = none ↔ e.isObserved = true ∨ phone.step e = none := by
  rw [step, hphone, Option.bind_some]
  cases hrecord : phone.record "" e with
  | none =>
    simp only [Option.map_eq_none_iff, session_eq_none_iff hphone, hrecord]
    simp
  | some r =>
    have hpushes : s.pushes (.session p call e) = some (p, call) := by
      simp [pushes, hphone, hrecord]
    have hget := generator.get_eq (hclock.inRange p call hpushes)
    -- the key is new, since it comes after all others
    have hfresh : ¬ ∃ r', phone.record (pushId call.now.toNat (generator.nextRandChars call)) e
        = some r' ∧ r'.key ∈ s.node.map Record.key := by
      rintro ⟨r', hr', hused⟩
      obtain ⟨old, hold, hsame⟩ := List.mem_map.mp hused
      have hkey := (Session.record_spec hr').1
      have hbefore := hs.before_of_get hclock hpushes hgenerator hget hkey hold
      rw [Record.Before, hsame, @Std.ReflCmp.compare_self _ compareKey] at hbefore
      cases hbefore
    simp only [hgenerator, hget, Option.bind_some, Option.map_eq_none_iff,
      session_eq_none_iff hphone, hfresh, or_false]

/-- **The keys are new and in the order of the registrations.**  Wherever any number of phones
    get to, each making the keys of its registrations with its own generator, through sessions,
    snapshots and relaunches interleaved in any way, while their clocks agree: the node is in the
    order of its keys, so that what comes first was registered first; and if a session then goes
    on while the clocks agree, its registration is never refused for its key, but only if the
    phone cannot make the step. -/
theorem keys_of_run {n : ℕ} {es : List KeyedEvent} (h : run step (launch n) es = some s)
    (hclocks : Along step (fun s ev _ => s.Clocked ev) (launch n) es) :
    s.node.Pairwise Record.Before ∧
      ∀ p phone generator call e, s.phones[p]? = some phone →
        s.generators[p]? = some generator → s.Clocked (.session p call e) →
          (s.step (.session p call e) = none ↔ e.isObserved = true ∨ phone.step e = none) := by
  have hkeep : ∀ (s : KeyedPhones) (ev : KeyedEvent) (s' : KeyedPhones),
      Dated s.node s.generators → s.Clocked ev → s.step ev = some s' →
        Dated s'.node s'.generators := fun _ _ _ hs hclock hstep => hs.step hclock hstep
  have hdated := run_invariant_of_along hkeep (dated_launch n) hclocks h
  exact ⟨hdated.ascending, fun p phone generator call e hphone hgenerator hclock =>
    refused_iff hdated hphone hgenerator hclock⟩

/-- An event that registers nothing needs no clock. -/
theorem Clocked.of_pushes_none (h : s.pushes ev = none) : s.Clocked ev := by
  refine ⟨fun p call hpushes => ?_, fun p call hpushes => ?_, fun p call hpushes => ?_,
    fun p call hpushes => ?_, fun p call hpushes => ?_⟩
  all_goals
    rw [h] at hpushes
    cases hpushes

/-- A time after all time stamps will do on any phone, if its generator has not just made a key. -/
theorem Clocked.of_later (hpushes : s.pushes ev = some (p, call)) (hpos : 0 < call.now)
    (hcall : call.InRange)
    (hlater : ∀ r ∈ s.node, ∃ (t : ℕ) (randChars : Vector (Fin 64) 12),
      r.Stamped t randChars ∧ t < call.now)
    (hnew : ∀ generator, s.generators[p]? = some generator → generator.lastPushTime < call.now) :
    s.Clocked ev := by
  have htimes : ∀ r ∈ s.node, ∀ (t : ℕ) (randChars : Vector (Fin 64) 12),
      r.Stamped t randChars → t < call.now := by
    intro r hr t randChars hstamped
    obtain ⟨t', randChars', hstamped', hlt⟩ := hlater r hr
    rwa [(hstamped.unique hstamped').1]
  refine ⟨fun q call' h => ?_, fun q call' h => ?_, fun q call' h r hr t randChars hstamped => ?_,
    fun q call' h r hr t randChars hstamped hsame => ?_,
    fun q call' h generator hgenerator hused => ?_⟩
  all_goals
    rw [hpushes] at h
    cases h
  · exact hpos
  · exact hcall
  · exact (htimes r hr t randChars hstamped).le
  · exact absurd hsame (htimes r hr t randChars hstamped).ne
  · exact absurd hused.1.symm (hnew generator hgenerator).ne

/-- A call whose random numbers are all seven. -/
def callAt (now : ℤ) : PushCall := ⟨now, fun _ => ⟨7, by decide⟩⟩

/-- Ann registers the same e-mail on two phones, one millisecond after the other, before either has
    received a snapshot. -/
def annTwice : List KeyedEvent :=
  [.session 0 (callAt 0) .openSignUp, .session 1 (callAt 0) .openSignUp,
    .session 0 (callAt 1700000000000)
      (.signUpcClicked (some "Ann") (some "ann@mail.co") (some "pw")),
    .session 1 (callAt 1700000000001)
      (.signUpcClicked (some "Anna") (some "ann@mail.co") (some "pw2"))]

/-- In this run the clocks agree. -/
theorem annTwice_along : Along step (fun s ev _ => s.Clocked ev) (launch 2) annTwice := by
  refine (along_cons rfl).mpr ⟨.of_pushes_none rfl, ?_⟩
  refine (along_cons rfl).mpr ⟨.of_pushes_none rfl, ?_⟩
  refine (along_cons rfl).mpr ⟨.of_later rfl ?_ ?_ ?_ ?_, ?_⟩
  · decide
  · exact ⟨by decide, by decide⟩
  · intro r hr
    cases hr
  · intro generator hgenerator
    cases hgenerator
    decide
  refine (along_cons rfl).mpr ⟨.of_later rfl ?_ ?_ ?_ ?_, trivial⟩
  · decide
  · exact ⟨by decide, by decide⟩
  · -- the first record is one millisecond old
    intro r hr
    rw [List.mem_singleton.mp hr]
    exact ⟨1700000000000, .ofFn (callAt 0).rand, ⟨by decide, by decide, rfl⟩, by decide⟩
  · intro generator hgenerator
    cases hgenerator
    decide

/-- The second registration is accepted, and comes second. -/
theorem keys_of_run_annTwice :
    ∃ s, run step (launch 2) annTwice = some s ∧
      s.node.map Record.key = ["-NjEtLV-666666666666", "-NjEtLV0666666666666"] ∧
      s.node.Pairwise Record.Before := by
  obtain ⟨s, hrun, hkeys⟩ : ∃ s, run step (launch 2) annTwice = some s ∧
      s.node.map Record.key = ["-NjEtLV-666666666666", "-NjEtLV0666666666666"] := ⟨_, rfl, rfl⟩
  exact ⟨s, hrun, hkeys, (keys_of_run hrun annTwice_along).1⟩

end KeyedPhones

end Step

end ChildLearning
