import ChildLearning.Lib.Odometer
import ChildLearning.Lib.Transition
import ChildLearning.FUtilities

namespace ChildLearning

/-!
# Push ids

The keys that `childByAutoId` makes (`FNextPushId`) and the order in which the database lists the
children of a node (`FUtilities`).  A key is a time stamp in eight characters and twelve more that
are random, or count up when the time stamp is the last one again.  `pushIds_ascending_iff` says
when the keys of one generator are in the order in which they were made: exactly when the clock
never goes back and the characters that count up are never used up.
-/

open FUtilities Transition

/-! ### The generator -/

/-- `PUSH_CHARS`. -/
def pushChars : List Char :=
  "-0123456789ABCDEFGHIJKLMNOPQRSTUVWXYZ_abcdefghijklmnopqrstuvwxyz".toList

/-- `[PUSH_CHARS characterAtIndex:i]`; `none` is the exception for an index out of range. -/
def characterAtIndex (i : ℤ) : Option Char :=
  if 0 ≤ i then pushChars[i.toNat]? else none

theorem length_pushChars : pushChars.length = 64 := rfl

/-- The character at an index within range. -/
def pushChar (d : Fin 64) : Char := pushChars.get (d.cast length_pushChars.symm)

/-- The loop over `timeStampChars`, from index `n - 1` down to 0. -/
def timeStampChars : ℕ → ℤ → Option (List Char)
  | 0, _       => some []
  | n + 1, now =>
    (characterAtIndex (now.tmod 64)).bind fun c =>
      (timeStampChars n (now.tdiv 64)).map fun chars => chars ++ [c]

/-- The statics of `get`: the time of the last call and the random characters it used. -/
structure FNextPushId where
  lastPushTime : ℤ
  lastRandChars : Vector (Fin 64) 12

/-- The loop over `lastRandChars` when the time is the last one again, from index `n - 1` down, and
    the increment after it.  With all characters the last one it passes the whole array, and
    increments `lastRandChars[-1]`: that is undefined, and nothing that `get` reads. -/
def carry : ℕ → Vector (Fin 64) 12 → Vector (Fin 64) 12
  | 0, chars     => chars
  | i + 1, chars =>
    match chars[i]? with
    | some c =>
      if c = 63 then carry i (chars.setIfInBounds i 0) else chars.setIfInBounds i (c + 1)
    | none   => chars

/-- One call of `get`: the time in milliseconds, and what `arc4random() % 64` gives. -/
structure PushCall where
  now : ℤ
  rand : Fin 12 → Fin 64

namespace FNextPushId

/-- The statics when the app starts. -/
def launch : FNextPushId := ⟨0, .replicate 12 0⟩

/-- The random characters of a call. -/
def nextRandChars (s : FNextPushId) (call : PushCall) : Vector (Fin 64) 12 :=
  if call.now = s.lastPushTime then carry 12 s.lastRandChars else .ofFn call.rand

/-- `get:`; `none` is the exception of a time before 1970. -/
def get (s : FNextPushId) (call : PushCall) : Option (String × FNextPushId) :=
  (timeStampChars 8 call.now).map fun stamp =>
    (String.ofList (stamp ++ (s.nextRandChars call).toList.map pushChar),
      ⟨call.now, s.nextRandChars call⟩)

/-- Call after call, with the keys. -/
def gets : FNextPushId → List PushCall → Option (List String × FNextPushId)
  | s, []            => some ([], s)
  | s, call :: calls =>
    (s.get call).bind fun first => (first.2.gets calls).map fun rest =>
      (first.1 :: rest.1, rest.2)

end FNextPushId

/-! ### Keys as numbers -/

theorem characterAtIndex_val (d : Fin 64) : characterAtIndex d.val = some (pushChar d) := by
  rw [characterAtIndex, if_pos (by omega), Int.toNat_natCast]
  exact List.getElem?_eq_getElem (d.cast length_pushChars.symm).isLt

/-- The characters ascend. -/
theorem pushChars_ascending : pushChars.Pairwise fun c d => c.toNat < d.toNat := by
  decide +kernel

theorem compare_pushChar (d e : Fin 64) :
    compare (pushChar d).toNat (pushChar e).toNat = compare d e := by
  have hmono : ∀ d e : Fin 64, d < e → (pushChar d).toNat < (pushChar e).toNat :=
    fun d e hlt => List.pairwise_iff_get.mp pushChars_ascending _ _ hlt
  show _ = compare d.val e.val
  rcases lt_trichotomy d e with hlt | rfl | hgt
  · rw [Nat.compare_eq_lt.mpr (hmono d e hlt), Nat.compare_eq_lt.mpr hlt]
  · rw [Nat.compare_eq_eq.mpr rfl, Nat.compare_eq_eq.mpr rfl]
  · rw [Nat.compare_eq_gt.mpr (hmono e d hgt), Nat.compare_eq_gt.mpr hgt]

/-- The time stamp of a time that is not negative is its last digits to the base 64. -/
theorem timeStampChars_natCast (n t : ℕ) :
    timeStampChars n t = some ((Odometer.digits n t).reverse.map pushChar) := by
  induction n generalizing t with
  | zero => rfl
  | succ n ih =>
    have hmod : (t : ℤ).tmod 64 = (Fin.ofNat 64 t).val := rfl
    have hdiv : (t : ℤ).tdiv 64 = (t / 64 : ℕ) := rfl
    rw [timeStampChars, hmod, hdiv, characterAtIndex_val, ih, Odometer.digits]
    simp

/-- The key with this time stamp and these random characters. -/
def pushId (t : ℕ) (randChars : Vector (Fin 64) 12) : String :=
  String.ofList (((Odometer.digits 8 t).reverse ++ randChars.toList).map pushChar)

/-- The random characters as a number. -/
def rank (randChars : Vector (Fin 64) 12) : ℕ := Odometer.value randChars.toList.reverse

/-- The loop counts up the part of the array that it has not passed, and leaves the rest. -/
theorem toList_carry {front back : List (Fin 64)} {chars : Vector (Fin 64) 12}
    (h : chars.toList = front ++ back) :
    (carry front.length chars).toList = (Odometer.next front.reverse).reverse ++ back := by
  induction front using List.reverseRecOn generalizing chars back with
  | nil => exact h
  | append_singleton front d ih =>
    have hget : chars[front.length]? = some d := by
      rw [← Vector.getElem?_toList, h]
      simp
    have hset : ∀ c, (chars.setIfInBounds front.length c).toList = front ++ c :: back := by
      intro c
      rw [Vector.toList_setIfInBounds, h]
      simp
    simp only [List.length_append, List.length_singleton, carry, hget,
      List.reverse_append, List.reverse_singleton, List.singleton_append, Odometer.next]
    by_cases hlast : d = 63
    · subst hlast
      simp [ih (hset 0)]
    · have hd := d.isLt
      have hlt : d.val + 1 < 64 := by
        have hne : d.val ≠ 63 := fun hval => hlast (Fin.ext hval)
        omega
      have hsucc : d + 1 = ⟨d.val + 1, hlt⟩ := Fin.ext (Nat.mod_eq_of_lt hlt)
      simp [hlast, hlt, hset, hsucc]

/-- **Counting up adds one**, and ends with zero again. -/
theorem rank_carry (chars : Vector (Fin 64) 12) :
    rank (carry 12 chars) = (rank chars + 1) % 64 ^ 12 := by
  have hcarry := toList_carry (List.append_nil chars.toList).symm
  rw [Vector.length_toList, List.append_nil] at hcarry
  rw [rank, hcarry, List.reverse_reverse, Odometer.value_next, List.length_reverse,
    Vector.length_toList, rank]

/-! ### The order of push ids -/

/-- The code units of a push id are its characters. -/
theorem codeUnits_pushId (t : ℕ) (randChars : Vector (Fin 64) 12) :
    codeUnits (pushId t randChars)
      = ((Odometer.digits 8 t).reverse ++ randChars.toList).map fun d => (pushChar d).toNat := by
  have hunit : ∀ d : Fin 64, utf16 (pushChar d) = [(pushChar d).toNat] := by decide +kernel
  rw [codeUnits, pushId, String.toList_ofList, List.flatMap_map, List.map_eq_flatMap]
  simp only [hunit]

/-- A push id is too long for a number. -/
theorem tryParseStringToInt_pushId (t : ℕ) (randChars : Vector (Fin 64) 12) :
    tryParseStringToInt (pushId t randChars) = none := by
  have hlen : (codeUnits (pushId t randChars)).length = 20 := by
    simp [codeUnits_pushId]
  simp [tryParseStringToInt, hlen]

/-- **Push ids are ordered by their time stamps**, and those with the same one by their random
    characters. -/
theorem compareKey_pushId (t t' : ℕ) (randChars randChars' : Vector (Fin 64) 12) :
    compareKey (pushId t randChars) (pushId t' randChars')
      = (compare (t % 64 ^ 8) (t' % 64 ^ 8)).then (compare (rank randChars) (rank randChars')) := by
  simp only [compareKey, tryParseStringToInt_pushId, codeUnits_pushId]
  rw [Odometer.compare_map compare_pushChar, Odometer.compare_append (by simp),
    Odometer.compare_reverse (by simp), Odometer.value_digits, Odometer.value_digits]
  congr 1
  rw [rank, rank, ← Odometer.compare_reverse (by simp), List.reverse_reverse, List.reverse_reverse]

/-- The time is one of those that eight characters can tell apart: up to the year 10889. -/
def PushCall.InRange (call : PushCall) : Prop := 0 ≤ call.now ∧ call.now < 64 ^ 8

namespace FNextPushId

variable {s s' s'' : FNextPushId} {call call' : PushCall} {key key' : String}

theorem timeStampChars_now (hcall : call.InRange) :
    timeStampChars 8 call.now
      = some ((Odometer.digits 8 call.now.toNat).reverse.map pushChar) := by
  rw [← timeStampChars_natCast, Int.toNat_of_nonneg hcall.1]

/-- **What a call returns**: the push id of the time and of the random characters, which stay
    behind with the time. -/
theorem get_eq (s : FNextPushId) (hcall : call.InRange) :
    s.get call = some (pushId call.now.toNat (s.nextRandChars call),
      ⟨call.now, s.nextRandChars call⟩) := by
  rw [get, timeStampChars_now hcall, Option.map_some, pushId, List.map_append]

/-- The key is that of the statics that stay behind. -/
theorem spec_of_get (hcall : call.InRange) (h : s.get call = some (key, s')) :
    s'.lastPushTime = call.now ∧ key = pushId call.now.toNat s'.lastRandChars := by
  rw [get_eq s hcall] at h
  obtain ⟨rfl, rfl⟩ := Prod.mk.inj (Option.some.inj h)
  exact ⟨rfl, rfl⟩

theorem lastRandChars_of_get (h : s.get call = some (key, s')) :
    s'.lastRandChars = s.nextRandChars call := by
  obtain ⟨stamp, -, heq⟩ := Option.map_eq_some_iff.mp h
  rw [← (Prod.mk.inj heq).2]

/-- The call has to count up, and all random characters are the last one. -/
def UsedUp (s : FNextPushId) (call : PushCall) : Prop :=
  call.now = s.lastPushTime ∧ rank s.lastRandChars + 1 = 64 ^ 12

/-- A call in the time of the last one counts up, unless they are used up. -/
theorem rank_nextRandChars (hsame : call.now = s.lastPushTime) (hleft : ¬ s.UsedUp call) :
    rank (s.nextRandChars call) = rank s.lastRandChars + 1 := by
  have hlt : rank s.lastRandChars < 64 ^ 12 := by
    have hvalue := Odometer.value_lt s.lastRandChars.toList.reverse
    rwa [List.length_reverse, Vector.length_toList] at hvalue
  have hne : rank s.lastRandChars + 1 ≠ 64 ^ 12 := fun heq => hleft ⟨hsame, heq⟩
  rw [nextRandChars, if_pos hsame, rank_carry, Nat.mod_eq_of_lt (by omega)]

/-- The next key comes after the last one exactly when the clock does not go back and the random
    characters are not used up. -/
theorem compareKey_next (htime : 0 ≤ s.lastPushTime ∧ s.lastPushTime < 64 ^ 8)
    (hcall : call.InRange) :
    compareKey (pushId s.lastPushTime.toNat s.lastRandChars)
        (pushId call.now.toNat (s.nextRandChars call)) = .lt ↔
      s.lastPushTime ≤ call.now ∧ ¬ s.UsedUp call := by
  obtain ⟨hnonneg, hlt⟩ := htime
  obtain ⟨hnonneg', hlt'⟩ := hcall
  rw [compareKey_pushId, Nat.mod_eq_of_lt (by omega), Nat.mod_eq_of_lt (by omega),
    Ordering.then_eq_lt, Nat.compare_eq_lt, Nat.compare_eq_eq, Nat.compare_eq_lt]
  by_cases hused : s.UsedUp call
  · -- the next one starts again with zero
    obtain ⟨hsame, hrank⟩ := hused
    rw [nextRandChars, if_pos hsame, rank_carry, hrank, Nat.mod_self]
    exact iff_of_false (by omega) fun h => h.2 ⟨hsame, hrank⟩
  · rw [and_iff_left hused]
    by_cases hsame : call.now = s.lastPushTime
    · have hrank := rank_nextRandChars hsame hused
      omega
    · omega

/-- The keys of two calls in a row. -/
theorem compareKey_of_get (hcall : call.InRange) (hcall' : call'.InRange)
    (h : s.get call = some (key, s')) (h' : s'.get call' = some (key', s'')) :
    compareKey key key' = .lt ↔ call.now ≤ call'.now ∧ ¬ s'.UsedUp call' := by
  obtain ⟨htime, hkey⟩ := spec_of_get hcall h
  obtain ⟨-, hkey'⟩ := spec_of_get hcall' h'
  rw [hkey, hkey', lastRandChars_of_get h', ← htime]
  exact compareKey_next (htime ▸ hcall) hcall'

/-- One call, without its key. -/
def step (s : FNextPushId) (call : PushCall) : Option FNextPushId := (s.get call).map Prod.snd

/-- The keys of calls in a row, the first of them after a call. -/
theorem gets_isChain {calls : List PushCall} (hcalls : ∀ c ∈ call :: calls, c.InRange)
    (h : s.get call = some (key, s')) :
    ∃ keys s'', s'.gets calls = some (keys, s'') ∧
      ((key :: keys).IsChain (fun a b => compareKey a b = .lt) ↔
        ((call :: calls).map PushCall.now).IsChain (· ≤ ·) ∧
          Along step (fun s call _ => ¬ s.UsedUp call) s' calls) := by
  -- on the calls: each key is compared with the one before
  induction calls generalizing s s' call key with
  | nil => exact ⟨[], s', rfl, by simp [Along]⟩
  | cons next calls ih =>
    have hcall := hcalls call List.mem_cons_self
    have hnext := hcalls next (List.mem_cons_of_mem _ List.mem_cons_self)
    have hget := get_eq s' hnext
    obtain ⟨keys, s'', hgets, hchain⟩ :=
      ih (fun c hc => hcalls c (List.mem_cons_of_mem _ hc)) hget
    have hstep : s'.step next = some ⟨next.now, s'.nextRandChars next⟩ := by
      rw [step, hget]
      rfl
    refine ⟨_, s'', by rw [gets, hget, Option.bind_some, hgets]; rfl, ?_⟩
    rw [along_cons hstep, List.map_cons, List.map_cons, List.isChain_cons_cons,
      List.isChain_cons_cons, ← List.map_cons, hchain, compareKey_of_get hcall hnext h hget]
    tauto

/-- **When push ids are made in ascending order.**  Whatever the statics are before the first call
    and whatever the random numbers are: calls whose times are within the range of the time stamp
    all return, and their keys ascend in the order of the database if and only if their times
    never descend, and no call but the first one finds the time unchanged and the random
    characters used up. -/
theorem pushIds_ascending_iff (s : FNextPushId) {calls : List PushCall}
    (hcalls : ∀ c ∈ call :: calls, c.InRange) :
    ∃ key s₁ keys s', s.get call = some (key, s₁) ∧ s₁.gets calls = some (keys, s') ∧
      ((key :: keys).Pairwise (fun a b => compareKey a b = .lt) ↔
        ((call :: calls).map PushCall.now).Pairwise (· ≤ ·) ∧
          Along step (fun s call _ => ¬ s.UsedUp call) s₁ calls) := by
  have hget := get_eq s (hcalls call List.mem_cons_self)
  obtain ⟨keys, s', hgets, hchain⟩ := gets_isChain hcalls hget
  refine ⟨_, _, keys, s', hget, hgets, ?_⟩
  rw [← List.isChain_iff_pairwise, ← List.isChain_iff_pairwise, hchain]

/-- A call when eleven of the random characters are the last one. -/
def beforeCarry : PushCall := ⟨1700000000000, fun i => if i = 0 then 5 else 63⟩

/-- A second call in the same millisecond counts up, with a carry into the first random
    character. -/
theorem pushIds_ascending_iff_beforeCarry :
    (launch.gets [beforeCarry, ⟨1700000000000, fun _ => 0⟩]).map Prod.fst
        = some ["-NjEtLV-4zzzzzzzzzzz", "-NjEtLV-5-----------"] ∧
      compareKey "-NjEtLV-4zzzzzzzzzzz" "-NjEtLV-5-----------" = .lt := by
  have hkeys : (launch.gets [beforeCarry, ⟨1700000000000, fun _ => 0⟩]).map Prod.fst
      = some ["-NjEtLV-4zzzzzzzzzzz", "-NjEtLV-5-----------"] := rfl
  refine ⟨hkeys, ?_⟩
  have hcalls : ∀ c ∈ [beforeCarry, ⟨1700000000000, fun _ => 0⟩], c.InRange := by
    simp [PushCall.InRange, beforeCarry]
  obtain ⟨key, s₁, keys, s', hget, hgets, hascending⟩ := pushIds_ascending_iff launch hcalls
  rw [gets, hget, Option.bind_some, hgets] at hkeys
  obtain ⟨rfl, hrest⟩ := List.cons.inj (Option.some.inj hkeys)
  obtain rfl : keys = ["-NjEtLV-5-----------"] := hrest
  have hleft : ∀ c, ¬ s₁.UsedUp c := by
    rintro c ⟨-, hrank⟩
    rw [lastRandChars_of_get hget] at hrank
    exact absurd hrank (by decide +kernel)
  have hpairwise := hascending.mpr ⟨by simp [beforeCarry], fun _ _ => ⟨hleft _, trivial⟩⟩
  exact List.rel_of_pairwise_cons hpairwise (List.mem_singleton_self _)

/-- With all of them the last one the second call passes the whole array, and its key comes first. -/
example : (launch.gets [⟨1700000000000, fun _ => 63⟩, ⟨1700000000000, fun _ => 0⟩]).map Prod.fst
    = some ["-NjEtLV-zzzzzzzzzzzz", "-NjEtLV-------------"] := rfl

end FNextPushId

end ChildLearning
