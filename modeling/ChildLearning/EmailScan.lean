import ChildLearning.CommonFunctions
import ChildLearning.Lib.Backtracking
import ChildLearning.Lib.Scan

namespace ChildLearning

open Backtracking Scan

/-!
# The e-mail check as a scan

The domain's class of the pattern contains the dot and the letters, so a match has to guess
which dot is the last one.  `emailScan` does not guess: it reads the string once and keeps
track of the last dot.  `isValidEmail_iff_scan` says that both accept the same strings,
those with `EmailParts`, and that the parts are determined.
-/

/-! ### The classes -/

/-- A letter, a digit or one of `. _ % + -`. -/
def isLocal (c : Char) : Bool := c.isAlphanum || decide (c ∈ ['.', '_', '%', '+', '-'])

/-- A letter, a digit or one of `. -`. -/
def isDomain (c : Char) : Bool := c.isAlphanum || decide (c ∈ ['.', '-'])

/-- The letters and digits of `Char` are those of ASCII. -/
theorem toNat_lt_of_isAlphanum {c : Char} (h : c.isAlphanum = true) : c.toNat < 128 := by
  have hrange : ((decide ('A'.val ≤ c.val ∧ c.val ≤ 'Z'.val) ||
      (decide ('a'.val ≤ c.val) && decide (c.val ≤ 'z'.val))) ||
      (decide ('0'.val ≤ c.val) && decide (c.val ≤ '9'.val))) = true := h
  simp only [Bool.or_eq_true, Bool.and_eq_true, decide_eq_true_eq, UInt32.le_iff_toNat_le]
    at hrange
  have hZ : 'Z'.val.toNat = 90 := rfl
  have hz : 'z'.val.toNat = 122 := rfl
  have h9 : '9'.val.toNat = 57 := rfl
  show c.val.toNat < 128
  omega

/-- A class of ASCII characters is known from the first 128 code points. -/
theorem mem_of_ascii {cs : List Char} {p : Char → Bool}
    (hall : ∀ n < 128, p (Char.ofNat n) = true → Char.ofNat n ∈ cs) {c : Char}
    (hc : c.toNat < 128) (h : p c = true) : c ∈ cs := by
  have hmem := hall c.toNat hc
  rw [Char.ofNat_toNat] at hmem
  exact hmem h

theorem mem_letters {c : Char} : c ∈ letters ↔ c.isAlpha = true := by
  have hletters : letters.all Char.isAlpha = true := by decide
  have hascii : ∀ n < 128, (Char.ofNat n).isAlpha = true → Char.ofNat n ∈ letters := by decide
  refine ⟨List.all_eq_true.mp hletters c, fun h => ?_⟩
  have halphanum : c.isAlphanum = true := by rw [Char.isAlphanum, h, Bool.true_or]
  exact mem_of_ascii hascii (toNat_lt_of_isAlphanum halphanum) h

theorem mem_digits {c : Char} : c ∈ digits ↔ c.isDigit = true := by
  have hdigits : digits.all Char.isDigit = true := by decide
  have hascii : ∀ n < 128, (Char.ofNat n).isDigit = true → Char.ofNat n ∈ digits := by decide
  refine ⟨List.all_eq_true.mp hdigits c, fun h => ?_⟩
  have halphanum : c.isAlphanum = true := by rw [Char.isAlphanum, h, Bool.or_true]
  exact mem_of_ascii hascii (toNat_lt_of_isAlphanum halphanum) h

theorem mem_localClass {c : Char} : c ∈ localClass ↔ isLocal c = true := by
  simp only [localClass, isLocal, List.mem_append, mem_letters, mem_digits, Char.isAlphanum,
    Bool.or_eq_true, decide_eq_true_eq]

theorem mem_domainClass {c : Char} : c ∈ domainClass ↔ isDomain c = true := by
  simp only [domainClass, isDomain, List.mem_append, mem_letters, mem_digits, Char.isAlphanum,
    Bool.or_eq_true, decide_eq_true_eq]

/-- The last dot is ambiguous: the dot and the letters of the end belong to the domain. -/
theorem overlapping_domain : Overlapping '.' isDomain Char.isAlpha where
  sep_inside := by decide
  sep_not_tail := by decide
  tail_inside c h := by simp [isDomain, Char.isAlphanum, h]

/-! ### The scan -/

/-- One scan from left to right: the local part up to the first `@`, then the domain with
    its last dot, and at least two letters after it. -/
def emailScan : DFA Char (UpTo LastSplit) :=
  upTo isLocal '@' (lastSplit '.' isDomain Char.isAlpha 2)

/-- What the scan of a string finds: one `@`, before it a local part, and after it a domain
    whose last dot has something before it and at least two letters, and nothing else,
    after it. -/
@[ext]
structure EmailParts (testStr : String) where
  beforeAt : List Char
  beforeDot : List Char
  afterDot : List Char
  eq : testStr.toList = beforeAt ++ '@' :: (beforeDot ++ '.' :: afterDot)
  oneAt : testStr.toList.count '@' = 1
  beforeAt_ne : beforeAt ≠ []
  beforeAt_mem : ∀ c ∈ beforeAt, isLocal c = true
  domain_mem : ∀ c ∈ beforeDot ++ '.' :: afterDot, isDomain c = true
  lastDot : '.' ∉ afterDot
  beforeDot_ne : beforeDot ≠ []
  two_le : 2 ≤ afterDot.length
  afterDot_mem : ∀ c ∈ afterDot, c.isAlpha = true

instance : DecidablePred (· ∈ emailScan.accepts) := fun x =>
  inferInstanceAs (Decidable ((emailScan.eval x).Accepts (lastSplit '.' isDomain Char.isAlpha 2)))

/-- What the scan accepts: the words that split as the pattern does. -/
theorem mem_emailScan {x : List Char} : x ∈ emailScan.accepts ↔
    ∃ l d t, x = l ++ '@' :: (d ++ '.' :: t) ∧ (l ≠ [] ∧ ∀ c ∈ l, isLocal c = true) ∧
      d ≠ [] ∧ IsSplit isDomain Char.isAlpha 2 d t := by
  rw [emailScan, mem_upTo (by decide)]
  simp only [mem_lastSplit overlapping_domain]
  constructor
  · rintro ⟨l, _, rfl, hl, hlocal, d, t, rfl, hd, hsplit⟩
    exact ⟨l, d, t, rfl, ⟨hl, hlocal⟩, hd, hsplit⟩
  · rintro ⟨l, d, t, rfl, ⟨hl, hlocal⟩, hd, hsplit⟩
    exact ⟨l, _, rfl, hl, hlocal, d, t, rfl, hd, hsplit⟩

/-- The match and the scan accept the same strings. -/
theorem isValidEmail_iff_mem (testStr : String) :
    isValidEmail testStr = true ↔ testStr.toList ∈ emailScan.accepts := by
  rw [isValidEmail_iff, mem_emailScan]
  simp only [mem_localClass, mem_domainClass, mem_letters, Nat.succ_le_iff, List.length_pos_iff]
  constructor
  · rintro ⟨l, d, t, hsplit, hl, ⟨hd, hinside⟩, htwo, htail⟩
    exact ⟨l, d, t, hsplit, hl, hd, hinside, htwo, htail⟩
  · rintro ⟨l, d, t, hsplit, hl, hd, hinside, htwo, htail⟩
    exact ⟨l, d, t, hsplit, hl, ⟨hd, hinside⟩, htwo, htail⟩

/-- The scan accepts the strings that have the parts of an e-mail. -/
theorem mem_emailScan_iff_parts (testStr : String) :
    testStr.toList ∈ emailScan.accepts ↔ Nonempty (EmailParts testStr) := by
  rw [mem_emailScan]
  constructor
  · rintro ⟨l, d, t, hsplit, ⟨hl, hlocal⟩, hd, hinside, htwo, htail⟩
    have hdomain : ∀ c ∈ d ++ '.' :: t, isDomain c = true := by
      intro c hc
      rcases List.mem_append.mp hc with hc | hc
      · exact hinside c hc
      rcases List.mem_cons.mp hc with rfl | hc
      · exact overlapping_domain.sep_inside
      · exact overlapping_domain.tail_inside c (htail c hc)
    -- neither side of the `@` has another one
    have hbefore : '@' ∉ l := fun hmem => absurd (hlocal _ hmem) (by decide)
    have hafter : '@' ∉ d ++ '.' :: t := fun hmem => absurd (hdomain _ hmem) (by decide)
    have hone : testStr.toList.count '@' = 1 := by
      rw [hsplit, List.count_append, List.count_cons_self, List.count_eq_zero.mpr hbefore,
        List.count_eq_zero.mpr hafter]
    have hlast : '.' ∉ t := fun hmem => absurd (htail _ hmem) (by decide)
    exact ⟨⟨l, d, t, hsplit, hone, hl, hlocal, hdomain, hlast, hd, htwo, htail⟩⟩
  · rintro ⟨parts⟩
    refine ⟨parts.beforeAt, parts.beforeDot, parts.afterDot, parts.eq,
      ⟨parts.beforeAt_ne, parts.beforeAt_mem⟩, parts.beforeDot_ne, ?_, parts.two_le,
      parts.afterDot_mem⟩
    exact fun c hc => parts.domain_mem c (List.mem_append_left _ hc)

/-- A string splits in one way only. -/
theorem subsingleton_emailParts (testStr : String) : Subsingleton (EmailParts testStr) := by
  refine ⟨fun parts parts' => ?_⟩
  have hbefore : '@' ∉ parts.beforeAt := fun hmem =>
    absurd (parts.beforeAt_mem _ hmem) (by decide)
  have hafter : '@' ∉ parts.beforeDot ++ '.' :: parts.afterDot := fun hmem =>
    absurd (parts.domain_mem _ hmem) (by decide)
  obtain ⟨hlocal, -, hdomain⟩ := (List.append_cons_inj_of_notMem hbefore hafter).mp
    (parts.eq.symm.trans parts'.eq)
  obtain ⟨hbody, htail⟩ := split_last_unique hdomain parts.lastDot parts'.lastDot
  exact EmailParts.ext hlocal hbody htail

/-- **The e-mail check is a scan.**  The full-string match of the pattern, by backtracking
    or by its language, accepts exactly what one scan from left to right accepts: the
    strings with the parts of an e-mail, which are determined by the string. -/
theorem isValidEmail_iff_scan (testStr : String) :
    isValidEmail testStr = fullMatch emailRegEx testStr.toList ∧
      (isValidEmail testStr = true ↔ testStr.toList ∈ emailScan.accepts) ∧
      (testStr.toList ∈ emailScan.accepts ↔ Nonempty (EmailParts testStr)) ∧
      Subsingleton (EmailParts testStr) := by
  refine ⟨?_, isValidEmail_iff_mem testStr, mem_emailScan_iff_parts testStr, ?_⟩
  · exact (fullMatch_eq_rmatch emailRegEx testStr.toList).symm
  · exact subsingleton_emailParts testStr

/-- Dots before the last one are of the domain; the last one needs two letters after it. -/
example : "ann@mail.co.uk".toList ∈ emailScan.accepts ∧ "a@..co".toList ∈ emailScan.accepts ∧
    "ann@mail.co.u".toList ∉ emailScan.accepts ∧ "ann@.co".toList ∉ emailScan.accepts := by
  decide

end ChildLearning
