import ChildLearning.Lib.CharClass

namespace ChildLearning

open RegularExpression CharClass

/-!
# `CommonFunctions`

`isValidEmail` is a full-string match (`SELF MATCHES`) of the pattern

    [A-Z0-9a-z._%+-]+@[A-Za-z0-9.-]+\.[A-Za-z]{2,}

`isValidEmail_iff` reads the match off: the string splits as `local@domain.tld` with
each part over its class.  The split need not be unique, since the domain's class
contains the dot.
-/

/-- The letters `A-Z` and `a-z`. -/
def letters : List Char := "ABCDEFGHIJKLMNOPQRSTUVWXYZabcdefghijklmnopqrstuvwxyz".toList

/-- The digits `0-9`. -/
def digits : List Char := "0123456789".toList

/-- `[A-Z0-9a-z._%+-]`. -/
def localClass : List Char := letters ++ digits ++ ['.', '_', '%', '+', '-']

/-- `[A-Za-z0-9.-]`. -/
def domainClass : List Char := letters ++ digits ++ ['.', '-']

/-- The pattern of `isValidEmail`. -/
def emailRegEx : RegularExpression Char :=
  atLeast 1 (charClass localClass) *
    (char '@' * (atLeast 1 (charClass domainClass) *
      (char '.' * atLeast 2 (charClass letters))))

/-- `emailTest.evaluate(with: testStr)`: the whole string matches. -/
def isValidEmail (testStr : String) : Bool := emailRegEx.rmatch testStr.toList

/-- A valid e-mail is a `local@domain.tld`. -/
theorem isValidEmail_iff (testStr : String) :
    isValidEmail testStr = true ↔ ∃ l d t, testStr.toList = l ++ '@' :: (d ++ '.' :: t) ∧
      (1 ≤ l.length ∧ ∀ c ∈ l, c ∈ localClass) ∧
      (1 ≤ d.length ∧ ∀ c ∈ d, c ∈ domainClass) ∧
      2 ≤ t.length ∧ ∀ c ∈ t, c ∈ letters := by
  simp only [isValidEmail, emailRegEx, mul_rmatch_iff, char_rmatch_iff,
    atLeast_charClass_rmatch_iff]
  constructor
  · rintro ⟨l, _, hsplit, hl, _, _, rfl, rfl, d, _, rfl, hd, _, t, rfl, rfl, ht⟩
    exact ⟨l, d, t, by simpa using hsplit, hl, hd, ht⟩
  · rintro ⟨l, d, t, hsplit, hl, hd, ht⟩
    exact ⟨l, _, hsplit, hl, ['@'], _, rfl, rfl, d, _, rfl, hd, ['.'], t, rfl, rfl, ht⟩

/-- The empty string is not an e-mail. -/
theorem isValidEmail_empty : isValidEmail "" = false := by
  rw [← Bool.not_eq_true, isValidEmail_iff]
  rintro ⟨l, d, t, h, -⟩
  simp at h

end ChildLearning
