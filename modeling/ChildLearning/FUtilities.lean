import Mathlib.Data.Int.Order.Basic
import Mathlib.Order.Defs.Unbundled

namespace ChildLearning

/-!
# `FUtilities`

What the SDK of the database makes of the keys: the order in which it lists the children of a
node (`compareKey`), and which keys it takes for numbers.
-/

/-- The code units of a character, as `characterAtIndex:` has them. -/
def utf16 (c : Char) : List ℕ :=
  if c.toNat < 0x10000 then [c.toNat]
  else [0xD800 + (c.toNat - 0x10000) / 0x400, 0xDC00 + (c.toNat - 0x10000) % 0x400]

/-- The code units of a string. -/
def codeUnits (str : String) : List ℕ := str.toList.flatMap utf16

namespace FUtilities

/-- The loop of `tryParseStringToInt` over the digits. -/
def parseDigits : ℤ → List ℕ → Option ℤ
  | value, []        => some value
  | value, c :: rest =>
    if c < 48 ∨ 57 < c then none else parseDigits (value * 10 + (c - 48)) rest

/-- `tryParseString:asInt:`: decimal numbers of 32 bits, of at most eleven characters. -/
def tryParseStringToInt (str : String) : Option ℤ :=
  let units := codeUnits str
  if 11 < units.length ∨ units.length = 0 then none
  else
    let value? :=
      match units with
      | 45 :: rest => if units.length = 1 then none else (parseDigits 0 rest).map fun value => -value
      | _          => parseDigits 0 units
    value?.filter fun value => -2147483648 ≤ value ∧ value ≤ 2147483647

/-- `compareKey:toKey:`: the numbers come first, in their order; the other keys follow, compared
    code unit by code unit. -/
def compareKey (a b : String) : Ordering :=
  match tryParseStringToInt a, tryParseStringToInt b with
  | some aAsInt, some bAsInt =>
    (compare aAsInt bAsInt).then (compare (codeUnits a).length (codeUnits b).length)
  | some _, none => .lt
  | none, some _ => .gt
  | none, none   => compare (codeUnits a) (codeUnits b)

/-- The digits of `intForString:`, read by `scanInteger:`, which stops at the largest
    `NSInteger`. -/
def scanDigits (digits : List Char) : ℕ :=
  min (digits.foldl (fun num c => num * 10 + (c.toNat - 48)) 0) 9223372036854775807

/-- `intForString:`: keys that consist of digits. -/
def intForString (str : String) : Option ℕ :=
  match str.toList with
  | []     => none
  | digits => if digits.all Char.isDigit then some (scanDigits digits) else none

/-! ### The order -/

/-- Numbers compare as pairs of the value and the length. -/
def compareInts (a b : ℤ × ℕ) : Ordering := (compare a.1 b.1).then (compare a.2 b.2)

instance : Std.TransCmp compareInts :=
  inferInstanceAs (Std.TransCmp (compareLex (compareOn Prod.fst) (compareOn Prod.snd)))

/-- One way round the comparison gives the opposite of the other way round. -/
instance : Std.OrientedCmp compareKey where
  eq_swap {a b} := by
    unfold compareKey
    cases tryParseStringToInt a with
    | none =>
      cases tryParseStringToInt b with
      | none => exact Std.OrientedOrd.eq_swap
      | some bAsInt => rfl
    | some aAsInt =>
      cases tryParseStringToInt b with
      | none => rfl
      | some bAsInt =>
        exact @Std.OrientedCmp.eq_swap _ compareInts _ (aAsInt, _) (bAsInt, _)

/-- The comparison is transitive. -/
instance : Std.TransCmp compareKey where
  isLE_trans {a b c} hab hbc := by
    unfold compareKey at hab hbc ⊢
    cases ha : tryParseStringToInt a with
    | none =>
      -- what follows a key that is no number is none either
      rw [ha] at hab
      cases hb : tryParseStringToInt b with
      | some bAsInt => simp [hb] at hab
      | none =>
        rw [hb] at hab hbc
        cases hc : tryParseStringToInt c with
        | some cAsInt => simp [hc] at hbc
        | none =>
          rw [hc] at hbc
          exact Std.TransOrd.isLE_trans hab hbc
    | some aAsInt =>
      rw [ha] at hab
      cases hc : tryParseStringToInt c with
      | none => rfl
      | some cAsInt =>
        rw [hc] at hbc
        cases hb : tryParseStringToInt b with
        | none => simp [hb] at hbc
        | some bAsInt =>
          rw [hb] at hab hbc
          exact @Std.TransCmp.isLE_trans _ compareInts _ (aAsInt, _) (bAsInt, _) (cAsInt, _) hab hbc

/-- One key comes before another. -/
instance : IsTrans String fun a b => compareKey a b = .lt := ⟨fun _ _ _ => Std.TransCmp.lt_trans⟩

end FUtilities

end ChildLearning
