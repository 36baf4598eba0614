import Mathlib.Data.Nat.Digits.Lemmas

namespace Odometer

/-!
# Numbers of a fixed length

Numbers with the digits `Fin b` and a fixed number of them, the least significant digit first:
the digits of a number (`digits`), counting up with a carry (`next`, which wraps around after the
largest number), and the order.  Written with the most significant digit first, numbers of one length
are ordered as lists the way their values are (`compare_reverse`).
-/

variable {b : ℕ}

/-- The number that the digits stand for. -/
def value (ds : List (Fin b)) : ℕ := Nat.ofDigits b (ds.map Fin.val)

@[simp] theorem value_nil : value ([] : List (Fin b)) = 0 := rfl

@[simp] theorem value_cons (d : Fin b) (ds : List (Fin b)) :
    value (d :: ds) = d + b * value ds := by
  simp [value, Nat.ofDigits_cons]

/-- The numbers of a length are below this power. -/
theorem value_lt (ds : List (Fin b)) : value ds < b ^ ds.length := by
  induction ds with
  | nil => simp
  | cons d ds ih =>
    have hd := d.isLt
    calc value (d :: ds) = d + b * value ds := value_cons d ds
      _ < b + b * value ds := by omega
      _ = b * (value ds + 1) := by ring
      _ ≤ b * b ^ ds.length := Nat.mul_le_mul_left b ih
      _ = b ^ (d :: ds).length := by rw [List.length_cons, pow_succ']

/-! ### The digits of a number -/

/-- The last `k` digits. -/
def digits [NeZero b] : ℕ → ℕ → List (Fin b)
  | 0, _     => []
  | k + 1, n => Fin.ofNat b n :: digits k (n / b)

@[simp] theorem length_digits [NeZero b] (k n : ℕ) : (digits k n : List (Fin b)).length = k := by
  induction k generalizing n with
  | zero => rfl
  | succ k ih => simp [digits, ih]

/-- With `k` digits a number is known up to a multiple of `b ^ k`. -/
@[simp] theorem value_digits [NeZero b] (k n : ℕ) :
    value (digits k n : List (Fin b)) = n % b ^ k := by
  induction k generalizing n with
  | zero => simp [digits, Nat.mod_one]
  | succ k ih => rw [digits, value_cons, ih, pow_succ', Nat.mod_mul, Fin.val_ofNat]

/-! ### Counting up -/

/-- The next number of this length: a digit that is the largest one turns to zero and carries,
    and after the largest number comes zero. -/
def next : List (Fin b) → List (Fin b)
  | []      => []
  | d :: ds => if h : d.val + 1 < b then ⟨d + 1, h⟩ :: ds else ⟨0, d.pos⟩ :: next ds

variable {ds es : List (Fin b)}

/-- **The next number is one more**, up to a multiple of the power. -/
theorem value_next (ds : List (Fin b)) : value (next ds) = (value ds + 1) % b ^ ds.length := by
  induction ds with
  | nil => simp [next]
  | cons d ds ih =>
    have hd := d.isLt
    rw [value_cons, List.length_cons, pow_succ']
    unfold next
    split_ifs with hcarry
    · -- a digit that does not carry keeps the number below the power
      have hle : b * (value ds + 1) ≤ b * b ^ ds.length := Nat.mul_le_mul_left b (value_lt ds)
      rw [mul_add] at hle
      rw [value_cons, Nat.mod_eq_of_lt (by omega)]
      show d.val + 1 + b * value ds = d + b * value ds + 1
      omega
    · have hlast : d + b * value ds + 1 = b * (value ds + 1) := by
        rw [mul_add]
        omega
      rw [value_cons, ih, hlast, Nat.mul_mod_mul_left]
      exact Nat.zero_add _

/-! ### The order -/

/-- Lists that begin with parts of the same length are ordered by these, then by the rests. -/
theorem compare_append {α : Type*} [Ord α] {xs ys : List α} (h : xs.length = ys.length)
    (us vs : List α) :
    compare (xs ++ us) (ys ++ vs) = (compare xs ys).then (compare us vs) := by
  induction xs generalizing ys with
  | nil =>
    obtain rfl : ys = [] := List.length_eq_zero_iff.mp h.symm
    rfl
  | cons x xs ih =>
    cases ys with
    | nil => cases h
    | cons y ys =>
      simp only [List.cons_append, List.compare_cons_cons, ih (Nat.succ.inj h),
        Ordering.then_assoc]

/-- Digits written as letters in the same order. -/
theorem compare_map {α β : Type*} [Ord α] [Ord β] {f : α → β}
    (hf : ∀ x y, compare (f x) (f y) = compare x y) (xs ys : List α) :
    compare (xs.map f) (ys.map f) = compare xs ys := by
  induction xs generalizing ys with
  | nil => cases ys <;> rfl
  | cons x xs ih =>
    cases ys with
    | nil => rfl
    | cons y ys => simp only [List.map_cons, List.compare_cons_cons, hf, ih]

/-- The more significant digits decide, then the last one. -/
theorem compare_value_cons (d e : Fin b) (ds es : List (Fin b)) :
    compare (value (d :: ds)) (value (e :: es))
      = (compare (value ds) (value es)).then (compare d e) := by
  rw [value_cons, value_cons]
  have hd := d.isLt
  have he := e.isLt
  rcases lt_trichotomy (value ds) (value es) with hlt | heq | hgt
  · have hle : b * (value ds + 1) ≤ b * value es := Nat.mul_le_mul_left b hlt
    rw [mul_add] at hle
    have hless : d + b * value ds < e + b * value es := by omega
    rw [Nat.compare_eq_lt.mpr hlt, Nat.compare_eq_lt.mpr hless]
    rfl
  · show _ = (compare (value ds) (value es)).then (compare d.val e.val)
    rw [heq, Nat.compare_eq_eq.mpr rfl]
    simp [Nat.compare_eq_ite_lt]
  · have hle : b * (value es + 1) ≤ b * value ds := Nat.mul_le_mul_left b hgt
    rw [mul_add] at hle
    have hless : e + b * value es < d + b * value ds := by omega
    rw [Nat.compare_eq_gt.mpr hgt, Nat.compare_eq_gt.mpr hless]
    rfl

/-- **The order of the lists is that of the numbers**, for numbers of the same length with the
    most significant digit first. -/
theorem compare_reverse (h : ds.length = es.length) :
    compare ds.reverse es.reverse = compare (value ds) (value es) := by
  induction ds generalizing es with
  | nil =>
    obtain rfl : es = [] := List.length_eq_zero_iff.mp h.symm
    rfl
  | cons d ds ih =>
    cases es with
    | nil => cases h
    | cons e es =>
      have hlen : ds.length = es.length := Nat.succ.inj h
      rw [List.reverse_cons, List.reverse_cons, compare_append (by simp [hlen]), ih hlen,
        compare_value_cons, List.compare_cons_cons]
      simp

end Odometer
