import Mathlib.Computability.RegularExpressions

namespace Backtracking

open RegularExpression

/-!
# Backtracking match of a regular expression

`matchThen P k x` reads the start of `x` by `P` and hands the rest to `k`; where `k` fails,
it goes back and reads another start.  `matchThen_iff` says that no start is missed, so that
a full match decides the language of the expression (`fullMatch_eq_rmatch`).
-/

variable {α : Type*} [DecidableEq α] {P : RegularExpression α} {x : List α}

/-- A greedy repetition: one more round, which must read something, and where that fails
    no more.  `fuel` bounds the rounds. -/
def repeatThen (once : (List α → Bool) → List α → Bool) (k : List α → Bool) :
    ℕ → List α → Bool
  | 0, x        => k x
  | fuel + 1, x =>
    once (fun rest => rest.length < x.length && repeatThen once k fuel rest) x || k x

/-- Reads the start of a word by the expression and the rest by `k`. -/
def matchThen : RegularExpression α → (List α → Bool) → List α → Bool
  | .zero, _, _        => false
  | .epsilon, k, x     => k x
  | .char _, _, []     => false
  | .char a, k, b :: x => a == b && k x
  | .plus P Q, k, x    => matchThen P k x || matchThen Q k x
  | .comp P Q, k, x    => matchThen P (matchThen Q k) x
  | .star P, k, x      => repeatThen (matchThen P) k x.length x

/-- The whole word is read. -/
def fullMatch (P : RegularExpression α) (x : List α) : Bool := matchThen P List.isEmpty x

/-- A repetition reads nothing, or a first round and the others. -/
theorem star_rmatch_iff_cases : (star P).rmatch x ↔
    x = [] ∨ ∃ y z, x = y ++ z ∧ y ≠ [] ∧ P.rmatch y ∧ (star P).rmatch z := by
  constructor
  · intro h
    obtain ⟨rounds, rfl, hrounds⟩ := (star_rmatch_iff P x).mp h
    cases rounds with
    | nil => exact Or.inl rfl
    | cons y rounds =>
      obtain ⟨⟨hne, hy⟩, hrest⟩ := List.forall_mem_cons.mp hrounds
      exact Or.inr ⟨y, rounds.flatten, rfl, hne, hy, (star_rmatch_iff P _).mpr ⟨rounds, rfl, hrest⟩⟩
  · rintro (rfl | ⟨y, z, rfl, hne, hy, hz⟩)
    · exact (star_rmatch_iff P []).mpr ⟨[], rfl, nofun⟩
    · obtain ⟨rounds, rfl, hrounds⟩ := (star_rmatch_iff P z).mp hz
      exact (star_rmatch_iff P _).mpr
        ⟨y :: rounds, rfl, List.forall_mem_cons.mpr ⟨⟨hne, hy⟩, hrounds⟩⟩

/-- What the repetition reads, if its rounds read by `P` and the fuel covers the word. -/
theorem repeatThen_iff {once : (List α → Bool) → List α → Bool}
    (honce : ∀ k x, once k x = true ↔ ∃ y z, x = y ++ z ∧ P.rmatch y ∧ k z = true)
    (k : List α → Bool) {fuel : ℕ} (hfuel : x.length ≤ fuel) :
    repeatThen once k fuel x = true ↔ ∃ y z, x = y ++ z ∧ (star P).rmatch y ∧ k z = true := by
  have hnil : (star P).rmatch [] := star_rmatch_iff_cases.mpr (Or.inl rfl)
  induction fuel generalizing x with
  | zero =>
    have hx : x = [] := List.length_eq_zero_iff.mp (Nat.le_zero.mp hfuel)
    subst hx
    constructor
    · exact fun hk => ⟨[], [], rfl, hnil, hk⟩
    · rintro ⟨y, z, hsplit, -, hk⟩
      obtain ⟨-, rfl⟩ := List.append_eq_nil_iff.mp hsplit.symm
      exact hk
  | succ fuel ih =>
    rw [repeatThen, Bool.or_eq_true, honce]
    constructor
    · rintro (⟨y, z, rfl, hy, hz⟩ | hk)
      · obtain ⟨hshort, hrest⟩ := Bool.and_eq_true_iff.mp hz
        have hlt : z.length < (y ++ z).length := of_decide_eq_true hshort
        obtain ⟨y', z', rfl, hy', hk⟩ := (ih (by omega)).mp hrest
        have hne : y ≠ [] := by rintro rfl; simp at hlt
        refine ⟨y ++ y', z', (List.append_assoc _ _ _).symm, ?_, hk⟩
        exact star_rmatch_iff_cases.mpr (Or.inr ⟨y, y', rfl, hne, hy, hy'⟩)
      · exact ⟨[], x, rfl, hnil, hk⟩
    · rintro ⟨y, z, rfl, hy, hk⟩
      rcases star_rmatch_iff_cases.mp hy with rfl | ⟨y₁, y₂, rfl, hne, hy₁, hy₂⟩
      · exact Or.inr hk
      · -- the first round leaves a shorter word, which the fuel still covers
        have hpos : 0 < y₁.length := List.length_pos_iff.mpr hne
        simp only [List.length_append] at hfuel
        have hle : (y₂ ++ z).length ≤ fuel := by rw [List.length_append]; omega
        refine Or.inl ⟨y₁, y₂ ++ z, List.append_assoc _ _ _, hy₁, ?_⟩
        rw [Bool.and_eq_true, decide_eq_true_iff]
        refine ⟨?_, (ih hle).mpr ⟨y₂, z, rfl, hy₂, hk⟩⟩
        simp only [List.length_append]
        omega

/-- **Backtracking misses nothing.** The match succeeds exactly when some start of the word
    is in the language and `k` accepts the rest. -/
theorem matchThen_iff (P : RegularExpression α) (k : List α → Bool) (x : List α) :
    matchThen P k x = true ↔ ∃ y z, x = y ++ z ∧ P.rmatch y ∧ k z = true := by
  induction P generalizing k x with
  | zero => simp [matchThen, zero_def]
  | epsilon =>
    simp only [matchThen, one_def, one_rmatch_iff]
    constructor
    · exact fun hk => ⟨[], x, rfl, rfl, hk⟩
    · rintro ⟨y, z, rfl, rfl, hk⟩; exact hk
  | char a =>
    simp only [char_rmatch_iff]
    constructor
    · intro h
      cases x with
      | nil => cases h
      | cons b x =>
        obtain ⟨hab, hk⟩ := Bool.and_eq_true_iff.mp h
        exact ⟨[b], x, rfl, by rw [beq_iff_eq.mp hab], hk⟩
    · rintro ⟨y, z, rfl, rfl, hk⟩
      show (a == a && k z) = true
      rw [beq_self_eq_true, Bool.true_and]
      exact hk
  | plus P Q ihP ihQ =>
    rw [matchThen, Bool.or_eq_true, ihP, ihQ]
    simp only [plus_def, add_rmatch_iff]
    constructor
    · rintro (⟨y, z, hsplit, hy, hk⟩ | ⟨y, z, hsplit, hy, hk⟩)
      · exact ⟨y, z, hsplit, Or.inl hy, hk⟩
      · exact ⟨y, z, hsplit, Or.inr hy, hk⟩
    · rintro ⟨y, z, hsplit, hy | hy, hk⟩
      · exact Or.inl ⟨y, z, hsplit, hy, hk⟩
      · exact Or.inr ⟨y, z, hsplit, hy, hk⟩
  | comp P Q ihP ihQ =>
    rw [matchThen, ihP]
    simp only [comp_def, mul_rmatch_iff, ihQ]
    constructor
    · rintro ⟨y₁, _, rfl, hy₁, y₂, z, rfl, hy₂, hk⟩
      exact ⟨y₁ ++ y₂, z, (List.append_assoc _ _ _).symm, ⟨y₁, y₂, rfl, hy₁, hy₂⟩, hk⟩
    · rintro ⟨_, z, rfl, ⟨y₁, y₂, rfl, hy₁, hy₂⟩, hk⟩
      exact ⟨y₁, y₂ ++ z, List.append_assoc _ _ _, hy₁, y₂, z, rfl, hy₂, hk⟩
  | star P ih => exact repeatThen_iff ih k le_rfl

/-- A full match by backtracking decides the language. -/
theorem fullMatch_eq_rmatch (P : RegularExpression α) (x : List α) :
    fullMatch P x = P.rmatch x := by
  rw [Bool.eq_iff_iff, fullMatch, matchThen_iff]
  constructor
  · rintro ⟨y, z, rfl, hy, hz⟩
    rw [List.isEmpty_iff.mp hz, List.append_nil]
    exact hy
  · exact fun h => ⟨x, [], (List.append_nil x).symm, h, rfl⟩

end Backtracking
