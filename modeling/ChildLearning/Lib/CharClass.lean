import Mathlib.Computability.RegularExpressions

namespace CharClass

open RegularExpression

/-!
# Character classes and counted repetition

Mathlib's `RegularExpression` has single characters only.  This file adds bracket
classes (`charClass`) and the repetition `{n,}` (`atLeast`), and says which words the
repetition of a class matches: those of at least `n` letters, all in the class.
-/

variable {α : Type*} [DecidableEq α]

/-- `[c₁c₂…]`: any one of the listed characters. -/
def charClass (cs : List α) : RegularExpression α := cs.foldr (fun c P => char c + P) 0

/-- `P{n,}`: at least `n` repetitions (`P+` is `atLeast 1 P`). -/
def atLeast (n : ℕ) (P : RegularExpression α) : RegularExpression α := P ^ n * star P

/-- A class matches the one-letter words of its characters. -/
theorem charClass_rmatch_iff (cs : List α) (x : List α) :
    (charClass cs).rmatch x ↔ ∃ c ∈ cs, x = [c] := by
  induction cs with
  | nil => simp [charClass]
  | cons c cs ih =>
    have hsplit : charClass (c :: cs) = char c + charClass cs := rfl
    rw [hsplit, add_rmatch_iff, char_rmatch_iff, ih]
    simp

/-- Any repetition of a class matches the words over it. -/
theorem star_charClass_rmatch_iff (cs : List α) (x : List α) :
    (star (charClass cs)).rmatch x ↔ ∀ c ∈ x, c ∈ cs := by
  rw [star_rmatch_iff]
  constructor
  · rintro ⟨parts, rfl, hparts⟩ c hc
    obtain ⟨part, hpart, hcp⟩ := List.mem_flatten.mp hc
    obtain ⟨d, hd, rfl⟩ := (charClass_rmatch_iff cs part).mp (hparts part hpart).2
    rwa [List.mem_singleton.mp hcp]
  · intro h
    refine ⟨x.map fun c => [c], by rw [← List.flatMap_def]; simp, fun part hpart => ?_⟩
    obtain ⟨c, hc, rfl⟩ := List.mem_map.mp hpart
    exact ⟨List.cons_ne_nil _ _, (charClass_rmatch_iff cs [c]).mpr ⟨c, h c hc, rfl⟩⟩

/-- `n` repetitions of a class match the words of `n` letters over it. -/
theorem charClass_pow_rmatch_iff (cs : List α) (n : ℕ) (x : List α) :
    (charClass cs ^ n).rmatch x ↔ x.length = n ∧ ∀ c ∈ x, c ∈ cs := by
  induction n generalizing x with
  | zero =>
    have hzero : charClass cs ^ 0 = (1 : RegularExpression α) := rfl
    rw [hzero, one_rmatch_iff]
    constructor
    · rintro rfl; simp
    · exact fun h => List.length_eq_zero_iff.mp h.1
  | succ n ih =>
    have hsucc : charClass cs ^ (n + 1) = charClass cs ^ n * charClass cs := rfl
    rw [hsucc, mul_rmatch_iff]
    constructor
    · rintro ⟨t, u, rfl, ht, hu⟩
      obtain ⟨hlen, hmem⟩ := (ih t).mp ht
      obtain ⟨c, hc, rfl⟩ := (charClass_rmatch_iff cs u).mp hu
      refine ⟨by simp [hlen], fun d hd => ?_⟩
      rcases List.mem_append.mp hd with hd | hd
      · exact hmem d hd
      · rwa [List.mem_singleton.mp hd]
    · rintro ⟨hlen, hmem⟩
      have hne : x ≠ [] := by rintro rfl; simp at hlen
      refine ⟨x.dropLast, [x.getLast hne], (List.dropLast_append_getLast hne).symm, ?_, ?_⟩
      · exact (ih _).mpr ⟨by simp [hlen], fun c hc => hmem c (List.dropLast_subset x hc)⟩
      · exact (charClass_rmatch_iff cs _).mpr ⟨_, hmem _ (List.getLast_mem hne), rfl⟩

/-- **Counted repetition.** `[cs]{n,}` matches the words of at least `n` letters over
    `cs`. -/
theorem atLeast_charClass_rmatch_iff (cs : List α) (n : ℕ) (x : List α) :
    (atLeast n (charClass cs)).rmatch x ↔ n ≤ x.length ∧ ∀ c ∈ x, c ∈ cs := by
  rw [atLeast, mul_rmatch_iff]
  constructor
  · rintro ⟨t, u, rfl, ht, hu⟩
    obtain ⟨hlen, hmem⟩ := (charClass_pow_rmatch_iff cs n t).mp ht
    refine ⟨by simp [← hlen], fun c hc => ?_⟩
    rcases List.mem_append.mp hc with hc | hc
    · exact hmem c hc
    · exact (star_charClass_rmatch_iff cs u).mp hu c hc
  · rintro ⟨hlen, hmem⟩
    -- the first `n` letters for the power, the others for the star
    refine ⟨x.take n, x.drop n, (List.take_append_drop n x).symm, ?_, ?_⟩
    · exact (charClass_pow_rmatch_iff cs n _).mpr
        ⟨by simpa using hlen, fun c hc => hmem c (List.mem_of_mem_take hc)⟩
    · exact (star_charClass_rmatch_iff cs _).mpr fun c hc => hmem c (List.mem_of_mem_drop hc)

end CharClass
