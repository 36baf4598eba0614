import Mathlib.Algebra.BigOperators.Field
import Mathlib.Algebra.BigOperators.Fin
import Mathlib.Algebra.Field.Rat
import Mathlib.Algebra.Order.BigOperators.Group.Finset
import Mathlib.Algebra.Order.Field.Basic
import Mathlib.Data.Nat.Cast.Order.Field
import Mathlib.Data.Rat.BigOperators
import Mathlib.Tactic.Linarith
import ChildLearning.Lib.Sampler

namespace Sampling

open scoped BigOperators

/-!
# Chances

Every draw of a sampler is uniform below its bound and independent of the others.
`chance p Q n` is the chance that the program `p` is done after exactly `n` draws with a
result in `Q`, `within p Q n` after at most `n` draws, and `waiting p n` that it still draws
after `n` draws.

A program is `Prompt` when it never reads past an end and, while it draws, a bounded number
of draws can finish it.  Then it still draws with a chance that falls geometrically
(`Prompt.waiting_le`), and what it does not lose to waiting it spends on its results: equally
likely results that cover all have the chance `(1 - waiting) / number` (`card_mul_within`).
-/

variable {β γ ι : Type}

namespace Sampler

/-! ### Chances -/

/-- The chance to be done after exactly `n` more draws with a result in `Q`, after the
    draws `pre`. -/
def chanceFrom (p : Sampler β) (Q : β → Prop) [DecidablePred Q] : ℕ → List ℕ → ℚ
  | 0, pre => match p.after pre with
    | .done b _ => if Q b then 1 else 0
    | _         => 0
  | n + 1, pre => match p.after pre with
    | .drawing bound => (∑ r ∈ Finset.range bound, chanceFrom p Q n (pre ++ [r])) / bound
    | _              => 0

/-- The chance to be done after exactly `n` draws with a result in `Q`. -/
def chance (p : Sampler β) (Q : β → Prop) [DecidablePred Q] (n : ℕ) : ℚ := chanceFrom p Q n []

/-- The chance to be done after at most `n` draws with a result in `Q`. -/
def within (p : Sampler β) (Q : β → Prop) [DecidablePred Q] (n : ℕ) : ℚ :=
  ∑ j ∈ Finset.range (n + 1), chance p Q j

/-- The chance still to draw after `n` more draws, after the draws `pre`. -/
def waitingFrom (p : Sampler β) : ℕ → List ℕ → ℚ
  | 0, pre => match p.after pre with
    | .drawing _ => 1
    | _          => 0
  | n + 1, pre => match p.after pre with
    | .drawing bound => (∑ r ∈ Finset.range bound, waitingFrom p n (pre ++ [r])) / bound
    | _              => 0

/-- The chance still to draw after `n` draws. -/
def waiting (p : Sampler β) (n : ℕ) : ℚ := waitingFrom p n []

variable {p : Sampler β} {f : β → Sampler γ} {pre : List ℕ}

theorem chanceFrom_succ_of_drawing {Q : β → Prop} [DecidablePred Q] {bound : ℕ}
    (h : p.after pre = .drawing bound) (n : ℕ) :
    chanceFrom p Q (n + 1) pre
      = (∑ r ∈ Finset.range bound, chanceFrom p Q n (pre ++ [r])) / bound := by
  rw [chanceFrom, h]

theorem waitingFrom_succ_of_drawing {bound : ℕ} (h : p.after pre = .drawing bound) (n : ℕ) :
    waitingFrom p (n + 1) pre
      = (∑ r ∈ Finset.range bound, waitingFrom p n (pre ++ [r])) / bound := by
  rw [waitingFrom, h]

theorem waitingFrom_of_done {b : β} {rest : List ℕ} (h : p.after pre = .done b rest) (n : ℕ) :
    waitingFrom p n pre = 0 := by
  cases n with
  | zero => rw [waitingFrom, h]
  | succ n => rw [waitingFrom, h]

/-- Every draw is one of as many as its bound says. -/
theorem sum_div_le {bound : ℕ} {g : ℕ → ℚ} {δ : ℚ} (hδ : 0 ≤ δ)
    (h : ∀ r < bound, g r ≤ δ) : (∑ r ∈ Finset.range bound, g r) / bound ≤ δ := by
  refine div_le_of_le_mul₀ (Nat.cast_nonneg bound) hδ ?_
  calc ∑ r ∈ Finset.range bound, g r
      ≤ ∑ _r ∈ Finset.range bound, δ := Finset.sum_le_sum fun r hr => h r (Finset.mem_range.mp hr)
    _ = δ * bound := by rw [Finset.sum_const, Finset.card_range, nsmul_eq_mul, mul_comm]

theorem waitingFrom_le_one (p : Sampler β) (n : ℕ) (pre : List ℕ) : waitingFrom p n pre ≤ 1 := by
  induction n generalizing pre with
  | zero =>
    rw [waitingFrom]
    split
    · exact le_refl 1
    · exact zero_le_one
  | succ n ih =>
    rw [waitingFrom]
    split
    · exact sum_div_le zero_le_one fun r _ => ih _
    · exact zero_le_one

/-! ### Prompt programs -/

/-- The generator may return any index below the bound. -/
def Below (n r : ℕ) : Prop := r < n

/-- No draws lead out of bounds, and while the program draws, its bounds are at most `b` and
    some `k` draws or fewer finish it. -/
structure Prompt (b k : ℕ) (p : Sampler β) : Prop where
  inBounds : ∀ {pre}, Possible Below p pre → p.after pre ≠ .outOfBounds
  quick : ∀ {pre n}, Possible Below p pre → p.after pre = .drawing n →
    n ≤ b ∧ ∃ more c, more.length ≤ k ∧ Possible Below p (pre ++ more) ∧
      p.after (pre ++ more) = .done c []

variable {b k k' : ℕ}

/-- One more draw. -/
theorem possible_concat {n r : ℕ} (h : Possible Below p pre) (hn : p.after pre = .drawing n)
    (hr : r < n) : Possible Below p (pre ++ [r]) := by
  refine possibleFrom_append.mpr ⟨h, fun m hm => ?_, trivial⟩
  rw [List.nil_append, hn] at hm
  cases hm
  exact hr

/-- A prompt program waits for an index that there is. -/
theorem Prompt.pos (hp : Prompt b k p) {n : ℕ} (h : Possible Below p pre)
    (hn : p.after pre = .drawing n) : 0 < n := by
  obtain ⟨-, more, c, -, hposs, hdone⟩ := hp.quick h hn
  cases more with
  | nil =>
    rw [List.append_nil, hn] at hdone
    cases hdone
  | cons r rs =>
    have hr : r < n := (possibleFrom_append.mp hposs).2.1 n hn
    exact Nat.zero_lt_of_lt hr

/-- It can be finished from its start. -/
theorem Prompt.exists_done (hp : Prompt b k p) :
    ∃ draws c, draws.length ≤ k ∧ Possible Below p draws ∧ p.after draws = .done c [] := by
  have hnone : Possible Below p [] := trivial
  cases hstart : p.after [] with
  | done c rest => exact ⟨[], c, Nat.zero_le k, trivial, by rw [hstart, rest_eq_nil hstart]⟩
  | drawing n => exact (hp.quick hnone hstart).2
  | outOfBounds => exact absurd hstart (hp.inBounds hnone)

theorem prompt_pure (c : β) : Prompt b k (pure c : Sampler β) where
  inBounds _ := nofun
  quick _ := nofun

/-- **Sequencing.** A sequence needs no more draws than its parts together. -/
theorem prompt_bind (hp : Prompt b k p)
    (hf : ∀ draws c, p.after draws = .done c [] → Prompt b k' (f c)) :
    Prompt b (k + k') (p >>= f) where
  inBounds {pre} hposs := by
    have hppre : Possible Below p pre := possibleFrom_of_bind hposs
    cases hpd : p.after pre with
    | done c mid =>
      obtain ⟨used, rfl, hused⟩ := p.done_used hpd
      rw [after_bind_of_done hpd]
      exact (hf used c hused).inBounds ((possible_bind hused).mp hposs).2
    | drawing m =>
      rw [after_bind_of_drawing hpd]
      exact nofun
    | outOfBounds => exact absurd hpd (hp.inBounds hppre)
  quick {pre n} hposs hn := by
    have hppre : Possible Below p pre := possibleFrom_of_bind hposs
    -- the draws end in the second part, or within the first
    cases hpd : p.after pre with
    | done c mid =>
      obtain ⟨used, rfl, hused⟩ := p.done_used hpd
      obtain ⟨hpused, hmid⟩ := (possible_bind hused).mp hposs
      rw [after_bind_of_done hpd] at hn
      obtain ⟨hbound, more, d, hlen, hmore, hdone⟩ := (hf used c hused).quick hmid hn
      refine ⟨hbound, more, d, by omega, ?_, ?_⟩
      · rw [List.append_assoc]
        exact (possible_bind hused).mpr ⟨hpused, hmore⟩
      · rw [after_bind_of_done (p.done_append hpd more), hdone]
    | drawing m =>
      rw [after_bind_of_drawing hpd] at hn
      cases hn
      obtain ⟨hbound, more, c, hlen, hmore, hdone⟩ := hp.quick hppre hpd
      obtain ⟨more', d, hlen', hmore', hdone'⟩ := (hf _ c hdone).exists_done
      refine ⟨hbound, more ++ more', d, by rw [List.length_append]; omega, ?_, ?_⟩
      · rw [← List.append_assoc]
        exact (possible_bind hdone).mpr ⟨hmore, hmore'⟩
      · rw [← List.append_assoc, after_bind_of_done (p.done_append hdone more'), List.nil_append,
          hdone']
    | outOfBounds => exact absurd hpd (hp.inBounds hppre)

/-- **Sampling.** A list with `k` distinct values gives them up after `k` draws. -/
theorem prompt_sample [DecidableEq β] {xs : List β} (hk : k ≤ xs.dedup.length)
    (hb : xs.length ≤ b) : Prompt b k (sample xs k) where
  inBounds hposs := (safe_sample hk (fun _ => Iff.rfl) _ hposs).1
  quick {pre n} hposs hn := by
    obtain ⟨rfl, s, hs⟩ := sample_eq_drawing.mp hn
    have hle : s.count ≤ k := (count_lt_of_drawing hs).le
    obtain ⟨more, s', hlen, hmore, hleft⟩ := exists_draws_missing hk s hle
    refine ⟨hb, more, s', by omega, ?_, ?_⟩
    · exact possibleFrom_append.mpr ⟨hposs, possibleFrom_sample (fun _ => Iff.rfl) hmore⟩
    · rw [sample_eq_done, loop_append, hs]
      exact hleft

/-! ### Waiting -/

/-- Where a few draws finish the program, it is not certain to draw on. -/
theorem waitingFrom_le_of_done {more : List ℕ} {c : β} {m : ℕ} (hp : Prompt b k p)
    (hposs : Possible Below p pre) (hmore : PossibleFrom Below p pre more)
    (hdone : p.after (pre ++ more) = .done c []) (hlen : more.length ≤ m) :
    waitingFrom p m pre ≤ 1 - (b : ℚ)⁻¹ ^ m := by
  have hunit : (b : ℚ)⁻¹ ^ m ≤ 1 :=
    pow_le_one₀ (inv_nonneg.mpr (Nat.cast_nonneg b)) (Nat.cast_inv_le_one b)
  induction more generalizing pre m with
  | nil =>
    rw [List.append_nil] at hdone
    rw [waitingFrom_of_done hdone]
    linarith
  | cons r rs ih =>
    cases hpre : p.after pre with
    | done d rest =>
      rw [waitingFrom_of_done hpre]
      linarith
    | outOfBounds => exact absurd hpre (hp.inBounds hposs)
    | drawing n =>
      obtain ⟨m, rfl⟩ := Nat.exists_eq_add_of_le' (show 1 ≤ m by rw [List.length_cons] at hlen; omega)
      have hr : r < n := hmore.1 n hpre
      have hn : 0 < n := Nat.zero_lt_of_lt hr
      have hnb : n ≤ b := (hp.quick hposs hpre).1
      -- the right draw leaves a chance to be done, whatever the others do
      have hright : waitingFrom p m (pre ++ [r]) ≤ 1 - (b : ℚ)⁻¹ ^ m := by
        refine ih (possible_concat hposs hpre hr) hmore.2 (by simpa using hdone)
          (by simpa using hlen) ?_
        exact pow_le_one₀ (inv_nonneg.mpr (Nat.cast_nonneg b)) (Nat.cast_inv_le_one b)
      have hsum : ∑ i ∈ Finset.range n, waitingFrom p m (pre ++ [i]) ≤ n - (b : ℚ)⁻¹ ^ m := by
        have hothers : ∑ i ∈ (Finset.range n).erase r, waitingFrom p m (pre ++ [i]) ≤ (n : ℚ) - 1 :=
          calc ∑ i ∈ (Finset.range n).erase r, waitingFrom p m (pre ++ [i])
              ≤ ∑ _i ∈ (Finset.range n).erase r, (1 : ℚ) :=
                Finset.sum_le_sum fun i _ => waitingFrom_le_one p m _
            _ = (n : ℚ) - 1 := by
                rw [Finset.sum_const, Finset.card_erase_of_mem (Finset.mem_range.mpr hr),
                  Finset.card_range, nsmul_eq_mul, mul_one, Nat.cast_sub hn, Nat.cast_one]
        rw [← Finset.add_sum_erase _ _ (Finset.mem_range.mpr hr)]
        linarith
      have hnpos : (0 : ℚ) < n := Nat.cast_pos.mpr hn
      have hinv : (b : ℚ)⁻¹ ≤ (n : ℚ)⁻¹ := inv_anti₀ hnpos (Nat.cast_le.mpr hnb)
      have hpow : (0 : ℚ) ≤ (b : ℚ)⁻¹ ^ m := pow_nonneg (inv_nonneg.mpr (Nat.cast_nonneg b)) m
      rw [waitingFrom_succ_of_drawing hpre, pow_succ]
      calc (∑ i ∈ Finset.range n, waitingFrom p m (pre ++ [i])) / n
          ≤ (n - (b : ℚ)⁻¹ ^ m) / n := div_le_div_of_nonneg_right hsum hnpos.le
        _ = 1 - (b : ℚ)⁻¹ ^ m * (n : ℚ)⁻¹ := by
            rw [sub_div, div_self hnpos.ne', div_eq_mul_inv]
        _ ≤ 1 - (b : ℚ)⁻¹ ^ m * (b : ℚ)⁻¹ := by
            have := mul_le_mul_of_nonneg_left hinv hpow
            linarith

/-- After `a` draws the program waits on from somewhere. -/
theorem waitingFrom_add_le {c : ℕ} {δ : ℚ}
    (h : ∀ pre, Possible Below p pre → waitingFrom p c pre ≤ δ) (a : ℕ)
    (hposs : Possible Below p pre) : waitingFrom p (c + a) pre ≤ waitingFrom p a pre * δ := by
  induction a generalizing pre with
  | zero =>
    cases hpre : p.after pre with
    | done b rest => rw [waitingFrom_of_done hpre, waitingFrom_of_done hpre, zero_mul]
    | drawing n =>
      rw [waitingFrom, hpre, one_mul]
      exact h pre hposs
    | outOfBounds =>
      have hzero : ∀ m, waitingFrom p m pre = 0 := fun m => by cases m <;> rw [waitingFrom, hpre]
      rw [hzero, hzero, zero_mul]
  | succ a ih =>
    show waitingFrom p ((c + a) + 1) pre ≤ waitingFrom p (a + 1) pre * δ
    cases hpre : p.after pre with
    | done b rest => rw [waitingFrom_of_done hpre, waitingFrom_of_done hpre, zero_mul]
    | outOfBounds => rw [waitingFrom, waitingFrom, hpre, zero_mul]
    | drawing n =>
      rw [waitingFrom_succ_of_drawing hpre, waitingFrom_succ_of_drawing hpre, div_mul_eq_mul_div,
        Finset.sum_mul]
      refine div_le_div_of_nonneg_right (Finset.sum_le_sum fun r hr => ?_) (Nat.cast_nonneg n)
      exact ih (possible_concat hposs hpre (Finset.mem_range.mp hr))

/-- **Prompt programs end.** The chance still to draw falls geometrically. -/
theorem Prompt.waiting_le (hp : Prompt b k p) (m : ℕ) :
    p.waiting (k * m) ≤ (1 - (b : ℚ)⁻¹ ^ k) ^ m := by
  have hunit : (b : ℚ)⁻¹ ^ k ≤ 1 :=
    pow_le_one₀ (inv_nonneg.mpr (Nat.cast_nonneg b)) (Nat.cast_inv_le_one b)
  have hround : ∀ pre, Possible Below p pre → waitingFrom p k pre ≤ 1 - (b : ℚ)⁻¹ ^ k := by
    intro pre hposs
    cases hpre : p.after pre with
    | done c rest =>
      rw [waitingFrom_of_done hpre]
      linarith
    | outOfBounds => exact absurd hpre (hp.inBounds hposs)
    | drawing n =>
      obtain ⟨-, more, c, hlen, hmore, hdone⟩ := hp.quick hposs hpre
      exact waitingFrom_le_of_done hp hposs (possibleFrom_append.mp hmore).2 hdone hlen
  have hδ : (0 : ℚ) ≤ 1 - (b : ℚ)⁻¹ ^ k := by linarith
  induction m with
  | zero => exact (waitingFrom_le_one p _ _).trans (by rw [pow_zero])
  | succ m ih =>
    calc p.waiting (k * (m + 1))
        = waitingFrom p (k + k * m) [] := by rw [waiting, Nat.mul_succ, Nat.add_comm]
      _ ≤ waitingFrom p (k * m) [] * (1 - (b : ℚ)⁻¹ ^ k) := waitingFrom_add_le hround _ trivial
      _ ≤ (1 - (b : ℚ)⁻¹ ^ k) ^ m * (1 - (b : ℚ)⁻¹ ^ k) := mul_le_mul_of_nonneg_right ih hδ
      _ = (1 - (b : ℚ)⁻¹ ^ k) ^ (m + 1) := (pow_succ _ _).symm

/-- **A loop without a way out.** Sampling more values than a list has draws for ever. -/
theorem waiting_eq_one [DecidableEq β] {xs : List β} (hk : xs.dedup.length < k) (hxs : xs ≠ [])
    (f : DrawnSet β → Sampler γ) (n : ℕ) : (sample xs k >>= f).waiting n = 1 := by
  have hdrawing : ∀ pre : List ℕ, (∀ r ∈ pre, r < xs.length) →
      (sample xs k >>= f).after pre = .drawing xs.length := by
    intro pre hpre
    apply after_bind_of_drawing
    cases hloop : loop xs k .empty pre with
    | left s rest => exact absurd hloop (loop_ne_left hk pre s rest)
    | drawing s => exact sample_eq_drawing.mpr ⟨rfl, s, hloop⟩
    | outOfBounds => exact absurd hloop (loop_ne_outOfBounds hpre)
  have hlen : (xs.length : ℚ) ≠ 0 := Nat.cast_ne_zero.mpr (List.length_pos_iff.mpr hxs).ne'
  have hall : ∀ pre : List ℕ, (∀ r ∈ pre, r < xs.length) →
      waitingFrom (sample xs k >>= f) n pre = 1 := by
    induction n with
    | zero =>
      intro pre hpre
      rw [waitingFrom, hdrawing pre hpre]
    | succ n ih =>
      intro pre hpre
      have hnext : ∀ r ∈ Finset.range xs.length,
          waitingFrom (sample xs k >>= f) n (pre ++ [r]) = 1 := by
        intro r hr
        refine ih _ fun i hi => ?_
        rcases List.mem_append.mp hi with hi | hi
        · exact hpre i hi
        · rw [List.mem_singleton.mp hi]
          exact Finset.mem_range.mp hr
      rw [waitingFrom_succ_of_drawing (hdrawing pre hpre), Finset.sum_congr rfl hnext,
        Finset.sum_const, Finset.card_range, nsmul_eq_mul, mul_one, div_self hlen]
  exact hall [] (by simp)

/-! ### Equally likely results -/

/-- A prompt program is done or still draws. -/
theorem Prompt.sum_chanceFrom_add_waitingFrom (hp : Prompt b k p) (n : ℕ)
    (hposs : Possible Below p pre) :
    (∑ j ∈ Finset.range (n + 1), chanceFrom p (fun _ => True) j pre) + waitingFrom p n pre = 1 := by
  induction n generalizing pre with
  | zero =>
    rw [Finset.sum_range_one, chanceFrom, waitingFrom]
    cases hpre : p.after pre with
    | done c rest => exact add_zero 1
    | drawing m => exact zero_add 1
    | outOfBounds => exact absurd hpre (hp.inBounds hposs)
  | succ n ih =>
    rw [Finset.sum_range_succ']
    cases hpre : p.after pre with
    | done c rest =>
      have hzero : ∀ j, chanceFrom p (fun _ => True) (j + 1) pre = 0 := fun j => by
        rw [chanceFrom, hpre]
      rw [waitingFrom_of_done hpre, Finset.sum_eq_zero fun j _ => hzero j, chanceFrom, hpre]
      show 0 + (if True then 1 else 0) + 0 = (1 : ℚ)
      rw [if_pos trivial, zero_add, add_zero]
    | outOfBounds => exact absurd hpre (hp.inBounds hposs)
    | drawing m =>
      have hm : (m : ℚ) ≠ 0 := Nat.cast_ne_zero.mpr (hp.pos hposs hpre).ne'
      have hfirst : chanceFrom p (fun _ => True) 0 pre = 0 := by rw [chanceFrom, hpre]
      rw [hfirst, add_zero, waitingFrom_succ_of_drawing hpre,
        Finset.sum_congr rfl fun j _ => chanceFrom_succ_of_drawing hpre j, ← Finset.sum_div,
        ← add_div, Finset.sum_comm, ← Finset.sum_add_distrib,
        Finset.sum_congr rfl fun r hr => ih (possible_concat hposs hpre (Finset.mem_range.mp hr)),
        Finset.sum_const, Finset.card_range, nsmul_eq_mul, mul_one, div_self hm]

/-- The chances of the results that cover all and exclude each other. -/
theorem sum_chanceFrom {s : Finset ι} {Q : ι → β → Prop} [∀ i, DecidablePred (Q i)]
    (hQ : ∀ draws c, p.after draws = .done c [] → ∃ i ∈ s, ∀ j ∈ s, Q j c ↔ j = i) (n : ℕ)
    (pre : List ℕ) :
    ∑ i ∈ s, chanceFrom p (Q i) n pre = chanceFrom p (fun _ => True) n pre := by
  classical
  induction n generalizing pre with
  | zero =>
    simp only [chanceFrom]
    cases hpre : p.after pre with
    | done c rest =>
      obtain ⟨used, -, hused⟩ := p.done_used hpre
      obtain ⟨i, hi, honly⟩ := hQ used c hused
      show ∑ j ∈ s, (if Q j c then 1 else 0) = (if True then 1 else 0 : ℚ)
      rw [if_pos trivial, Finset.sum_congr rfl fun j hj => if_congr (honly j hj) rfl rfl,
        Finset.sum_ite_eq' s i, if_pos hi]
    | drawing m => exact Finset.sum_const_zero
    | outOfBounds => exact Finset.sum_const_zero
  | succ n ih =>
    simp only [chanceFrom]
    cases hpre : p.after pre with
    | done c rest => exact Finset.sum_const_zero
    | outOfBounds => exact Finset.sum_const_zero
    | drawing m =>
      show ∑ i ∈ s, (∑ r ∈ Finset.range m, chanceFrom p (Q i) n (pre ++ [r])) / (m : ℚ)
        = (∑ r ∈ Finset.range m, chanceFrom p (fun _ => True) n (pre ++ [r])) / (m : ℚ)
      rw [← Finset.sum_div, Finset.sum_comm, Finset.sum_congr rfl fun r _ => ih (pre ++ [r])]

/-- **Uniform results.** Results that cover all, exclude each other and are equally likely
    share what the program does not lose to waiting. -/
theorem card_mul_within {s : Finset ι} {Q : ι → β → Prop} [∀ i, DecidablePred (Q i)]
    (hp : Prompt b k p)
    (hQ : ∀ draws c, p.after draws = .done c [] → ∃ i ∈ s, ∀ j ∈ s, Q j c ↔ j = i) {i : ι}
    (hlike : ∀ j ∈ s, ∀ n, p.chance (Q j) n = p.chance (Q i) n) (n : ℕ) :
    (s.card : ℚ) * p.within (Q i) n = 1 - p.waiting n := by
  have hnone : Possible Below p [] := trivial
  have hmass := hp.sum_chanceFrom_add_waitingFrom n hnone
  have hall : (s.card : ℚ) * p.within (Q i) n
      = ∑ j ∈ Finset.range (n + 1), chanceFrom p (fun _ => True) j [] :=
    calc (s.card : ℚ) * p.within (Q i) n
        = ∑ _j ∈ s, p.within (Q i) n := by rw [Finset.sum_const, nsmul_eq_mul]
      _ = ∑ j ∈ s, p.within (Q j) n :=
          Finset.sum_congr rfl fun j hj => Finset.sum_congr rfl fun m _ => (hlike j hj m).symm
      _ = ∑ m ∈ Finset.range (n + 1), ∑ j ∈ s, p.chance (Q j) m := Finset.sum_comm
      _ = ∑ j ∈ Finset.range (n + 1), chanceFrom p (fun _ => True) j [] :=
          Finset.sum_congr rfl fun m _ => sum_chanceFrom hQ m []
  rw [hall]
  exact eq_sub_of_add_eq hmass

end Sampler

end Sampling
