import Mathlib.Logic.Equiv.Fintype
import ChildLearning.Lib.Chance

namespace Sampling

open scoped BigOperators

/-!
# Couplings of samplers

Two programs are `Coupled` when they can be run side by side, a draw of the one answered by
a draw of the other through a permutation, until both are done with related results.  Then
related results are equally likely (`chance_eq_of_coupled`).  Sequences of coupled programs
are coupled (`coupled_bind`), and so are two samples of lists that correspond to each other
value by value (`coupled_sample`).
-/

variable {α β γ δ κ : Type}

namespace Sampler

/-! ### Couplings -/

/-- Two programs stand alike after the draws `pre` and `pre'`: both are done, without a draw
    left and with related results; or both wait for a draw below the same bound, and their
    draws are paired by a permutation; or both have read past the end. -/
inductive Matched (B : β → γ → Prop) (M : List ℕ → List ℕ → Prop) (pre pre' : List ℕ) :
    Progress β → Progress γ → Prop where
  | done {b : β} {c : γ} (h : B b c) : Matched B M pre pre' (.done b []) (.done c [])
  | drawing {n : ℕ} (σ : Equiv.Perm (Fin n)) (h : ∀ r : Fin n, M (pre ++ [r.val]) (pre' ++ [(σ r).val])) :
      Matched B M pre pre' (.drawing n) (.drawing n)
  | outOfBounds : Matched B M pre pre' .outOfBounds .outOfBounds

/-- What is matched stays so under weaker relations. -/
theorem Matched.imp {B B' : β → γ → Prop} {M M' : List ℕ → List ℕ → Prop}
    {pre pre' now now' : List ℕ} {progress : Progress β} {progress' : Progress γ}
    (h : Matched B M pre pre' progress progress') (hB : ∀ b c, B b c → B' b c)
    (hM : ∀ r r', M (pre ++ [r]) (pre' ++ [r']) → M' (now ++ [r]) (now' ++ [r'])) :
    Matched B' M' now now' progress progress' := by
  cases h with
  | done hbc => exact .done (hB _ _ hbc)
  | drawing σ hσ => exact .drawing σ fun r => hM _ _ (hσ r)
  | outOfBounds => exact .outOfBounds

/-- `M` pairs the draws of the two programs. -/
structure Coupling (p : Sampler β) (q : Sampler γ) (B : β → γ → Prop)
    (M : List ℕ → List ℕ → Prop) : Prop where
  start : M [] []
  next : ∀ {pre pre'}, M pre pre' → Matched B M pre pre' (p.after pre) (q.after pre')

/-- The two programs can be run side by side until they have related results. -/
def Coupled (p : Sampler β) (q : Sampler γ) (B : β → γ → Prop) : Prop :=
  ∃ M, Coupling p q B M

variable {p : Sampler β} {q : Sampler γ} {B : β → γ → Prop} {M : List ℕ → List ℕ → Prop}

/-- A coupling pairs draws that are equally likely to lead to related results. -/
theorem chanceFrom_eq_of_coupling {Q : β → Prop} {Q' : γ → Prop} [DecidablePred Q]
    [DecidablePred Q'] (hM : Coupling p q B M) (hQ : ∀ b c, B b c → (Q b ↔ Q' c)) (n : ℕ)
    {pre pre' : List ℕ} (h : M pre pre') : chanceFrom p Q n pre = chanceFrom q Q' n pre' := by
  -- on the number of draws: the permutation rearranges the terms of the sum
  induction n generalizing pre pre' with
  | zero =>
    have hnext := hM.next h
    simp only [chanceFrom]
    generalize p.after pre = progress at hnext ⊢
    generalize q.after pre' = progress' at hnext ⊢
    cases hnext with
    | done hB => simp only [hQ _ _ hB]
    | drawing σ hσ => rfl
    | outOfBounds => rfl
  | succ n ih =>
    have hnext := hM.next h
    simp only [chanceFrom]
    generalize p.after pre = progress at hnext ⊢
    generalize q.after pre' = progress' at hnext ⊢
    cases hnext with
    | done hB => rfl
    | outOfBounds => rfl
    | @drawing bound σ hσ =>
      have hsum : ∑ r : Fin bound, chanceFrom p Q n (pre ++ [r.val])
          = ∑ r : Fin bound, chanceFrom q Q' n (pre' ++ [r.val]) :=
        calc ∑ r : Fin bound, chanceFrom p Q n (pre ++ [r.val])
            = ∑ r : Fin bound, chanceFrom q Q' n (pre' ++ [(σ r).val]) :=
              Finset.sum_congr rfl fun r _ => ih (hσ r)
          _ = ∑ r : Fin bound, chanceFrom q Q' n (pre' ++ [r.val]) :=
              Equiv.sum_comp σ fun r => chanceFrom q Q' n (pre' ++ [r.val])
      show (∑ r ∈ Finset.range bound, chanceFrom p Q n (pre ++ [r])) / (bound : ℚ)
        = (∑ r ∈ Finset.range bound, chanceFrom q Q' n (pre' ++ [r])) / (bound : ℚ)
      rw [Finset.sum_range, Finset.sum_range, hsum]

/-- **Coupled programs.** Related results are equally likely. -/
theorem chance_eq_of_coupled {Q : β → Prop} {Q' : γ → Prop} [DecidablePred Q] [DecidablePred Q']
    (h : Coupled p q B) (hQ : ∀ b c, B b c → (Q b ↔ Q' c)) (n : ℕ) :
    chance p Q n = chance q Q' n := by
  obtain ⟨M, hM⟩ := h
  exact chanceFrom_eq_of_coupling hM hQ n hM.start

/-- Coupled results may be related by less. -/
theorem Coupled.mono {B' : β → γ → Prop} (h : Coupled p q B) (hB : ∀ b c, B b c → B' b c) :
    Coupled p q B' := by
  obtain ⟨M, hM⟩ := h
  exact ⟨M, hM.start, fun hpre => (hM.next hpre).imp hB fun _ _ => id⟩

/-- Related results are results. -/
theorem Coupled.reached (h : Coupled p q B) :
    Coupled p q fun b c => B b c ∧ (∃ draws, p.after draws = .done b []) ∧
      ∃ draws, q.after draws = .done c [] := by
  obtain ⟨M, hM⟩ := h
  refine ⟨M, hM.start, fun {pre pre'} hpre => ?_⟩
  have hnext := hM.next hpre
  cases hp : p.after pre with
  | done b rest =>
    cases hq : q.after pre' with
    | done c rest' =>
      rw [hp, hq] at hnext
      cases hnext with
      | done hB => exact .done ⟨hB, ⟨pre, hp⟩, pre', hq⟩
    | drawing n => rw [hp, hq] at hnext; cases hnext
    | outOfBounds => rw [hp, hq] at hnext; cases hnext
  | drawing n =>
    cases hq : q.after pre' with
    | done c rest => rw [hp, hq] at hnext; cases hnext
    | outOfBounds => rw [hp, hq] at hnext; cases hnext
    | drawing m =>
      rw [hp, hq] at hnext
      cases hnext with
      | drawing σ hσ => exact .drawing σ hσ
  | outOfBounds =>
    cases hq : q.after pre' with
    | done c rest => rw [hp, hq] at hnext; cases hnext
    | drawing m => rw [hp, hq] at hnext; cases hnext
    | outOfBounds => exact .outOfBounds

/-- Programs that draw nothing. -/
theorem coupled_pure {b : β} {c : γ} (h : B b c) : Coupled (pure b) (pure c) B := by
  refine ⟨fun pre pre' => pre = [] ∧ pre' = [], ⟨rfl, rfl⟩, ?_⟩
  rintro _ _ ⟨rfl, rfl⟩
  exact .done h

section Bind

variable {f : β → Sampler δ} {g : γ → Sampler κ} {C : δ → κ → Prop}

/-- The draws of two sequences: those of the first parts, which are not done, or those that
    complete the first parts with related results, and those of the second parts. -/
inductive BindDraws (p : Sampler β) (q : Sampler γ) (B : β → γ → Prop)
    (M : List ℕ → List ℕ → Prop) (N : β → γ → List ℕ → List ℕ → Prop) :
    List ℕ → List ℕ → Prop where
  | first {pre pre' : List ℕ} (h : M pre pre') (hdone : ∀ b rest, p.after pre ≠ .done b rest) :
      BindDraws p q B M N pre pre'
  | second {used used' pre pre' : List ℕ} {b : β} {c : γ} (hp : p.after used = .done b [])
      (hq : q.after used' = .done c []) (hB : B b c) (h : N b c pre pre') :
      BindDraws p q B M N (used ++ pre) (used' ++ pre')

/-- Paired draws of the first parts are draws of the sequences. -/
theorem bindDraws_of_first {N : β → γ → List ℕ → List ℕ → Prop} (hM : Coupling p q B M)
    (hN : ∀ b c, B b c → Coupling (f b) (g c) C (N b c)) {pre pre' : List ℕ} (h : M pre pre') :
    BindDraws p q B M N pre pre' := by
  have hnext := hM.next h
  cases hp : p.after pre with
  | done b rest =>
    -- both first parts have just been completed, and the second parts start
    rw [hp] at hnext
    cases hq : q.after pre' with
    | done c rest' =>
      rw [hq] at hnext
      cases hnext with
      | done hB =>
        have hsecond := BindDraws.second (M := M) hp hq hB (hN b c hB).start
        rwa [List.append_nil, List.append_nil] at hsecond
    | drawing n => rw [hq] at hnext; cases hnext
    | outOfBounds => rw [hq] at hnext; cases hnext
  | drawing n => exact .first h fun b rest hdone => by rw [hp] at hdone; cases hdone
  | outOfBounds => exact .first h fun b rest hdone => by rw [hp] at hdone; cases hdone

/-- **Sequencing.** -/
theorem coupled_bind (hp : Coupled p q B) (hf : ∀ b c, B b c → Coupled (f b) (g c) C) :
    Coupled (p >>= f) (q >>= g) C := by
  obtain ⟨M, hM⟩ := hp
  choose! N hN using hf
  refine ⟨BindDraws p q B M N, bindDraws_of_first hM hN hM.start, fun {pre pre'} hpre => ?_⟩
  cases hpre with
  | first h hdone =>
    have hnext := hM.next h
    cases hpa : p.after pre with
    | done b rest => exact absurd hpa (hdone b rest)
    | drawing n =>
      rw [hpa] at hnext
      cases hqa : q.after pre' with
      | done c rest => rw [hqa] at hnext; cases hnext
      | outOfBounds => rw [hqa] at hnext; cases hnext
      | drawing m =>
        rw [hqa] at hnext
        cases hnext with
        | drawing σ hσ =>
          rw [after_bind_of_drawing hpa, after_bind_of_drawing hqa]
          exact .drawing σ fun r => bindDraws_of_first hM hN (hσ r)
    | outOfBounds =>
      rw [hpa] at hnext
      cases hqa : q.after pre' with
      | done c rest => rw [hqa] at hnext; cases hnext
      | drawing m => rw [hqa] at hnext; cases hnext
      | outOfBounds =>
        rw [after_bind, bindAfter, hpa, after_bind, bindAfter, hqa]
        exact .outOfBounds
  | @second used used' pre pre' b c hpa hqa hB h =>
    rw [after_bind_of_done (p.done_append hpa pre), after_bind_of_done (q.done_append hqa pre'),
      List.nil_append, List.nil_append]
    refine ((hN b c hB).next h).imp (fun _ _ => id) fun r r' hr => ?_
    rw [List.append_assoc, List.append_assoc]
    exact .second hpa hqa hB hr

end Bind

/-! ### Samples of corresponding lists -/

/-- `ys` lists the values that correspond to those of `xs`, each once. -/
structure Corresponds (τ : α → γ) (xs : List α) (ys : List γ) : Prop where
  nodup : xs.Nodup
  inj : ∀ x ∈ xs, ∀ y ∈ xs, τ x = τ y → x = y
  perm : ys.Perm (xs.map τ)

section Sample

variable {τ : α → γ} {xs : List α} {ys : List γ} {k : ℕ}

theorem Corresponds.length_eq (h : Corresponds τ xs ys) : ys.length = xs.length := by
  rw [h.perm.length_eq, List.length_map]

/-- Values computed from corresponding ones, when they tell these apart. -/
theorem Corresponds.map {τ : α → α} {xs ys : List α} {f : α → γ} {g : γ → α}
    (h : Corresponds τ xs ys) (hxs : ∀ x ∈ xs, g (f x) = x) (hys : ∀ y ∈ ys, g (f y) = y) :
    Corresponds (fun a => f (τ (g a))) (xs.map f) (ys.map f) where
  nodup := h.nodup.map_on fun x hx y hy heq => by rw [← hxs x hx, heq, hxs y hy]
  inj a ha b hb heq := by
    obtain ⟨x, hx, rfl⟩ := List.mem_map.mp ha
    obtain ⟨y, hy, rfl⟩ := List.mem_map.mp hb
    have hτx : τ x ∈ ys := h.perm.mem_iff.mpr (List.mem_map_of_mem hx)
    have hτy : τ y ∈ ys := h.perm.mem_iff.mpr (List.mem_map_of_mem hy)
    have hf : f (τ x) = f (τ y) := by
      simpa only [hxs x hx, hxs y hy] using heq
    have hτ : τ x = τ y := by rw [← hys (τ x) hτx, hf, hys (τ y) hτy]
    rw [h.inj x hx y hy hτ]
  perm := by
    have hmap : (xs.map f).map (fun a => f (τ (g a))) = (xs.map τ).map f := by
      rw [List.map_map, List.map_map]
      refine List.map_congr_left fun x hx => ?_
      show f (τ (g (f x))) = f (τ x)
      rw [hxs x hx]
    rw [hmap]
    exact h.perm.map f

/-- The indices of corresponding values are paired by a permutation. -/
theorem Corresponds.exists_perm (h : Corresponds τ xs ys) :
    ∃ σ : Equiv.Perm (Fin xs.length), ∀ r : Fin xs.length, ys[(σ r).val]? = some (τ xs[r]) := by
  have hindex : ∀ r : Fin xs.length, ∃ i : Fin xs.length, ys[i.val]? = some (τ xs[r]) := by
    intro r
    have hmem : τ xs[r] ∈ ys :=
      h.perm.mem_iff.mpr (List.mem_map_of_mem (List.getElem_mem r.isLt))
    obtain ⟨i, hi⟩ := List.getElem?_of_mem hmem
    have hlt : i < ys.length := (List.getElem?_eq_some_iff.mp hi).1
    exact ⟨⟨i, h.length_eq ▸ hlt⟩, hi⟩
  choose f hf using hindex
  have hinj : Function.Injective f := by
    intro r r' heq
    have hτ : τ xs[r] = τ xs[r'] := Option.some.inj ((hf r).symm.trans (heq ▸ hf r'))
    have hvalue : xs[r] = xs[r'] :=
      h.inj _ (List.getElem_mem r.isLt) _ (List.getElem_mem r'.isLt) hτ
    exact Fin.ext ((h.nodup.getElem_inj_iff).mp hvalue)
  exact ⟨Equiv.ofBijective f (Finite.injective_iff_bijective.mp hinj), hf⟩

/-- One set holds the values that correspond to those of the other. -/
structure SameMembers (τ : α → γ) (xs : List α) (s : DrawnSet α) (t : DrawnSet γ) : Prop where
  elems : t.elems = s.elems.map τ
  mem : ∀ x ∈ s.elems, x ∈ xs

theorem SameMembers.count_eq {s : DrawnSet α} {t : DrawnSet γ} (h : SameMembers τ xs s t) :
    t.count = s.count := by
  rw [DrawnSet.count, h.elems, List.length_map]
  rfl

/-- In whatever orders their members are listed, related sets correspond. -/
theorem SameMembers.corresponds {s : DrawnSet α} {t : DrawnSet γ} (h : SameMembers τ xs s t)
    (hc : Corresponds τ xs ys) (order : IterationOrder α) (order' : IterationOrder γ) :
    Corresponds τ (order.toArray s) (order'.toArray t) where
  nodup := order.nodup_toArray s
  inj x hx y hy := hc.inj x (h.mem x (order.mem_toArray.mp hx)) y (h.mem y (order.mem_toArray.mp hy))
  perm := by
    have ht : (order'.toArray t).Perm (s.elems.map τ) := h.elems ▸ order'.perm t
    exact ht.trans ((order.perm s).symm.map τ)

variable [DecidableEq α] [DecidableEq γ]

/-- Inserting corresponding values. -/
theorem SameMembers.insert {s : DrawnSet α} {t : DrawnSet γ} (h : SameMembers τ xs s t)
    (hc : Corresponds τ xs ys) {x : α} (hx : x ∈ xs) :
    SameMembers τ xs (s.insert x) (t.insert (τ x)) := by
  have hmem : τ x ∈ t.elems ↔ x ∈ s.elems := by
    rw [h.elems, List.mem_map]
    constructor
    · rintro ⟨y, hy, heq⟩
      exact hc.inj y (h.mem y hy) x hx heq ▸ hy
    · exact fun hxs => ⟨x, hxs, rfl⟩
  refine ⟨?_, fun y hy => ?_⟩
  · unfold DrawnSet.insert
    by_cases hin : x ∈ s.elems
    · rw [dif_pos hin, dif_pos (hmem.mpr hin)]
      exact h.elems
    · rw [dif_neg hin, dif_neg (mt hmem.mp hin)]
      simp [h.elems]
  · rcases DrawnSet.mem_insert.mp hy with rfl | hy
    · exact hx
    · exact h.mem y hy

/-- The two loops stand alike. -/
inductive SameDrawing (τ : α → γ) (xs : List α) : Drawing α → Drawing γ → Prop where
  | left {s : DrawnSet α} {t : DrawnSet γ} (h : SameMembers τ xs s t) :
      SameDrawing τ xs (.left s []) (.left t [])
  | drawing {s : DrawnSet α} {t : DrawnSet γ} (h : SameMembers τ xs s t) :
      SameDrawing τ xs (.drawing s) (.drawing t)

/-- They do so without a draw. -/
theorem sameDrawing_nil {s : DrawnSet α} {t : DrawnSet γ} (h : SameMembers τ xs s t) :
    SameDrawing τ xs (loop xs k s []) (loop ys k t []) := by
  rcases Nat.lt_or_ge s.count k with hlt | hge
  · rw [loop_nil_of_lt hlt, loop_nil_of_lt (h.count_eq ▸ hlt)]
    exact .drawing h
  · rw [loop_of_le hge, loop_of_le (h.count_eq ▸ hge)]
    exact .left h

/-- **Sampling.** Samples of corresponding lists are coupled: they hold corresponding
    values. -/
theorem coupled_sample (hc : Corresponds τ xs ys) (k : ℕ) :
    Coupled (sample xs k) (sample ys k) (SameMembers τ xs) := by
  obtain ⟨σ, hσ⟩ := hc.exists_perm
  refine ⟨fun pre pre' => SameDrawing τ xs (loop xs k .empty pre) (loop ys k .empty pre'), ?_, ?_⟩
  · exact sameDrawing_nil ⟨rfl, by simp⟩
  · intro pre pre' hsame
    show Matched _ _ pre pre' (toProgress xs.length (loop xs k .empty pre))
      (toProgress ys.length (loop ys k .empty pre'))
    cases hx : loop xs k .empty pre with
    | left s rest =>
      cases hy : loop ys k .empty pre' with
      | left t rest' =>
        rw [hx, hy] at hsame
        cases hsame with
        | left h => exact .done h
      | drawing t => rw [hx, hy] at hsame; cases hsame
      | outOfBounds => rw [hx, hy] at hsame; cases hsame
    | outOfBounds => rw [hx] at hsame; cases hsame
    | drawing s =>
      cases hy : loop ys k .empty pre' with
      | left t rest => rw [hx, hy] at hsame; cases hsame
      | outOfBounds => rw [hx, hy] at hsame; cases hsame
      | drawing t =>
        rw [hx, hy] at hsame
        cases hsame with
        | drawing h =>
          -- one more draw inserts corresponding values
          show Matched _ _ pre pre' (.drawing xs.length) (.drawing ys.length)
          rw [hc.length_eq]
          refine .drawing σ fun r => ?_
          have hlt : s.count < k := count_lt_of_drawing hx
          have hxr : xs[r.val]? = some xs[r] := List.getElem?_eq_getElem r.isLt
          rw [loop_append, hx, loop_append, hy]
          show SameDrawing τ xs (loop xs k s [r.val]) (loop ys k t [(σ r).val])
          rw [loop_cons_of_lt hlt hxr, loop_cons_of_lt (h.count_eq ▸ hlt) (hσ r)]
          exact sameDrawing_nil (h.insert hc (List.getElem_mem r.isLt))

end Sample

/-! ### Exchanging values -/

/-- Two lists of as many distinct values are exchanged by a permutation. -/
theorem exists_perm_map {l l' : List α} (hl : l.Nodup) (hl' : l'.Nodup)
    (hlen : l.length = l'.length) : ∃ τ : Equiv.Perm α, l.map τ = l' := by
  obtain ⟨τ, hτ⟩ := Equiv.Perm.exists_extending_pair (fun i : Fin l.length => l[i])
    (fun i : Fin l.length => l'.get ⟨i.val, hlen ▸ i.isLt⟩)
    (fun i j h => Fin.ext (hl.getElem_inj_iff.mp h)) (fun i j h => Fin.ext (hl'.getElem_inj_iff.mp h))
  refine ⟨τ, List.ext_getElem (by rw [List.length_map, hlen]) fun i hi _ => ?_⟩
  rw [List.length_map] at hi
  rw [List.getElem_map]
  exact hτ ⟨i, hi⟩

/-- **Exchange.** Among distinct values any set can be exchanged for any other with as many
    members, and any of its members for any of the other's. -/
theorem exists_exchange [DecidableEq α] {xs : List α} (hxs : xs.Nodup) {S T : Finset α}
    (hS : ∀ a ∈ S, a ∈ xs) (hT : ∀ a ∈ T, a ∈ xs) (hcard : S.card = T.card) {x y : α} (hx : x ∈ S)
    (hy : y ∈ T) : ∃ τ : Equiv.Perm α, Corresponds τ xs xs ∧ S.image τ = T ∧ τ x = y := by
  -- the member, the rest of the set, the other values: one list for each of the two sets
  let listed (a : α) (A : Finset α) : List α :=
    (a :: (A.erase a).toList) ++ (xs.toFinset \ A).toList
  have hmem : ∀ (a : α) (A : Finset α), a ∈ A → ∀ b, b ∈ a :: (A.erase a).toList ↔ b ∈ A := by
    intro a A ha b
    rw [List.mem_cons, Finset.mem_toList, Finset.mem_erase]
    refine ⟨fun h => ?_, fun hb => ?_⟩
    · rcases h with rfl | h
      · exact ha
      · exact h.2
    · by_cases hba : b = a
      · exact Or.inl hba
      · exact Or.inr ⟨hba, hb⟩
  have hnodup : ∀ (a : α) (A : Finset α), a ∈ A → (listed a A).Nodup := by
    intro a A ha
    refine List.nodup_append'.mpr ⟨?_, Finset.nodup_toList _, fun b hb hb' => ?_⟩
    · exact List.nodup_cons.mpr ⟨by simp, Finset.nodup_toList _⟩
    · rw [Finset.mem_toList, Finset.mem_sdiff] at hb'
      exact hb'.2 ((hmem a A ha b).mp hb)
  have hperm : ∀ (a : α) (A : Finset α), a ∈ A → (∀ b ∈ A, b ∈ xs) → (listed a A).Perm xs := by
    intro a A ha hA
    refine (List.perm_ext_iff_of_nodup (hnodup a A ha) hxs).mpr fun b => ?_
    rw [List.mem_append, hmem a A ha, Finset.mem_toList, Finset.mem_sdiff, List.mem_toFinset]
    refine ⟨fun h => ?_, fun hb => ?_⟩
    · rcases h with h | h
      · exact hA b h
      · exact h.1
    · by_cases hbA : b ∈ A
      · exact Or.inl hbA
      · exact Or.inr ⟨hb, hbA⟩
  have hlen : (listed x S).length = (listed y T).length :=
    (hperm x S hx hS).length_eq.trans (hperm y T hy hT).length_eq.symm
  obtain ⟨τ, hτ⟩ := exists_perm_map (hnodup x S hx) (hnodup y T hy) hlen
  have hfirst : (x :: (S.erase x).toList).map τ = y :: (T.erase y).toList := by
    rw [List.map_append] at hτ
    refine (List.append_inj hτ ?_).1
    simp only [List.length_map, List.length_cons, Finset.length_toList,
      Finset.card_erase_of_mem hx, Finset.card_erase_of_mem hy, hcard]
  refine ⟨τ, ⟨hxs, fun a _ b _ hab => τ.injective hab, ?_⟩, ?_, ?_⟩
  · have hmapped : (xs.map τ).Perm (listed y T) := hτ ▸ ((hperm x S hx hS).symm.map τ)
    exact ((hmapped.trans (hperm y T hy hT)).symm)
  · ext b
    rw [Finset.mem_image, ← hmem y T hy, ← hfirst, List.mem_map]
    simp only [hmem x S hx]
  · rw [List.map_cons] at hfirst
    exact (List.cons.inj hfirst).1

end Sampler

end Sampling
