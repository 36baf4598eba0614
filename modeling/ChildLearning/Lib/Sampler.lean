import ChildLearning.Lib.Sampling

namespace Sampling

/-!
# Programs that draw random indices

A `Sampler` is a program that asks for random indices one at a time.  After a list of
draws it is done (`done`, with the draws it did not use), waits for an index below a
bound (`drawing`), or has read a list past its end (`outOfBounds`).  Samplers form a
monad; `sample xs k` is the rejection-sampling loop of `Sampling`.

The random number generator is a relation: `R n r` says that a draw below `n` may
return `r`.  A sampler is `Safe` when no draws the generator may return lead out of
bounds, and whenever it waits some further draws finish it.  `safe_bind` and
`safe_sample` are the rules to show it, `Safe.exists_done_of_bind` and
`le_dedup_of_sample_done` the ones to refute it.
-/

variable {α β γ : Type}

/-- Where a program that draws random indices stands after the given draws. -/
inductive Progress (β : Type) where
  | done (b : β) (rest : List ℕ)
  | drawing (bound : ℕ)
  | outOfBounds

/-- What the program has returned, once it is done. -/
def Progress.value? {β : Type} : Progress β → Option β
  | .done b _ => some b
  | _         => none

theorem Progress.value?_eq_some {β : Type} {p : Progress β} {b : β} :
    p.value? = some b ↔ ∃ rest, p = .done b rest := by
  cases p <;> simp [value?]

/-- A program that draws random indices: once it is done it looks at no further draw, and
    it needed no more than those it used. -/
structure Sampler (β : Type) where
  after : List ℕ → Progress β
  done_append : ∀ {draws b rest}, after draws = .done b rest →
    ∀ more, after (draws ++ more) = .done b (rest ++ more)
  done_used : ∀ {draws b rest}, after draws = .done b rest →
    ∃ used, draws = used ++ rest ∧ after used = .done b []

namespace Sampler

/-- The program that draws nothing. -/
protected def pure (b : β) : Sampler β where
  after draws := .done b draws
  done_append h more := by cases h; rfl
  done_used h := ⟨[], by cases h; exact ⟨rfl, rfl⟩⟩

/-- First `p`, then `f` on what it returns, on the draws that `p` left. -/
def bindAfter (p : Sampler β) (f : β → Sampler γ) (draws : List ℕ) : Progress γ :=
  match p.after draws with
  | .done b rest   => (f b).after rest
  | .drawing bound => .drawing bound
  | .outOfBounds   => .outOfBounds

/-- A sequence is done when both parts are. -/
theorem bindAfter_eq_done {p : Sampler β} {f : β → Sampler γ} {draws rest : List ℕ} {c : γ} :
    bindAfter p f draws = .done c rest ↔
      ∃ b mid, p.after draws = .done b mid ∧ (f b).after mid = .done c rest := by
  unfold bindAfter
  cases p.after draws <;> simp

/-- Sequencing. -/
protected def bind (p : Sampler β) (f : β → Sampler γ) : Sampler γ where
  after := bindAfter p f
  done_append h more := by
    obtain ⟨b, mid, hp, hf⟩ := bindAfter_eq_done.mp h
    exact bindAfter_eq_done.mpr ⟨b, mid ++ more, p.done_append hp more, (f b).done_append hf more⟩
  done_used h := by
    obtain ⟨b, mid, hp, hf⟩ := bindAfter_eq_done.mp h
    obtain ⟨used, rfl, hused⟩ := p.done_used hp
    obtain ⟨used', rfl, hused'⟩ := (f b).done_used hf
    refine ⟨used ++ used', (List.append_assoc ..).symm, bindAfter_eq_done.mpr ⟨b, used', ?_, hused'⟩⟩
    exact p.done_append hused used'

instance : Monad Sampler where
  pure := Sampler.pure
  bind := Sampler.bind

variable {p : Sampler β} {f : β → Sampler γ}

@[simp] theorem after_pure (b : β) (draws : List ℕ) :
    (pure b : Sampler β).after draws = .done b draws := rfl

theorem after_bind (draws : List ℕ) : (p >>= f).after draws = bindAfter p f draws := rfl

@[simp] theorem after_bind_eq_done {draws rest : List ℕ} {c : γ} :
    (p >>= f).after draws = .done c rest ↔
      ∃ b mid, p.after draws = .done b mid ∧ (f b).after mid = .done c rest := bindAfter_eq_done

theorem after_bind_of_done {draws mid : List ℕ} {b : β} (h : p.after draws = .done b mid) :
    (p >>= f).after draws = (f b).after mid := by
  rw [after_bind, bindAfter, h]

theorem after_bind_of_drawing {draws : List ℕ} {n : ℕ} (h : p.after draws = .drawing n) :
    (p >>= f).after draws = .drawing n := by
  rw [after_bind, bindAfter, h]

/-- A program that is done without a draw has none left. -/
theorem rest_eq_nil {b : β} {rest : List ℕ} (h : p.after [] = .done b rest) : rest = [] := by
  obtain ⟨used, hused, -⟩ := p.done_used h
  exact (List.append_eq_nil_iff.mp hused.symm).2

/-! ### The sampling loop as a program -/

/-- A read past the end happens at a draw that is not below the length. -/
private theorem loop_outOfBounds [DecidableEq α] {xs : List α} {k : ℕ} {s : DrawnSet α}
    {draws : List ℕ} (h : loop xs k s draws = .outOfBounds) :
    ∃ pre r post s', draws = pre ++ r :: post ∧ loop xs k s pre = .drawing s' ∧ xs.length ≤ r := by
  induction draws generalizing s with
  | nil => exact absurd h (loop_ne_outOfBounds nofun)
  | cons r rs ih =>
    rcases loop_cons_cases xs k s r rs with ⟨-, heq⟩ | ⟨hlt, hr, -⟩ | ⟨hlt, x, hr, heq⟩
    · rw [heq] at h
      cases h
    · exact ⟨[], r, rs, s, rfl, loop_nil_of_lt hlt, List.getElem?_eq_none_iff.mp hr⟩
    · rw [heq] at h
      obtain ⟨pre, r', post, s', rfl, hpre, hr'⟩ := ih h
      exact ⟨r :: pre, r', post, s', rfl, by rw [loop_cons_of_lt hlt hr, hpre], hr'⟩

/-- Where the loop stands, as the progress of a program that draws below `bound`. -/
def toProgress (bound : ℕ) : Drawing α → Progress (DrawnSet α)
  | .left s rest => .done s rest
  | .drawing _   => .drawing bound
  | .outOfBounds => .outOfBounds

theorem toProgress_eq_done {bound : ℕ} {d : Drawing α} {s : DrawnSet α} {rest : List ℕ} :
    toProgress bound d = .done s rest ↔ d = .left s rest := by
  cases d <;> simp [toProgress]

/-- `while s.count < k { s.insert(xs[randomIndex]) }` from the empty set. -/
def sample [DecidableEq α] (xs : List α) (k : ℕ) : Sampler (DrawnSet α) where
  after draws := toProgress xs.length (loop xs k .empty draws)
  done_append h more := by
    rw [toProgress_eq_done] at h ⊢
    rw [loop_append, h]
  done_used h := by
    obtain ⟨used, hused, hloop⟩ := loop_used (toProgress_eq_done.mp h)
    exact ⟨used, hused, toProgress_eq_done.mpr hloop⟩

section Sample

variable [DecidableEq α] {xs : List α} {k : ℕ} {draws rest : List ℕ} {s : DrawnSet α}

theorem sample_eq_done : (sample xs k).after draws = .done s rest ↔
    loop xs k .empty draws = .left s rest := toProgress_eq_done

theorem sample_eq_drawing {n : ℕ} : (sample xs k).after draws = .drawing n ↔
    n = xs.length ∧ ∃ s, loop xs k .empty draws = .drawing s := by
  show toProgress xs.length (loop xs k .empty draws) = _ ↔ _
  cases loop xs k .empty draws <;> simp [toProgress, eq_comm]

theorem sample_eq_outOfBounds : (sample xs k).after draws = .outOfBounds ↔
    loop xs k .empty draws = .outOfBounds := by
  show toProgress xs.length (loop xs k .empty draws) = _ ↔ _
  cases loop xs k .empty draws <;> simp [toProgress]

/-- A sample of `k` holds `k` values of the list. -/
theorem sample_done_spec (h : (sample xs k).after draws = .done s rest) :
    s.count = k ∧ ∀ x ∈ s.elems, x ∈ xs := by
  obtain ⟨hcount, hmem⟩ := loop_left_spec (by simp) (sample_eq_done.mp h)
  exact ⟨hcount, fun x hx => (hmem x hx).resolve_left (by simp)⟩

/-- In whatever order its members are listed: `k` distinct values of the list. -/
theorem toArray_of_sample (order : IterationOrder α)
    (h : (sample xs k).after draws = .done s rest) :
    (order.toArray s).length = k ∧ (order.toArray s).Nodup ∧ ∀ x ∈ order.toArray s, x ∈ xs := by
  obtain ⟨hcount, hmem⟩ := sample_done_spec h
  refine ⟨?_, order.nodup_toArray s, ?_⟩
  · rw [order.length_toArray, hcount]
  · intro x hx
    exact hmem x (order.mem_toArray.mp hx)

end Sample

/-! ### Possible draws -/

variable (R : ℕ → ℕ → Prop)

/-- After the draws `pre` of the program, the generator may return `draws`. -/
def PossibleFrom (p : Sampler β) : List ℕ → List ℕ → Prop
  | _, []        => True
  | pre, r :: rs =>
    (∀ n, p.after pre = .drawing n → R n r) ∧ PossibleFrom p (pre ++ [r]) rs

/-- The generator may return `draws` to the program. -/
def Possible (p : Sampler β) (draws : List ℕ) : Prop := PossibleFrom R p [] draws

variable {R}

theorem possibleFrom_append {pre xs ys : List ℕ} :
    PossibleFrom R p pre (xs ++ ys) ↔ PossibleFrom R p pre xs ∧ PossibleFrom R p (pre ++ xs) ys := by
  induction xs generalizing pre with
  | nil => simp [PossibleFrom]
  | cons x xs ih => simp [PossibleFrom, ih, and_assoc]

/-- The draws of a sequence are possible for its first part. -/
theorem possibleFrom_of_bind {pre draws : List ℕ} (h : PossibleFrom R (p >>= f) pre draws) :
    PossibleFrom R p pre draws := by
  induction draws generalizing pre with
  | nil => trivial
  | cons r rs ih => exact ⟨fun n hn => h.1 n (after_bind_of_drawing hn), ih h.2⟩

/-- The draws that the first part uses up are as possible for the sequence. -/
theorem possibleFrom_bind_of_used {pre used : List ℕ} {b : β}
    (hdone : p.after (pre ++ used) = .done b []) (h : PossibleFrom R p pre used) :
    PossibleFrom R (p >>= f) pre used := by
  induction used generalizing pre with
  | nil => trivial
  | cons r rs ih =>
    refine ⟨fun n hn => h.1 n ?_, ih (by simpa using hdone) h.2⟩
    -- the first part is not done yet, or the draw would be left over
    cases hp : p.after pre with
    | done b' rest =>
      have hmore := p.done_append hp (r :: rs)
      rw [hdone, Progress.done.injEq] at hmore
      exact absurd hmore.2.symm (by simp)
    | drawing m => rw [after_bind_of_drawing hp] at hn; cases hn; rfl
    | outOfBounds => rw [after_bind, bindAfter, hp] at hn; cases hn

/-- Once the first part is done, possible for the sequence is possible for the second. -/
theorem possibleFrom_bind_of_done {pre mid draws : List ℕ} {b : β}
    (hdone : p.after pre = .done b mid) :
    PossibleFrom R (p >>= f) pre draws ↔ PossibleFrom R (f b) mid draws := by
  induction draws generalizing pre mid with
  | nil => exact Iff.rfl
  | cons r rs ih =>
    simp only [PossibleFrom, after_bind_of_done hdone, ih (p.done_append hdone [r])]

/-- **Possible draws of a sequence.** -/
theorem possible_bind {used rest : List ℕ} {b : β} (hused : p.after used = .done b []) :
    Possible R (p >>= f) (used ++ rest) ↔ Possible R p used ∧ Possible R (f b) rest := by
  rw [Possible, possibleFrom_append, List.nil_append, possibleFrom_bind_of_done hused]
  exact and_congr_left' ⟨possibleFrom_of_bind, possibleFrom_bind_of_used hused⟩

/-! ### Safe programs -/

variable (R)

/-- No possible draws lead out of bounds, and while the program waits, some possible
    draws finish it. -/
def Safe (p : Sampler β) : Prop :=
  ∀ draws, Possible R p draws → p.after draws ≠ .outOfBounds ∧
    ∀ n, p.after draws = .drawing n →
      ∃ more b, Possible R p (draws ++ more) ∧ p.after (draws ++ more) = .done b []

variable {R}

theorem safe_pure (b : β) : Safe R (pure b) := fun draws _ => ⟨by simp, by simp⟩

/-- A safe program can be finished from its start. -/
theorem Safe.exists_done (h : Safe R p) :
    ∃ draws b, Possible R p draws ∧ p.after draws = .done b [] := by
  obtain ⟨hbounds, hfinish⟩ := h [] trivial
  cases hp : p.after [] with
  | done b rest => exact ⟨[], b, trivial, by rw [hp, rest_eq_nil hp]⟩
  | drawing n => exact hfinish n hp
  | outOfBounds => exact absurd hp hbounds

/-- **Sequencing.** A sequence is safe when its first part is, and its second part is for
    everything the first can return. -/
theorem safe_bind (hp : Safe R p)
    (hf : ∀ draws b, p.after draws = .done b [] → Safe R (f b)) : Safe R (p >>= f) := by
  intro draws hdraws
  have hpdraws : Possible R p draws := possibleFrom_of_bind hdraws
  -- the draws end in the second part, within the first, or out of bounds
  cases hpd : p.after draws with
  | done b mid =>
    obtain ⟨used, rfl, hused⟩ := p.done_used hpd
    obtain ⟨hposs, hmid⟩ := (possible_bind hused).mp hdraws
    obtain ⟨hbounds, hfinish⟩ := hf used b hused mid hmid
    rw [after_bind_of_done hpd]
    refine ⟨hbounds, fun n hn => ?_⟩
    obtain ⟨more, c, hmore, hdone⟩ := hfinish n hn
    refine ⟨more, c, ?_, ?_⟩
    · rw [List.append_assoc]
      exact (possible_bind hused).mpr ⟨hposs, hmore⟩
    · rw [after_bind_of_done (p.done_append hpd more), hdone]
  | drawing m =>
    -- finish the first part, then the second from its start
    rw [after_bind_of_drawing hpd]
    refine ⟨nofun, fun n _ => ?_⟩
    obtain ⟨more, b, hmore, hdone⟩ := (hp draws hpdraws).2 m hpd
    obtain ⟨more', c, hmore', hdone'⟩ := (hf _ b hdone).exists_done
    refine ⟨more ++ more', c, ?_, ?_⟩
    · rw [← List.append_assoc]
      exact (possible_bind hdone).mpr ⟨hmore, hmore'⟩
    · rw [← List.append_assoc, after_bind_of_done (p.done_append hdone more'), List.nil_append,
        hdone']
  | outOfBounds => exact absurd hpd (hp draws hpdraws).1

/-- The first part of a safe sequence can be finished. -/
theorem Safe.exists_done_of_bind (h : Safe R (p >>= f)) :
    ∃ draws b rest, Possible R p draws ∧ p.after draws = .done b rest := by
  obtain ⟨draws, c, hposs, hdone⟩ := h.exists_done
  obtain ⟨b, mid, hp, -⟩ := after_bind_eq_done.mp hdone
  exact ⟨draws, b, mid, possibleFrom_of_bind hposs, hp⟩

section Sample

variable [DecidableEq α] {xs : List α} {k : ℕ}

/-- Indices below the length are possible draws of a sample. -/
theorem possibleFrom_sample (hR : ∀ r, R xs.length r ↔ r < xs.length) {pre draws : List ℕ}
    (h : ∀ r ∈ draws, r < xs.length) : PossibleFrom R (sample xs k) pre draws := by
  induction draws generalizing pre with
  | nil => trivial
  | cons r rs ih =>
    refine ⟨fun n hn => ?_, ih fun r' hr' => h r' (List.mem_cons_of_mem _ hr')⟩
    obtain ⟨rfl, -⟩ := sample_eq_drawing.mp hn
    exact (hR r).mpr (h r List.mem_cons_self)

/-- **Sampling.** Sampling `k` distinct values is safe when the list has them and the
    generator returns exactly the indices below its length. -/
theorem safe_sample (hk : k ≤ xs.dedup.length) (hR : ∀ r, R xs.length r ↔ r < xs.length) :
    Safe R (sample xs k) := by
  intro draws hposs
  constructor
  · -- the draw that read past the end was not below the length, so it was not possible
    intro hout
    obtain ⟨pre, r, post, s, rfl, hpre, hr⟩ := loop_outOfBounds (sample_eq_outOfBounds.mp hout)
    have hdrawn := (possibleFrom_append.mp hposs).2.1 xs.length
      (sample_eq_drawing.mpr ⟨rfl, s, hpre⟩)
    exact absurd ((hR r).mp hdrawn) (not_lt.mpr hr)
  · intro n hn
    obtain ⟨rfl, s, hs⟩ := sample_eq_drawing.mp hn
    have hlt := count_lt_of_drawing hs
    obtain ⟨more, s', hmore, hleft⟩ := exists_draws_left hk s hlt.le
    refine ⟨more, s', possibleFrom_append.mpr ⟨hposs, ?_⟩, ?_⟩
    · -- every draw that follows is below the length
      exact possibleFrom_sample hR hmore
    · rw [sample_eq_done, loop_append, hs]
      exact hleft

/-- A sample that can be finished at all is one of a list with enough distinct values. -/
theorem le_dedup_of_sample_done {draws rest : List ℕ} {s : DrawnSet α}
    (h : (sample xs k).after draws = .done s rest) : k ≤ xs.dedup.length := by
  by_contra hlt
  exact loop_ne_left (not_le.mp hlt) draws s rest (sample_eq_done.mp h)

/-- So can anything that begins with a sample. -/
theorem le_dedup_of_bind_done {draws rest : List ℕ} {f : DrawnSet α → Sampler β} {b : β}
    (h : (sample xs k >>= f).after draws = .done b rest) : k ≤ xs.dedup.length := by
  obtain ⟨s, mid, hsample, -⟩ := after_bind_eq_done.mp h
  exact le_dedup_of_sample_done hsample

/-- A sample that is not empty has drawn at least one index. -/
theorem exists_value_of_sample_done {draws rest : List ℕ} {s : DrawnSet α} (hk : 0 < k)
    (hposs : Possible R (sample xs k) draws) (h : (sample xs k).after draws = .done s rest) :
    ∃ r, R xs.length r := by
  have hstart : (sample xs k).after [] = .drawing xs.length :=
    sample_eq_drawing.mpr ⟨rfl, .empty, by simp [loop, hk]⟩
  cases draws with
  | nil => rw [hstart] at h; cases h
  | cons r rs => exact ⟨r, hposs.1 _ hstart⟩

end Sample

end Sampler

end Sampling
