import Mathlib.Computability.DFA

namespace Scan

/-!
# Scans that split a word at a separator

Two deterministic automata that read a word once, from left to right.  `upTo` reads a field
up to the first separator and leaves the rest to another automaton; `lastSplit` keeps track
of the last separator, whose place every later one takes.  `mem_upTo` and `mem_lastSplit`
say that they accept the words that split in some way, although a word may have many
separators; a split at the last one is the only one (`split_last_unique`).
-/

variable {α : Type*} {x : List α} {sep c : α}

/-! ### Splits -/

/-- A split of a word at a separator: at its first letter or at a later one. -/
theorem exists_split_cons {p : List α → List α → Prop} :
    (∃ l r, c :: x = l ++ sep :: r ∧ p l r) ↔
      (c = sep ∧ p [] x) ∨ ∃ l r, x = l ++ sep :: r ∧ p (c :: l) r := by
  constructor
  · rintro ⟨l, r, hsplit, hp⟩
    cases l with
    | nil =>
      obtain ⟨rfl, rfl⟩ := List.cons.inj hsplit
      exact Or.inl ⟨rfl, hp⟩
    | cons d l =>
      obtain ⟨rfl, rfl⟩ := List.cons.inj hsplit
      exact Or.inr ⟨l, r, rfl, hp⟩
  · rintro (⟨rfl, hp⟩ | ⟨l, r, rfl, hp⟩)
    · exact ⟨[], x, rfl, hp⟩
    · exact ⟨c :: l, r, rfl, hp⟩

/-- The empty word has no separator. -/
theorem not_exists_split_nil {p : List α → List α → Prop} :
    ¬ ∃ l r, [] = l ++ sep :: r ∧ p l r := by
  rintro ⟨l, r, hsplit, -⟩
  simp at hsplit

/-- Behind the last separator there is no other one. -/
theorem eq_nil_of_last {mid r r' : List α} (h : sep :: r = mid ++ sep :: r') (hr : sep ∉ r) :
    mid = [] ∧ r = r' := by
  cases mid with
  | nil => exact ⟨rfl, (List.cons.inj h).2⟩
  | cons d mid =>
    rw [(List.cons.inj h).2] at hr
    exact absurd (List.mem_append_right mid List.mem_cons_self) hr

/-- A split at the last separator is the only one. -/
theorem split_last_unique {l l' r r' : List α} (h : l ++ sep :: r = l' ++ sep :: r')
    (hr : sep ∉ r) (hr' : sep ∉ r') : l = l' ∧ r = r' := by
  rcases List.append_eq_append_iff.mp h with ⟨mid, hl, hmid⟩ | ⟨mid, hl, hmid⟩
  · obtain ⟨rfl, rfl⟩ := eq_nil_of_last hmid hr
    exact ⟨by rw [hl, List.append_nil], rfl⟩
  · obtain ⟨rfl, rfl⟩ := eq_nil_of_last hmid hr'
    exact ⟨by rw [hl, List.append_nil], rfl⟩

variable {inside tail : α → Bool} {n : ℕ} {body rest : List α}

/-- The separator is a letter of the body and none of the tail, whose letters are all in the
    body's class too: where the tail begins is ambiguous for a reader of the word. -/
structure Overlapping (sep : α) (inside tail : α → Bool) : Prop where
  sep_inside : inside sep = true
  sep_not_tail : tail sep = false
  tail_inside : ∀ c, tail c = true → inside c = true

/-- What may stand before and after a separator: a body over `inside`, and at least `n`
    letters over `tail`. -/
structure IsSplit (inside tail : α → Bool) (n : ℕ) (body rest : List α) : Prop where
  inside : ∀ c ∈ body, inside c = true
  length : n ≤ rest.length
  tail : ∀ c ∈ rest, tail c = true

theorem isSplit_nil : IsSplit inside tail n [] rest ↔
    n ≤ rest.length ∧ ∀ c ∈ rest, tail c = true :=
  ⟨fun h => ⟨h.length, h.tail⟩, fun h => ⟨nofun, h.1, h.2⟩⟩

theorem isSplit_cons : IsSplit inside tail n (c :: body) rest ↔
    inside c = true ∧ IsSplit inside tail n body rest := by
  constructor
  · intro h
    obtain ⟨hc, hbody⟩ := List.forall_mem_cons.mp h.inside
    exact ⟨hc, hbody, h.length, h.tail⟩
  · rintro ⟨hc, hbody, hlength, htail⟩
    exact ⟨List.forall_mem_cons.mpr ⟨hc, hbody⟩, hlength, htail⟩

variable [DecidableEq α]

/-! ### Up to the first separator -/

section UpTo

/-- Before the separator, with the information whether anything has been read; in the state
    of the other automaton; or refused. -/
inductive UpTo (σ : Type*) where
  | before (read : Bool)
  | after (s : σ)
  | refused

variable {σ : Type*}

/-- The rest has been accepted. -/
def UpTo.Accepts (M : DFA α σ) : UpTo σ → Prop
  | .after s => s ∈ M.accept
  | _        => False

instance UpTo.decidableAccepts (M : DFA α σ) [DecidablePred (· ∈ M.accept)] :
    DecidablePred (UpTo.Accepts M)
  | .before _ => inferInstanceAs (Decidable False)
  | .after s  => inferInstanceAs (Decidable (s ∈ M.accept))
  | .refused  => inferInstanceAs (Decidable False)

/-- Reads a field of `first`, then a separator, then what `M` accepts. -/
def upTo (first : α → Bool) (sep : α) (M : DFA α σ) : DFA α (UpTo σ) where
  step
    | .before read, c =>
      if c = sep then (if read then .after M.start else .refused)
      else if first c then .before true else .refused
    | .after s, c => .after (M.step s c)
    | .refused, _ => .refused
  start := .before false
  accept := {s | s.Accepts M}

variable {first : α → Bool} {M : DFA α σ} {read : Bool}

theorem upTo_step_sep : (upTo first sep M).step (.before read) sep
    = if read then .after M.start else .refused := if_pos rfl

theorem upTo_step_first (hc : c ≠ sep) (hfirst : first c = true) :
    (upTo first sep M).step (.before read) c = .before true := by
  simp [upTo, hc, hfirst]

theorem upTo_step_refused (hc : c ≠ sep) (hfirst : first c = false) :
    (upTo first sep M).step (.before read) c = .refused := by
  simp [upTo, hc, hfirst]

theorem mem_upTo_after {s : σ} :
    x ∈ (upTo first sep M).acceptsFrom (.after s) ↔ x ∈ M.acceptsFrom s := by
  induction x generalizing s with
  | nil => exact Iff.rfl
  | cons c x ih => exact ih

theorem not_mem_upTo_refused : x ∉ (upTo first sep M).acceptsFrom .refused := by
  induction x with
  | nil => exact id
  | cons c x ih => exact ih

/-- From the states before the separator. -/
theorem mem_upTo_before (hsep : first sep = false) :
    x ∈ (upTo first sep M).acceptsFrom (.before read) ↔
      ∃ l r, x = l ++ sep :: r ∧ (read = true ∨ l ≠ []) ∧ (∀ c ∈ l, first c = true) ∧
        r ∈ M.accepts := by
  induction x generalizing read with
  | nil => exact iff_of_false id not_exists_split_nil
  | cons c x ih =>
    show x ∈ (upTo first sep M).acceptsFrom ((upTo first sep M).step (.before read) c) ↔ _
    rw [exists_split_cons]
    by_cases hc : c = sep
    · -- the separator itself is not a letter of the field, so the split is here
      subst hc
      have hlater : ¬ ∃ l r, x = l ++ c :: r ∧ (read = true ∨ c :: l ≠ []) ∧
          (∀ d ∈ c :: l, first d = true) ∧ r ∈ M.accepts := by
        rintro ⟨l, r, -, -, hfirst, -⟩
        rw [hfirst c List.mem_cons_self] at hsep
        cases hsep
      rw [or_iff_left hlater, upTo_step_sep]
      cases read with
      | false => exact iff_of_false not_mem_upTo_refused (by simp)
      | true =>
        rw [if_pos rfl, mem_upTo_after]
        exact ⟨fun h => ⟨rfl, Or.inl rfl, nofun, h⟩, fun h => h.2.2.2⟩
    · rw [or_iff_right fun h => hc h.1]
      cases hfirst : first c with
      | true =>
        rw [upTo_step_first hc hfirst, ih]
        simp [hfirst]
      | false =>
        rw [upTo_step_refused hc hfirst]
        refine iff_of_false not_mem_upTo_refused ?_
        rintro ⟨l, r, -, -, hall, -⟩
        rw [hall c List.mem_cons_self] at hfirst
        cases hfirst

/-- **Up to the first separator.** -/
theorem mem_upTo (hsep : first sep = false) : x ∈ (upTo first sep M).accepts ↔
    ∃ l r, x = l ++ sep :: r ∧ l ≠ [] ∧ (∀ c ∈ l, first c = true) ∧ r ∈ M.accepts := by
  show x ∈ (upTo first sep M).acceptsFrom (.before false) ↔ _
  rw [mem_upTo_before hsep]
  simp

end UpTo

/-! ### The last separator -/

/-- No separator yet; or one that has something before it or nothing, with the number of
    letters after it, and whether all of them are in the class of the tail; or refused. -/
inductive LastSplit where
  | unsplit (read : Bool)
  | split (before : Bool) (length : ℕ) (inTail : Bool)
  | refused
  deriving DecidableEq

/-- The last separator has something before it, and a tail of at least `n` letters. -/
def LastSplit.accepts (n : ℕ) : LastSplit → Bool
  | .split before length inTail => before && inTail && decide (n ≤ length)
  | _                           => false

/-- Reads letters of `inside` and keeps track of the last separator. -/
def lastSplit (sep : α) (inside tail : α → Bool) (n : ℕ) : DFA α LastSplit where
  step
    | .unsplit read, c =>
      if c = sep then .split read 0 true else if inside c then .unsplit true else .refused
    | .split before length inTail, c =>
      -- the separator before stands before this one
      if c = sep then .split true 0 true
      else if inside c then .split before (length + 1) (inTail && tail c) else .refused
    | .refused, _ => .refused
  start := .unsplit false
  accept := {s | s.accepts n = true}

instance (sep : α) (inside tail : α → Bool) (n : ℕ) :
    DecidablePred (· ∈ (lastSplit sep inside tail n).accept) := fun s =>
  inferInstanceAs (Decidable (s.accepts n = true))

variable {read before inTail : Bool} {length : ℕ}

theorem lastSplit_step_unsplit (hc : c ≠ sep) :
    (lastSplit sep inside tail n).step (.unsplit read) c
      = if inside c then .unsplit true else .refused := if_neg hc

theorem lastSplit_step_split (hc : c ≠ sep) :
    (lastSplit sep inside tail n).step (.split before length inTail) c
      = if inside c then .split before (length + 1) (inTail && tail c) else .refused := if_neg hc

theorem not_mem_lastSplit_refused :
    x ∉ (lastSplit sep inside tail n).acceptsFrom .refused := by
  induction x with
  | nil => exact Bool.false_ne_true
  | cons c x ih => exact ih

/-- After a separator: it stays the last one, or a later one takes its place. -/
theorem mem_lastSplit_split (h : Overlapping sep inside tail) :
    x ∈ (lastSplit sep inside tail n).acceptsFrom (.split before length inTail) ↔
      (before = true ∧ inTail = true ∧ n ≤ length + x.length ∧ ∀ c ∈ x, tail c = true) ∨
        ∃ body rest, x = body ++ sep :: rest ∧ IsSplit inside tail n body rest := by
  induction x generalizing before length inTail with
  | nil =>
    rw [or_iff_left not_exists_split_nil]
    show (before && inTail && decide (n ≤ length)) = true ↔ _
    simp [and_assoc]
  | cons c x ih =>
    show x ∈ (lastSplit sep inside tail n).acceptsFrom
      ((lastSplit sep inside tail n).step (.split before length inTail) c) ↔ _
    rw [exists_split_cons]
    by_cases hc : c = sep
    · -- what stands after this separator is still to be read
      subst hc
      have hstep : (lastSplit c inside tail n).step (.split before length inTail) c
          = .split true 0 true := if_pos rfl
      rw [hstep, ih]
      simp [isSplit_nil, isSplit_cons, h.sep_inside, h.sep_not_tail]
    · rw [lastSplit_step_split hc]
      cases hin : inside c with
      | true =>
        have hlength : length + 1 + x.length = length + (c :: x).length := by
          rw [List.length_cons]; omega
        rw [if_pos rfl, ih, hlength]
        simp [isSplit_cons, hc, hin, and_assoc, and_left_comm]
      | false =>
        rw [if_neg Bool.false_ne_true]
        refine iff_of_false not_mem_lastSplit_refused ?_
        rintro (⟨-, -, -, htail⟩ | ⟨heq, -⟩ | ⟨body, rest, -, hsplit⟩)
        · rw [h.tail_inside c (htail c List.mem_cons_self)] at hin
          cases hin
        · exact hc heq
        · rw [(isSplit_cons.mp hsplit).1] at hin
          cases hin

/-- Before any separator. -/
theorem mem_lastSplit_unsplit (h : Overlapping sep inside tail) :
    x ∈ (lastSplit sep inside tail n).acceptsFrom (.unsplit read) ↔
      ∃ body rest, x = body ++ sep :: rest ∧ (read = true ∨ body ≠ []) ∧
        IsSplit inside tail n body rest := by
  induction x generalizing read with
  | nil => exact iff_of_false Bool.false_ne_true not_exists_split_nil
  | cons c x ih =>
    show x ∈ (lastSplit sep inside tail n).acceptsFrom
      ((lastSplit sep inside tail n).step (.unsplit read) c) ↔ _
    rw [exists_split_cons]
    by_cases hc : c = sep
    · -- this separator is the last one, or what has been read stands before a later one
      subst hc
      have hstep : (lastSplit c inside tail n).step (.unsplit read) c = .split read 0 true :=
        if_pos rfl
      rw [hstep, mem_lastSplit_split h]
      simp [isSplit_nil, isSplit_cons, h.sep_inside]
    · rw [lastSplit_step_unsplit hc]
      cases hin : inside c with
      | true =>
        rw [if_pos rfl, ih]
        simp [isSplit_cons, hc, hin]
      | false =>
        rw [if_neg Bool.false_ne_true]
        refine iff_of_false not_mem_lastSplit_refused ?_
        rintro (⟨heq, -⟩ | ⟨body, rest, -, -, hsplit⟩)
        · exact hc heq
        · rw [(isSplit_cons.mp hsplit).1] at hin
          cases hin

/-- **The last separator decides.**  The automaton accepts the words that split at some
    separator. -/
theorem mem_lastSplit (h : Overlapping sep inside tail) :
    x ∈ (lastSplit sep inside tail n).accepts ↔
      ∃ body rest, x = body ++ sep :: rest ∧ body ≠ [] ∧ IsSplit inside tail n body rest := by
  show x ∈ (lastSplit sep inside tail n).acceptsFrom (.unsplit false) ↔ _
  rw [mem_lastSplit_unsplit h]
  simp

end Scan
