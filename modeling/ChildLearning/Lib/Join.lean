import Mathlib.Data.List.Count
import Mathlib.Data.List.Forall2
import Mathlib.Data.List.Nodup

namespace Join

/-!
# Nested-loop joins

`join key val xs table` is the pair of loops

    for x in xs { for row in table { if x == row.key { result.append(row.val) } } }

The result lines up with `xs` when the keys of the table are pairwise distinct
(`forall₂_join`), and is longer than `xs` as soon as one of the `xs` is the key of two
rows (`lt_length_join`).
-/

variable {κ β γ : Type*} [DecidableEq κ] {key : β → κ} {val : β → γ} {xs : List κ} {table : List β}

/-- For every `x` the values of all rows with this key, in the order of the table. -/
def join (key : β → κ) (val : β → γ) (xs : List κ) (table : List β) : List γ :=
  xs.flatMap fun x => (table.filter fun row => x = key row).map val

theorem join_cons (x : κ) (xs : List κ) :
    join key val (x :: xs) table
      = (table.filter fun row => x = key row).map val ++ join key val xs table := rfl

/-- As many rows are found as the key occurs. -/
theorem length_filter_key (x : κ) (table : List β) :
    (table.filter fun row => x = key row).length = (table.map key).count x := by
  rw [← List.countP_eq_length_filter, List.count, List.countP_map]
  refine List.countP_congr fun row _ => ?_
  simp only [decide_eq_true_eq, Function.comp_apply, beq_iff_eq]
  exact eq_comm

/-- The values found are those of the rows with one of the keys. -/
theorem mem_join {v : γ} :
    v ∈ join key val xs table ↔ ∃ row ∈ table, key row ∈ xs ∧ val row = v := by
  simp only [join, List.mem_flatMap, List.mem_map, List.mem_filter, decide_eq_true_eq]
  constructor
  · rintro ⟨x, hx, row, ⟨hrow, rfl⟩, hval⟩
    exact ⟨row, hrow, hx, hval⟩
  · rintro ⟨row, hrow, hkey, hval⟩
    exact ⟨key row, hkey, row, ⟨hrow, rfl⟩, hval⟩

/-- With distinct keys exactly one row is found. -/
theorem exists_filter_key_eq (h : (table.map key).Nodup) {x : κ} (hx : x ∈ table.map key) :
    ∃ row ∈ table, key row = x ∧ (table.filter fun row => x = key row) = [row] := by
  have hone : (table.filter fun row => x = key row).length = 1 := by
    rw [length_filter_key, List.count_eq_one_of_mem h hx]
  obtain ⟨row, hrow⟩ := List.length_eq_one_iff.mp hone
  have hmem : row ∈ table.filter fun row => x = key row := by rw [hrow]; exact List.mem_singleton_self _
  obtain ⟨htable, hkey⟩ := List.mem_filter.mp hmem
  exact ⟨row, htable, by simpa [eq_comm] using hkey, hrow⟩

/-- **Alignment.** With distinct keys the join has one value for each `x`, at its place. -/
theorem forall₂_join (val : β → γ) (h : (table.map key).Nodup) (hxs : ∀ x ∈ xs, x ∈ table.map key) :
    List.Forall₂ (fun x v => ∃ row ∈ table, key row = x ∧ val row = v) xs
      (join key val xs table) := by
  induction xs with
  | nil => exact List.Forall₂.nil
  | cons x xs ih =>
    obtain ⟨row, hrow, hkey, hfilter⟩ := exists_filter_key_eq h (hxs x List.mem_cons_self)
    rw [join_cons, hfilter]
    exact List.Forall₂.cons ⟨row, hrow, hkey, rfl⟩ (ih fun y hy => hxs y (List.mem_cons_of_mem _ hy))

/-- With distinct keys the value is a function of the key. -/
theorem exists_val [Inhabited γ] (val : β → γ) (h : (table.map key).Nodup) :
    ∃ f : κ → γ, ∀ row ∈ table, f (key row) = val row := by
  refine ⟨fun x => ((table.filter fun row => x = key row).map val).headD default, fun row hrow => ?_⟩
  obtain ⟨found, hfound, hkey, hfilter⟩ := exists_filter_key_eq h (List.mem_map_of_mem hrow)
  have hsame : found = row := List.inj_on_of_nodup_map h hfound hrow hkey
  show ((table.filter fun other => key row = key other).map val).headD default = val row
  rw [hfilter, hsame]
  rfl

/-- With distinct keys the join applies this function. -/
theorem join_eq_map (h : (table.map key).Nodup) (hxs : ∀ x ∈ xs, x ∈ table.map key) {f : κ → γ}
    (hf : ∀ row ∈ table, f (key row) = val row) : join key val xs table = xs.map f := by
  induction xs with
  | nil => rfl
  | cons x xs ih =>
    obtain ⟨row, hrow, hkey, hfilter⟩ := exists_filter_key_eq h (hxs x List.mem_cons_self)
    subst hkey
    rw [join_cons, hfilter, ih fun y hy => hxs y (List.mem_cons_of_mem _ hy)]
    show val row :: xs.map f = f (key row) :: xs.map f
    rw [hf row hrow]

/-- Every `x` that is a key has at least one value. -/
theorem length_le_join (val : β → γ) (hxs : ∀ x ∈ xs, x ∈ table.map key) :
    xs.length ≤ (join key val xs table).length := by
  induction xs with
  | nil => exact Nat.zero_le _
  | cons x xs ih =>
    have hpos := List.count_pos_iff.mpr (hxs x List.mem_cons_self)
    have hle := ih fun y hy => hxs y (List.mem_cons_of_mem _ hy)
    rw [join_cons, List.length_append, List.length_map, List.length_cons, length_filter_key]
    omega

/-- **Misalignment.** If one of the `xs` is the key of two rows, there are more values
    than `xs`. -/
theorem lt_length_join (val : β → γ) (hxs : ∀ x ∈ xs, x ∈ table.map key) {x : κ} (hx : x ∈ xs)
    (hdup : 1 < (table.map key).count x) : xs.length < (join key val xs table).length := by
  induction xs with
  | nil => cases hx
  | cons y ys ih =>
    have hys : ∀ z ∈ ys, z ∈ table.map key := fun z hz => hxs z (List.mem_cons_of_mem _ hz)
    rw [join_cons, List.length_append, List.length_map, List.length_cons, length_filter_key]
    -- the repeated key is the first of the `xs`, or one of the others
    rcases List.mem_cons.mp hx with rfl | hx
    · have hle := length_le_join val hys
      omega
    · have hpos := List.count_pos_iff.mpr (hxs y List.mem_cons_self)
      have hlt := ih hys hx
      omega

/-- Rows with a key outside `xs` do not matter. -/
theorem join_filter_ne {x : κ} (hx : x ∉ xs) (val : β → γ) (table : List β) :
    join key val xs (table.filter fun row => x ≠ key row) = join key val xs table := by
  refine List.flatMap_congr fun y hy => ?_
  have hne : x ≠ y := fun heq => hx (heq ▸ hy)
  rw [List.filter_filter]
  congr 1
  refine List.filter_congr fun row _ => ?_
  by_cases hrow : y = key row
  · simp [← hrow, hne]
  · simp [hrow]

/-- Distinct `xs` use every row at most once. -/
theorem length_join_le (val : β → γ) (hxs : xs.Nodup) (table : List β) :
    (join key val xs table).length ≤ table.length := by
  induction xs generalizing table with
  | nil => exact Nat.zero_le _
  | cons x xs ih =>
    -- the rows of `x` are used up; the other `xs` share the rest of the table
    obtain ⟨hx, hxs⟩ := List.nodup_cons.mp hxs
    have hle := ih hxs (table.filter fun row => x ≠ key row)
    rw [join_filter_ne hx] at hle
    have hsplit := List.length_eq_length_filter_add (l := table) fun row => decide (x = key row)
    simp only [join_cons, List.length_append, List.length_map]
    simp only [ne_eq, decide_not] at hle
    omega

end Join
