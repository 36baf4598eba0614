import Mathlib.Data.List.Forall2

namespace Decode

/-!
# Decoding a list

`xs.mapM f` decodes every element of a list or fails.  `mapM_eq_some_iff` reads a success
element by element; what a lookup among the results finds is the result of the first source
that has a matching one (`find?_of_mapM`).
-/

variable {α β : Type} {f : α → Option β} {xs : List α} {ys : List β}

/-- A success, element by element. -/
theorem mapM_eq_some_iff : xs.mapM f = some ys ↔ List.Forall₂ (fun x y => f x = some y) xs ys := by
  induction xs generalizing ys with
  | nil =>
    rw [List.mapM_nil, List.forall₂_nil_left_iff]
    exact ⟨fun h => (Option.some.inj h).symm, fun h => congrArg some h.symm⟩
  | cons x xs ih =>
    simp only [List.mapM_cons, Option.pure_def, Option.bind_eq_bind, Option.bind_eq_some_iff,
      Option.some.injEq, List.forall₂_cons_left_iff, ih]
    constructor
    · rintro ⟨y, hy, zs, hzs, rfl⟩
      exact ⟨y, zs, hy, hzs, rfl⟩
    · rintro ⟨y, zs, hy, hzs, rfl⟩
      exact ⟨y, hy, zs, hzs, rfl⟩

/-- Every result is among the results. -/
theorem mem_of_mapM (h : xs.mapM f = some ys) {x : α} {y : β} (hx : x ∈ xs) (hy : f x = some y) :
    y ∈ ys := by
  rw [mapM_eq_some_iff] at h
  induction h with
  | nil => cases hx
  | cons hz hrest ih =>
    rcases List.mem_cons.mp hx with rfl | hx
    · rw [hy, Option.some_inj] at hz
      rw [hz]
      exact List.mem_cons_self
    · exact List.mem_cons_of_mem _ (ih hx)

/-- Every result comes from a source. -/
theorem exists_of_mem_mapM (h : xs.mapM f = some ys) {y : β} (hy : y ∈ ys) :
    ∃ x ∈ xs, f x = some y := by
  rw [mapM_eq_some_iff] at h
  induction h with
  | nil => cases hy
  | @cons x z xs zs hz hrest ih =>
    rcases List.mem_cons.mp hy with rfl | hy
    · exact ⟨x, List.mem_cons_self, hz⟩
    · obtain ⟨x', hx', heq⟩ := ih hy
      exact ⟨x', List.mem_cons_of_mem x hx', heq⟩

/-- The first match among the results is the result of the first source whose result
    matches. -/
theorem find?_of_mapM (h : xs.mapM f = some ys) (p : β → Bool) :
    ys.find? p = (xs.find? fun x => (f x).any p).bind f := by
  rw [mapM_eq_some_iff] at h
  induction h with
  | nil => rfl
  | @cons x y xs ys hy hrest ih =>
    by_cases hp : p y = true
    · simp [hy, hp]
    · simp [hy, hp, ih]

/-- A loop that decodes one element at a time and appends the result. -/
theorem foldlM_append_eq (f : α → Option β) (xs : List α) (acc : List β) :
    xs.foldlM (fun acc x => (f x).map fun y => acc ++ [y]) acc
      = (xs.mapM f).map fun ys => acc ++ ys := by
  -- one element goes from the list to the accumulator at a time
  induction xs generalizing acc with
  | nil => simp
  | cons x xs ih =>
    simp only [List.foldlM_cons, List.mapM_cons]
    cases hx : f x with
    | none => simp
    | some y =>
      cases hxs : xs.mapM f <;> simp [ih, hxs]

end Decode
