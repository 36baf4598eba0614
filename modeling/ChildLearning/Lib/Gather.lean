import Mathlib.Algebra.GroupWithZero.Nat
import Mathlib.Data.List.Perm.Basic

namespace Gather

/-!
# Results gathered in the order of completion

Tasks that change one at a time (`getElem?_set_cases`, `map_set_eq`) and complete in any
order, each appending its result to one list.  `Gathered` says that the list holds the
results of the completed tasks, one each; it is kept by every change of a task
(`Gathered.set`) and by every completion (`Gathered.complete`).
-/

variable {τ β : Type*} {result? : τ → Option β} {tasks : List τ} {out : List β}

/-- The list holds the results of the completed tasks, in some order. -/
def Gathered (result? : τ → Option β) (tasks : List τ) (out : List β) : Prop :=
  out.Perm (tasks.filterMap result?)

/-- A task at its place between the others. -/
private theorem filterMap_set {i : ℕ} {task : τ} (h : tasks[i]? = some task) (task' : τ) :
    (tasks.set i task').filterMap result?
      = (tasks.take i).filterMap result? ++
        ((result? task').toList ++ (tasks.drop (i + 1)).filterMap result?) := by
  have hi : i < tasks.length := (List.getElem?_eq_some_iff.mp h).1
  rw [List.set_eq_take_append_cons_drop, if_pos hi, List.filterMap_append]
  cases hr : result? task' <;> simp [hr]

/-- A task after one has changed: the changed one, or another as it was. -/
theorem getElem?_set_cases {i j : ℕ} {task' other : τ}
    (h : (tasks.set i task')[j]? = some other) :
    j = i ∧ other = task' ∨ j ≠ i ∧ tasks[j]? = some other := by
  rw [List.getElem?_set] at h
  split_ifs at h with hij
  · exact Or.inl ⟨hij.symm, (Option.some.inj h).symm⟩
  · exact Or.inr ⟨Ne.symm hij, h⟩

/-- A task after one more has been added: one from before, or the new one. -/
theorem getElem?_concat_cases {new other : τ} {j : ℕ} (h : (tasks ++ [new])[j]? = some other) :
    tasks[j]? = some other ∨ j = tasks.length ∧ other = new := by
  rw [List.getElem?_append] at h
  split_ifs at h with hlt
  · exact Or.inl h
  · rw [List.getElem?_singleton] at h
    obtain ⟨hzero, hnew⟩ := Option.ite_none_right_eq_some.mp h
    exact Or.inr ⟨by omega, (Option.some.inj hnew).symm⟩

/-- What a change keeps of its task is kept of all tasks. -/
theorem map_set_eq {γ : Type*} (f : τ → γ) {i : ℕ} {task task' : τ} (h : tasks[i]? = some task)
    (hsame : f task' = f task) : (tasks.set i task').map f = tasks.map f := by
  obtain ⟨hi, hat⟩ := List.getElem?_eq_some_iff.mp h
  have hi' : i < (tasks.map f).length := by rw [List.length_map]; exact hi
  have hself : f task' = (tasks.map f)[i] := by rw [hsame, List.getElem_map, hat]
  rw [List.map_set, hself, List.set_getElem_self]

/-- A task before a change is found after it, with the same reading. -/
theorem exists_getElem?_of_map_eq {γ : Type*} {f : τ → γ} {tasks' : List τ}
    (hmap : tasks'.map f = tasks.map f) {i : ℕ} {task : τ} (h : tasks[i]? = some task) :
    ∃ task', tasks'[i]? = some task' ∧ f task' = f task := by
  have hread : (tasks'.map f)[i]? = some (f task) := by
    rw [hmap, List.getElem?_map, h, Option.map_some]
  rw [List.getElem?_map] at hread
  exact Option.map_eq_some_iff.mp hread

/-- A measure of all tasks, after one of them has changed. -/
theorem sum_map_set (f : τ → ℕ) {i : ℕ} {task : τ} (h : tasks[i]? = some task) (task' : τ) :
    ((tasks.set i task').map f).sum + f task = (tasks.map f).sum + f task' := by
  induction tasks generalizing i with
  | nil => cases h
  | cons first rest ih =>
    cases i with
    | zero =>
      obtain rfl : first = task := Option.some.inj h
      simp only [List.set_cons_zero, List.map_cons, List.sum_cons]
      omega
    | succ i =>
      have hrest := ih h
      simp only [List.set_cons_succ, List.map_cons, List.sum_cons]
      omega

/-- Before any task has completed nothing is gathered. -/
theorem gathered_start (h : ∀ task ∈ tasks, result? task = none) : Gathered result? tasks [] := by
  rw [Gathered, List.filterMap_eq_nil_iff.mpr h]

/-- A task goes on without completing. -/
theorem Gathered.set (hg : Gathered result? tasks out) {i : ℕ} {task task' : τ}
    (h : tasks[i]? = some task) (hsame : result? task' = result? task) :
    Gathered result? (tasks.set i task') out := by
  have hself : tasks.set i task = tasks := by
    obtain ⟨hi, hat⟩ := List.getElem?_eq_some_iff.mp h
    rw [← hat, List.set_getElem_self]
  rw [Gathered, filterMap_set h, hsame, ← filterMap_set h, hself]
  exact hg

/-- A task completes, and its result is appended. -/
theorem Gathered.complete (hg : Gathered result? tasks out) {i : ℕ} {task task' : τ} {b : β}
    (h : tasks[i]? = some task) (hbefore : result? task = none) (hafter : result? task' = some b) :
    Gathered result? (tasks.set i task') (out ++ [b]) := by
  have hself : Gathered result? (tasks.set i task) out := hg.set h rfl
  rw [Gathered, filterMap_set h, hbefore] at hself
  rw [Gathered, filterMap_set h, hafter]
  -- the result stands last in the one list and at the place of its task in the other
  have hlast : (out ++ [b]).Perm (b :: out) := List.perm_append_singleton b out
  refine hlast.trans ((hself.cons b).trans ?_)
  exact List.perm_middle.symm

end Gather
