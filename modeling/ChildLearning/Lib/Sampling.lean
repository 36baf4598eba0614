import Mathlib.Data.Finset.Card
import Mathlib.Data.Finset.Lattice.Fold
import Mathlib.Data.List.Dedup

namespace Sampling

/-!
# Sampling distinct values by index

`loop xs k s draws` is the rejection-sampling loop

    while s.count < k { s.insert(xs[randomIndex]) }

run on a finite list of random indices.  It leaves (`left`) with the set and the
indices it did not use, is still drawing when the indices are used up (`drawing`),
or has read `xs` past its end (`outOfBounds`).  The file says what the loop has
collected when it leaves (`loop_left_spec`), that it can always be driven out when
`xs` has `k` distinct values (`exists_draws_left`), and that it never leaves when it
has fewer (`loop_ne_left`).

A set is kept as the list of its members in the order of insertion (`DrawnSet`);
the order in which a hash set hands them out is an `IterationOrder`, an arbitrary
permutation.
-/

variable {α : Type*}

/-! ### Drawn sets and iteration orders -/

/-- A finite set: its members, each once, in the order of their insertion. -/
structure DrawnSet (α : Type*) where
  elems : List α
  nodup : elems.Nodup

namespace DrawnSet

/-- The empty set. -/
def empty : DrawnSet α := ⟨[], List.nodup_nil⟩

/-- The number of members. -/
def count (s : DrawnSet α) : ℕ := s.elems.length

@[simp] theorem count_empty : (empty : DrawnSet α).count = 0 := rfl

@[simp] theorem elems_empty : (empty : DrawnSet α).elems = [] := rfl

end DrawnSet

/-- The order in which a hash set hands out its members: any permutation, chosen
    anew for every set. -/
structure IterationOrder (α : Type*) where
  toArray : DrawnSet α → List α
  perm : ∀ s, (toArray s).Perm s.elems

namespace IterationOrder

variable (order : IterationOrder α)

/-- The order of insertion, one of the possible iteration orders. -/
def insertion : IterationOrder α := ⟨DrawnSet.elems, fun _ => List.Perm.refl _⟩

@[simp] theorem mem_toArray {s : DrawnSet α} {x : α} :
    x ∈ order.toArray s ↔ x ∈ s.elems := (order.perm s).mem_iff

theorem nodup_toArray (s : DrawnSet α) : (order.toArray s).Nodup :=
  (order.perm s).nodup_iff.mpr s.nodup

@[simp] theorem length_toArray (s : DrawnSet α) : (order.toArray s).length = s.count :=
  (order.perm s).length_eq

end IterationOrder

variable [DecidableEq α]

namespace DrawnSet

/-- Insert a value; nothing changes when it is already a member. -/
def insert (s : DrawnSet α) (x : α) : DrawnSet α :=
  if h : x ∈ s.elems then s else ⟨s.elems.concat x, s.nodup.concat h⟩

@[simp] theorem mem_insert {s : DrawnSet α} {x y : α} :
    y ∈ (s.insert x).elems ↔ y = x ∨ y ∈ s.elems := by
  unfold insert
  split
  case isTrue h =>
    refine ⟨Or.inr, fun hy => ?_⟩
    rcases hy with rfl | hy
    · exact h
    · exact hy
  case isFalse => simp [or_comm]

theorem count_insert_of_mem {s : DrawnSet α} {x : α} (h : x ∈ s.elems) :
    (s.insert x).count = s.count := by
  rw [insert, dif_pos h]

theorem count_insert_of_notMem {s : DrawnSet α} {x : α} (h : x ∉ s.elems) :
    (s.insert x).count = s.count + 1 := by
  simp [count, insert, h]

/-- One insertion adds at most one member. -/
theorem count_insert_le (s : DrawnSet α) (x : α) : (s.insert x).count ≤ s.count + 1 := by
  by_cases h : x ∈ s.elems
  · rw [count_insert_of_mem h]; omega
  · rw [count_insert_of_notMem h]

/-- A set drawn from `xs` has at most as many members as `xs` has distinct values. -/
theorem count_le_dedup (s : DrawnSet α) (xs : List α) (h : ∀ x ∈ s.elems, x ∈ xs) :
    s.count ≤ xs.dedup.length :=
  (s.nodup.subperm fun x hx => List.mem_dedup.mpr (h x hx)).length_le

/-- A set with fewer members than `xs` has distinct values misses one of them. -/
theorem exists_mem_notMem (s : DrawnSet α) (xs : List α) (h : s.count < xs.dedup.length) :
    ∃ x ∈ xs, x ∉ s.elems := by
  by_contra hall
  push Not at hall
  have hsub : xs.dedup ⊆ s.elems := fun x hx => hall x (List.mem_dedup.mp hx)
  have hle : xs.dedup.length ≤ s.elems.length := ((List.nodup_dedup xs).subperm hsub).length_le
  exact absurd h (not_lt.mpr hle)

end DrawnSet

/-! ### The loop -/

/-- Where the loop stands once the given random indices are used. -/
inductive Drawing (α : Type*) where
  | left (s : DrawnSet α) (rest : List ℕ)
  | drawing (s : DrawnSet α)
  | outOfBounds

/-- `while s.count < k { s.insert(xs[randomIndex]) }` on a list of random indices. -/
def loop (xs : List α) (k : ℕ) (s : DrawnSet α) : List ℕ → Drawing α
  | []      => if s.count < k then .drawing s else .left s []
  | r :: rs =>
    if s.count < k then
      match xs[r]? with
      | some x => loop xs k (s.insert x) rs
      | none   => .outOfBounds
    else .left s (r :: rs)

variable {xs : List α} {k : ℕ} {s s' : DrawnSet α} {draws rest : List ℕ}

/-- The guard fails: the loop is left without a draw. -/
theorem loop_of_le (h : k ≤ s.count) : loop xs k s draws = .left s draws := by
  cases draws <;> simp [loop, not_lt.mpr h]

/-- Without a draw the loop waits for one. -/
theorem loop_nil_of_lt (h : s.count < k) : loop xs k s [] = .drawing s := if_pos h

/-- One pass through the body. -/
theorem loop_cons_of_lt {x : α} {r : ℕ} (h : s.count < k) (hr : xs[r]? = some x) :
    loop xs k s (r :: draws) = loop xs k (s.insert x) draws := by
  simp [loop, h, hr]

/-- **One more draw.** The loop is left without using it, reads past the end, or inserts a
    value. -/
theorem loop_cons_cases (xs : List α) (k : ℕ) (s : DrawnSet α) (r : ℕ) (draws : List ℕ) :
    (k ≤ s.count ∧ loop xs k s (r :: draws) = .left s (r :: draws)) ∨
      (s.count < k ∧ xs[r]? = none ∧ loop xs k s (r :: draws) = .outOfBounds) ∨
      (s.count < k ∧ ∃ x, xs[r]? = some x ∧
        loop xs k s (r :: draws) = loop xs k (s.insert x) draws) := by
  rcases lt_or_ge s.count k with hlt | hge
  · cases hr : xs[r]? with
    | none => exact Or.inr (Or.inl ⟨hlt, rfl, by simp [loop, hlt, hr]⟩)
    | some x => exact Or.inr (Or.inr ⟨hlt, x, rfl, loop_cons_of_lt hlt hr⟩)
  · exact Or.inl ⟨hge, loop_of_le hge⟩

/-- **Loop rule.** What every insertion below the bound keeps holds of the set when the
    loop leaves, and while it is drawing; the guard tells which of the two it is. -/
theorem loop_rule {I : DrawnSet α → Prop} (xs : List α) (k : ℕ)
    (hinsert : ∀ t x, t.count < k → x ∈ xs → I t → I (t.insert x)) (hs : I s) (draws : List ℕ) :
    match loop xs k s draws with
    | .left s' _   => I s' ∧ k ≤ s'.count
    | .drawing s'  => I s' ∧ s'.count < k
    | .outOfBounds => True := by
  induction draws generalizing s with
  | nil =>
    rcases lt_or_ge s.count k with hlt | hge
    · rw [loop_nil_of_lt hlt]
      exact ⟨hs, hlt⟩
    · rw [loop_of_le hge]
      exact ⟨hs, hge⟩
  | cons r rs ih =>
    rcases loop_cons_cases xs k s r rs with ⟨hge, heq⟩ | ⟨-, -, heq⟩ | ⟨hlt, x, hr, heq⟩
    · rw [heq]
      exact ⟨hs, hge⟩
    · rw [heq]
      trivial
    · rw [heq]
      exact ih (hinsert s x hlt (List.mem_of_getElem? hr) hs)

/-- **What the loop has collected when it leaves.**  Starting from at most `k`
    members it holds exactly `k`, all of them old members or values of `xs`. -/
theorem loop_left_spec (hk : s.count ≤ k) (h : loop xs k s draws = .left s' rest) :
    s'.count = k ∧ ∀ x ∈ s'.elems, x ∈ s.elems ∨ x ∈ xs := by
  -- the invariant of the loop: no more than `k` members, all accounted for
  let Drawn (t : DrawnSet α) : Prop := t.count ≤ k ∧ ∀ x ∈ t.elems, x ∈ s.elems ∨ x ∈ xs
  have hinsert : ∀ t x, t.count < k → x ∈ xs → Drawn t → Drawn (t.insert x) := by
    intro t x hlt hx ht
    have hle := t.count_insert_le x
    refine ⟨by omega, ?_⟩
    intro y hy
    rcases DrawnSet.mem_insert.mp hy with rfl | hy
    · exact Or.inr hx
    · exact ht.2 y hy
  have hrule := loop_rule xs k hinsert ⟨hk, fun x hx => Or.inl hx⟩ draws
  rw [h] at hrule
  obtain ⟨⟨hle, hmem⟩, hge⟩ := hrule
  exact ⟨le_antisymm hle hge, hmem⟩

/-- The loop keeps the members it started with. -/
theorem mem_of_loop_left (h : loop xs k s draws = .left s' rest) {x : α} (hx : x ∈ s.elems) :
    x ∈ s'.elems := by
  have hinsert : ∀ (t : DrawnSet α) y, t.count < k → y ∈ xs → x ∈ t.elems →
      x ∈ (t.insert y).elems := by
    intro t y _ _ ht
    exact DrawnSet.mem_insert.mpr (Or.inr ht)
  have hrule := loop_rule xs k hinsert hx draws
  rw [h] at hrule
  exact hrule.1

/-- While the loop is drawing, it is below its bound. -/
theorem count_lt_of_drawing (h : loop xs k s draws = .drawing s') : s'.count < k := by
  have hrule := @loop_rule _ _ s (fun _ => True) xs k (fun _ _ _ _ _ => trivial) trivial draws
  rw [h] at hrule
  exact hrule.2

/-- More indices after a pause: the loop goes on from where it stood. -/
theorem loop_append (xs : List α) (k : ℕ) (s : DrawnSet α) (draws more : List ℕ) :
    loop xs k s (draws ++ more) = match loop xs k s draws with
      | .left s' rest => .left s' (rest ++ more)
      | .drawing s'   => loop xs k s' more
      | .outOfBounds  => .outOfBounds := by
  induction draws generalizing s with
  | nil =>
    by_cases h : s.count < k
    · simp [loop, h]
    · simp [loop, h, loop_of_le (not_lt.mp h)]
  | cons r rs ih =>
    by_cases h : s.count < k
    · cases hr : xs[r]? with
      | none => simp [loop, h, hr]
      | some x => simp [loop, h, hr, ih]
    · simp [loop, h]

/-- The loop uses a prefix of its draws. -/
theorem loop_used (h : loop xs k s draws = .left s' rest) :
    ∃ used, draws = used ++ rest ∧ loop xs k s used = .left s' [] := by
  induction draws generalizing s with
  | nil =>
    rcases lt_or_ge s.count k with hlt | hge
    · rw [loop_nil_of_lt hlt] at h
      cases h
    · rw [loop_of_le hge] at h
      cases h
      exact ⟨[], rfl, loop_of_le hge⟩
  | cons r rs ih =>
    rcases loop_cons_cases xs k s r rs with ⟨hge, heq⟩ | ⟨-, -, heq⟩ | ⟨hlt, x, hr, heq⟩
    · rw [heq] at h
      cases h
      exact ⟨[], rfl, loop_of_le hge⟩
    · rw [heq] at h
      cases h
    · rw [heq] at h
      obtain ⟨used, rfl, hused⟩ := ih h
      exact ⟨r :: used, rfl, by rw [loop_cons_of_lt hlt hr, hused]⟩

/-- While the loop is drawing it has kept every value read. -/
theorem mem_of_loop_drawing (h : loop xs k s draws = .drawing s') :
    (∀ x ∈ s.elems, x ∈ s'.elems) ∧ ∀ r ∈ draws, ∀ x, xs[r]? = some x → x ∈ s'.elems := by
  induction draws generalizing s with
  | nil =>
    rcases lt_or_ge s.count k with hlt | hge
    · rw [loop_nil_of_lt hlt] at h
      cases h
      exact ⟨fun _ hx => hx, nofun⟩
    · rw [loop_of_le hge] at h
      cases h
  | cons r rs ih =>
    rcases loop_cons_cases xs k s r rs with ⟨-, heq⟩ | ⟨-, -, heq⟩ | ⟨-, x, hr, heq⟩
    · rw [heq] at h
      cases h
    · rw [heq] at h
      cases h
    · rw [heq] at h
      obtain ⟨hkept, hread⟩ := ih h
      refine ⟨fun y hy => hkept y (DrawnSet.mem_insert.mpr (Or.inr hy)), ?_⟩
      intro r' hr' y hy
      rcases List.mem_cons.mp hr' with rfl | hr'
      · rw [hr, Option.some.injEq] at hy
        exact hkept y (DrawnSet.mem_insert.mpr (Or.inl hy.symm))
      · exact hread r' hr' y hy

/-- Indices below the length never lead out of bounds. -/
theorem loop_ne_outOfBounds (hdraws : ∀ r ∈ draws, r < xs.length) :
    loop xs k s draws ≠ .outOfBounds := by
  induction draws generalizing s with
  | nil =>
    rcases lt_or_ge s.count k with hlt | hge
    · rw [loop_nil_of_lt hlt]
      nofun
    · rw [loop_of_le hge]
      nofun
  | cons r rs ih =>
    rcases loop_cons_cases xs k s r rs with ⟨-, heq⟩ | ⟨-, hnone, -⟩ | ⟨-, x, -, heq⟩
    · rw [heq]
      nofun
    · have hge : xs.length ≤ r := List.getElem?_eq_none_iff.mp hnone
      exact absurd (hdraws r List.mem_cons_self) (not_lt.mpr hge)
    · rw [heq]
      exact ih fun r' hr' => hdraws r' (List.mem_cons_of_mem r hr')

/-- **Termination.** If `xs` has at least `k` distinct values, every infinite sequence of
    indices in which all of `xs` occurs drives the loop out. -/
theorem exists_left_of_all_occur (hk : k ≤ xs.dedup.length) {f : ℕ → ℕ}
    (hlt : ∀ n, f n < xs.length) (hall : ∀ i < xs.length, ∃ n, f n = i) :
    ∃ n s, loop xs k .empty ((List.range n).map f) = .left s [] := by
  -- from some point on every index has occurred
  choose! g hg using hall
  obtain ⟨n, hn⟩ : ∃ n, ∀ i < xs.length, g i < n := by
    refine ⟨(Finset.range xs.length).sup g + 1, fun i hi => Nat.lt_succ_of_le ?_⟩
    exact Finset.le_sup (Finset.mem_range.mpr hi)
  have hdraws : ∀ r ∈ (List.range n).map f, r < xs.length := by
    intro r hr
    obtain ⟨m, -, rfl⟩ := List.mem_map.mp hr
    exact hlt m
  cases hloop : loop xs k .empty ((List.range n).map f) with
  | outOfBounds => exact absurd hloop (loop_ne_outOfBounds hdraws)
  | left s rest =>
    obtain ⟨used, hused, hleft⟩ := loop_used hloop
    refine ⟨used.length, s, ?_⟩
    have hrange : (List.range used.length).map f = used := by
      have hle : used.length ≤ n := by
        have hlen := congrArg List.length hused
        simp only [List.length_map, List.length_range, List.length_append] at hlen
        omega
      have htake : used = ((List.range n).map f).take used.length := by
        rw [hused, List.take_left]
      rw [← List.map_take, List.take_range, Nat.min_eq_left hle] at htake
      exact htake.symm
    rw [hrange, hleft]
  | drawing s =>
    -- then every value of `xs` is a member, which is too many
    have hmem : ∀ x ∈ xs, x ∈ s.elems := by
      intro x hx
      obtain ⟨i, hi⟩ := List.getElem?_of_mem hx
      have hlen : i < xs.length := (List.getElem?_eq_some_iff.mp hi).1
      refine (mem_of_loop_drawing hloop).2 i ?_ x hi
      exact List.mem_map.mpr ⟨g i, List.mem_range.mpr (hn i hlen), hg i hlen⟩
    have hcount : s.count < xs.dedup.length := (count_lt_of_drawing hloop).trans_le hk
    obtain ⟨x, hx, hnot⟩ := s.exists_mem_notMem xs hcount
    exact absurd (hmem x hx) hnot

/-- **Completeness.** Any values of `xs` that are not members yet can be collected, in any
    order. -/
theorem exists_draws_collecting {l : List α} (hl : l.Nodup) (hxs : ∀ x ∈ l, x ∈ xs)
    (s : DrawnSet α) (hnew : ∀ x ∈ l, x ∉ s.elems) :
    ∃ draws s', loop xs (s.count + l.length) s draws = .left s' [] ∧ s'.elems = s.elems ++ l := by
  induction l generalizing s with
  | nil => exact ⟨[], s, loop_of_le (le_refl _), (List.append_nil _).symm⟩
  | cons x l ih =>
    obtain ⟨hx, hl⟩ := List.nodup_cons.mp hl
    obtain ⟨r, hr⟩ := List.getElem?_of_mem (hxs x List.mem_cons_self)
    have hxnew : x ∉ s.elems := hnew x List.mem_cons_self
    have helems : (s.insert x).elems = s.elems ++ [x] := by simp [DrawnSet.insert, hxnew]
    have hcount := DrawnSet.count_insert_of_notMem hxnew
    obtain ⟨draws, s', hloop, hs'⟩ := ih hl (fun y hy => hxs y (List.mem_cons_of_mem x hy))
      (s.insert x) (by
        intro y hy hmem
        rcases DrawnSet.mem_insert.mp hmem with rfl | hold
        · exact hx hy
        · exact hnew y (List.mem_cons_of_mem x hy) hold)
    refine ⟨r :: draws, s', ?_, ?_⟩
    · rw [List.length_cons, loop_cons_of_lt (by omega) hr, ← hloop, hcount]
      congr 1
      omega
    · rw [hs', helems, List.append_assoc]; rfl

/-- If `xs` has at least `k` distinct values, some indices below its length drive the loop
    out, one for every member that is missing. -/
theorem exists_draws_missing (hk : k ≤ xs.dedup.length) (s : DrawnSet α) (hle : s.count ≤ k) :
    ∃ draws s', s.count + draws.length = k ∧ (∀ r ∈ draws, r < xs.length) ∧
      loop xs k s draws = .left s' [] := by
  -- on the number of members still missing
  obtain ⟨n, hn⟩ := Nat.exists_eq_add_of_le hle
  induction n generalizing s with
  | zero => exact ⟨[], s, by simpa using hn.symm, by simp, loop_of_le (by omega)⟩
  | succ n ih =>
    -- one more distinct value is still missing; draw it
    obtain ⟨x, hx, hnew⟩ := s.exists_mem_notMem xs (by omega)
    obtain ⟨r, hr, hrx⟩ := List.getElem_of_mem hx
    have hcount := DrawnSet.count_insert_of_notMem hnew
    obtain ⟨draws, s', hlen, hlt, hloop⟩ := ih (s.insert x) (by omega) (by omega)
    refine ⟨r :: draws, s', ?_, ?_, ?_⟩
    · rw [List.length_cons]
      omega
    · intro i hi
      rcases List.mem_cons.mp hi with rfl | hi
      · exact hr
      · exact hlt i hi
    · rw [loop_cons_of_lt (by omega) (List.getElem?_eq_some_iff.mpr ⟨hr, hrx⟩)]
      exact hloop

/-- **Progress.** If `xs` has at least `k` distinct values, some indices below its
    length drive the loop out, using all of them. -/
theorem exists_draws_left (hk : k ≤ xs.dedup.length) (s : DrawnSet α) (hle : s.count ≤ k) :
    ∃ draws s', (∀ r ∈ draws, r < xs.length) ∧ loop xs k s draws = .left s' [] := by
  obtain ⟨draws, s', -, hlt, hloop⟩ := exists_draws_missing hk s hle
  exact ⟨draws, s', hlt, hloop⟩

/-- **No way out.** If `xs` has fewer than `k` distinct values, no indices drive the
    loop out. -/
theorem loop_ne_left (hk : xs.dedup.length < k) (draws : List ℕ) (s' : DrawnSet α)
    (rest : List ℕ) : loop xs k .empty draws ≠ .left s' rest := by
  intro h
  obtain ⟨hcount, hmem⟩ := loop_left_spec (by simp) h
  have hle := DrawnSet.count_le_dedup s' xs
    fun x hx => (hmem x hx).resolve_left (by simp)
  omega

/-! ### The last index of a value -/

/-- The index of the last occurrence of `x`, if there is one. -/
def lastIndex (x : α) : List α → Option ℕ
  | []      => none
  | y :: ys =>
    match lastIndex x ys with
    | some i => some (i + 1)
    | none   => if y = x then some 0 else none

/-- Nothing is found exactly when the value does not occur. -/
theorem lastIndex_eq_none {x : α} {l : List α} : lastIndex x l = none ↔ x ∉ l := by
  induction l with
  | nil => simp [lastIndex]
  | cons y ys ih =>
    simp only [lastIndex, List.mem_cons, not_or]
    -- the tail is searched first: the head counts only when the tail has no `x`
    cases h : lastIndex x ys with
    | some i => simp [← ih, h]
    | none =>
      rw [h] at ih
      by_cases hy : y = x
      · simp [hy]
      · simp [hy, ih.mp rfl, Ne.symm hy]

/-- What is found is an occurrence, and none comes later. -/
theorem lastIndex_eq_some {x : α} {l : List α} {i : ℕ} (h : lastIndex x l = some i) :
    l[i]? = some x ∧ ∀ j, i < j → l[j]? ≠ some x := by
  induction l generalizing i with
  | nil => cases h
  | cons y ys ih =>
    simp only [lastIndex] at h
    cases hys : lastIndex x ys with
    | some m =>
      simp only [hys, Option.some.injEq] at h
      subst h
      obtain ⟨hat, hlater⟩ := ih hys
      refine ⟨by simpa using hat, fun j hj => ?_⟩
      obtain ⟨j', rfl⟩ : ∃ j', j = j' + 1 := ⟨j - 1, by omega⟩
      simpa using hlater j' (by omega)
    | none =>
      have hnot := lastIndex_eq_none.mp hys
      by_cases hy : y = x
      · simp only [hys, hy, if_true, Option.some.injEq] at h
        subst h
        refine ⟨by simp [hy], fun j hj hjx => hnot ?_⟩
        obtain ⟨j', rfl⟩ : ∃ j', j = j' + 1 := ⟨j - 1, by omega⟩
        exact List.mem_of_getElem? (by simpa using hjx)
      · simp [hys, hy] at h

/-- A value that occurs is found, below the length. -/
theorem exists_lastIndex {x : α} {l : List α} (h : x ∈ l) :
    ∃ i, lastIndex x l = some i ∧ i < l.length ∧ l[i]? = some x := by
  cases hi : lastIndex x l with
  | none => exact absurd h (lastIndex_eq_none.mp hi)
  | some i =>
    have hat := (lastIndex_eq_some hi).1
    exact ⟨i, rfl, (List.getElem?_eq_some_iff.mp hat).1, hat⟩

/-- The last member of a list is at its last index. -/
theorem lastIndex_getLast {x : α} {l : List α} (h : l.getLast? = some x) :
    lastIndex x l = some (l.length - 1) := by
  have hlast : l[l.length - 1]? = some x := by rw [← List.getLast?_eq_getElem?]; exact h
  obtain ⟨i, hi, hlt, -⟩ := exists_lastIndex (List.mem_of_getElem? hlast)
  rcases Nat.lt_or_ge i (l.length - 1) with hbefore | hge
  · exact absurd hlast ((lastIndex_eq_some hi).2 _ hbefore)
  · rw [hi]; congr 1; omega

end Sampling
