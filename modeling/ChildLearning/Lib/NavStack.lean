import Mathlib.Data.List.Basic

/-!
# Navigation stacks

A stack of screens over a root that is never popped.  `Supported needs base` says that
every screen that `needs` one has a `base` screen somewhere below it; it is kept by every
pop, and by every push that respects it.
-/

/-- A navigation stack: the root, and what was pushed over it, topmost first. -/
structure NavStack (κ : Type*) where
  root : κ
  pushed : List κ := []
  deriving DecidableEq, Repr

namespace NavStack

variable {κ : Type*}

/-- All screens, from the root to the top. -/
def viewControllers (nav : NavStack κ) : List κ := nav.root :: nav.pushed.reverse

/-- The screen on top. -/
def top (nav : NavStack κ) : κ := nav.pushed.head?.getD nav.root

/-- Push a screen. -/
def push (nav : NavStack κ) (c : κ) : NavStack κ := { nav with pushed := c :: nav.pushed }

/-- Pop the screen on top; popping the root does nothing. -/
def pop (nav : NavStack κ) : NavStack κ := { nav with pushed := nav.pushed.tail }

/-- Pop to the `i`-th screen from the root, which must be on the stack. -/
def popTo (nav : NavStack κ) (i : ℕ) : Option (NavStack κ) :=
  if i ≤ nav.pushed.length then
    some { nav with pushed := nav.pushed.drop (nav.pushed.length - i) }
  else none

/-- Pop to each of the screens that satisfy `p`, one after the other, in the order they
    had on the stack at the beginning. -/
def popToEach (p : κ → Bool) (nav : NavStack κ) : Option (NavStack κ) :=
  ((nav.viewControllers.zipIdx.filter fun c => p c.1).map Prod.snd).foldlM popTo nav

/-! ### Members -/

@[simp] theorem mem_viewControllers {nav : NavStack κ} {c : κ} :
    c ∈ nav.viewControllers ↔ c = nav.root ∨ c ∈ nav.pushed := by
  simp [viewControllers]

theorem mem_viewControllers_push {nav : NavStack κ} {c d : κ} :
    d ∈ (nav.push c).viewControllers ↔ d = c ∨ d ∈ nav.viewControllers := by
  simp [push, or_left_comm]

/-- What is left after a pop was there before. -/
theorem mem_of_mem_pop {nav : NavStack κ} {c : κ} (h : c ∈ nav.pop.viewControllers) :
    c ∈ nav.viewControllers := by
  rw [mem_viewControllers] at h ⊢
  exact h.imp_right fun hc => List.mem_of_mem_tail hc

/-- What a pop removes was on top. -/
theorem mem_pop_or_eq_top {nav : NavStack κ} {c : κ} (h : c ∈ nav.viewControllers) :
    c ∈ nav.pop.viewControllers ∨ c = nav.top := by
  rw [mem_viewControllers] at h ⊢
  obtain ⟨root, pushed⟩ := nav
  cases pushed with
  | nil => exact Or.inl h
  | cons d below =>
    rcases h with hroot | hc
    · exact Or.inl (Or.inl hroot)
    · rcases List.mem_cons.mp hc with hd | hbelow
      · exact Or.inr hd
      · exact Or.inl (Or.inr hbelow)

theorem top_mem (nav : NavStack κ) : nav.top ∈ nav.viewControllers := by
  rw [mem_viewControllers]
  obtain ⟨root, pushed⟩ := nav
  cases pushed with
  | nil => exact Or.inl rfl
  | cons d below => exact Or.inr List.mem_cons_self

/-- Popping to the only screen of a kind, the root, leaves the root. -/
theorem popToEach_root {p : κ → Bool} {nav : NavStack κ} (hroot : p nav.root = true)
    (hpushed : ∀ c ∈ nav.pushed, p c = false) : nav.popToEach p = some ⟨nav.root, []⟩ := by
  -- the root is at index 0, and no other screen passes the filter
  have hnone : (nav.pushed.reverse.zipIdx 1).filter (fun c => p c.1) = [] := by
    refine List.filter_eq_nil_iff.mpr fun c hc => ?_
    have hmem : c.1 ∈ nav.pushed := List.mem_reverse.mp (List.fst_mem_of_mem_zipIdx hc)
    simp [hpushed c.1 hmem]
  simp [popToEach, viewControllers, List.zipIdx_cons, hroot, hnone, popTo]

/-! ### Several pushes -/

/-- Push several screens; the last one ends on top. -/
def pushAll (nav : NavStack κ) (cs : List κ) : NavStack κ :=
  { nav with pushed := cs.reverse ++ nav.pushed }

theorem pushAll_concat (nav : NavStack κ) (cs : List κ) (c : κ) :
    nav.pushAll (cs ++ [c]) = (nav.pushAll cs).push c := by
  simp [pushAll, push]

@[simp] theorem pop_push (nav : NavStack κ) (c : κ) : (nav.push c).pop = nav := rfl

/-- The screen that was pushed last can be told from the stack. -/
theorem push_inj {nav : NavStack κ} {c d : κ} : nav.push c = nav.push d ↔ c = d := by
  simp [push]

theorem mem_viewControllers_pushAll {nav : NavStack κ} {cs : List κ} {c : κ} :
    c ∈ (nav.pushAll cs).viewControllers ↔ c ∈ cs ∨ c ∈ nav.viewControllers := by
  simp [pushAll, or_left_comm]

@[simp] theorem top_push (nav : NavStack κ) (c : κ) : (nav.push c).top = c := rfl

/-! ### What the screens are told -/

/-- What the screens make of a value `b` that they share when the stack changes: a screen that
    is pushed loads its view and appears, one that is uncovered appears. -/
def shows {β : Type*} (viewDidLoad viewWillAppear : κ → β → β) (before after : NavStack κ) (b : β) :
    β :=
  if before.pushed.length < after.pushed.length then
    viewWillAppear after.top (viewDidLoad after.top b)
  else if after.pushed.length < before.pushed.length then viewWillAppear after.top b
  else b

section Shows

variable {β : Type*} (viewDidLoad viewWillAppear : κ → β → β) (nav : NavStack κ) (b : β)

@[simp] theorem shows_self : nav.shows viewDidLoad viewWillAppear nav b = b := by
  simp [shows]

@[simp] theorem shows_push (c : κ) :
    nav.shows viewDidLoad viewWillAppear (nav.push c) b = viewWillAppear c (viewDidLoad c b) := by
  simp [shows, push, top]

/-- A stack that got shorter has uncovered a screen. -/
theorem shows_of_lt {after : NavStack κ} (h : after.pushed.length < nav.pushed.length) :
    nav.shows viewDidLoad viewWillAppear after b = viewWillAppear after.top b := by
  simp [shows, h, Nat.lt_asymm h]

end Shows

/-! ### Screens that need a base below -/

/-- Every screen that `needs` a base has one below. -/
def Supported (needs base : κ → Bool) : List κ → Prop
  | []         => True
  | c :: below => (needs c = true → ∃ d ∈ below, base d = true) ∧ Supported needs base below

variable {needs base : κ → Bool}

/-- A pop keeps the support. -/
theorem Supported.tail {pushed : List κ} (h : Supported needs base pushed) :
    Supported needs base pushed.tail := by
  cases pushed with
  | nil => trivial
  | cons c below => exact h.2

/-- A screen that needs a base and is on the stack has one on the stack. -/
theorem Supported.exists_base {pushed : List κ} (h : Supported needs base pushed) {c : κ}
    (hc : c ∈ pushed) (hneeds : needs c = true) : ∃ d ∈ pushed, base d = true := by
  induction pushed with
  | nil => cases hc
  | cons d below ih =>
    rcases List.mem_cons.mp hc with rfl | hc
    · obtain ⟨b, hb, hbase⟩ := h.1 hneeds
      exact ⟨b, List.mem_cons_of_mem _ hb, hbase⟩
    · obtain ⟨b, hb, hbase⟩ := ih h.2 hc
      exact ⟨b, List.mem_cons_of_mem _ hb, hbase⟩

/-- If a screen that needs a base, and is none itself, is on the stack, a pop leaves a
    base: the one below that screen. -/
theorem Supported.exists_base_tail {pushed : List κ} (h : Supported needs base pushed) {c : κ}
    (hc : c ∈ pushed) (hneeds : needs c = true) : ∃ d ∈ pushed.tail, base d = true := by
  cases pushed with
  | nil => cases hc
  | cons d below =>
    rcases List.mem_cons.mp hc with rfl | hc
    · exact h.1 hneeds
    · exact h.2.exists_base hc hneeds

end NavStack
