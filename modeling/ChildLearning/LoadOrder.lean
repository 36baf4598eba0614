import ChildLearning.Lib.Commuting
import ChildLearning.WordsLoading

namespace ChildLearning

open Transition Gather

/-!
# The order of the callbacks

The three fetches and the chains of the words run side by side, and their callbacks come in
any order.  Each callback has a slot (`LoadEvent.slot`) and comes once.  `sameUpToOrder_of_perm`
says that nothing but the order of the words depends on the order of the callbacks, and
`callbacks_of_run` that loading comes to an end, however its callbacks succeed or fail.
-/

/-- A callback without its result. -/
inductive LoadSlot where
  | fetchAlphabets
  | fetchNumbers
  | fetchWords
  | getDocument (i : ℕ)
  | downloadURL (i : ℕ)
  deriving DecidableEq, Repr

/-- Which callback it is. -/
def LoadEvent.slot : LoadEvent → LoadSlot
  | .fetchAlphabets _ => .fetchAlphabets
  | .fetchNumbers _   => .fetchNumbers
  | .fetchWords _     => .fetchWords
  | .getDocument i _  => .getDocument i
  | .downloadURL i _  => .downloadURL i

namespace Loader

/-- The callback can come now. -/
def Waits (l : Loader) : LoadSlot → Prop
  | .fetchAlphabets => l.fetchingAlphabets = true
  | .fetchNumbers   => l.fetchingNumbers = true
  | .fetchWords     => l.fetchingWords = true
  | .getDocument i  => ∃ chain, l.chains[i]? = some chain ∧ chain.stage = .getDocument
  | .downloadURL i  => ∃ chain path, l.chains[i]? = some chain ∧ chain.stage = .downloadURL path

/-- The callback has come. -/
def Came (l : Loader) : LoadSlot → Prop
  | .fetchAlphabets => l.fetchingAlphabets = false
  | .fetchNumbers   => l.fetchingNumbers = false
  | .fetchWords     => l.fetchingWords = false
  | .getDocument i  => l.fetchingWords = false ∧
      ∃ chain, l.chains[i]? = some chain ∧ chain.stage ≠ .getDocument
  | .downloadURL i  => l.fetchingWords = false ∧
      ∃ chain url, l.chains[i]? = some chain ∧ chain.stage = .completed url

/-- No chain has been started before the documents of the words are there. -/
def ChainsAfterFetch (l : Loader) : Prop := l.fetchingWords = true → l.chains = []

variable {collation : Collation} {l l' l₁ l₂ : Loader} {e f : LoadEvent} {slot : LoadSlot}

/-! ### One callback -/

/-- The three fetches, as inversions. -/
theorem step_fetchAlphabets {query : Option (List Document)}
    (h : step collation l (.fetchAlphabets query) = some l') :
    l.fetchingAlphabets = true ∧
      l' = { l with app := l.app.fetchAlphabets collation query, fetchingAlphabets := false } := by
  obtain ⟨hfetching, hs⟩ := Option.ite_none_right_eq_some.mp h
  exact ⟨hfetching, (Option.some.inj hs).symm⟩

theorem step_fetchNumbers {query : Option (List Document)}
    (h : step collation l (.fetchNumbers query) = some l') :
    l.fetchingNumbers = true ∧
      l' = { l with app := l.app.fetchNumbers collation query, fetchingNumbers := false } := by
  obtain ⟨hfetching, hs⟩ := Option.ite_none_right_eq_some.mp h
  exact ⟨hfetching, (Option.some.inj hs).symm⟩

theorem step_fetchWords {query : Option (List Document)}
    (h : step collation l (.fetchWords query) = some l') :
    l.fetchingWords = true ∧
      l' = { l with chains := AppDelegate.fetchWords query, fetchingWords := false } := by
  obtain ⟨hfetching, hs⟩ := Option.ite_none_right_eq_some.mp h
  exact ⟨hfetching, (Option.some.inj hs).symm⟩

/-- A callback for a chain that waits for it. -/
theorem step_getDocument_of {i : ℕ} {found : Bool} {chain : WordChain}
    (hchain : l.chains[i]? = some chain) (hstage : chain.stage = .getDocument) :
    step collation l (.getDocument i found)
      = some { l with chains := l.chains.set i (chain.getDocument found) } := by
  simp only [step, hchain, Option.bind_some, hstage]

theorem step_downloadURL_of {i : ℕ} {url : Option String} {chain : WordChain} {path : String}
    (hchain : l.chains[i]? = some chain) (hstage : chain.stage = .downloadURL path) :
    step collation l (.downloadURL i url) = some
      { l with
        app := { l.app with words := l.app.words ++ [AppDelegate.word chain.doc url] }
        chains := l.chains.set i { chain with stage := .completed url } } := by
  simp only [step, hchain, Option.bind_some, hstage]

/-- **When a callback can come**: whenever its slot waits, whatever the result. -/
theorem isSome_step_iff (collation : Collation) (l : Loader) (e : LoadEvent) :
    (step collation l e).isSome ↔ l.Waits e.slot := by
  cases e with
  | fetchAlphabets query => simp [step, LoadEvent.slot, Waits]
  | fetchNumbers query => simp [step, LoadEvent.slot, Waits]
  | fetchWords query => simp [step, LoadEvent.slot, Waits]
  | getDocument i found =>
    constructor
    · intro h
      obtain ⟨l', hl'⟩ := Option.isSome_iff_exists.mp h
      obtain ⟨chain, hchain, hstage, -⟩ := step_getDocument hl'
      exact ⟨chain, hchain, hstage⟩
    · rintro ⟨chain, hchain, hstage⟩
      exact Option.isSome_iff_exists.mpr ⟨_, step_getDocument_of hchain hstage⟩
  | downloadURL i url =>
    constructor
    · intro h
      obtain ⟨l', hl'⟩ := Option.isSome_iff_exists.mp h
      obtain ⟨chain, path, hchain, hstage, -⟩ := step_downloadURL hl'
      exact ⟨chain, path, hchain, hstage⟩
    · rintro ⟨chain, path, hchain, hstage⟩
      exact Option.isSome_iff_exists.mpr ⟨_, step_downloadURL_of hchain hstage⟩

theorem ChainsAfterFetch.step (hl : l.ChainsAfterFetch) (h : step collation l e = some l') :
    l'.ChainsAfterFetch := by
  cases e with
  | fetchAlphabets query => obtain ⟨-, rfl⟩ := step_fetchAlphabets h; exact hl
  | fetchNumbers query => obtain ⟨-, rfl⟩ := step_fetchNumbers h; exact hl
  | fetchWords query => obtain ⟨-, rfl⟩ := step_fetchWords h; exact nofun
  | getDocument i found =>
    obtain ⟨chain, hchain, -, rfl⟩ := step_getDocument h
    intro hfetching
    rw [hl hfetching] at hchain
    cases hchain
  | downloadURL i url =>
    obtain ⟨chain, path, hchain, -, rfl⟩ := step_downloadURL h
    intro hfetching
    rw [hl hfetching] at hchain
    cases hchain

/-- A chain that has been started says that the documents are there. -/
theorem ChainsAfterFetch.fetched (hl : l.ChainsAfterFetch) {i : ℕ} {chain : WordChain}
    (hchain : l.chains[i]? = some chain) : l.fetchingWords = false := by
  by_contra hfetching
  rw [hl (by simpa using hfetching)] at hchain
  cases hchain

/-- Right after a callback it has come. -/
theorem came_of_step (hl : l.ChainsAfterFetch) (h : step collation l e = some l') :
    l'.Came e.slot := by
  cases e with
  | fetchAlphabets query => obtain ⟨-, rfl⟩ := step_fetchAlphabets h; rfl
  | fetchNumbers query => obtain ⟨-, rfl⟩ := step_fetchNumbers h; rfl
  | fetchWords query => obtain ⟨-, rfl⟩ := step_fetchWords h; rfl
  | getDocument i found =>
    obtain ⟨chain, hchain, -, rfl⟩ := step_getDocument h
    have hi : i < l.chains.length := (List.getElem?_eq_some_iff.mp hchain).1
    refine ⟨hl.fetched hchain, chain.getDocument found, ?_, nofun⟩
    exact List.getElem?_set_self hi
  | downloadURL i url =>
    obtain ⟨chain, path, hchain, -, rfl⟩ := step_downloadURL h
    have hi : i < l.chains.length := (List.getElem?_eq_some_iff.mp hchain).1
    refine ⟨hl.fetched hchain, { chain with stage := .completed url }, url, ?_, rfl⟩
    exact List.getElem?_set_self hi

/-- A callback that has come does not wait. -/
theorem not_waits_of_came (h : l.Came slot) : ¬ l.Waits slot := by
  cases slot with
  | fetchAlphabets => exact fun hw => Bool.false_ne_true (h.symm.trans hw)
  | fetchNumbers => exact fun hw => Bool.false_ne_true (h.symm.trans hw)
  | fetchWords => exact fun hw => Bool.false_ne_true (h.symm.trans hw)
  | getDocument i =>
    obtain ⟨-, chain, hchain, hstage⟩ := h
    rintro ⟨chain', hchain', hstage'⟩
    rw [hchain, Option.some.injEq] at hchain'
    exact hstage (hchain' ▸ hstage')
  | downloadURL i =>
    obtain ⟨-, chain, url, hchain, hstage⟩ := h
    rintro ⟨chain', path, hchain', hstage'⟩
    rw [hchain, Option.some.injEq] at hchain'
    rw [← hchain', hstage] at hstage'
    cases hstage'

/-- What has come stays so, and does not come again. -/
theorem Came.step (hc : l.Came slot) (h : step collation l e = some l') :
    l'.Came slot ∧ e.slot ≠ slot := by
  have hwaits : l.Waits e.slot :=
    (isSome_step_iff collation l e).mp (Option.isSome_iff_exists.mpr ⟨l', h⟩)
  refine ⟨?_, fun heq => not_waits_of_came hc (heq ▸ hwaits)⟩
  cases e with
  | fetchAlphabets query =>
    obtain ⟨-, rfl⟩ := step_fetchAlphabets h
    cases slot <;> first | rfl | exact hc
  | fetchNumbers query =>
    obtain ⟨-, rfl⟩ := step_fetchNumbers h
    cases slot <;> first | rfl | exact hc
  | fetchWords query =>
    obtain ⟨hfetching, rfl⟩ := step_fetchWords h
    -- what chains have done they have done after the documents came
    cases slot with
    | fetchAlphabets => exact hc
    | fetchNumbers => exact hc
    | fetchWords => rfl
    | getDocument i => exact absurd (hfetching.symm.trans hc.1) Bool.noConfusion
    | downloadURL i => exact absurd (hfetching.symm.trans hc.1) Bool.noConfusion
  | getDocument i found =>
    obtain ⟨chain, hchain, hstage, rfl⟩ := step_getDocument h
    cases slot with
    | fetchAlphabets => exact hc
    | fetchNumbers => exact hc
    | fetchWords => exact hc
    | getDocument j =>
      obtain ⟨hfetched, other, hother, hlater⟩ := hc
      by_cases hij : i = j
      · subst hij
        rw [hchain, Option.some.injEq] at hother
        exact absurd (hother ▸ hstage) hlater
      · exact ⟨hfetched, other, (List.getElem?_set_ne hij).trans hother, hlater⟩
    | downloadURL j =>
      obtain ⟨hfetched, other, url, hother, hdone⟩ := hc
      by_cases hij : i = j
      · subst hij
        rw [hchain, Option.some.injEq] at hother
        rw [← hother, hstage] at hdone
        cases hdone
      · exact ⟨hfetched, other, url, (List.getElem?_set_ne hij).trans hother, hdone⟩
  | downloadURL i url =>
    obtain ⟨chain, path, hchain, hstage, rfl⟩ := step_downloadURL h
    have hi : i < l.chains.length := (List.getElem?_eq_some_iff.mp hchain).1
    cases slot with
    | fetchAlphabets => exact hc
    | fetchNumbers => exact hc
    | fetchWords => exact hc
    | getDocument j =>
      obtain ⟨hfetched, other, hother, hlater⟩ := hc
      by_cases hij : i = j
      · subst hij
        exact ⟨hfetched, { chain with stage := .completed url }, List.getElem?_set_self hi, nofun⟩
      · exact ⟨hfetched, other, (List.getElem?_set_ne hij).trans hother, hlater⟩
    | downloadURL j =>
      obtain ⟨hfetched, other, url', hother, hdone⟩ := hc
      by_cases hij : i = j
      · subst hij
        rw [hchain, Option.some.injEq] at hother
        rw [← hother, hstage] at hdone
        cases hdone
      · exact ⟨hfetched, other, url', (List.getElem?_set_ne hij).trans hother, hdone⟩

/-! ### Two callbacks -/

/-- The loader with another list of words. -/
def withWords (l : Loader) (words : List Words) : Loader :=
  { l with app := { l.app with words := words } }

/-- The same up to the order of the words. -/
def SameUpToOrder (l l' : Loader) : Prop :=
  ∃ words, l' = l.withWords words ∧ l.app.words.Perm words

theorem sameUpToOrder_refl (l : Loader) : SameUpToOrder l l := ⟨l.app.words, rfl, .refl _⟩

theorem sameUpToOrder_equivalence : Equivalence SameUpToOrder where
  refl := sameUpToOrder_refl
  symm := by
    rintro l _ ⟨words, rfl, hperm⟩
    exact ⟨l.app.words, rfl, hperm.symm⟩
  trans := by
    rintro l _ _ ⟨words, rfl, hperm⟩ ⟨words', rfl, hperm'⟩
    exact ⟨words', rfl, hperm.trans hperm'⟩

/-- A callback does the same whatever the order of the words. -/
theorem SameUpToOrder.step (hR : SameUpToOrder l l') (h : step collation l e = some l₁) :
    ∃ l₂, Loader.step collation l' e = some l₂ ∧ SameUpToOrder l₁ l₂ := by
  obtain ⟨words, rfl, hperm⟩ := hR
  cases e with
  | fetchAlphabets query =>
    obtain ⟨hfetching, rfl⟩ := step_fetchAlphabets h
    refine ⟨_, if_pos hfetching, words, ?_, ?_⟩
    · cases query <;> rfl
    · cases query <;> exact hperm
  | fetchNumbers query =>
    obtain ⟨hfetching, rfl⟩ := step_fetchNumbers h
    refine ⟨_, if_pos hfetching, words, ?_, ?_⟩
    · cases query <;> rfl
    · cases query <;> exact hperm
  | fetchWords query =>
    obtain ⟨hfetching, rfl⟩ := step_fetchWords h
    exact ⟨_, if_pos hfetching, words, rfl, hperm⟩
  | getDocument i found =>
    obtain ⟨chain, hchain, hstage, rfl⟩ := step_getDocument h
    exact ⟨_, step_getDocument_of (l := l.withWords words) hchain hstage, words, rfl, hperm⟩
  | downloadURL i url =>
    obtain ⟨chain, path, hchain, hstage, rfl⟩ := step_downloadURL h
    exact ⟨_, step_downloadURL_of (l := l.withWords words) hchain hstage,
      words ++ [AppDelegate.word chain.doc url], rfl, hperm.append_right _⟩

/-- `e` and `f` can happen in either order, with the same result up to the order of the
    words. -/
def Commute (collation : Collation) (l : Loader) (e f : LoadEvent) : Prop :=
  ∀ l₁ l₂, step collation l e = some l₁ → step collation l f = some l₂ →
    ∃ l₁' l₂', step collation l₁ f = some l₁' ∧ step collation l₂ e = some l₂' ∧
      SameUpToOrder l₁' l₂'

theorem Commute.symm (h : Commute collation l e f) : Commute collation l f e := by
  intro l₁ l₂ h₁ h₂
  obtain ⟨l₁', l₂', h₁', h₂', hR⟩ := h l₂ l₁ h₂ h₁
  exact ⟨l₂', l₁', h₂', h₁', sameUpToOrder_equivalence.symm hR⟩

/-- The letters, and any other callback. -/
theorem commute_fetchAlphabets {query : Option (List Document)}
    (hne : (LoadEvent.fetchAlphabets query).slot ≠ f.slot) :
    Commute collation l (.fetchAlphabets query) f := by
  intro l₁ l₂ h₁ h₂
  obtain ⟨hfetching, rfl⟩ := step_fetchAlphabets h₁
  cases f with
  | fetchAlphabets query' => exact absurd rfl hne
  | fetchNumbers query' =>
    obtain ⟨hfetching', rfl⟩ := step_fetchNumbers h₂
    refine ⟨_, _, if_pos hfetching', if_pos hfetching, ?_⟩
    cases query <;> cases query' <;> exact sameUpToOrder_refl _
  | fetchWords query' =>
    obtain ⟨hfetching', rfl⟩ := step_fetchWords h₂
    exact ⟨_, _, if_pos hfetching', if_pos hfetching, sameUpToOrder_refl _⟩
  | getDocument i found =>
    obtain ⟨chain, hchain, hstage, rfl⟩ := step_getDocument h₂
    exact ⟨_, _, step_getDocument_of hchain hstage, if_pos hfetching, sameUpToOrder_refl _⟩
  | downloadURL i url =>
    obtain ⟨chain, path, hchain, hstage, rfl⟩ := step_downloadURL h₂
    refine ⟨_, _, step_downloadURL_of hchain hstage, if_pos hfetching, ?_⟩
    cases query <;> exact sameUpToOrder_refl _

/-- The numbers, and any other callback. -/
theorem commute_fetchNumbers {query : Option (List Document)}
    (hne : (LoadEvent.fetchNumbers query).slot ≠ f.slot) :
    Commute collation l (.fetchNumbers query) f := by
  cases f with
  | fetchAlphabets query' => exact (commute_fetchAlphabets hne.symm).symm
  | fetchNumbers query' => exact absurd rfl hne
  | fetchWords query' =>
    intro l₁ l₂ h₁ h₂
    obtain ⟨hfetching, rfl⟩ := step_fetchNumbers h₁
    obtain ⟨hfetching', rfl⟩ := step_fetchWords h₂
    exact ⟨_, _, if_pos hfetching', if_pos hfetching, sameUpToOrder_refl _⟩
  | getDocument i found =>
    intro l₁ l₂ h₁ h₂
    obtain ⟨hfetching, rfl⟩ := step_fetchNumbers h₁
    obtain ⟨chain, hchain, hstage, rfl⟩ := step_getDocument h₂
    exact ⟨_, _, step_getDocument_of hchain hstage, if_pos hfetching, sameUpToOrder_refl _⟩
  | downloadURL i url =>
    intro l₁ l₂ h₁ h₂
    obtain ⟨hfetching, rfl⟩ := step_fetchNumbers h₁
    obtain ⟨chain, path, hchain, hstage, rfl⟩ := step_downloadURL h₂
    refine ⟨_, _, step_downloadURL_of hchain hstage, if_pos hfetching, ?_⟩
    cases query <;> exact sameUpToOrder_refl _

/-- The documents of the words: while they are to come, no chain waits for a callback. -/
theorem commute_fetchWords {query : Option (List Document)} (hl : l.ChainsAfterFetch)
    (hne : (LoadEvent.fetchWords query).slot ≠ f.slot) : Commute collation l (.fetchWords query) f := by
  cases f with
  | fetchAlphabets query' => exact (commute_fetchAlphabets hne.symm).symm
  | fetchNumbers query' => exact (commute_fetchNumbers hne.symm).symm
  | fetchWords query' => exact absurd rfl hne
  | getDocument i found =>
    intro l₁ l₂ h₁ h₂
    obtain ⟨hfetching, -⟩ := step_fetchWords h₁
    obtain ⟨chain, hchain, -, -⟩ := step_getDocument h₂
    exact absurd (hfetching.symm.trans (hl.fetched hchain)) Bool.noConfusion
  | downloadURL i url =>
    intro l₁ l₂ h₁ h₂
    obtain ⟨hfetching, -⟩ := step_fetchWords h₁
    obtain ⟨chain, path, hchain, -, -⟩ := step_downloadURL h₂
    exact absurd (hfetching.symm.trans (hl.fetched hchain)) Bool.noConfusion

/-- A document that is looked up, and a callback of another chain. -/
theorem commute_getDocument {i : ℕ} {found : Bool} (hl : l.ChainsAfterFetch)
    (hne : (LoadEvent.getDocument i found).slot ≠ f.slot) :
    Commute collation l (.getDocument i found) f := by
  cases f with
  | fetchAlphabets query => exact (commute_fetchAlphabets hne.symm).symm
  | fetchNumbers query => exact (commute_fetchNumbers hne.symm).symm
  | fetchWords query => exact (commute_fetchWords hl hne.symm).symm
  | getDocument j found' =>
    intro l₁ l₂ h₁ h₂
    obtain ⟨chain, hchain, hstage, rfl⟩ := step_getDocument h₁
    obtain ⟨other, hother, hstage', rfl⟩ := step_getDocument h₂
    have hij : i ≠ j := fun heq => hne (heq ▸ rfl)
    refine ⟨_, _, step_getDocument_of ((List.getElem?_set_ne hij).trans hother) hstage',
      step_getDocument_of ((List.getElem?_set_ne hij.symm).trans hchain) hstage, ?_⟩
    refine ⟨l.app.words, ?_, .refl _⟩
    rw [List.set_comm _ _ hij]
    rfl
  | downloadURL j url =>
    intro l₁ l₂ h₁ h₂
    obtain ⟨chain, hchain, hstage, rfl⟩ := step_getDocument h₁
    obtain ⟨other, path, hother, hstage', rfl⟩ := step_downloadURL h₂
    -- a chain asks for its url after its document only
    have hij : i ≠ j := by
      rintro rfl
      rw [hchain, Option.some.injEq] at hother
      rw [← hother, hstage] at hstage'
      cases hstage'
    refine ⟨_, _, step_downloadURL_of ((List.getElem?_set_ne hij).trans hother) hstage',
      step_getDocument_of ((List.getElem?_set_ne hij.symm).trans hchain) hstage, ?_⟩
    refine ⟨l.app.words ++ [AppDelegate.word other.doc url], ?_, .refl _⟩
    rw [List.set_comm _ _ hij]
    rfl

/-- A url, and a callback of another chain: two words are appended in one order or the
    other. -/
theorem commute_downloadURL {i : ℕ} {url : Option String} (hl : l.ChainsAfterFetch)
    (hne : (LoadEvent.downloadURL i url).slot ≠ f.slot) : Commute collation l (.downloadURL i url) f := by
  cases f with
  | fetchAlphabets query => exact (commute_fetchAlphabets hne.symm).symm
  | fetchNumbers query => exact (commute_fetchNumbers hne.symm).symm
  | fetchWords query => exact (commute_fetchWords hl hne.symm).symm
  | getDocument j found => exact (commute_getDocument hl hne.symm).symm
  | downloadURL j url' =>
    intro l₁ l₂ h₁ h₂
    obtain ⟨chain, path, hchain, hstage, rfl⟩ := step_downloadURL h₁
    obtain ⟨other, path', hother, hstage', rfl⟩ := step_downloadURL h₂
    have hij : i ≠ j := fun heq => hne (heq ▸ rfl)
    refine ⟨_, _, step_downloadURL_of ((List.getElem?_set_ne hij).trans hother) hstage',
      step_downloadURL_of ((List.getElem?_set_ne hij.symm).trans hchain) hstage, ?_⟩
    refine ⟨l.app.words ++ [AppDelegate.word other.doc url'] ++ [AppDelegate.word chain.doc url],
      ?_, ?_⟩
    · rw [List.set_comm _ _ hij]
      rfl
    · show (l.app.words ++ [_] ++ [_]).Perm (l.app.words ++ [_] ++ [_])
      rw [List.append_assoc, List.append_assoc]
      exact List.Perm.append_left _ (List.Perm.swap _ _ [])

/-- **Any two different callbacks commute.** -/
theorem commute_of_ne (hl : l.ChainsAfterFetch) (hne : e.slot ≠ f.slot) :
    Commute collation l e f := by
  cases e with
  | fetchAlphabets query => exact commute_fetchAlphabets hne
  | fetchNumbers query => exact commute_fetchNumbers hne
  | fetchWords query => exact commute_fetchWords hl hne
  | getDocument i found => exact commute_getDocument hl hne
  | downloadURL i url => exact commute_downloadURL hl hne

/-- The callbacks of the loader commute. -/
theorem commuting (collation : Collation) :
    Commuting (step collation) ChainsAfterFetch (fun e f => e.slot ≠ f.slot) SameUpToOrder where
  equiv := sameUpToOrder_equivalence
  keep hl h := hl.step h
  congr hR h := hR.step h
  diamond hl hne h₁ h₂ := commute_of_ne hl hne _ _ h₁ h₂

/-- A callback comes once. -/
theorem slot_ne_of_run {t : Loader} {es : List LoadEvent} (hl : l.ChainsAfterFetch)
    (h : run (step collation) l (e :: es) = some t) : ∀ f ∈ es, e.slot ≠ f.slot :=
  ne_of_used LoadEvent.slot Came (fun hl h => hl.step h) came_of_step (fun _ h hc => hc.step h) hl h

/-- **The order of the callbacks.**  Two runs from the launch with the same callbacks, in any
    two orders: the letters, the numbers, the state of every fetch and of every chain are
    the same, and the words are the same up to their order. -/
theorem sameUpToOrder_of_perm {es fs : List LoadEvent} (hperm : es.Perm fs)
    (hes : run (step collation) launch es = some l) (hfs : run (step collation) launch fs = some l') :
    SameUpToOrder l l' :=
  (commuting collation).run_perm slot_ne_of_run (fun _ => rfl) hperm hes hfs

/-- The same callbacks, the first chain completing first. -/
def inOrder : List LoadEvent :=
  [.fetchWords (some threeDocuments), .getDocument 0 true, .getDocument 1 true,
    .downloadURL 0 none, .downloadURL 1 (some "https://images/cow")]

theorem sameUpToOrder_of_perm_overlapping :
    ∃ l l', run (step ⟨fun _ _ => false, fun _ _ => false⟩) launch overlapping = some l ∧
      run (step ⟨fun _ _ => false, fun _ _ => false⟩) launch inOrder = some l' ∧
      l.app.words = [⟨"", "https://images/cow"⟩, ⟨"Cat", ""⟩] ∧
      l'.app.words = [⟨"Cat", ""⟩, ⟨"", "https://images/cow"⟩] ∧ SameUpToOrder l l' := by
  obtain ⟨l, l', hrun, hrun', hwords, hwords'⟩ : ∃ l l',
      run (step ⟨fun _ _ => false, fun _ _ => false⟩) launch overlapping = some l ∧
      run (step ⟨fun _ _ => false, fun _ _ => false⟩) launch inOrder = some l' ∧
      l.app.words = [⟨"", "https://images/cow"⟩, ⟨"Cat", ""⟩] ∧
      l'.app.words = [⟨"Cat", ""⟩, ⟨"", "https://images/cow"⟩] := ⟨_, _, rfl, rfl, rfl, rfl⟩
  have hperm : overlapping.Perm inOrder := ((((List.Perm.swap _ _ []).cons _).cons _).cons _)
  exact ⟨l, l', hrun, hrun', hwords, hwords', sameUpToOrder_of_perm hperm hrun hrun'⟩

/-! ### The end of loading -/

end Loader

/-- How many callbacks of its own a chain waits for. -/
def WordChain.remaining (chain : WordChain) : ℕ :=
  match chain.stage with
  | .getDocument   => 2
  | .downloadURL _ => 1
  | .completed _   => 0

/-- A chain waits for nothing exactly when it has completed. -/
theorem WordChain.remaining_eq_zero_iff {chain : WordChain} :
    chain.remaining = 0 ↔ ∃ url, chain.stage = .completed url := by
  unfold remaining
  cases chain.stage <;> simp

namespace Loader

/-- How many callbacks are still to come, as far as is known: the chains of the words are
    not known before the documents. -/
def remaining (l : Loader) : ℕ :=
  l.fetchingAlphabets.toNat + l.fetchingNumbers.toNat + l.fetchingWords.toNat +
    (l.chains.map WordChain.remaining).sum

/-- The chains of documents that have just come wait for two callbacks each. -/
theorem sum_remaining_fetchWords (query : Option (List Document)) :
    ((AppDelegate.fetchWords query).map WordChain.remaining).sum
      = 2 * (AppDelegate.fetchWords query).length := by
  have htwo : ∀ chain ∈ AppDelegate.fetchWords query, chain.remaining = 2 := by
    intro chain hchain
    rw [WordChain.remaining, (mem_fetchWords hchain).2]
  rw [List.map_congr_left htwo, List.map_const', List.sum_replicate_nat, Nat.mul_comm]

/-- One callback is one less to come; the documents of the words bring their chains. -/
theorem remaining_of_step (hl : l.ChainsAfterFetch) (h : step collation l e = some l') :
    l'.remaining + 1 + 2 * l.chains.length = l.remaining + 2 * l'.chains.length := by
  cases e with
  | fetchAlphabets query =>
    obtain ⟨hfetching, rfl⟩ := step_fetchAlphabets h
    simp only [remaining, hfetching, Bool.toNat_true, Bool.toNat_false]
    omega
  | fetchNumbers query =>
    obtain ⟨hfetching, rfl⟩ := step_fetchNumbers h
    simp only [remaining, hfetching, Bool.toNat_true, Bool.toNat_false]
    omega
  | fetchWords query =>
    obtain ⟨hfetching, rfl⟩ := step_fetchWords h
    simp only [remaining, hfetching, hl hfetching, sum_remaining_fetchWords, Bool.toNat_true,
      Bool.toNat_false, List.map_nil, List.sum_nil, List.length_nil]
    omega
  | getDocument i found =>
    obtain ⟨chain, hchain, hstage, rfl⟩ := step_getDocument h
    have hsum := sum_map_set WordChain.remaining hchain (chain.getDocument found)
    have hbefore : chain.remaining = 2 := by rw [WordChain.remaining, hstage]
    have hafter : (chain.getDocument found).remaining = 1 := rfl
    simp only [remaining, List.length_set]
    omega
  | downloadURL i url =>
    obtain ⟨chain, path, hchain, hstage, rfl⟩ := step_downloadURL h
    have hsum := sum_map_set WordChain.remaining hchain { chain with stage := .completed url }
    have hbefore : chain.remaining = 1 := by rw [WordChain.remaining, hstage]
    have hafter : ({ chain with stage := .completed url } : WordChain).remaining = 0 := rfl
    simp only [remaining, List.length_set]
    omega

/-- The callbacks of a run, those that have come and those that are still to come. -/
theorem length_add_remaining {es : List LoadEvent} (h : run (step collation) launch es = some l) :
    l.ChainsAfterFetch ∧ es.length + l.remaining = 3 + 2 * l.chains.length := by
  refine run_history (I := fun es l => l.ChainsAfterFetch ∧
    es.length + l.remaining = 3 + 2 * l.chains.length) ?_ ⟨fun _ => rfl, rfl⟩ h
  rintro es s e s' - ⟨hs, hcount⟩ hstep
  refine ⟨hs.step hstep, ?_⟩
  have hone := remaining_of_step hs hstep
  rw [List.length_append, List.length_singleton]
  omega

/-- Nothing is to come when the fetches have ended and every chain has completed. -/
theorem remaining_eq_zero {l : Loader} :
    l.remaining = 0 ↔ (l.fetchingAlphabets = false ∧ l.fetchingNumbers = false ∧
      l.fetchingWords = false) ∧ ∀ chain ∈ l.chains, ∃ url, chain.stage = .completed url := by
  simp only [remaining, Nat.add_eq_zero_iff, Bool.toNat_eq_zero, List.sum_eq_zero_iff_forall_eq_nat,
    List.forall_mem_map, WordChain.remaining_eq_zero_iff, and_assoc]

/-- Nothing is to come exactly when no callback can come. -/
theorem remaining_eq_zero_iff_waits (l : Loader) : l.remaining = 0 ↔ ∀ slot, ¬ l.Waits slot := by
  rw [remaining_eq_zero]
  constructor
  · rintro ⟨⟨halphabets, hnumbers, hwords⟩, hchains⟩ slot hwaits
    cases slot with
    | fetchAlphabets => exact Bool.false_ne_true (halphabets.symm.trans hwaits)
    | fetchNumbers => exact Bool.false_ne_true (hnumbers.symm.trans hwaits)
    | fetchWords => exact Bool.false_ne_true (hwords.symm.trans hwaits)
    | getDocument i =>
      obtain ⟨chain, hchain, hstage⟩ := hwaits
      obtain ⟨url, hurl⟩ := hchains chain (List.mem_of_getElem? hchain)
      exact Stage.noConfusion (hstage.symm.trans hurl)
    | downloadURL i =>
      obtain ⟨chain, path, hchain, hstage⟩ := hwaits
      obtain ⟨url, hurl⟩ := hchains chain (List.mem_of_getElem? hchain)
      exact Stage.noConfusion (hstage.symm.trans hurl)
  · intro hnone
    refine ⟨⟨?_, ?_, ?_⟩, fun chain hchain => ?_⟩
    · exact Bool.eq_false_iff.mpr (hnone .fetchAlphabets)
    · exact Bool.eq_false_iff.mpr (hnone .fetchNumbers)
    · exact Bool.eq_false_iff.mpr (hnone .fetchWords)
    · -- a chain that has not completed waits for one of its two callbacks
      obtain ⟨i, hi⟩ := List.mem_iff_getElem?.mp hchain
      cases hstage : chain.stage with
      | getDocument => exact absurd ⟨chain, hi, hstage⟩ (hnone (.getDocument i))
      | downloadURL path => exact absurd ⟨chain, path, hi, hstage⟩ (hnone (.downloadURL i))
      | completed url => exact ⟨url, rfl⟩

/-- **Loading comes to an end.**  In every run: there are at most three callbacks and two
    for each chain; exactly when all of them have come can none come, and then every chain
    has completed, and has left one entry, with the title of its document and the url that it has
    completed with; and whether a callback can come does not depend on its result. -/
theorem callbacks_of_run {es : List LoadEvent} (h : run (step collation) launch es = some l) :
    es.length ≤ 3 + 2 * l.chains.length ∧
    (es.length = 3 + 2 * l.chains.length ↔ ∀ e, step collation l e = none) ∧
    (es.length = 3 + 2 * l.chains.length → ∃ url : WordChain → Option String,
      (∀ chain ∈ l.chains, chain.stage = .completed (url chain)) ∧
        l.app.words.Perm (l.chains.map fun chain =>
          ⟨(chain.doc.string? "title").getD "", (url chain).getD ""⟩)) ∧
    (∀ e f, e.slot = f.slot → (step collation l e).isSome → (step collation l f).isSome) := by
  obtain ⟨hl, hcount⟩ := length_add_remaining h
  have hend : es.length = 3 + 2 * l.chains.length ↔ l.remaining = 0 := by omega
  refine ⟨by omega, ?_, fun hall => ?_, fun e f hslot he => ?_⟩
  · rw [hend, remaining_eq_zero_iff_waits]
    refine ⟨fun hnone e => ?_, fun hnone slot hwaits => ?_⟩
    · rw [← Option.not_isSome_iff_eq_none, isSome_step_iff]
      exact hnone e.slot
    · obtain ⟨e, rfl⟩ : ∃ e : LoadEvent, e.slot = slot := by
        cases slot with
        | fetchAlphabets => exact ⟨.fetchAlphabets none, rfl⟩
        | fetchNumbers => exact ⟨.fetchNumbers none, rfl⟩
        | fetchWords => exact ⟨.fetchWords none, rfl⟩
        | getDocument i => exact ⟨.getDocument i false, rfl⟩
        | downloadURL i => exact ⟨.downloadURL i none, rfl⟩
      have hsome := (isSome_step_iff collation l e).mpr hwaits
      rw [hnone e] at hsome
      cases hsome
  · -- every chain has completed, and each has left one entry
    have hcompleted := (remaining_eq_zero.mp (hend.mp hall)).2
    choose! url hstage using hcompleted
    refine ⟨url, hstage, ?_⟩
    have hentries : l.chains.filterMap WordChain.entry?
        = l.chains.map fun chain => ⟨(chain.doc.string? "title").getD "", (url chain).getD ""⟩ := by
      rw [← List.filterMap_eq_map]
      refine List.filterMap_congr fun chain hchain => ?_
      rw [WordChain.entry?, hstage chain hchain]
      rfl
    rw [← hentries]
    exact (accounted_of_run h).gathered
  · rw [isSome_step_iff] at he ⊢
    exact hslot ▸ he

theorem callbacks_of_run_overlapping :
    ∃ l, run (step ⟨fun _ _ => false, fun _ _ => false⟩) launch overlapping = some l ∧
      overlapping.length ≤ 3 + 2 * l.chains.length := by
  obtain ⟨l, hrun⟩ : ∃ l, run (step ⟨fun _ _ => false, fun _ _ => false⟩) launch overlapping = some l :=
    ⟨_, rfl⟩
  exact ⟨l, hrun, (callbacks_of_run hrun).1⟩

end Loader

end ChildLearning
