import ChildLearning.LibraryScreens

namespace ChildLearning

open Transition

/-!
# Browsing the library while it loads

The machine behind the library claims: the callbacks of the loader interleave with
opening `ButtonsViewController`s from Home, laying out cells and selecting rows.  A
screen opened in words mode counts and selects on its own copy of the words but lays
out cells from the live list.

The file shows that this never goes wrong: the copy stays a prefix of the live list
(`Loaded`), so what a cell shows is what its row hands to `SpeakViewController`
(`tiles_agree`).
-/

/-- The running app, as far as the library screens go: the screens opened so far, and
    every cell laid out and every `SpeakViewController` pushed, each with the number of
    the screen and the row. -/
structure Browsing where
  loader : Loader := .launch
  opened : List ButtonsViewController := []
  cells : List (ℕ × ℕ × ButtonCollectionViewCell) := []
  speaking : List (ℕ × ℕ × SpeakViewController) := []

/-- One event; `i` is the number of a screen opened before. -/
inductive BrowseEvent where
  | load (callback : LoadEvent)
  | clicked (button : HomeButton)
  | cellForItemAt (i row : ℕ) (dequeued : ButtonCollectionViewCell)
  | didSelectItemAt (i row : ℕ)

namespace Browsing

/-- The app has just been launched. -/
def launch : Browsing := {}

/-- One event.  UIKit asks for rows below `numberOfItemsInSection` only. -/
def step (collation : Collation) (capitalized : String → String) (s : Browsing) :
    BrowseEvent → Option Browsing
  | .load callback =>
    (s.loader.step collation callback).map fun loader => { s with loader := loader }
  | .clicked button =>
    -- the lists are copied here; what is loaded later reaches the screen only as `app.words`
    some { s with opened := s.opened ++ [button.destination.viewDidLoad s.loader.app] }
  | .cellForItemAt i row dequeued =>
    s.opened[i]?.bind fun vc =>
      if row < vc.numberOfItemsInSection then
        (vc.cellForItemAt capitalized s.loader.app row dequeued).map fun cell =>
          { s with cells := s.cells ++ [(i, row, cell)] }
      else none
  | .didSelectItemAt i row =>
    s.opened[i]?.bind fun vc =>
      if row < vc.numberOfItemsInSection then
        ((vc.didSelectItemAt row).bind (SpeakViewController.viewDidLoad capitalized)).map fun speak =>
          { s with speaking := s.speaking ++ [(i, row, speak)] }
      else none

end Browsing

/-! ### One screen -/

namespace ButtonsViewController

/-- The item of a row, on the screen's own lists. -/
def item (capitalized : String → String) (vc : ButtonsViewController) (row : ℕ) : Option Item :=
  if vc.isWords then vc.words[row]?.map fun word => .image word.Name
  else vc.arr[row]?.map fun str => .text (capitalized str)

/-- The flags are those of a button of Home, and the copy of the words is a prefix of the
    live list. -/
structure Loaded (vc : ButtonsViewController) (app : AppDelegate) : Prop where
  mode : ∃ button : HomeButton, vc.isWords = button.destination.isWords ∧
    vc.isAlphabets = button.destination.isAlphabets ∧ vc.isNumbers = button.destination.isNumbers
  copy : vc.words <+: app.words

/-- `speak` was handed this row: the word itself, or the string. -/
structure Handed (capitalized : String → String) (vc : ButtonsViewController) (row : ℕ)
    (speak : SpeakViewController) : Prop where
  shows : vc.item capitalized row = some speak.shows
  branch : speak.takesWordBranch = vc.isWords
  word : vc.isWords = true →
    ∃ word, speak.word = some word ∧ speak.strWord = word.title ∧ speak.shows = .image word.Name
  text : vc.isWords = false → speak.shows = .text (capitalized speak.strWord)

variable {capitalized : String → String} {app : AppDelegate} {vc : ButtonsViewController} {row : ℕ}

/-- A screen is loaded right after `viewDidLoad`. -/
theorem loaded_viewDidLoad (app : AppDelegate) (button : HomeButton) :
    (button.destination.viewDidLoad app).Loaded app := by
  cases button with
  | wordClicked => exact ⟨⟨.wordClicked, rfl, rfl, rfl⟩, List.prefix_refl _⟩
  | alphabetClicked => exact ⟨⟨.alphabetClicked, rfl, rfl, rfl⟩, List.nil_prefix⟩
  | numberClicked => exact ⟨⟨.numberClicked, rfl, rfl, rfl⟩, List.nil_prefix⟩

/-- A screen stays loaded while the live list grows. -/
theorem Loaded.mono {app' : AppDelegate} (h : vc.Loaded app) (hgrow : app.words <+: app'.words) :
    vc.Loaded app' :=
  ⟨h.mode, h.copy.trans hgrow⟩

/-- **A cell.** For every row the cell is laid out, and shows the item of the row. -/
theorem exists_cellForItemAt (h : vc.Loaded app) (hrow : row < vc.numberOfItemsInSection)
    (dequeued : ButtonCollectionViewCell) :
    ∃ cell, vc.cellForItemAt capitalized app row dequeued = some cell ∧
      vc.item capitalized row = some cell.shows := by
  unfold numberOfItemsInSection at hrow
  cases hw : vc.isWords with
  | true =>
    rw [hw, if_pos rfl] at hrow
    -- the live list agrees with the copy below the copy's length
    have hlive : app.words[row]? = some vc.words[row] :=
      List.prefix_iff_getElem?.mp h.copy row hrow
    have hcopy : vc.words[row]? = some vc.words[row] := List.getElem?_eq_getElem hrow
    simp only [cellForItemAt, item, hw, hlive, hcopy, if_true, Option.map_some]
    exact ⟨_, rfl, rfl⟩
  | false =>
    rw [hw, if_neg nofun] at hrow
    have harr : vc.arr[row]? = some vc.arr[row] := List.getElem?_eq_getElem hrow
    simp only [cellForItemAt, item, hw, harr, Bool.false_eq_true, if_false, Option.map_some]
    exact ⟨_, rfl, rfl⟩

/-- With the flags of a Home button exactly the words are spoken with a picture. -/
theorem Loaded.isWords_eq (h : vc.Loaded app) :
    vc.isWords = (!vc.isNumbers && !vc.isAlphabets) := by
  obtain ⟨button, hw, ha, hn⟩ := h.mode
  rw [hw, ha, hn]
  cases button <;> rfl

/-- **A selection.** For every row a `SpeakViewController` is pushed and loads, and it was
    handed that row. -/
theorem exists_didSelectItemAt (h : vc.Loaded app) (hrow : row < vc.numberOfItemsInSection) :
    ∃ speak, (vc.didSelectItemAt row).bind (SpeakViewController.viewDidLoad capitalized) = some speak ∧
      vc.Handed capitalized row speak := by
  unfold numberOfItemsInSection at hrow
  have hflags := h.isWords_eq
  cases hw : vc.isWords with
  | true =>
    rw [hw, if_pos rfl] at hrow
    have hcopy : vc.words[row]? = some vc.words[row] := List.getElem?_eq_getElem hrow
    obtain ⟨speak, hload, hshows, hstr, hword, hbranch⟩ :=
      @SpeakViewController.viewDidLoad_of_word capitalized
        { isWord := true, isAlphabets := vc.isAlphabets, isNumbers := vc.isNumbers,
          strWord := vc.words[row].title, word := some vc.words[row] } _
        (hflags.symm.trans hw) rfl
    refine ⟨speak, by simp only [didSelectItemAt, hw, hcopy]; exact hload, ?_⟩
    exact
      { shows := by simp only [item, hw, hcopy, hshows]; rfl
        branch := hbranch.trans hw.symm
        word := fun _ => ⟨_, hword, hstr, hshows⟩
        text := fun hfalse => absurd hfalse (by simp [hw]) }
  | false =>
    rw [hw, if_neg nofun] at hrow
    have harr : vc.arr[row]? = some vc.arr[row] := List.getElem?_eq_getElem hrow
    obtain ⟨speak, hload, hshows, hstr, hbranch⟩ :=
      @SpeakViewController.viewDidLoad_of_text capitalized
        { isWord := false, isAlphabets := vc.isAlphabets, isNumbers := vc.isNumbers,
          strWord := vc.arr[row] } (hflags.symm.trans hw)
    refine ⟨speak, by simp only [didSelectItemAt, hw, harr]; exact hload, ?_⟩
    exact
      { shows := by simp only [item, hw, harr, hshows]; rfl
        branch := hbranch.trans hw.symm
        word := fun htrue => absurd htrue (by simp [hw])
        text := fun _ => by rw [hshows, hstr] }

end ButtonsViewController

/-! ### The invariant -/

namespace Browsing

variable {collation : Collation} {capitalized : String → String} {s s' : Browsing}
  {e : BrowseEvent}

/-- **The invariant.** Every screen is loaded; every cell shows, and every
    `SpeakViewController` was handed, its row of its screen. -/
structure Consistent (capitalized : String → String) (s : Browsing) : Prop where
  loaded : ∀ vc ∈ s.opened, vc.Loaded s.loader.app
  cells : ∀ i row cell, (i, row, cell) ∈ s.cells →
    ∃ vc, s.opened[i]? = some vc ∧ vc.item capitalized row = some cell.shows
  speaking : ∀ i row speak, (i, row, speak) ∈ s.speaking →
    ∃ vc, s.opened[i]? = some vc ∧ vc.Handed capitalized row speak

theorem consistent_launch (capitalized : String → String) : launch.Consistent capitalized := by
  constructor <;> simp [launch]

/-- A layout or a selection that happens is one of a screen and a row of it. -/
private theorem row_of_step {α : Type} {i row : ℕ} {f : ButtonsViewController → Option α} {a : α}
    (h : (s.opened[i]?.bind fun vc =>
      if row < vc.numberOfItemsInSection then f vc else none) = some a) :
    ∃ vc, s.opened[i]? = some vc ∧ row < vc.numberOfItemsInSection ∧ f vc = some a := by
  obtain ⟨vc, hvc, hif⟩ := Option.bind_eq_some_iff.mp h
  obtain ⟨hrow, hf⟩ := Option.ite_none_right_eq_some.mp hif
  exact ⟨vc, hvc, hrow, hf⟩

/-- The step lemma: every event keeps the invariant. -/
theorem Consistent.step (hs : s.Consistent capitalized)
    (h : s.step collation capitalized e = some s') : s'.Consistent capitalized := by
  cases e with
  | load callback =>
    obtain ⟨loader, hload, rfl⟩ := Option.map_eq_some_iff.mp h
    -- the lists of letters and numbers may be replaced, but only the words are read live
    have hgrow := Loader.words_prefix_of_step hload
    exact ⟨fun vc hvc => (hs.loaded vc hvc).mono hgrow, hs.cells, hs.speaking⟩
  | clicked button =>
    cases h
    -- the screens opened before keep their numbers
    have hkeep : ∀ {i : ℕ} {vc : ButtonsViewController}, s.opened[i]? = some vc →
        (s.opened ++ [button.destination.viewDidLoad s.loader.app])[i]? = some vc := by
      intro i vc hvc
      rw [List.getElem?_append_left (List.getElem?_eq_some_iff.mp hvc).1]
      exact hvc
    refine ⟨fun vc hvc => ?_, fun i row cell hcell => ?_, fun i row speak hspeak => ?_⟩
    · rcases List.mem_append.mp hvc with hold | hnew
      · exact hs.loaded vc hold
      · rw [List.mem_singleton.mp hnew]
        exact ButtonsViewController.loaded_viewDidLoad _ _
    · obtain ⟨vc, hvc, hitem⟩ := hs.cells i row cell hcell
      exact ⟨vc, hkeep hvc, hitem⟩
    · obtain ⟨vc, hvc, hhanded⟩ := hs.speaking i row speak hspeak
      exact ⟨vc, hkeep hvc, hhanded⟩
  | cellForItemAt i row dequeued =>
    obtain ⟨vc, hvc, hrow, hstep⟩ := row_of_step h
    obtain ⟨cell, hcell, rfl⟩ := Option.map_eq_some_iff.mp hstep
    have hloaded := hs.loaded vc (List.mem_of_getElem? hvc)
    obtain ⟨cell', hcell', hitem⟩ :=
      @ButtonsViewController.exists_cellForItemAt capitalized _ _ _ hloaded hrow dequeued
    obtain rfl : cell' = cell := Option.some.inj (hcell'.symm.trans hcell)
    refine ⟨hs.loaded, fun j row' other hmem => ?_, hs.speaking⟩
    rcases List.mem_append.mp hmem with hold | hnew
    · exact hs.cells j row' other hold
    · cases List.mem_singleton.mp hnew
      exact ⟨vc, hvc, hitem⟩
  | didSelectItemAt i row =>
    obtain ⟨vc, hvc, hrow, hstep⟩ := row_of_step h
    obtain ⟨speak, hspeak, rfl⟩ := Option.map_eq_some_iff.mp hstep
    have hloaded := hs.loaded vc (List.mem_of_getElem? hvc)
    obtain ⟨speak', hspeak', hhanded⟩ :=
      @ButtonsViewController.exists_didSelectItemAt capitalized _ _ _ hloaded hrow
    obtain rfl : speak' = speak := Option.some.inj (hspeak'.symm.trans hspeak)
    refine ⟨hs.loaded, hs.cells, fun j row' other hmem => ?_⟩
    rcases List.mem_append.mp hmem with hold | hnew
    · exact hs.speaking j row' other hold
    · cases List.mem_singleton.mp hnew
      exact ⟨vc, hvc, hhanded⟩

/-- The invariant holds wherever a run from the launch leads. -/
theorem consistent_of_run {es : List BrowseEvent}
    (h : run (step collation capitalized) launch es = some s) : s.Consistent capitalized :=
  run_invariant (fun _ _ _ hs hstep => hs.step hstep) (consistent_launch capitalized) h

/-! ### Tiles -/

/-- What the cell shows is what the `SpeakViewController` shows, and it is what it was
    handed: the picture of its word, or its string. -/
def Agree (capitalized : String → String) (cell : ButtonCollectionViewCell)
    (speak : SpeakViewController) : Prop :=
  cell.shows = speak.shows ∧
  (speak.takesWordBranch = true →
    ∃ word, speak.word = some word ∧ speak.strWord = word.title ∧ cell.shows = .image word.Name) ∧
  (speak.takesWordBranch = false → cell.shows = .text (capitalized speak.strWord))

/-- **What a tile shows is what it says.**  Wherever a run leads: every row can be laid
    out and selected, a cell agrees with every selection of its row, whichever came first,
    and a `SpeakViewController` in its word branch has a word. -/
theorem tiles_agree {es : List BrowseEvent}
    (h : run (step collation capitalized) launch es = some s) :
    (∀ i vc row, s.opened[i]? = some vc → row < vc.numberOfItemsInSection →
      (∀ dequeued, (s.step collation capitalized (.cellForItemAt i row dequeued)).isSome) ∧
        (s.step collation capitalized (.didSelectItemAt i row)).isSome) ∧
    (∀ i row cell speak, (i, row, cell) ∈ s.cells → (i, row, speak) ∈ s.speaking →
      Agree capitalized cell speak) ∧
    (∀ i row speak, (i, row, speak) ∈ s.speaking → speak.takesWordBranch = true →
      speak.word.isSome) := by
  have hs := consistent_of_run h
  refine ⟨fun i vc row hvc hrow => ⟨fun dequeued => ?_, ?_⟩,
    fun i row cell speak hcell hspeak => ?_, fun i row speak hspeak hbranch => ?_⟩
  · obtain ⟨cell, hcell, -⟩ := @ButtonsViewController.exists_cellForItemAt capitalized _ _ _
      (hs.loaded vc (List.mem_of_getElem? hvc)) hrow dequeued
    simp [step, hvc, hrow, hcell]
  · obtain ⟨speak, hspeak, -⟩ := @ButtonsViewController.exists_didSelectItemAt capitalized _ _ _
      (hs.loaded vc (List.mem_of_getElem? hvc)) hrow
    simp only [step, hvc, Option.bind_some, hrow, if_true, hspeak]
    rfl
  · -- both show the item of the row, which is the screen's own and does not change
    obtain ⟨vc, hvc, hitem⟩ := hs.cells i row cell hcell
    obtain ⟨vc', hvc', hhanded⟩ := hs.speaking i row speak hspeak
    obtain rfl : vc = vc' := Option.some.inj (hvc.symm.trans hvc')
    have hshows : cell.shows = speak.shows := Option.some.inj (hitem.symm.trans hhanded.shows)
    refine ⟨hshows, fun hbranch => ?_, fun hbranch => ?_⟩
    · obtain ⟨word, hword, hstr, himage⟩ := hhanded.word (hhanded.branch ▸ hbranch)
      exact ⟨word, hword, hstr, hshows.trans himage⟩
    · exact hshows.trans (hhanded.text (hhanded.branch ▸ hbranch))
  · obtain ⟨vc, -, hhanded⟩ := hs.speaking i row speak hspeak
    obtain ⟨word, hword, -⟩ := hhanded.word (hhanded.branch ▸ hbranch)
    simp [hword]

/-- A library of two words; the second arrives after the screen has been opened. -/
def growingLibrary : List BrowseEvent :=
  [.load (.fetchWords (some
      [[("title", .string "Cat"), ("Name", .reference "cat.png")],
        [("title", .string "Dog"), ("Name", .reference "dog.png")]])),
    .load (.getDocument 0 true), .load (.downloadURL 0 (some "https://images/cat")),
    .clicked .wordClicked, .load (.getDocument 1 true),
    .load (.downloadURL 1 (some "https://images/dog")),
    .cellForItemAt 0 0 {}, .didSelectItemAt 0 0]

theorem tiles_agree_growingLibrary :
    ∃ s cell speak, run (step ⟨fun _ _ => false, fun _ _ => false⟩ id) launch growingLibrary = some s ∧
      s.cells = [(0, 0, cell)] ∧ s.speaking = [(0, 0, speak)] ∧ Agree id cell speak := by
  obtain ⟨s, cell, speak, hrun, hcells, hspeaking⟩ : ∃ s cell speak,
      run (step ⟨fun _ _ => false, fun _ _ => false⟩ id) launch growingLibrary = some s ∧
        s.cells = [(0, 0, cell)] ∧ s.speaking = [(0, 0, speak)] := ⟨_, _, _, rfl, rfl, rfl⟩
  refine ⟨s, cell, speak, hrun, hcells, hspeaking, ?_⟩
  exact (tiles_agree hrun).2.1 0 0 cell speak (by simp [hcells]) (by simp [hspeaking])

end Browsing

end ChildLearning
