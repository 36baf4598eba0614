import ChildLearning.Browsing
import ChildLearning.ListsLoading
import ChildLearning.LoadOrder
import ChildLearning.QuizTermination

namespace ChildLearning

open Sampling Transition PlayViewController

/-!
# Learning and playing

`playClicked` hands the flags of a library screen to the quiz, and the quiz reads the lists
anew: it may know items that its own screen was opened too early for.  `quiz_of_run` says
that it is never at odds with the library.  While the callbacks of the loader interleave with
opening screens and quizzes and with playing any of them: what the tiles of a quiz show are
rows of the library, and what it asks for is what the library says of one of its tiles.
-/

/-- The running app, as far as learning and playing go: the library screens opened so far,
    and the quizzes, each with the number of its screen. -/
structure Learning where
  loader : Loader := .launch
  opened : List ButtonsViewController := []
  quizzes : List (ℕ × PlayViewController) := []

/-- One event: a callback; a button of Home; `playClicked(_:)` of screen `i`, with the draws
    and the iteration order of the first round; an event of quiz `j`. -/
inductive LearningEvent where
  | load (callback : LoadEvent)
  | clicked (button : HomeButton)
  | playClicked (i : ℕ) (order : IterationOrder String) (draws : List ℕ)
  | play (j : ℕ) (e : PlayEvent)

namespace Learning

/-- The app has just been launched. -/
def launch : Learning := {}

/-- One event. -/
def step (collation : Collation) (s : Learning) : LearningEvent → Option Learning
  | .load callback =>
    (s.loader.step collation callback).map fun loader => { s with loader := loader }
  | .clicked button =>
    some { s with opened := s.opened ++ [button.destination.viewDidLoad s.loader.app] }
  | .playClicked i order draws =>
    s.opened[i]?.bind fun screen =>
      -- the lists are those of now, whenever the screen was opened
      ((screen.playClicked.viewDidLoad order s.loader.app).after draws).value?.map fun quiz =>
        { s with quizzes := s.quizzes ++ [(i, quiz)] }
  | .play j e =>
    s.quizzes[j]?.bind fun q => (q.2.step e).map fun quiz =>
      { s with quizzes := s.quizzes.set j (q.1, quiz) }

end Learning

/-! ### The lists of letters and numbers -/

namespace Loader

variable {collation : Collation} {l l' : Loader} {e : LoadEvent}

/-- While a list is being fetched it is empty. -/
structure EmptyWhileFetching (l : Loader) : Prop where
  alphabets : l.fetchingAlphabets = true → l.app.arrAlphabets = []
  numbers : l.fetchingNumbers = true → l.app.arrNumber = []

/-- **Set once.** A callback leaves a list alone that is not empty. -/
theorem EmptyWhileFetching.step (hs : l.EmptyWhileFetching) (h : l.step collation e = some l') :
    l'.EmptyWhileFetching ∧
      (l.app.arrAlphabets = [] ∨ l'.app.arrAlphabets = l.app.arrAlphabets) ∧
      (l.app.arrNumber = [] ∨ l'.app.arrNumber = l.app.arrNumber) := by
  cases e with
  | fetchAlphabets query =>
    obtain ⟨hfetching, rfl⟩ := step_fetchAlphabets h
    refine ⟨⟨nofun, fun hn => ?_⟩, Or.inl (hs.alphabets hfetching), Or.inr ?_⟩
    · exact (l.app.fetchAlphabets_arrNumber collation query).trans (hs.numbers hn)
    · exact l.app.fetchAlphabets_arrNumber collation query
  | fetchNumbers query =>
    obtain ⟨hfetching, rfl⟩ := step_fetchNumbers h
    refine ⟨⟨fun ha => ?_, nofun⟩, Or.inr ?_, Or.inl (hs.numbers hfetching)⟩
    · exact (l.app.fetchNumbers_arrAlphabets collation query).trans (hs.alphabets ha)
    · exact l.app.fetchNumbers_arrAlphabets collation query
  | fetchWords query =>
    obtain ⟨-, rfl⟩ := step_fetchWords h
    exact ⟨⟨hs.alphabets, hs.numbers⟩, Or.inr rfl, Or.inr rfl⟩
  | getDocument i found =>
    obtain ⟨chain, -, -, rfl⟩ := step_getDocument h
    exact ⟨⟨hs.alphabets, hs.numbers⟩, Or.inr rfl, Or.inr rfl⟩
  | downloadURL i url =>
    obtain ⟨chain, path, -, -, rfl⟩ := step_downloadURL h
    exact ⟨⟨hs.alphabets, hs.numbers⟩, Or.inr rfl, Or.inr rfl⟩

/-- So is the list of a screen in either of the two modes. -/
theorem EmptyWhileFetching.quizList (hs : l.EmptyWhileFetching)
    (h : l.step collation e = some l') {screen : ButtonsViewController}
    (hw : screen.isWords = false) :
    screen.quizList l.app = [] ∨ screen.quizList l'.app = screen.quizList l.app := by
  obtain ⟨-, halphabets, hnumbers⟩ := hs.step h
  unfold ButtonsViewController.quizList
  rw [hw]
  cases screen.isNumbers with
  | true => exact hnumbers
  | false => exact halphabets

end Loader

/-! ### The invariant -/

/-- A round of words: four of the pictures, and the title of one of them is asked for. -/
structure AsksOneWord (vc : PlayViewController) : Prop where
  four : vc.arrWordFinal.length = 4
  mem : ∀ url ∈ vc.arrWordFinal, url ∈ vc.arrWord.map Words.Name
  asked : ∃ word ∈ vc.arrWord, word.Name ∈ vc.arrWordFinal ∧ word.title = vc.question

variable {words : List Words} {vc vc' quiz : PlayViewController} {order : IterationOrder String}
  {draws rest : List ℕ} {app : AppDelegate} {screen : ButtonsViewController} {l : Loader}

theorem asksOneWord_of_showWordData (hplays : PlaysWords words vc)
    (h : (showWordData order vc).after draws = .done vc' rest) :
    PlaysWords words vc' ∧ AsksOneWord vc' := by
  obtain ⟨hisWords, rfl, himages⟩ := hplays
  obtain ⟨tiles, hfour, -, hmem, str, hstr, rfl⟩ := showWordData_done h
  obtain ⟨word, hword, hname, htitle⟩ := Join.mem_join.mp hstr
  exact ⟨⟨hisWords, rfl, himages⟩, hfour, fun url hurl => himages ▸ hmem url hurl, word, hword,
    hname, htitle⟩

/-- The step lemma for words. -/
theorem asksOneWord_of_step {e : PlayEvent} (hplays : PlaysWords words vc) (hs : AsksOneWord vc)
    (h : step vc e = some vc') : PlaysWords words vc' ∧ AsksOneWord vc' := by
  cases he : e.startsRound with
  | false =>
    obtain ⟨speaker, player, observers, rfl, -⟩ := step_frame he h
    exact ⟨⟨hplays.isWords, hplays.arrWord, hplays.arrWordImages⟩, hs.four, hs.mem, hs.asked⟩
  | true =>
    obtain ⟨order, draws, rest, -, -, hdone⟩ := step_round he h
    have hround : (showWordData order { vc with player := .stopped }).after draws
        = .done vc' rest := by
      rw [← hdone, audioPlayerDidFinishPlaying, if_pos rfl, if_pos hplays.isWords]
    refine asksOneWord_of_showWordData ⟨?_, ?_, ?_⟩ hround
    · exact hplays.isWords
    · exact hplays.arrWord
    · exact hplays.arrWordImages

/-- A library screen and the lists of now: the letters (numbers) it shows are those, or it
    was opened before they came. -/
structure Current (app : AppDelegate) (screen : ButtonsViewController) : Prop where
  loaded : screen.Loaded app
  list : screen.isWords = false → screen.arr = [] ∨ screen.arr = screen.quizList app

/-- A quiz and the lists of now: it plays on the letters (numbers), or on words that have come
    first, of which its screen shows the first. -/
structure Taught (app : AppDelegate) (screen : ButtonsViewController) (quiz : PlayViewController) :
    Prop where
  words : screen.isWords = true → PlaysWords quiz.arrWord quiz ∧ AsksOneWord quiz ∧
    screen.words <+: quiz.arrWord ∧ quiz.arrWord <+: app.words
  letters : screen.isWords = false → PlaysLetters (screen.quizList app) quiz

theorem current_viewDidLoad (app : AppDelegate) (button : HomeButton) :
    Current app (button.destination.viewDidLoad app) := by
  refine ⟨ButtonsViewController.loaded_viewDidLoad app button, fun hw => ?_⟩
  cases button with
  | wordClicked => cases hw
  | alphabetClicked => exact Or.inr rfl
  | numberClicked => exact Or.inr rfl

/-- **Opening a quiz.** -/
theorem taught_viewDidLoad (hs : Current app screen)
    (h : (screen.playClicked.viewDidLoad order app).after draws = .done quiz rest) :
    Taught app screen quiz := by
  constructor
  · intro hw
    obtain ⟨loaded, hplays, -, hload⟩ := viewDidLoad_of_isWords hw order app
    obtain ⟨hquiz, hasks⟩ := asksOneWord_of_showWordData hplays (hload ▸ h)
    have hwords : quiz.arrWord = app.words := hquiz.arrWord
    rw [hwords]
    exact ⟨hquiz, hasks, hs.loaded.copy, List.prefix_refl _⟩
  · intro hw
    obtain ⟨loaded, hisWords, harr, hload⟩ := viewDidLoad_of_not_isWords hw order app
    exact playsLetters_of_showData hisWords harr (hload ▸ h)

/-- **Playing it.** -/
theorem Taught.play {e : PlayEvent} (hs : Taught app screen vc) (h : step vc e = some vc') :
    Taught app screen vc' := by
  constructor
  · intro hw
    obtain ⟨hplays, hasks, hfirst, hlive⟩ := hs.words hw
    obtain ⟨hquiz, hasks'⟩ := asksOneWord_of_step hplays hasks h
    rw [hquiz.arrWord]
    exact ⟨hquiz, hasks', hfirst, hlive⟩
  · exact fun hw => playsLetters_of_step (hs.letters hw) h

/-- **Loading meanwhile.** -/
theorem Taught.load {app' : AppDelegate} (hs : Taught app screen quiz)
    (hgrow : app.words <+: app'.words)
    (hlist : screen.isWords = false →
      screen.quizList app = [] ∨ screen.quizList app' = screen.quizList app) :
    Taught app' screen quiz := by
  constructor
  · intro hw
    obtain ⟨hplays, hasks, hfirst, hlive⟩ := hs.words hw
    exact ⟨hplays, hasks, hfirst, hlive.trans hgrow⟩
  · intro hw
    have hletters := hs.letters hw
    rcases hlist hw with hnil | heq
    · -- four tiles cannot come from an empty list
      have hfour := hletters.asks.four
      obtain ⟨str, hstr⟩ := List.exists_mem_of_length_pos (by rw [hfour]; omega)
      have hmem := hletters.asks.mem str hstr
      rw [hletters.arr, hnil] at hmem
      cases hmem
    · rw [heq]
      exact hletters

namespace Learning

variable {collation : Collation} {s s' : Learning} {e : LearningEvent}

/-- **The invariant.** -/
structure Consistent (s : Learning) : Prop where
  loader : s.loader.EmptyWhileFetching
  opened : ∀ screen ∈ s.opened, Current s.loader.app screen
  quizzes : ∀ q ∈ s.quizzes, ∃ screen, s.opened[q.1]? = some screen ∧
    q.2.isWords = screen.isWords ∧ q.2.isNumber = screen.isNumbers ∧
    q.2.isAlphabet = screen.isAlphabets ∧ Taught s.loader.app screen q.2

theorem consistent_launch : Consistent launch := ⟨⟨fun _ => rfl, fun _ => rfl⟩, nofun, nofun⟩

/-- Neither a round nor anything else changes the mode of a quiz. -/
theorem mode_of_step {f : PlayEvent} (h : PlayViewController.step vc f = some vc') :
    vc'.isWords = vc.isWords ∧ vc'.isNumber = vc.isNumber ∧ vc'.isAlphabet = vc.isAlphabet := by
  cases hf : f.startsRound with
  | false =>
    obtain ⟨speaker, player, observers, rfl, -⟩ := step_frame hf h
    exact ⟨rfl, rfl, rfl⟩
  | true =>
    obtain ⟨order, draws, rest, -, -, hdone⟩ := step_round hf h
    obtain ⟨arrFinal, arrWordFinal, index, str, rfl⟩ := audioPlayerDidFinishPlaying_done hdone
    exact ⟨rfl, rfl, rfl⟩

/-- Nor does loading it. -/
theorem mode_of_viewDidLoad (h : (vc.viewDidLoad order app).after draws = .done vc' rest) :
    vc'.isWords = vc.isWords ∧ vc'.isNumber = vc.isNumber ∧ vc'.isAlphabet = vc.isAlphabet := by
  unfold viewDidLoad at h
  dsimp only at h
  split_ifs at h
  · obtain ⟨_, -, -, -, str, -, rfl⟩ := showWordData_done h
    exact ⟨rfl, rfl, rfl⟩
  · obtain ⟨_, -, -, -, str, -, rfl⟩ := showData_done h
    exact ⟨rfl, rfl, rfl⟩
  · obtain ⟨_, -, -, -, str, -, rfl⟩ := showData_done h
    exact ⟨rfl, rfl, rfl⟩

/-- The step lemma. -/
theorem Consistent.step (hs : s.Consistent) (h : s.step collation e = some s') :
    s'.Consistent := by
  cases e with
  | load callback =>
    obtain ⟨loader, hload, rfl⟩ := Option.map_eq_some_iff.mp h
    have hgrow := Loader.words_prefix_of_step hload
    refine ⟨(hs.loader.step hload).1, fun screen hscreen => ?_, fun q hq => ?_⟩
    · have hcurrent := hs.opened screen hscreen
      refine ⟨hcurrent.loaded.mono hgrow, fun hw => ?_⟩
      rcases hcurrent.list hw with hnil | heq
      · exact Or.inl hnil
      · rcases hs.loader.quizList hload hw with hnone | hkept
        · exact Or.inl (heq.trans hnone)
        · exact Or.inr (heq.trans hkept.symm)
    · obtain ⟨screen, hscreen, hw, hn, ha, htaught⟩ := hs.quizzes q hq
      exact ⟨screen, hscreen, hw, hn, ha,
        htaught.load hgrow fun hletters => hs.loader.quizList hload hletters⟩
  | clicked button =>
    cases h
    refine ⟨hs.loader, fun screen hscreen => ?_, fun q hq => ?_⟩
    · rcases List.mem_append.mp hscreen with hold | hnew
      · exact hs.opened screen hold
      · rw [List.mem_singleton.mp hnew]
        exact current_viewDidLoad _ _
    · -- the screens opened before keep their numbers
      obtain ⟨screen, hscreen, hquiz⟩ := hs.quizzes q hq
      refine ⟨screen, ?_, hquiz⟩
      rw [List.getElem?_append_left (List.getElem?_eq_some_iff.mp hscreen).1]
      exact hscreen
  | playClicked i order draws =>
    obtain ⟨screen, hscreen, hopen⟩ := Option.bind_eq_some_iff.mp h
    obtain ⟨quiz, hvalue, rfl⟩ := Option.map_eq_some_iff.mp hopen
    obtain ⟨rest, hdone⟩ := Progress.value?_eq_some.mp hvalue
    refine ⟨hs.loader, hs.opened, fun q hq => ?_⟩
    rcases List.mem_append.mp hq with hold | hnew
    · exact hs.quizzes q hold
    · rw [List.mem_singleton.mp hnew]
      obtain ⟨hw, hn, ha⟩ := mode_of_viewDidLoad hdone
      exact ⟨screen, hscreen, hw, hn, ha,
        taught_viewDidLoad (hs.opened screen (List.mem_of_getElem? hscreen)) hdone⟩
  | play j f =>
    obtain ⟨q, hq, hplay⟩ := Option.bind_eq_some_iff.mp h
    obtain ⟨quiz, hstep, rfl⟩ := Option.map_eq_some_iff.mp hplay
    obtain ⟨screen, hscreen, hw, hn, ha, htaught⟩ := hs.quizzes q (List.mem_of_getElem? hq)
    refine ⟨hs.loader, hs.opened, fun q' hq' => ?_⟩
    rcases List.mem_or_eq_of_mem_set hq' with hold | rfl
    · exact hs.quizzes q' hold
    · obtain ⟨hw', hn', ha'⟩ := mode_of_step hstep
      exact ⟨screen, hscreen, hw'.trans hw, hn'.trans hn, ha'.trans ha, htaught.play hstep⟩

theorem consistent_of_run {es : List LearningEvent} (h : run (step collation) launch es = some s) :
    s.Consistent :=
  run_invariant (fun _ _ _ hs hstep => hs.step hstep) consistent_launch h

end Learning

/-! ### What the library says -/

/-- The text that a selection of the row hands over, on the screen's own lists. -/
def ButtonsViewController.strWord (vc : ButtonsViewController) (row : ℕ) : Option String :=
  if vc.isWords then vc.words[row]?.map Words.title else vc.arr[row]?

/-- `speak` is the speaking screen of the row: it shows its item and has begun to speak its
    text. -/
structure Speaks (capitalized : String → String) (vc : ButtonsViewController) (row : ℕ)
    (speak : SpeakViewController) : Prop where
  pushed : (vc.didSelectItemAt row).bind (SpeakViewController.viewDidLoad capitalized) = some speak
  shows : vc.item capitalized row = some speak.shows
  strWord : vc.strWord row = some speak.strWord
  speaking : speak.synthesizer = .speaking ⟨speak.strWord, some "en-US", 1 / 4, 0⟩

variable {capitalized : String → String} {row : ℕ}

/-- A speaking screen that has loaded speaks its word. -/
theorem SpeakViewController.viewDidLoad_speaks {speak loaded : SpeakViewController}
    (h : speak.viewDidLoad capitalized = some loaded) :
    loaded.strWord = speak.strWord ∧
      loaded.synthesizer = .speaking ⟨speak.strWord, some "en-US", 1 / 4, 0⟩ := by
  unfold viewDidLoad at h
  obtain ⟨shown, hshown, rfl⟩ := Option.map_eq_some_iff.mp h
  have hstr : shown.strWord = speak.strWord := by
    split_ifs at hshown
    · cases hshown; rfl
    · cases hshown; rfl
    · obtain ⟨word, -, rfl⟩ := Option.map_eq_some_iff.mp hshown
      rfl
  refine ⟨hstr, ?_⟩
  rw [textToSpeech, Speaker.textToSpeech_synthesizer]
  show AVSpeechSynthesizer.speaking ⟨shown.strWord, some "en-US", 1 / 4, 0⟩ = _
  rw [hstr]

/-- The text of a row is what its selection hands over. -/
theorem strWord_of_didSelectItemAt {selected : SpeakViewController}
    (h : screen.didSelectItemAt row = some selected) : screen.strWord row = some selected.strWord := by
  unfold ButtonsViewController.didSelectItemAt at h
  unfold ButtonsViewController.strWord
  cases hw : screen.isWords with
  | true =>
    simp only [hw, if_true] at h
    obtain ⟨word, hword, rfl⟩ := Option.map_eq_some_iff.mp h
    rw [if_pos rfl, hword]
    rfl
  | false =>
    simp only [hw, Bool.false_eq_true, if_false] at h
    obtain ⟨str, hat, rfl⟩ := Option.map_eq_some_iff.mp h
    rw [if_neg Bool.false_ne_true, hat]

/-- Every row has its speaking screen. -/
theorem exists_speaks (h : screen.Loaded app) (hrow : row < screen.numberOfItemsInSection) :
    ∃ speak, Speaks capitalized screen row speak := by
  obtain ⟨speak, hpush, hhanded⟩ :=
    @ButtonsViewController.exists_didSelectItemAt capitalized _ _ _ h hrow
  obtain ⟨selected, hselected, hload⟩ := Option.bind_eq_some_iff.mp hpush
  obtain ⟨hstr, hspeaking⟩ := SpeakViewController.viewDidLoad_speaks hload
  refine ⟨speak, hpush, hhanded.shows, ?_, ?_⟩
  · rw [hstr]
    exact strWord_of_didSelectItemAt hselected
  · rw [hstr]
    exact hspeaking

/-- A row of the words. -/
theorem row_of_word {library : ButtonsViewController} {word : Words} {r : ℕ}
    (hw : library.isWords = true) (hat : library.words[r]? = some word) :
    r < library.numberOfItemsInSection ∧ library.item capitalized r = some (.image word.Name) ∧
      library.strWord r = some word.title := by
  refine ⟨?_, ?_, ?_⟩
  · rw [ButtonsViewController.numberOfItemsInSection, if_pos hw]
    exact (List.getElem?_eq_some_iff.mp hat).1
  · rw [ButtonsViewController.item, if_pos hw, hat]; rfl
  · rw [ButtonsViewController.strWord, if_pos hw, hat]; rfl

/-- A row of the letters or numbers. -/
theorem row_of_text {library : ButtonsViewController} {str : String} {r : ℕ}
    (hw : library.isWords = false) (hat : library.arr[r]? = some str) :
    r < library.numberOfItemsInSection ∧
      library.item capitalized r = some (.text (capitalized str)) ∧ library.strWord r = some str := by
  refine ⟨?_, ?_, ?_⟩
  · rw [ButtonsViewController.numberOfItemsInSection, if_neg (by simp [hw])]
    exact (List.getElem?_eq_some_iff.mp hat).1
  · rw [ButtonsViewController.item, if_neg (by simp [hw]), hat]; rfl
  · rw [ButtonsViewController.strWord, if_neg (by simp [hw]), hat]

/-! ### The quiz and the library -/

/-- The tiles of the quiz are rows of the library screen, and the quiz asks for what the
    screen says of a row that is on a tile. -/
structure FromLibrary (capitalized : String → String) (library : ButtonsViewController)
    (quiz : PlayViewController) : Prop where
  four : quiz.numberOfItemsInSection = 4
  tiles : ∀ row < 4, ∃ r < library.numberOfItemsInSection, ∃ item,
    quiz.tile capitalized row = some item ∧ library.item capitalized r = some item
  asked : ∃ r speak, Speaks capitalized library r speak ∧ speak.strWord = quiz.question ∧
    ∃ row < 4, quiz.tile capitalized row = some speak.shows

/-- A quiz on words that the library screen has. -/
theorem fromLibrary_of_words {library : ButtonsViewController} (hlibrary : library.Loaded app)
    (hw : library.isWords = true) (hplays : PlaysWords quiz.arrWord quiz) (hasks : AsksOneWord quiz)
    (hgrown : quiz.arrWord <+: library.words) : FromLibrary capitalized library quiz := by
  have hrows : ∀ word ∈ quiz.arrWord, ∃ r, library.words[r]? = some word := fun word hword =>
    List.getElem?_of_mem (hgrown.subset hword)
  refine ⟨?_, fun row hrow => ?_, ?_⟩
  · rw [PlayViewController.numberOfItemsInSection, if_pos hplays.isWords, hasks.four]
  · have hat : quiz.arrWordFinal[row]? = some _ :=
      List.getElem?_eq_getElem (show row < quiz.arrWordFinal.length by rw [hasks.four]; exact hrow)
    obtain ⟨word, hword, hname⟩ := List.mem_map.mp (hasks.mem _ (List.mem_of_getElem? hat))
    obtain ⟨r, hr⟩ := hrows word hword
    obtain ⟨hlt, hitem, -⟩ := @row_of_word capitalized library word r hw hr
    refine ⟨r, hlt, .image word.Name, ?_, hitem⟩
    rw [tile_of_isWords hplays.isWords, hat, hname]
    rfl
  · obtain ⟨word, hword, hname, htitle⟩ := hasks.asked
    obtain ⟨r, hr⟩ := hrows word hword
    obtain ⟨hlt, hitem, hstr⟩ := @row_of_word capitalized library word r hw hr
    obtain ⟨speak, hspeak⟩ := @exists_speaks app library capitalized r hlibrary hlt
    obtain ⟨row, hrow⟩ := List.getElem?_of_mem hname
    refine ⟨r, speak, hspeak, ?_, row, ?_, ?_⟩
    · exact (Option.some.inj (hspeak.strWord.symm.trans hstr)).trans htitle
    · have hbelow := (List.getElem?_eq_some_iff.mp hrow).1
      rwa [hasks.four] at hbelow
    · rw [tile_of_isWords hplays.isWords, hrow, ← hspeak.shows, hitem]
      rfl

/-- A quiz on the letters or numbers of the library screen. -/
theorem fromLibrary_of_letters {library : ButtonsViewController} (hlibrary : library.Loaded app)
    (hw : library.isWords = false) (hplays : PlaysLetters library.arr quiz) :
    FromLibrary capitalized library quiz := by
  have hasks := hplays.asks
  have hrows : ∀ str ∈ quiz.arrFinal, ∃ r, library.arr[r]? = some str := fun str hstr =>
    List.getElem?_of_mem (hplays.arr ▸ hasks.mem str hstr)
  refine ⟨?_, fun row hrow => ?_, ?_⟩
  · rw [PlayViewController.numberOfItemsInSection, if_neg (by simp [hplays.isWords]), hasks.four]
  · have hat : quiz.arrFinal[row]? = some _ :=
      List.getElem?_eq_getElem (show row < quiz.arrFinal.length by rw [hasks.four]; exact hrow)
    obtain ⟨r, hr⟩ := hrows _ (List.mem_of_getElem? hat)
    obtain ⟨hlt, hitem, -⟩ := @row_of_text capitalized library _ r hw hr
    refine ⟨r, hlt, _, ?_, hitem⟩
    rw [tile_of_not_isWords hplays.isWords, hat]
    rfl
  · -- the tile asked for is the one at `indexFinal`
    have hat : quiz.arrFinal[quiz.indexFinal]? = some quiz.question := (hasks.only _).mpr rfl
    obtain ⟨r, hr⟩ := hrows _ (List.mem_of_getElem? hat)
    obtain ⟨hlt, hitem, hstr⟩ := @row_of_text capitalized library _ r hw hr
    obtain ⟨speak, hspeak⟩ := @exists_speaks app library capitalized r hlibrary hlt
    refine ⟨r, speak, hspeak, ?_, quiz.indexFinal, hasks.index_lt, ?_⟩
    · exact Option.some.inj (hspeak.strWord.symm.trans hstr)
    · rw [tile_of_not_isWords hplays.isWords, hat, ← hspeak.shows, hitem]
      rfl

/-- The screen of a button of Home, opened now. -/
theorem library_viewDidLoad (app : AppDelegate) (button : HomeButton) :
    (button.destination.viewDidLoad app).isWords = button.destination.isWords ∧
      (button.destination.isWords = true → (button.destination.viewDidLoad app).words = app.words) ∧
      (button.destination.isWords = false →
        (button.destination.viewDidLoad app).arr = button.destination.quizList app) := by
  cases button with
  | wordClicked => exact ⟨rfl, fun _ => rfl, nofun⟩
  | alphabetClicked => exact ⟨rfl, nofun, fun _ => rfl⟩
  | numberClicked => exact ⟨rfl, nofun, fun _ => rfl⟩

/-- The list of a quiz depends on the mode only. -/
theorem quizList_congr {other : ButtonsViewController} (hw : screen.isWords = other.isWords)
    (hn : screen.isNumbers = other.isNumbers) (app : AppDelegate) :
    screen.quizList app = other.quizList app := by
  unfold ButtonsViewController.quizList
  rw [hw, hn]

/-- The rows of a screen that was opened earlier are the first ones of the screen opened
    now. -/
theorem Current.item_eq (hs : Current app screen) {button : HomeButton}
    (hw : screen.isWords = button.destination.isWords)
    (hn : screen.isNumbers = button.destination.isNumbers)
    (hrow : row < screen.numberOfItemsInSection) :
    screen.item capitalized row = (button.destination.viewDidLoad app).item capitalized row := by
  obtain ⟨hlibrary, hwords, harr⟩ := library_viewDidLoad app button
  unfold ButtonsViewController.numberOfItemsInSection at hrow
  unfold ButtonsViewController.item
  rw [hlibrary, ← hw]
  cases hmode : screen.isWords with
  | true =>
    rw [hmode, if_pos rfl] at hrow
    rw [if_pos rfl, if_pos rfl, hwords (hw ▸ hmode)]
    have hcopy : screen.words[row]? = some screen.words[row] := List.getElem?_eq_getElem hrow
    rw [hcopy, List.prefix_iff_getElem?.mp hs.loaded.copy row hrow]
  | false =>
    rw [hmode, if_neg Bool.false_ne_true] at hrow
    rw [if_neg Bool.false_ne_true, if_neg Bool.false_ne_true, harr (hw ▸ hmode)]
    rcases hs.list hmode with hnil | heq
    · rw [hnil] at hrow
      cases hrow
    · rw [heq, quizList_congr hw hn]

/-- **Playing is about what was learned.**  In every state of every run, every quiz has the
    mode of its screen; the rows of this screen are the first ones of a library screen of
    that mode opened now; what the tiles of the quiz show are rows of it; and the quiz asks
    for the text that it speaks of a row that is on one of the tiles. -/
theorem quiz_of_run {collation : Collation} {es : List LearningEvent} {s : Learning}
    (capitalized : String → String) (h : run (Learning.step collation) .launch es = some s) {i : ℕ}
    {quiz : PlayViewController} (hquiz : (i, quiz) ∈ s.quizzes) :
    ∃ (screen : ButtonsViewController) (button : HomeButton), s.opened[i]? = some screen ∧
      (quiz.isWords = button.destination.isWords ∧ quiz.isNumber = button.destination.isNumbers ∧
        quiz.isAlphabet = button.destination.isAlphabets) ∧
      (∀ row < screen.numberOfItemsInSection, screen.item capitalized row
        = (button.destination.viewDidLoad s.loader.app).item capitalized row) ∧
      FromLibrary capitalized (button.destination.viewDidLoad s.loader.app) quiz := by
  have hs := Learning.consistent_of_run h
  obtain ⟨screen, hscreen, hw, hn, ha, htaught⟩ := hs.quizzes _ hquiz
  have hcurrent := hs.opened screen (List.mem_of_getElem? hscreen)
  obtain ⟨button, hbw, hba, hbn⟩ := hcurrent.loaded.mode
  obtain ⟨hlibrary, hwords, harr⟩ := library_viewDidLoad s.loader.app button
  have hloaded := ButtonsViewController.loaded_viewDidLoad s.loader.app button
  refine ⟨screen, button, hscreen, ⟨hw.trans hbw, hn.trans hbn, ha.trans hba⟩, ?_, ?_⟩
  · exact fun row hrow => hcurrent.item_eq hbw hbn hrow
  · cases hmode : screen.isWords with
    | true =>
      obtain ⟨hplays, hasks, -, hlive⟩ := htaught.words hmode
      have hbutton : button.destination.isWords = true := hbw ▸ hmode
      exact fromLibrary_of_words hloaded (hlibrary.trans hbutton) hplays hasks
        ((hwords hbutton).symm ▸ hlive)
    | false =>
      have hletters := htaught.letters hmode
      have hbutton : button.destination.isWords = false := hbw ▸ hmode
      rw [quizList_congr hbw hbn, ← harr hbutton] at hletters
      exact fromLibrary_of_letters hloaded (hlibrary.trans hbutton) hletters

/-- The letters screen is opened before the letters have come; its quiz is opened later. -/
def openedTooEarly : List LearningEvent :=
  [.clicked .alphabetClicked,
    .load (.fetchAlphabets (some (["d", "b", "a", "c"].map fun name => [("name", .string name)]))),
    .playClicked 0 .insertion [0, 1, 2, 3, 2], .load (.fetchNumbers none)]

/-- It shows four letters, and asks for one that the library says. -/
theorem quiz_of_run_openedTooEarly :
    ∃ s screen quiz, run (Learning.step ⟨fun a b => a < b, fun a b => a < b⟩) .launch openedTooEarly
        = some s ∧ s.opened = [screen] ∧ screen.numberOfItemsInSection = 0 ∧
      s.quizzes = [(0, quiz)] ∧ quiz.question = "c" ∧ quiz.numberOfItemsInSection = 4 := by
  obtain ⟨s, screen, quiz, hrun, hopened, hnone, hquizzes, hquestion⟩ : ∃ s screen quiz,
      run (Learning.step ⟨fun a b => a < b, fun a b => a < b⟩) .launch openedTooEarly = some s ∧
        s.opened = [screen] ∧ screen.numberOfItemsInSection = 0 ∧ s.quizzes = [(0, quiz)] ∧
        quiz.question = "c" := ⟨_, _, _, rfl, rfl, rfl, rfl, rfl⟩
  obtain ⟨_, _, -, -, -, hlibrary⟩ := quiz_of_run id hrun (hquizzes ▸ List.mem_singleton_self (0, quiz))
  exact ⟨s, screen, quiz, hrun, hopened, hnone, hquizzes, hquestion, hlibrary.four⟩

end ChildLearning
