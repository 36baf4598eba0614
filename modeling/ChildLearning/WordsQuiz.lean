import ChildLearning.Lib.Join
import ChildLearning.Lib.Transition
import ChildLearning.PlayViewController

namespace ChildLearning

open Sampling Transition PlayViewController

/-!
# The words quiz

`showWordData` looks the answer up in the titles of the drawn pictures, a list built by a
nested join with the whole library, and uses the index in the list of tiles.  The two
lists line up when every picture belongs to one word only.  `answerOnTile_iff` says that
nothing less will do: over all draws, iteration orders and rounds, the answer is on a
tile exactly when the `Name`s of the library are pairwise distinct.
-/

/-- The round on screen can be answered: four distinct pictures, and the one at
    `indexFinal` belongs to a word with the title asked for. -/
structure AnswerOnTile (vc : PlayViewController) : Prop where
  four : vc.arrWordFinal.length = 4
  nodup : vc.arrWordFinal.Nodup
  index_lt : vc.indexFinal < vc.arrWordFinal.length
  entry : ∃ word ∈ vc.arrWord, vc.arrWordFinal[vc.indexFinal]? = some word.Name ∧
    word.title = vc.question

/-- The controller plays the words quiz on this library. -/
structure PlaysWords (words : List Words) (vc : PlayViewController) : Prop where
  isWords : vc.isWords = true
  arrWord : vc.arrWord = words
  arrWordImages : vc.arrWordImages = words.map Words.Name

variable {words : List Words} {vc vc' : PlayViewController} {order : IterationOrder String}
  {draws rest : List ℕ}

/-- The titles of the drawn pictures are a join with the library. -/
theorem arrGetTitleOfFetchedImages_eq_join (arrWordFinal : List String) (arrWord : List Words) :
    arrGetTitleOfFetchedImages arrWordFinal arrWord
      = Join.join Words.Name Words.title arrWordFinal arrWord := rfl

/-- In words mode `viewDidLoad` is a first `showWordData` on the library. -/
theorem viewDidLoad_of_isWords {screen : ButtonsViewController} (h : screen.isWords = true)
    (order : IterationOrder String) (app : AppDelegate) :
    ∃ loaded, PlaysWords app.words loaded ∧ loaded.arr = [] ∧
      screen.playClicked.viewDidLoad order app = showWordData order loaded := by
  let opened := screen.playClicked
  refine ⟨{ opened with
      synthesizer := .idle
      arrWord := app.words
      arrWordImages := opened.arrWordImages ++ app.words.map Words.Name
      arrWordTitle := opened.arrWordTitle ++ app.words.map Words.title }, ⟨h, rfl, rfl⟩, rfl, ?_⟩
  exact if_pos h

/-! ### Distinct pictures -/

/-- **Lining up.** With distinct `Name`s the answer of every round is on a tile. -/
theorem answerOnTile_of_showWordData (hplays : PlaysWords words vc)
    (hnodup : (words.map Words.Name).Nodup)
    (h : (showWordData order vc).after draws = .done vc' rest) :
    PlaysWords words vc' ∧ AnswerOnTile vc' := by
  obtain ⟨hisWords, rfl, himages⟩ := hplays
  obtain ⟨tiles, hfour, htiles, hmem, str, hstr, rfl⟩ := showWordData_done h
  rw [himages] at hmem
  rw [arrGetTitleOfFetchedImages_eq_join] at hstr ⊢
  -- the titles line up with the tiles, so the index of the one is an index of the other
  have halign := Join.forall₂_join Words.title hnodup hmem
  obtain ⟨i, hi, hlt, hat⟩ := exists_lastIndex hstr
  have hlt' : i < tiles.length := by rw [halign.length_eq]; exact hlt
  obtain ⟨word, hword, hname, htitle⟩ := halign.get hlt' hlt
  rw [hi, Option.getD_some]
  refine ⟨⟨hisWords, rfl, himages⟩, hfour, htiles, hlt', word, hword, ?_, ?_⟩
  · show tiles[i]? = some word.Name
    rw [List.getElem?_eq_getElem hlt', hname]; rfl
  · rw [htitle]
    exact (List.getElem?_eq_some_iff.mp hat).2

/-- The step lemma: with distinct `Name`s every event keeps the answer on a tile. -/
theorem answerOnTile_of_step (hnodup : (words.map Words.Name).Nodup) {e : PlayEvent}
    (hs : PlaysWords words vc ∧ AnswerOnTile vc) (h : step vc e = some vc') :
    PlaysWords words vc' ∧ AnswerOnTile vc' := by
  obtain ⟨hplays, hanswer⟩ := hs
  cases he : e.startsRound with
  | false =>
    obtain ⟨speaker, player, observers, rfl, -⟩ := step_frame he h
    refine ⟨⟨?_, ?_, ?_⟩, ⟨?_, ?_, ?_, ?_⟩⟩
    · exact hplays.isWords
    · exact hplays.arrWord
    · exact hplays.arrWordImages
    · exact hanswer.four
    · exact hanswer.nodup
    · exact hanswer.index_lt
    · exact hanswer.entry
  | true =>
    obtain ⟨order, draws, rest, -, -, hdone⟩ := step_round he h
    have hround : (showWordData order { vc with player := .stopped }).after draws
        = .done vc' rest := by
      rw [← hdone, audioPlayerDidFinishPlaying, if_pos rfl, if_pos hplays.isWords]
    refine answerOnTile_of_showWordData ⟨?_, ?_, ?_⟩ hnodup hround
    · exact hplays.isWords
    · exact hplays.arrWord
    · exact hplays.arrWordImages

/-! ### Shared pictures -/

/-- A list with four distinct values and a repeated one: some draws collect the repeated
    value and three others. -/
theorem exists_draws_with {names : List String} {x : String} (h4 : 4 ≤ names.dedup.length)
    (hx : x ∈ names) :
    ∃ draws resultSet, (Sampler.sample names 4).after draws = .done resultSet [] ∧
      x ∈ resultSet.elems := by
  -- draw the repeated value first, then whatever is missing
  obtain ⟨r, hr⟩ := List.getElem?_of_mem hx
  have hone : (DrawnSet.empty.insert x).count ≤ 4 := by
    have hle := (DrawnSet.empty (α := String)).count_insert_le x
    simp only [DrawnSet.count_empty] at hle
    omega
  obtain ⟨draws, resultSet, -, hloop⟩ := exists_draws_left h4 (DrawnSet.empty.insert x) hone
  refine ⟨r :: draws, resultSet, ?_, ?_⟩
  · rw [Sampler.sample_eq_done, loop_cons_of_lt (by simp) hr, hloop]
  · exact mem_of_loop_left hloop (DrawnSet.mem_insert.mpr (Or.inl rfl))

/-- Drawing the last candidate asks for it, at the last index. -/
theorem ask_last {candidates : List String} {str : String} (h : candidates.getLast? = some str)
    (vc : PlayViewController) :
    (ask .insertion candidates vc).after [candidates.length - 1]
      = .done (vc.asks (candidates.length - 1) str) [] := by
  have hat : candidates[candidates.length - 1]? = some str := by
    rw [← List.getLast?_eq_getElem?]; exact h
  rw [ask_at hat, lastIndex_getLast h, Option.getD_some]

/-- Some round has its index past the tiles. -/
theorem exists_index_past (hplays : PlaysWords words vc)
    (h4 : 4 ≤ (words.map Words.Name).dedup.length) (hdup : ¬ (words.map Words.Name).Nodup) :
    ∃ draws vc', (showWordData .insertion vc).after draws = .done vc' [] ∧
      vc'.arrWordFinal.length = 4 ∧ 4 ≤ vc'.indexFinal := by
  obtain ⟨-, rfl, himages⟩ := hplays
  obtain ⟨x, hcount⟩ : ∃ x, 1 < (vc.arrWord.map Words.Name).count x := by
    simpa [List.nodup_iff_count_le_one] using hdup
  have hx : x ∈ vc.arrWord.map Words.Name := List.count_pos_iff.mp (by omega)
  obtain ⟨draws, resultSet, hsample, hin⟩ := exists_draws_with h4 hx
  obtain ⟨hfour, hmem⟩ := Sampler.sample_done_spec hsample
  let titles := arrGetTitleOfFetchedImages resultSet.elems vc.arrWord
  -- the titles outnumber the tiles, so the last of them has no tile
  have hlong : 4 < titles.length := by
    have hlt := Join.lt_length_join Words.title hmem hin hcount
    rwa [show resultSet.elems.length = 4 from hfour] at hlt
  have hlast : titles.getLast?.isSome :=
    List.getLast?_isSome.mpr (List.ne_nil_of_length_pos (by omega))
  obtain ⟨str, hstr⟩ := Option.isSome_iff_exists.mp hlast
  refine ⟨draws ++ [titles.length - 1],
    { vc with arrWordFinal := resultSet.elems }.asks (titles.length - 1) str, ?_, ?_, ?_⟩
  · -- the tiles are drawn as above, and then the last title
    rw [← himages] at hsample
    rw [showWordData, Sampler.after_bind_of_done (Sampler.done_append _ hsample _)]
    exact ask_last hstr _
  · exact hfour
  · show 4 ≤ titles.length - 1
    omega

/-- **Falling apart.** With four distinct `Name`s and one that two words share, some round
    has its answer past the tiles. -/
theorem exists_not_answerOnTile (hplays : PlaysWords words vc)
    (h4 : 4 ≤ (words.map Words.Name).dedup.length) (hdup : ¬ (words.map Words.Name).Nodup) :
    ∃ draws vc', (showWordData .insertion vc).after draws = .done vc' [] ∧ ¬ AnswerOnTile vc' := by
  obtain ⟨draws, vc', hdone, hfour, hpast⟩ := exists_index_past hplays h4 hdup
  refine ⟨draws, vc', hdone, fun hanswer => ?_⟩
  have hlt := hanswer.index_lt
  rw [hfour] at hlt
  omega

/-! ### Every round of every quiz -/

/-- **The rewarded tile is the word asked for.**  On a library with four distinct `Name`s
    every state of every words quiz has its answer on a tile exactly when the `Name`s are
    pairwise distinct. -/
theorem answerOnTile_iff {app : AppDelegate}
    (h4 : 4 ≤ (app.words.map Words.Name).dedup.length) :
    (∀ (screen : ButtonsViewController) (order : IterationOrder String) draws rest vc es vc',
        screen.isWords = true →
        (screen.playClicked.viewDidLoad order app).after draws = .done vc rest →
        run step vc es = some vc' → AnswerOnTile vc') ↔
      (app.words.map Words.Name).Nodup := by
  constructor
  · intro hall
    by_contra hdup
    let screen := HomeButton.wordClicked.destination
    obtain ⟨loaded, hplays, -, hload⟩ := @viewDidLoad_of_isWords screen rfl .insertion app
    obtain ⟨draws, vc, hdone, hnot⟩ := exists_not_answerOnTile hplays h4 hdup
    exact hnot (hall screen .insertion draws [] vc [] vc rfl (by rw [hload]; exact hdone) rfl)
  · intro hnodup screen order draws rest vc es vc' hw hdone hrun
    obtain ⟨loaded, hplays, -, hload⟩ := viewDidLoad_of_isWords hw order app
    rw [hload] at hdone
    have hfirst := answerOnTile_of_showWordData hplays hnodup hdone
    exact (run_invariant (fun _ _ _ hs hstep => answerOnTile_of_step hnodup hs hstep) hfirst hrun).2

/-- Four words with a picture each. -/
def fourWords : AppDelegate :=
  { words := [⟨"Cat", "cat.png"⟩, ⟨"Dog", "dog.png"⟩, ⟨"Cow", "cow.png"⟩, ⟨"Hen", "hen.png"⟩] }

theorem answerOnTile_iff_fourWords :
    ∃ vc, (HomeButton.wordClicked.destination.playClicked.viewDidLoad .insertion fourWords).after
      [3, 1, 0, 2, 2] = .done vc [] ∧ AnswerOnTile vc := by
  obtain ⟨vc, hvc⟩ : ∃ vc, (HomeButton.wordClicked.destination.playClicked.viewDidLoad
      .insertion fourWords).after [3, 1, 0, 2, 2] = .done vc [] := ⟨_, rfl⟩
  refine ⟨vc, hvc, ?_⟩
  exact (answerOnTile_iff (by decide)).mpr (by decide) _ .insertion _ [] vc [] vc rfl hvc rfl

/-- Five words; the pictures of the last two cannot be downloaded. -/
def failedDownloads : List LoadEvent :=
  [.fetchWords (some (["Cat", "Dog", "Cow", "Hen", "Pig"].map fun title =>
      [("title", .string title), ("Name", .reference title)])),
    .getDocument 0 true, .getDocument 1 true, .getDocument 2 true, .getDocument 3 true,
    .getDocument 4 true, .downloadURL 0 (some "cat.png"), .downloadURL 1 (some "dog.png"),
    .downloadURL 2 (some "cow.png"), .downloadURL 3 none, .downloadURL 4 none]

/-- The quiz on it asks for "Pig" and rewards a tile that does not exist. -/
theorem failedDownloads_not_answerOnTile :
    ∃ loader vc, run (Loader.step ⟨fun _ _ => false, fun _ _ => false⟩) .launch failedDownloads
        = some loader ∧
      4 ≤ (loader.app.words.map Words.Name).dedup.length ∧
      (HomeButton.wordClicked.destination.playClicked.viewDidLoad .insertion loader.app).after
        [0, 1, 2, 3, 4] = .done vc [] ∧
      vc.question = "Pig" ∧ ¬ AnswerOnTile vc := by
  refine ⟨_, _, rfl, by decide, rfl, by decide, fun h => ?_⟩
  exact absurd h.index_lt (by decide)

end ChildLearning
