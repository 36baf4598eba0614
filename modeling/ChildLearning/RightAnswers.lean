import Mathlib.Data.Set.Function
import ChildLearning.LettersQuiz
import ChildLearning.QuizSafety
import ChildLearning.WordsQuiz

namespace ChildLearning

open Sampling Transition PlayViewController

/-!
# Right answers

The tiles of a round are kept apart by one key, the url of a picture or the raw string,
while the child hears and sees another, the title or the capitalized string; and only one
tile is accepted.  `acceptsAnswers_iff` says when no right answer is refused: exactly when
the second key tells apart all that the first does.
-/

namespace PlayViewController

/-- What the tile of a row shows. -/
def tile (capitalized : String → String) (vc : PlayViewController) (row : ℕ) : Option Item :=
  (vc.cellForItemAt capitalized row {}).map ButtonCollectionViewCell.shows

/-- The tile is accepted: selecting it plays the clap. -/
def Accepts (vc : PlayViewController) (row : ℕ) : Prop :=
  ∀ created, vc.didSelectItemAt row created = vc.playClap created

/-- The tile presents the item asked for: it is the picture of a word with the title asked
    for, or shows the same text as the tile at `indexFinal`. -/
def PresentsAnswer (capitalized : String → String) (vc : PlayViewController) (row : ℕ) : Prop :=
  if vc.isWords then
    ∃ word ∈ vc.arrWord, vc.tile capitalized row = some (.image word.Name) ∧
      word.title = vc.question
  else
    ∃ item, vc.tile capitalized row = some item ∧ vc.tile capitalized vc.indexFinal = some item

/-- No right answer is refused. -/
def AcceptsAnswers (capitalized : String → String) (vc : PlayViewController) : Prop :=
  ∀ row, vc.PresentsAnswer capitalized row → vc.Accepts row

end PlayViewController

/-- Rounds can be made only from four distinct keys.  If there are, the titles of the words
    are distinct too, or no two letters (numbers) are the same when capitalized. -/
def KeysAgree (capitalized : String → String) (screen : ButtonsViewController)
    (app : AppDelegate) : Prop :=
  4 ≤ (screen.quizList app).dedup.length →
    if screen.isWords then (app.words.map Words.title).Nodup
    else Set.InjOn capitalized {str | str ∈ screen.quizList app}

variable {capitalized : String → String} {screen : ButtonsViewController} {app : AppDelegate}
  {words : List Words} {arr : List String} {vc vc' : PlayViewController}
  {order : IterationOrder String} {draws rest : List ℕ} {row : ℕ}

/-! ### Tiles and taps -/

/-- The accepted tile is the one at `indexFinal`: the others register no clap. -/
theorem accepts_iff : vc.Accepts row ↔ vc.indexFinal = row := by
  constructor
  · intro h
    by_contra hne
    have htap := h true
    rw [didSelectItemAt, if_neg hne] at htap
    have hobservers : vc.observers = vc.observers + 1 := congrArg PlayViewController.observers htap
    omega
  · intro h created
    exact if_pos h

theorem tile_of_isWords (h : vc.isWords = true) (row : ℕ) :
    vc.tile capitalized row = vc.arrWordFinal[row]?.map Item.image := by
  rw [tile, cellForItemAt, if_pos h, Option.map_map]
  rfl

theorem tile_of_not_isWords (h : vc.isWords = false) (row : ℕ) :
    vc.tile capitalized row = vc.arrFinal[row]?.map fun str => Item.text (capitalized str) := by
  rw [tile, cellForItemAt, if_neg (by simp [h]), Option.map_map]
  rfl

/-- Two tiles that present the answer cannot both be accepted. -/
theorem not_acceptsAnswers_of_two {i j : ℕ} (hi : vc.PresentsAnswer capitalized i)
    (hj : vc.PresentsAnswer capitalized j) (hne : i ≠ j) : ¬ vc.AcceptsAnswers capitalized := by
  intro h
  have hfirst : vc.indexFinal = i := accepts_iff.mp (h i hi)
  have hsecond : vc.indexFinal = j := accepts_iff.mp (h j hj)
  exact hne (hfirst.symm.trans hsecond)

/-- Two of at least four distinct values are among some four of them. -/
theorem exists_four_with {xs : List String} (h4 : 4 ≤ xs.dedup.length) {x y : String} (hx : x ∈ xs)
    (hy : y ∈ xs) :
    ∃ tiles : Finset String, tiles.card = 4 ∧ (∀ str ∈ tiles, str ∈ xs) ∧ x ∈ tiles ∧ y ∈ tiles := by
  have hsub : ({x, y} : Finset String) ⊆ xs.toFinset := by
    intro z hz
    rw [List.mem_toFinset]
    rcases Finset.mem_insert.mp hz with rfl | hz
    · exact hx
    · rw [Finset.mem_singleton.mp hz]; exact hy
  have htwo : ({x, y} : Finset String).card ≤ 4 := Finset.card_le_two.trans (by omega)
  have hfour : 4 ≤ xs.toFinset.card := by rw [List.card_toFinset]; exact h4
  obtain ⟨tiles, hpair, htiles, hcard⟩ := Finset.exists_subsuperset_card_eq hsub htwo hfour
  refine ⟨tiles, hcard, fun str hstr => List.mem_toFinset.mp (htiles hstr), ?_, ?_⟩
  · exact hpair (Finset.mem_insert_self x {y})
  · exact hpair (Finset.mem_insert_of_mem (Finset.mem_singleton_self y))

/-! ### Words -/

/-- With distinct titles only one tile presents the answer. -/
theorem acceptsAnswers_of_words (hplays : PlaysWords words vc) (hanswer : AnswerOnTile vc)
    (htitles : (words.map Words.title).Nodup) : vc.AcceptsAnswers capitalized := by
  obtain ⟨hisWords, rfl, -⟩ := hplays
  intro row hpresents
  rw [PresentsAnswer, if_pos hisWords] at hpresents
  obtain ⟨word, hword, htile, htitle⟩ := hpresents
  obtain ⟨asked, hasked, hat, haskedTitle⟩ := hanswer.entry
  have hsame : word = asked :=
    List.inj_on_of_nodup_map htitles hword hasked (htitle.trans haskedTitle.symm)
  have hrow : vc.arrWordFinal[row]? = some word.Name := by
    rw [tile_of_isWords hisWords, Option.map_eq_some_iff] at htile
    obtain ⟨url, hurl, himage⟩ := htile
    rw [hurl, Item.image.inj himage]
  rw [accepts_iff]
  exact (List.getElem?_inj hanswer.index_lt hanswer.nodup).mp (by rw [hat, hrow, hsame])

/-- Any four pictures, with the title of one of them asked for, are the round of some
    draws. -/
theorem exists_showWordData (order : IterationOrder String) (hplays : PlaysWords words vc)
    {tiles : Finset String} (hcard : tiles.card = 4)
    (hsub : ∀ url ∈ tiles, url ∈ words.map Words.Name) {word : Words} (hword : word ∈ words)
    (hname : word.Name ∈ tiles) :
    ∃ draws vc', (showWordData order vc).after draws = .done vc' [] ∧ vc'.isWords = true ∧
      vc'.arrWord = words ∧ (∀ url ∈ tiles, url ∈ vc'.arrWordFinal) ∧
      vc'.question = word.title := by
  obtain ⟨hisWords, rfl, himages⟩ := hplays
  obtain ⟨draws, resultSet, hsample, hmem⟩ := exists_sample order hcard hsub
  rw [← himages] at hsample
  let titles := arrGetTitleOfFetchedImages (order.toArray resultSet) vc.arrWord
  have htitle : word.title ∈ titles :=
    Join.mem_join.mpr ⟨word, hword, (hmem _).mpr hname, rfl⟩
  obtain ⟨i, hi⟩ := List.getElem?_of_mem htitle
  refine ⟨draws ++ [i], { vc with arrWordFinal := order.toArray resultSet }.asks
    ((lastIndex word.title titles).getD 0) word.title, ?_, hisWords, rfl, ?_, rfl⟩
  · rw [showWordData, Sampler.after_bind_of_done (Sampler.done_append _ hsample _)]
    exact ask_at hi _
  · intro url hurl
    exact (hmem url).mpr hurl

/-- Two words with one title: some round shows both, and refuses one. -/
theorem exists_refusal_of_words (order : IterationOrder String) (hplays : PlaysWords words vc)
    (hnames : (words.map Words.Name).Nodup) (h4 : 4 ≤ (words.map Words.Name).dedup.length)
    (htitles : ¬ (words.map Words.title).Nodup) :
    ∃ draws vc', (showWordData order vc).after draws = .done vc' [] ∧
      ¬ vc'.AcceptsAnswers capitalized := by
  obtain ⟨word, hword, other, hother, htitle, hne⟩ :
      ∃ word ∈ words, ∃ other ∈ words, word.title = other.title ∧ word ≠ other := by
    by_contra hnone
    push Not at hnone
    exact htitles (hnames.of_map.map_on fun x hx y hy heq => hnone x hx y hy heq)
  obtain ⟨tiles, hcard, hsub, hx, hy⟩ := exists_four_with h4
    (List.mem_map_of_mem (f := Words.Name) hword) (List.mem_map_of_mem (f := Words.Name) hother)
  obtain ⟨draws, vc', hdone, hisWords, harrWord, hshown, hquestion⟩ :=
    exists_showWordData order hplays hcard hsub hword hx
  -- the pictures differ, so they are two tiles; both words have the title asked for
  obtain ⟨i, hi⟩ := List.getElem?_of_mem (hshown _ hx)
  obtain ⟨j, hj⟩ := List.getElem?_of_mem (hshown _ hy)
  refine ⟨draws, vc', hdone, @not_acceptsAnswers_of_two _ _ i j ?_ ?_ ?_⟩
  · rw [PresentsAnswer, if_pos hisWords, harrWord]
    exact ⟨word, hword, by rw [tile_of_isWords hisWords, hi]; rfl, hquestion.symm⟩
  · rw [PresentsAnswer, if_pos hisWords, harrWord]
    exact ⟨other, hother, by rw [tile_of_isWords hisWords, hj]; rfl, by rw [hquestion, htitle]⟩
  · rintro rfl
    rw [hi, Option.some_inj] at hj
    exact hne (List.inj_on_of_nodup_map hnames hword hother hj)

/-! ### Letters and numbers -/

/-- The controller plays the quiz on this list, and a round is on screen. -/
structure PlaysLetters (arr : List String) (vc : PlayViewController) : Prop where
  isWords : vc.isWords = false
  arr : vc.arr = arr
  asks : AsksOneOfFour vc

/-- In the other modes `viewDidLoad` is a first `showData` on the list of the mode. -/
theorem viewDidLoad_of_not_isWords (h : screen.isWords = false) (order : IterationOrder String)
    (app : AppDelegate) :
    ∃ loaded : PlayViewController, loaded.isWords = false ∧ loaded.arr = screen.quizList app ∧
      screen.playClicked.viewDidLoad order app = showData order loaded := by
  let opened : PlayViewController := { screen.playClicked with synthesizer := .idle }
  refine ⟨{ opened with arr := screen.quizList app }, h, rfl, ?_⟩
  unfold viewDidLoad ButtonsViewController.quizList
  simp only [ButtonsViewController.playClicked, h, Bool.false_eq_true, if_false, opened]
  cases screen.isNumbers <;> rfl

theorem playsLetters_of_showData (hisWords : vc.isWords = false) (harr : vc.arr = arr)
    (h : (showData order vc).after draws = .done vc' rest) : PlaysLetters arr vc' := by
  have hasks := asksOneOfFour_of_showData h
  obtain ⟨tiles, -, -, -, str, -, rfl⟩ := showData_done h
  exact ⟨hisWords, harr, hasks⟩

/-- The step lemma: every event leaves a round on screen. -/
theorem playsLetters_of_step {e : PlayEvent} (hs : PlaysLetters arr vc)
    (h : step vc e = some vc') : PlaysLetters arr vc' := by
  cases he : e.startsRound with
  | false =>
    obtain ⟨speaker, player, observers, rfl, -⟩ := step_frame he h
    refine ⟨hs.isWords, hs.arr, ?_, ?_, ?_, ?_, ?_⟩
    · exact hs.asks.four
    · exact hs.asks.nodup
    · exact hs.asks.mem
    · exact hs.asks.index_lt
    · exact hs.asks.only
  | true =>
    obtain ⟨order, draws, rest, -, -, hdone⟩ := step_round he h
    have hround : (showData order { vc with player := .stopped }).after draws = .done vc' rest := by
      rw [← hdone, audioPlayerDidFinishPlaying, if_pos rfl, if_neg (by simp [hs.isWords])]
    refine playsLetters_of_showData ?_ ?_ hround
    · exact hs.isWords
    · exact hs.arr

/-- If no two values look the same, only one tile shows the answer. -/
theorem acceptsAnswers_of_letters (hs : PlaysLetters arr vc)
    (hinj : Set.InjOn capitalized {str | str ∈ arr}) : vc.AcceptsAnswers capitalized := by
  obtain ⟨hisWords, rfl, hasks⟩ := hs
  intro row hpresents
  rw [PresentsAnswer, if_neg (by simp [hisWords])] at hpresents
  obtain ⟨item, hrow, hfinal⟩ := hpresents
  rw [tile_of_not_isWords hisWords, Option.map_eq_some_iff] at hrow hfinal
  obtain ⟨str, hstr, htext⟩ := hrow
  obtain ⟨asked, hasked, haskedText⟩ := hfinal
  have hsame : str = asked := by
    refine hinj (hasks.mem _ (List.mem_of_getElem? hstr)) (hasks.mem _ (List.mem_of_getElem? hasked)) ?_
    exact Item.text.inj (htext.trans haskedText.symm)
  have hquestion : asked = vc.question := by
    rw [(hasks.only vc.indexFinal).mpr rfl, Option.some_inj] at hasked
    exact hasked.symm
  rw [accepts_iff]
  exact ((hasks.only row).mp (by rw [hstr, hsame, hquestion])).symm

/-- Two values that look the same: some round shows both, and refuses one. -/
theorem exists_refusal_of_letters (order : IterationOrder String) (hisWords : vc.isWords = false)
    (h4 : 4 ≤ vc.arr.dedup.length) (hinj : ¬ Set.InjOn capitalized {str | str ∈ vc.arr}) :
    ∃ draws vc', (showData order vc).after draws = .done vc' [] ∧
      ¬ vc'.AcceptsAnswers capitalized := by
  obtain ⟨x, hx, y, hy, htext, hne⟩ :
      ∃ x ∈ vc.arr, ∃ y ∈ vc.arr, capitalized x = capitalized y ∧ x ≠ y := by
    by_contra hnone
    push Not at hnone
    exact hinj fun x hx y hy heq => hnone x hx y hy heq
  obtain ⟨tiles, hcard, hsub, hxt, hyt⟩ := exists_four_with h4 hx hy
  obtain ⟨draws, vc', hdone, hshown, hquestion⟩ := exists_showData order vc hcard hsub hxt
  obtain ⟨hisWords', -, hasks⟩ := playsLetters_of_showData hisWords rfl hdone
  rw [← hshown, List.mem_toFinset] at hyt
  obtain ⟨j, hj⟩ := List.getElem?_of_mem hyt
  have hfinal : vc'.arrFinal[vc'.indexFinal]? = some x := by
    rw [(hasks.only vc'.indexFinal).mpr rfl, hquestion]
  refine ⟨draws, vc', hdone, @not_acceptsAnswers_of_two _ _ vc'.indexFinal j ?_ ?_ ?_⟩
  · rw [PresentsAnswer, if_neg (by simp [hisWords'])]
    exact ⟨.text (capitalized x), by rw [tile_of_not_isWords hisWords', hfinal]; rfl,
      by rw [tile_of_not_isWords hisWords', hfinal]; rfl⟩
  · rw [PresentsAnswer, if_neg (by simp [hisWords'])]
    exact ⟨.text (capitalized x), by rw [tile_of_not_isWords hisWords', hj, htext]; rfl,
      by rw [tile_of_not_isWords hisWords', hfinal]; rfl⟩
  · intro heq
    rw [← heq, hfinal, Option.some_inj] at hj
    exact hne hj

/-! ### Every round of every quiz -/

/-- **When no right answer is refused.**  In every state of every quiz on a library, with
    pairwise distinct `Name`s if it is on words, all tiles that present the answer are
    accepted exactly when the keys agree. -/
theorem acceptsAnswers_iff (capitalized : String → String) (screen : ButtonsViewController)
    (app : AppDelegate) (hnames : screen.isWords = true → (app.words.map Words.Name).Nodup) :
    (∀ (order : IterationOrder String) draws rest vc es vc',
        (screen.playClicked.viewDidLoad order app).after draws = .done vc rest →
        run step vc es = some vc' → AcceptsAnswers capitalized vc') ↔
      KeysAgree capitalized screen app := by
  cases hw : screen.isWords with
  | true =>
    have hlist : screen.quizList app = app.words.map Words.Name := if_pos hw
    have hnodup := hnames hw
    rw [KeysAgree, if_pos hw, hlist]
    constructor
    · intro hall h4
      by_contra htitles
      obtain ⟨loaded, hplays, -, hload⟩ := viewDidLoad_of_isWords hw .insertion app
      obtain ⟨draws, vc, hdone, hnot⟩ :=
        exists_refusal_of_words .insertion hplays hnodup h4 htitles
      exact hnot (hall .insertion draws [] vc [] vc (by rw [hload]; exact hdone) rfl)
    · intro hagree order draws rest vc es vc' hdone hrun
      obtain ⟨loaded, hplays, -, hload⟩ := viewDidLoad_of_isWords hw order app
      rw [hload] at hdone
      -- there has been a round, so there are four distinct pictures
      have h4 : 4 ≤ (app.words.map Words.Name).dedup.length := by
        rw [← hplays.arrWordImages]
        exact Sampler.le_dedup_of_bind_done hdone
      have hfirst := answerOnTile_of_showWordData hplays hnodup hdone
      obtain ⟨hplays', hanswer⟩ :=
        run_invariant (fun _ _ _ hs hstep => answerOnTile_of_step hnodup hs hstep) hfirst hrun
      exact acceptsAnswers_of_words hplays' hanswer (hagree h4)
  | false =>
    rw [KeysAgree, if_neg (by simp [hw])]
    constructor
    · intro hall h4
      by_contra hinj
      obtain ⟨loaded, hisWords, harr, hload⟩ := viewDidLoad_of_not_isWords hw .insertion app
      rw [← harr] at h4 hinj
      obtain ⟨draws, vc, hdone, hnot⟩ := exists_refusal_of_letters .insertion hisWords h4 hinj
      exact hnot (hall .insertion draws [] vc [] vc (by rw [hload]; exact hdone) rfl)
    · intro hagree order draws rest vc es vc' hdone hrun
      obtain ⟨loaded, hisWords, harr, hload⟩ := viewDidLoad_of_not_isWords hw order app
      rw [hload] at hdone
      have h4 : 4 ≤ (screen.quizList app).dedup.length := by
        rw [← harr]
        exact Sampler.le_dedup_of_bind_done hdone
      have hfirst := playsLetters_of_showData hisWords harr hdone
      have hs := run_invariant (fun _ _ _ hs hstep => playsLetters_of_step hs hstep) hfirst hrun
      exact acceptsAnswers_of_letters hs (hagree h4)

/-- On a library of four words with different titles no right answer is refused. -/
theorem acceptsAnswers_iff_fourWords :
    ∃ vc, (HomeButton.wordClicked.destination.playClicked.viewDidLoad .insertion fourWords).after
      [3, 1, 0, 2, 2] = .done vc [] ∧ vc.AcceptsAnswers String.capitalize := by
  obtain ⟨vc, hvc⟩ : ∃ vc, (HomeButton.wordClicked.destination.playClicked.viewDidLoad
      .insertion fourWords).after [3, 1, 0, 2, 2] = .done vc [] := ⟨_, rfl⟩
  refine ⟨vc, hvc, ?_⟩
  have htitles : (fourWords.words.map Words.title).Nodup := by decide
  have hagree : KeysAgree String.capitalize HomeButton.wordClicked.destination fourWords :=
    fun _ => htitles
  exact (acceptsAnswers_iff _ _ _ fun _ => by decide).mpr hagree .insertion _ [] vc [] vc hvc rfl

/-- Two pictures of a cat among four, and a small and a capital "a" among four letters. -/
def twoCats : AppDelegate :=
  { words := [⟨"Cat", "cat1.png"⟩, ⟨"Cat", "cat2.png"⟩, ⟨"Dog", "dog.png"⟩, ⟨"Cow", "cow.png"⟩]
    arrAlphabets := ["a", "A", "b", "c"] }

/-- Asked for "Cat", the first cat is refused; asked for "a", the second tile with an "A". -/
theorem twoCats_not_acceptsAnswers :
    (twoCats.words.map Words.Name).Nodup ∧
    (∃ vc, (HomeButton.wordClicked.destination.playClicked.viewDidLoad .insertion twoCats).after
        [0, 1, 2, 3, 0] = .done vc [] ∧ vc.question = "Cat" ∧
      vc.tile String.capitalize 0 = some (.image "cat1.png") ∧
      ¬ vc.AcceptsAnswers String.capitalize) ∧
    (∃ vc, (HomeButton.alphabetClicked.destination.playClicked.viewDidLoad .insertion twoCats).after
        [0, 1, 2, 3, 0] = .done vc [] ∧ vc.question = "a" ∧
      vc.tile String.capitalize 1 = some (.text "A") ∧
      ¬ vc.AcceptsAnswers String.capitalize) := by
  refine ⟨by decide, ⟨_, rfl, rfl, rfl, fun h => ?_⟩, ⟨_, rfl, rfl, ?_, fun h => ?_⟩⟩
  · have haccepted := accepts_iff.mp (h 0 ⟨⟨"Cat", "cat1.png"⟩, List.mem_cons_self, rfl, rfl⟩)
    cases haccepted
  · decide
  · have haccepted := accepts_iff.mp (h 1 ⟨.text "A", by decide, by decide⟩)
    cases haccepted

end ChildLearning
