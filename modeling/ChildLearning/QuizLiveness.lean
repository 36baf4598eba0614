import ChildLearning.QuestionHeard
import ChildLearning.QuizTermination

namespace ChildLearning

open Sampling Transition PlayViewController

/-!
# The quiz goes on

Nothing but the right tile takes a quiz to its next round.  `canAsk_of_run` says that this
is enough: from every state of every quiz some taps lead on to a next round, any item of the
library can be the one it asks for, and the question can be heard.  For the last, what is
spoken has to end first, and what is paused has to be continued, which takes a wrong tile.
Only two words with one picture can spoil it, and then some quiz stays in its first round
whatever is tapped.
-/

/-- Some events lead to the next round, and it asks for this text and is heard. -/
def CanAsk (vc : PlayViewController) (str : String) : Prop :=
  ∃ es vc', run step vc es = some vc' ∧ vc'.rounds = vc.rounds + 1 ∧ vc'.question = str ∧
    vc'.SpeaksQuestion

/-- The texts that the quiz of a library screen can ask for. -/
def ButtonsViewController.questions (screen : ButtonsViewController) (app : AppDelegate) :
    List String :=
  if screen.isWords then app.words.map Words.title else screen.quizList app

variable {words : List Words} {arr : List String} {vc vc' start : PlayViewController}
  {es : List PlayEvent} {draws rest : List ℕ} {order : IterationOrder String} {app : AppDelegate}
  {screen : ButtonsViewController} {str : String}

/-! ### Silence -/

/-- Within a round the speech can be brought to its end: a wrong tile continues what is
    paused. -/
theorem exists_run_idle (vc : PlayViewController) (h2 : 2 ≤ vc.numberOfItemsInSection) :
    ∃ es silent, run step vc es = some silent ∧ silent.synthesizer = .idle ∧
      silent.rounds = vc.rounds := by
  cases hsyn : vc.synthesizer with
  | idle => exact ⟨[], vc, rfl, hsyn, rfl⟩
  | speaking utterance =>
    have hfinish : step vc .didFinishUtterance = some { vc with synthesizer := .idle } := by
      rw [step, hsyn]
      rfl
    refine ⟨[.didFinishUtterance], { vc with synthesizer := .idle }, ?_, rfl, rfl⟩
    exact run_cons_eq_some.mpr ⟨_, hfinish, rfl⟩
  | paused utterance =>
    obtain ⟨row, hrow, hwrong⟩ : ∃ row < vc.numberOfItemsInSection, vc.indexFinal ≠ row := by
      by_cases h0 : vc.indexFinal = 0
      · exact ⟨1, by omega, by omega⟩
      · exact ⟨0, by omega, h0⟩
    have htap : step vc (.didSelectItemAt row true)
        = some (vc.textToSpeech "Sorry Please try again") := by
      rw [step, if_pos hrow, didSelectItemAt, if_neg hwrong]
    have hcontinues : (vc.textToSpeech "Sorry Please try again").synthesizer
        = .speaking utterance := by
      show (vc.toSpeaker.textToSpeech _ _ _).synthesizer = _
      rw [Speaker.textToSpeech_synthesizer, hsyn]
    have hfinish : step (vc.textToSpeech "Sorry Please try again") .didFinishUtterance
        = some { vc.textToSpeech "Sorry Please try again" with synthesizer := .idle } := by
      rw [step, hcontinues]
      rfl
    refine ⟨[.didSelectItemAt row true, .didFinishUtterance],
      { vc.textToSpeech "Sorry Please try again" with synthesizer := .idle }, ?_, rfl, rfl⟩
    exact run_cons_eq_some.mpr ⟨_, htap, run_cons_eq_some.mpr ⟨_, hfinish, rfl⟩⟩

/-- What can be asked later in the round can be asked now. -/
theorem CanAsk.of_run (h : CanAsk vc' str) (hrun : run step vc es = some vc')
    (hrounds : vc'.rounds = vc.rounds) : CanAsk vc str := by
  obtain ⟨more, next, hmore, hnext, hquestion, hspeaks⟩ := h
  refine ⟨es ++ more, next, ?_, hrounds ▸ hnext, hquestion, hspeaks⟩
  rw [run_append, hrun]
  exact hmore

/-! ### The next round -/

/-- The state after the right tile has been tapped and its clap has ended, in which the next
    round is drawn. -/
def clapped (vc : PlayViewController) : PlayViewController :=
  { vc.playClap true with player := .stopped }

/-- A tap on the right tile and the end of the clap. -/
theorem exists_run_clapped (hindex : vc.indexFinal < vc.numberOfItemsInSection)
    (h : ((clapped vc).audioPlayerDidFinishPlaying order true).after draws = .done vc' rest) :
    ∃ es, run step vc es = some vc' := by
  have htap : step vc (.didSelectItemAt vc.indexFinal true) = some (vc.playClap true) := by
    rw [step, if_pos hindex, didSelectItemAt, if_pos rfl]
  have hplaying : (vc.playClap true).player = .playing := rfl
  have hclap : step (vc.playClap true) (.audioPlayerDidFinishPlaying true order draws) = some vc' := by
    rw [step, if_pos hplaying]
    exact Progress.value?_eq_some.mpr ⟨rest, h⟩
  refine ⟨[.didSelectItemAt vc.indexFinal true, .audioPlayerDidFinishPlaying true order draws], ?_⟩
  exact run_cons_eq_some.mpr ⟨_, htap, run_cons_eq_some.mpr ⟨_, hclap, rfl⟩⟩

/-- A round of letters or numbers shows four tiles. -/
theorem PlaysLetters.numberOfItemsInSection (hs : PlaysLetters arr vc) :
    vc.numberOfItemsInSection = 4 := by
  rw [PlayViewController.numberOfItemsInSection, if_neg (by simp [hs.isWords]), hs.asks.four]

/-- Letters and numbers: any value can be asked for next, in silence. -/
theorem canAsk_of_letters (hs : PlaysLetters arr vc) (hidle : vc.synthesizer = .idle)
    (hstr : str ∈ arr) : CanAsk vc str := by
  have h4 : 4 ≤ arr.dedup.length := by
    have hle := hs.asks.nodup.subperm fun x hx => List.mem_dedup.mpr (hs.arr ▸ hs.asks.mem x hx)
    have hfour := hs.asks.four
    exact hfour ▸ hle.length_le
  obtain ⟨tiles, hcard, hsub, hin, -⟩ := exists_four_with h4 hstr hstr
  have harr : (clapped vc).arr = arr := hs.arr
  obtain ⟨draws, vc', hdone, -, hquestion⟩ :=
    exists_showData .insertion (clapped vc) hcard (fun x hx => harr ▸ hsub x hx) hin
  have hindex : vc.indexFinal < vc.numberOfItemsInSection := by
    rw [hs.numberOfItemsInSection]
    exact hs.asks.index_lt
  have hround : ((clapped vc).audioPlayerDidFinishPlaying .insertion true).after draws
      = .done vc' [] := by
    have hmode : (clapped vc).isWords = false := hs.isWords
    rw [audioPlayerDidFinishPlaying, if_pos rfl, if_neg (by simp [hmode])]
    exact hdone
  obtain ⟨es, hrun⟩ := exists_run_clapped hindex hround
  obtain ⟨arrFinal, -, -, -, asked, -, rfl⟩ := showData_done hdone
  refine ⟨es, _, hrun, asks_rounds _ _, hquestion, (speaksQuestion_asks ?_ _ _).1⟩
  exact hidle

/-- Words: so can the title of any word, if the answer is on a tile. -/
theorem canAsk_of_words (hplays : PlaysWords words vc) (hidle : vc.synthesizer = .idle)
    (hanswer : AnswerOnTile vc)
    (h4 : 4 ≤ (words.map Words.Name).dedup.length) {word : Words} (hword : word ∈ words) :
    CanAsk vc word.title := by
  have hname : word.Name ∈ words.map Words.Name := List.mem_map_of_mem hword
  obtain ⟨tiles, hcard, hsub, hin, -⟩ := exists_four_with h4 hname hname
  have hclapped : PlaysWords words (clapped vc) := by
    refine ⟨?_, ?_, ?_⟩
    · exact hplays.isWords
    · exact hplays.arrWord
    · exact hplays.arrWordImages
  obtain ⟨draws, vc', hdone, -, -, -, hquestion⟩ :=
    exists_showWordData .insertion hclapped hcard hsub hword hin
  have hindex : vc.indexFinal < vc.numberOfItemsInSection := by
    rw [numberOfItemsInSection, if_pos hplays.isWords]
    exact hanswer.index_lt
  have hround : ((clapped vc).audioPlayerDidFinishPlaying .insertion true).after draws
      = .done vc' [] := by
    rw [audioPlayerDidFinishPlaying, if_pos rfl, if_pos hclapped.isWords]
    exact hdone
  obtain ⟨es, hrun⟩ := exists_run_clapped hindex hround
  obtain ⟨arrWordFinal, -, -, -, asked, -, rfl⟩ := showWordData_done hdone
  refine ⟨es, _, hrun, asks_rounds _ _, hquestion, (speaksQuestion_asks ?_ _ _).1⟩
  exact hidle

/-! ### No next round -/

/-- The tile that is asked for is not on screen, and no clap is playing. -/
structure Stuck (vc : PlayViewController) : Prop where
  isWords : vc.isWords = true
  four : vc.arrWordFinal.length = 4
  past : 4 ≤ vc.indexFinal
  player : vc.player = .stopped

/-- The step lemma: nothing that can happen changes that, or starts a round. -/
theorem Stuck.step {e : PlayEvent} (hs : Stuck vc) (h : step vc e = some vc') :
    Stuck vc' ∧ vc'.rounds = vc.rounds := by
  cases e with
  | didSelectItemAt row created =>
    obtain ⟨hrow, hstep⟩ := Option.ite_none_right_eq_some.mp h
    cases hstep
    rw [numberOfItemsInSection, if_pos hs.isWords, hs.four] at hrow
    have hpast := hs.past
    rw [didSelectItemAt, if_neg (by omega)]
    exact ⟨⟨hs.isWords, hs.four, hs.past, hs.player⟩, rfl⟩
  | didFinishUtterance =>
    obtain ⟨synthesizer, -, rfl⟩ := Option.map_eq_some_iff.mp h
    exact ⟨⟨hs.isWords, hs.four, hs.past, hs.player⟩, rfl⟩
  | audioPlayerDidFinishPlaying flag order draws =>
    obtain ⟨hplaying, -⟩ := Option.ite_none_right_eq_some.mp h
    rw [hs.player] at hplaying
    cases hplaying

/-- The run lemma. -/
theorem Stuck.run (hs : Stuck start) (h : run PlayViewController.step start es = some vc) :
    Stuck vc ∧ vc.rounds = start.rounds :=
  run_invariant (I := fun vc => Stuck vc ∧ vc.rounds = start.rounds)
    (fun _ _ _ hstuck hstep =>
      ⟨(hstuck.1.step hstep).1, (hstuck.1.step hstep).2.trans hstuck.2⟩) ⟨hs, rfl⟩ h

/-- With two words that share a picture some quiz is stuck from the start. -/
theorem exists_stuck (hw : screen.isWords = true)
    (h4 : 4 ≤ (app.words.map Words.Name).dedup.length)
    (hdup : ¬ (app.words.map Words.Name).Nodup) :
    ∃ draws start, (screen.playClicked.viewDidLoad .insertion app).after draws = .done start [] ∧
      Stuck start := by
  obtain ⟨loaded, hplays, -, hload⟩ := viewDidLoad_of_isWords hw .insertion app
  obtain ⟨draws, start, hdone, hfour, hpast⟩ := exists_index_past hplays h4 hdup
  refine ⟨draws, start, by rw [hload, hdone], ?_, hfour, hpast, ?_⟩
  · obtain ⟨tiles, -, -, -, asked, -, rfl⟩ := showWordData_done hdone
    exact hplays.isWords
  · obtain ⟨opened, index, asked, -, -, hplayer, -, rfl⟩ := viewDidLoad_done (hload ▸ hdone)
    exact hplayer

/-! ### Every quiz -/

/-- **The quiz goes on.**  On a list with four distinct values: unless two words share a
    picture, every state of every quiz can be left for a next round with any item of the
    library asked for, aloud; and if they do, some quiz never leaves its first round. -/
theorem canAsk_of_run {screen : ButtonsViewController} {app : AppDelegate}
    (h4 : 4 ≤ (screen.quizList app).dedup.length) :
    ((screen.isWords = true → (app.words.map Words.Name).Nodup) →
      ∀ (order : IterationOrder String) draws rest start es vc,
        (screen.playClicked.viewDidLoad order app).after draws = .done start rest →
        run step start es = some vc → ∀ str ∈ screen.questions app, CanAsk vc str) ∧
    (screen.isWords = true → ¬ (app.words.map Words.Name).Nodup →
      ∃ draws start, (screen.playClicked.viewDidLoad .insertion app).after draws = .done start [] ∧
        ∀ es vc, run step start es = some vc → vc.rounds = 1) := by
  refine ⟨fun hnames order draws rest start es vc hload hrun str hstr => ?_, fun hw hdup => ?_⟩
  · unfold ButtonsViewController.questions at hstr
    have hplays := playsOn_of_run (playsOn_viewDidLoad hload) hrun
    have hafter := fun es' silent (h : run step vc es' = some silent) =>
      playsOn_of_run hplays h
    unfold PlaysOn at hplays hafter
    split_ifs at hplays hafter hstr with hw
    · have hlist : screen.quizList app = app.words.map Words.Name := if_pos hw
      rw [hlist] at h4
      obtain ⟨word, hword, rfl⟩ := List.mem_map.mp hstr
      -- with distinct pictures the answer of every round is on a tile
      obtain ⟨loaded, hloaded, -, heq⟩ := viewDidLoad_of_isWords hw order app
      rw [heq] at hload
      have hfirst := answerOnTile_of_showWordData hloaded (hnames hw) hload
      have hanswer := run_invariant
        (fun _ _ _ hs hstep => answerOnTile_of_step (hnames hw) hs hstep) hfirst hrun
      have hfour : vc.numberOfItemsInSection = 4 := by
        rw [numberOfItemsInSection, if_pos hplays.plays.isWords, hanswer.2.four]
      obtain ⟨es', silent, hsilent, hidle, hrounds⟩ := exists_run_idle vc (by omega)
      have hanswer' := run_invariant
        (fun _ _ _ hs hstep => answerOnTile_of_step (hnames hw) hs hstep) hanswer hsilent
      have hcan := canAsk_of_words (hafter es' silent hsilent).plays hidle hanswer'.2 h4 hword
      exact hcan.of_run hsilent hrounds
    · have hfour := hplays.numberOfItemsInSection
      obtain ⟨es', silent, hsilent, hidle, hrounds⟩ := exists_run_idle vc (by omega)
      have hcan := canAsk_of_letters (hafter es' silent hsilent) hidle hstr
      exact hcan.of_run hsilent hrounds
  · have hlist : screen.quizList app = app.words.map Words.Name := if_pos hw
    rw [hlist] at h4
    obtain ⟨draws, start, hdone, hstuck⟩ := exists_stuck hw h4 hdup
    refine ⟨draws, start, hdone, fun es vc hrun => ?_⟩
    obtain ⟨loaded, index, asked, -, hrounds, -, -, rfl⟩ := viewDidLoad_done hdone
    rw [(hstuck.run hrun).2, asks_rounds, hrounds]
    rfl

/-- On the letters "a" to "d" the quiz that has just asked for "a" can go on to ask for
    "c". -/
theorem canAsk_of_run_letters :
    ∃ start, (HomeButton.alphabetClicked.destination.playClicked.viewDidLoad .insertion
        { arrAlphabets := ["a", "b", "c", "d"] }).after [0, 1, 2, 3, 0] = .done start [] ∧
      start.question = "a" ∧ CanAsk start "c" := by
  obtain ⟨start, hload, hquestion⟩ : ∃ start,
      (HomeButton.alphabetClicked.destination.playClicked.viewDidLoad .insertion
        { arrAlphabets := ["a", "b", "c", "d"] }).after [0, 1, 2, 3, 0] = .done start [] ∧
      start.question = "a" := ⟨_, rfl, rfl⟩
  refine ⟨start, hload, hquestion, ?_⟩
  exact (@canAsk_of_run HomeButton.alphabetClicked.destination _ (by decide)).1 nofun
    .insertion _ [] start [] start hload rfl "c" (by decide)

end ChildLearning
