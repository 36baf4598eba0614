import ChildLearning.Lib.Transition
import ChildLearning.PlayViewController

namespace ChildLearning

open Sampling Transition PlayViewController

/-!
# The question heard

`textToSpeech` speaks a text only on a silent synthesizer; otherwise it pauses or
continues whatever is there.  A round that starts while something is spoken or paused
therefore never gets its question spoken.  `questionHeard_along_iff` says that this is
the only way to fail: along a run the question heard is the question of the round on
screen exactly when every clap that ends successfully ends in silence.
-/

/-- The text of a question. -/
def AVSpeechUtterance.isQuestion (utterance : AVSpeechUtterance) : Bool :=
  "Where is ".toList.isPrefixOf utterance.string.toList

namespace PlayViewController

/-- The utterance is the question of the current round. -/
def IsCurrentQuestion (vc : PlayViewController) (utterance : AVSpeechUtterance) : Prop :=
  utterance.round = vc.rounds ∧ utterance.string = "Where is " ++ vc.question

/-- The question of the current round is being spoken. -/
def SpeaksQuestion (vc : PlayViewController) : Prop :=
  ∃ utterance, vc.synthesizer = .speaking utterance ∧ vc.IsCurrentQuestion utterance

/-- A question that is spoken or paused is the one of the current round. -/
def OnlyCurrentQuestion (vc : PlayViewController) : Prop :=
  ∀ utterance, vc.synthesizer.current = some utterance → utterance.isQuestion = true →
    vc.IsCurrentQuestion utterance

end PlayViewController

/-- A round that starts has its question spoken, and no question of another round is
    spoken or paused. -/
def QuestionHeard (_ : PlayViewController) (e : PlayEvent) (vc' : PlayViewController) : Prop :=
  (e.startsRound = true → vc'.SpeaksQuestion) ∧ vc'.OnlyCurrentQuestion

/-- A round starts in silence. -/
def StartsInSilence (vc : PlayViewController) (e : PlayEvent) (_ : PlayViewController) : Prop :=
  e.startsRound = true → vc.synthesizer = .idle

/-- The invariant: what is spoken or paused is of no later round, and if a question, of
    the current one. -/
structure Heard (vc : PlayViewController) : Prop where
  notAhead : ∀ utterance, vc.synthesizer.current = some utterance → utterance.round ≤ vc.rounds
  onlyCurrent : vc.OnlyCurrentQuestion

variable {vc vc' : PlayViewController} {e : PlayEvent}

/-- Asking in silence: the question is spoken, and the invariant holds. -/
theorem speaksQuestion_asks (h : vc.synthesizer = .idle) (index : ℕ) (str : String) :
    (vc.asks index str).SpeaksQuestion ∧ Heard (vc.asks index str) := by
  have hspeaks : (vc.asks index str).synthesizer
      = .speaking ⟨"Where is " ++ str, some "en-US", 35 / 100, vc.rounds + 1⟩ := by
    rw [asks_synthesizer, Speaker.textToSpeech_synthesizer, h]
  -- the new question is all there is to hear
  refine ⟨⟨_, hspeaks, rfl, rfl⟩, ⟨fun u hu => ?_, fun u hu _ => ?_⟩⟩
  · rw [hspeaks] at hu
    cases hu
    exact le_refl _
  · rw [hspeaks] at hu
    cases hu
    exact ⟨rfl, rfl⟩

/-- Asking while something is spoken or paused: the question is not spoken. -/
theorem not_speaksQuestion_asks
    (hs : ∀ utterance, vc.synthesizer.current = some utterance → utterance.round ≤ vc.rounds)
    (h : vc.synthesizer ≠ .idle) (index : ℕ) (str : String) :
    ¬ (vc.asks index str).SpeaksQuestion := by
  rintro ⟨u, hu, hround, -⟩
  rw [asks_synthesizer, Speaker.textToSpeech_synthesizer] at hu
  cases hsyn : vc.synthesizer with
  | idle => exact h hsyn
  | speaking old => rw [hsyn] at hu; cases hu
  | paused old =>
    -- the old utterance goes on, which is of an earlier round
    rw [hsyn] at hu
    cases hu
    have hle := hs u (by rw [hsyn]; rfl)
    rw [asks_rounds] at hround
    omega

/-- The apology is not a question. -/
theorem not_isQuestion_apology {u : AVSpeechUtterance} (h : u.string = "Sorry Please try again") :
    u.isQuestion = false := by
  rw [AVSpeechUtterance.isQuestion, h]
  decide

/-- A step that starts no round keeps the invariant. -/
theorem Heard.step_of_not_startsRound (hs : Heard vc) (he : e.startsRound = false)
    (h : vc.step e = some vc') : Heard vc' := by
  obtain ⟨speaker, player, observers, rfl, rfl | hidle | rfl⟩ := step_frame he h
  · -- neither the speech nor the round has changed
    exact ⟨hs.notAhead, hs.onlyCurrent⟩
  · -- nothing is left to hear
    have hsilent : ∀ u, speaker.synthesizer.current ≠ some u := by
      intro u hu
      rw [hidle] at hu
      cases hu
    exact ⟨fun u hu => absurd hu (hsilent u), fun u hu => absurd hu (hsilent u)⟩
  · constructor
    · intro u hu
      rcases Speaker.textToSpeech_current hu with hold | rfl
      · exact hs.notAhead u hold
      · exact le_refl _
    · intro u hu hquestion
      rcases Speaker.textToSpeech_current hu with hold | rfl
      · exact hs.onlyCurrent u hold hquestion
      · rw [not_isQuestion_apology rfl] at hquestion
        cases hquestion

/-- A step that starts a round asks a question on the synthesizer as it was. -/
theorem exists_asks_of_startsRound (he : e.startsRound = true) (h : vc.step e = some vc') :
    ∃ (tiles : PlayViewController) (index : ℕ) (str : String),
      tiles.toSpeaker = vc.toSpeaker ∧ tiles.rounds = vc.rounds ∧ vc' = tiles.asks index str := by
  obtain ⟨order, draws, rest, -, -, hdone⟩ := step_round he h
  obtain ⟨arrFinal, arrWordFinal, index, str, rfl⟩ := audioPlayerDidFinishPlaying_done hdone
  refine ⟨_, index, str, ?_, ?_, rfl⟩ <;> rfl

/-- The step lemma: in an invariant state, a step is heard right exactly when a round it
    starts starts in silence. -/
theorem questionHeard_iff (hs : Heard vc) (h : vc.step e = some vc') :
    QuestionHeard vc e vc' ↔ StartsInSilence vc e vc' := by
  cases he : e.startsRound with
  | false =>
    have hnext := hs.step_of_not_startsRound he h
    simp [QuestionHeard, StartsInSilence, he, hnext.onlyCurrent]
  | true =>
    obtain ⟨tiles, index, str, hspeaker, hrounds, rfl⟩ := exists_asks_of_startsRound he h
    have hsyn : tiles.synthesizer = vc.synthesizer := by rw [hspeaker]
    simp only [QuestionHeard, StartsInSilence, he, forall_const]
    constructor
    · -- had something been spoken or paused, the toggle would have kept it
      rintro ⟨hspeaks, -⟩
      by_contra hne
      have hahead : ∀ u, tiles.synthesizer.current = some u → u.round ≤ tiles.rounds := by
        intro u hu
        rw [hrounds]
        exact hs.notAhead u (hsyn ▸ hu)
      exact not_speaksQuestion_asks hahead (hsyn ▸ hne) index str hspeaks
    · intro hidle
      obtain ⟨hspeaks, hheard⟩ := speaksQuestion_asks (hsyn.trans hidle) index str
      exact ⟨hspeaks, hheard.onlyCurrent⟩

/-- A step that is heard right keeps the invariant. -/
theorem Heard.step (hs : Heard vc) (h : vc.step e = some vc') (hheard : QuestionHeard vc e vc') :
    Heard vc' := by
  cases he : e.startsRound with
  | false => exact hs.step_of_not_startsRound he h
  | true =>
    obtain ⟨tiles, index, str, hspeaker, -, rfl⟩ := exists_asks_of_startsRound he h
    have hidle := (questionHeard_iff hs h).mp hheard he
    have hsyn : tiles.synthesizer = .idle := by rw [hspeaker]; exact hidle
    exact (speaksQuestion_asks hsyn index str).2

/-! ### Runs -/

variable {screen : ButtonsViewController} {order : IterationOrder String} {app : AppDelegate}
  {draws rest : List ℕ}

/-- The first round starts in silence. -/
private theorem heard_viewDidLoad
    (h : (screen.playClicked.viewDidLoad order app).after draws = .done vc rest) :
    vc.SpeaksQuestion ∧ Heard vc := by
  obtain ⟨loaded, index, str, hidle, -, -, -, rfl⟩ := viewDidLoad_done h
  exact speaksQuestion_asks hidle index str

/-- **The question heard.** The first round's question is spoken; and along a run the
    question heard is that of the round on screen exactly when every round starts in
    silence. -/
theorem questionHeard_along_iff
    (h : (screen.playClicked.viewDidLoad order app).after draws = .done vc rest)
    (es : List PlayEvent) :
    (vc.SpeaksQuestion ∧ vc.OnlyCurrentQuestion) ∧
      (Along step QuestionHeard vc es ↔ Along step StartsInSilence vc es) := by
  obtain ⟨hspeaks, hheard⟩ := heard_viewDidLoad h
  refine ⟨⟨hspeaks, hheard.onlyCurrent⟩, along_iff_along (I := Heard) ?_ ?_ hheard es⟩
  · exact fun _ _ _ hs hstep => questionHeard_iff hs hstep
  · exact fun _ _ _ hs hstep hq => hs.step hstep hq

/-- The quiz on four letters: the tiles in order, and "a" asked for. -/
def fourLetters : Progress PlayViewController :=
  (ButtonsViewController.playClicked { isAlphabets := true } |>.viewDidLoad .insertion
    { arrAlphabets := ["a", "b", "c", "d"] }).after [0, 1, 2, 3, 0]

/-- The right tile is tapped, and the clap ends in silence. -/
def clapInSilence : List PlayEvent :=
  [.didFinishUtterance, .didSelectItemAt 0 true,
    .audioPlayerDidFinishPlaying true .insertion [0, 1, 2, 3, 1]]

/-- The right tile is tapped, then a wrong one while the clap plays, and the clap ends
    before the apology does. -/
def apologyDuringClap : List PlayEvent :=
  [.didFinishUtterance, .didSelectItemAt 0 true, .didSelectItemAt 1 true,
    .audioPlayerDidFinishPlaying true .insertion [0, 1, 2, 3, 1]]

theorem questionHeard_along_iff_clapInSilence :
    ∃ vc, fourLetters = .done vc [] ∧ Along step QuestionHeard vc clapInSilence := by
  obtain ⟨vc, hvc, hsilence⟩ :
      ∃ vc, fourLetters = .done vc [] ∧ Along step StartsInSilence vc clapInSilence := by
    refine ⟨_, rfl, (along_cons rfl).mpr ⟨nofun, (along_cons rfl).mpr ⟨nofun, ?_⟩⟩⟩
    exact (along_cons rfl).mpr ⟨fun _ => rfl, trivial⟩
  exact ⟨vc, hvc, (questionHeard_along_iff hvc clapInSilence).2.mpr hsilence⟩

/-- The second question is never spoken: the apology is paused instead. -/
theorem apologyDuringClap_not_heard :
    ∃ vc, fourLetters = .done vc [] ∧ ¬ Along step QuestionHeard vc apologyDuringClap := by
  refine ⟨_, rfl, fun h => ?_⟩
  have hlast := along_last apologyDuringClap.dropLast h rfl rfl
  obtain ⟨u, hu, -⟩ := hlast.1 rfl
  cases hu

end ChildLearning
