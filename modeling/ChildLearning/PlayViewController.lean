import ChildLearning.Lib.Sampler
import ChildLearning.LibraryScreens

namespace ChildLearning

open Sampling

/-!
# `PlayViewController`

The quiz: four tiles, a spoken question, a clap for the right tile.  A round is a program
that draws random indices (`Sampler`): `showData` for letters and numbers, `showWordData`
for words.  The order in which a `Set` lists its members is the parameter `order`.

`PlayViewController.step` runs a controller that has loaded: taps, the end of the current
utterance, the end of the clap.
-/

/-- An audio player: stopped, or playing the clap. -/
inductive AVAudioPlayer where
  | stopped
  | playing
  deriving DecidableEq, Repr

/-- `PlayViewController`.  `observers` counts its registrations at the notification
    center; `rounds` and `question` are ghosts: the number of rounds started and what the
    last one asked for. -/
structure PlayViewController extends Speaker where
  arr : List String := []
  isWords : Bool := false
  isNumber : Bool := false
  isAlphabet : Bool := false
  arrFinal : List String := []
  indexFinal : ℕ := 0
  player : AVAudioPlayer := .stopped
  arrWord : List Words := []
  arrWordFinal : List String := []
  arrWordTitle : List String := []
  arrWordImages : List String := []
  observers : ℕ := 0
  rounds : ℕ := 0
  question : String := ""
  deriving DecidableEq, Repr

/-- `playClicked(_:)` of the library screen: the controller that is pushed. -/
def ButtonsViewController.playClicked (vc : ButtonsViewController) : PlayViewController :=
  { isWords := vc.isWords, isNumber := vc.isNumbers, isAlphabet := vc.isAlphabets }

namespace PlayViewController

/-! ### A round -/

/-- `textToSpeech(str:)`. -/
def textToSpeech (vc : PlayViewController) (str : String) : PlayViewController :=
  { vc with toSpeaker := vc.toSpeaker.textToSpeech str (35 / 100) vc.rounds }

/-- A round begins: the tile at `index` is asked for as `str`. -/
def asks (vc : PlayViewController) (index : ℕ) (str : String) : PlayViewController :=
  { vc with indexFinal := index, rounds := vc.rounds + 1, question := str }.textToSpeech
    ("Where is " ++ str)

/-- The second half of `showData` and `showWordData`: draw one of the candidates and ask
    for it.  The answer is at the last place the candidate has among them. -/
def ask (order : IterationOrder String) (candidates : List String) (vc : PlayViewController) :
    Sampler PlayViewController := do
  let resultSetFinal ← Sampler.sample candidates 1
  match order.toArray resultSetFinal with
  -- `arrSingle.count > 0` fails: nothing is asked, and `indexFinal` stays
  | []       => pure vc
  | str :: _ => pure (vc.asks ((lastIndex str candidates).getD 0) str)

/-- `showData()`. -/
def showData (order : IterationOrder String) (vc : PlayViewController) :
    Sampler PlayViewController := do
  let resultSet ← Sampler.sample vc.arr 4
  let arrFinal := order.toArray resultSet
  ask order arrFinal { vc with arrFinal := arrFinal }

/-- The nested loop of `showWordData`: for every picture drawn the titles of all words
    that have it. -/
def arrGetTitleOfFetchedImages (arrWordFinal : List String) (arrWord : List Words) :
    List String :=
  arrWordFinal.flatMap fun i => (arrWord.filter fun j => i = j.Name).map Words.title

/-- `showWordData()`. -/
def showWordData (order : IterationOrder String) (vc : PlayViewController) :
    Sampler PlayViewController := do
  let resultSet ← Sampler.sample vc.arrWordImages 4
  let arrWordFinal := order.toArray resultSet
  -- the answer is drawn from, and looked up in, the titles and not the tiles
  ask order (arrGetTitleOfFetchedImages arrWordFinal vc.arrWord)
    { vc with arrWordFinal := arrWordFinal }

/-- `viewDidLoad()`. -/
def viewDidLoad (order : IterationOrder String) (app : AppDelegate) (vc : PlayViewController) :
    Sampler PlayViewController :=
  let vc := { vc with synthesizer := .idle }
  if vc.isWords then
    -- the words are set, the pictures and titles appended
    showWordData order
      { vc with
        arrWord := app.words
        arrWordImages := vc.arrWordImages ++ app.words.map Words.Name
        arrWordTitle := vc.arrWordTitle ++ app.words.map Words.title }
  else if vc.isNumber then showData order { vc with arr := app.arrNumber }
  else showData order { vc with arr := app.arrAlphabets }

/-! ### Tiles, taps and the clap -/

/-- `collectionView(_:numberOfItemsInSection:)`. -/
def numberOfItemsInSection (vc : PlayViewController) : ℕ :=
  if vc.isWords then vc.arrWordFinal.length else vc.arrFinal.length

/-- `collectionView(_:cellForItemAt:)` on the dequeued cell. -/
def cellForItemAt (capitalized : String → String) (vc : PlayViewController) (row : ℕ)
    (cell : ButtonCollectionViewCell) : Option ButtonCollectionViewCell :=
  if vc.isWords then
    vc.arrWordFinal[row]?.map fun url => { cell with imgVIsHidden := false, imgV := some url }
  else
    vc.arrFinal[row]?.map fun str =>
      { cell with imgVIsHidden := true, lblName := some (capitalized str) }

/-- `playClap()`; `created` tells whether `AVAudioPlayer(contentsOf:)` succeeded. -/
def playClap (vc : PlayViewController) (created : Bool) : PlayViewController :=
  { vc with
    -- added before the player is created, and never removed
    observers := vc.observers + 1
    player := if created then .playing else vc.player }

/-- `collectionView(_:didSelectItemAt:)`. -/
def didSelectItemAt (vc : PlayViewController) (row : ℕ) (created : Bool) : PlayViewController :=
  if vc.indexFinal = row then vc.playClap created
  else vc.textToSpeech "Sorry Please try again"

/-- `playerDidFinishPlaying(sender:)`. -/
def playerDidFinishPlaying (order : IterationOrder String) (vc : PlayViewController) :
    Sampler PlayViewController :=
  showData order vc

/-- `audioPlayerDidFinishPlaying(_:successfully:)`. -/
def audioPlayerDidFinishPlaying (order : IterationOrder String) (vc : PlayViewController)
    (flag : Bool) : Sampler PlayViewController :=
  -- unlike `playerDidFinishPlaying`, which shows letters or numbers in either mode
  if flag then
    if vc.isWords then showWordData order vc else showData order vc
  else pure vc

end PlayViewController

/-! ### The running quiz -/

/-- What can happen to a controller on screen.  The end of the clap comes with its flag,
    with the draws of the round it starts and the iteration order of its sets. -/
inductive PlayEvent where
  | didSelectItemAt (row : ℕ) (created : Bool)
  | didFinishUtterance
  | audioPlayerDidFinishPlaying (flag : Bool) (order : IterationOrder String) (draws : List ℕ)

/-- The event starts a round. -/
def PlayEvent.startsRound : PlayEvent → Bool
  | .audioPlayerDidFinishPlaying flag _ _ => flag
  | _                                     => false

namespace PlayViewController

/-- One event.  Only a tile on screen can be tapped, only what is spoken can end, only a
    playing clap can end; a round whose drawing does not come to an end has no next
    state. -/
def step (vc : PlayViewController) : PlayEvent → Option PlayViewController
  | .didSelectItemAt row created =>
    if row < vc.numberOfItemsInSection then some (vc.didSelectItemAt row created) else none
  | .didFinishUtterance =>
    vc.synthesizer.finish.map fun synthesizer => { vc with synthesizer := synthesizer }
  | .audioPlayerDidFinishPlaying flag order draws =>
    if vc.player = .playing then
      (({ vc with player := .stopped }.audioPlayerDidFinishPlaying order flag).after draws).value?
    else none

/-! ### What a round changes -/

variable {order : IterationOrder String} {candidates : List String} {vc vc' : PlayViewController}
  {draws rest : List ℕ}

@[simp] theorem asks_synthesizer (index : ℕ) (str : String) :
    (vc.asks index str).synthesizer
      = (vc.toSpeaker.textToSpeech ("Where is " ++ str) (35 / 100) (vc.rounds + 1)).synthesizer := rfl

@[simp] theorem asks_rounds (index : ℕ) (str : String) :
    (vc.asks index str).rounds = vc.rounds + 1 := rfl

@[simp] theorem asks_question (index : ℕ) (str : String) :
    (vc.asks index str).question = str := rfl

/-- **What asking does.** The second half of a round asks for one of the candidates. -/
theorem ask_done (h : (ask order candidates vc).after draws = .done vc' rest) :
    ∃ str ∈ candidates, vc' = vc.asks ((lastIndex str candidates).getD 0) str := by
  obtain ⟨resultSetFinal, mid, hsample, hrest⟩ := Sampler.after_bind_eq_done.mp h
  obtain ⟨hlen, -, hmem⟩ := Sampler.toArray_of_sample order hsample
  -- the set has one member, so there is a first one to ask for
  obtain ⟨str, hstr⟩ := List.length_eq_one_iff.mp hlen
  simp only [hstr, Sampler.after_pure, Progress.done.injEq] at hrest
  have hin : str ∈ candidates := hmem str (by rw [hstr]; exact List.mem_singleton_self str)
  exact ⟨str, hin, hrest.1.symm⟩

/-- Drawing a candidate asks for it, at its last index. -/
theorem ask_at {i : ℕ} {str : String} (h : candidates[i]? = some str) (vc : PlayViewController) :
    (ask order candidates vc).after [i]
      = .done (vc.asks ((lastIndex str candidates).getD 0) str) [] := by
  have hsample : (Sampler.sample candidates 1).after [i]
      = .done (DrawnSet.empty.insert str) [] := by
    rw [Sampler.sample_eq_done, loop_cons_of_lt (by simp) h]
    rfl
  have hone : order.toArray (DrawnSet.empty.insert str) = [str] :=
    List.perm_singleton.mp (order.perm (DrawnSet.empty.insert str))
  rw [ask, Sampler.after_bind_of_done hsample, hone]
  rfl

/-- A round of letters or numbers: four distinct values of `arr`, one of them asked for. -/
theorem showData_done (h : (showData order vc).after draws = .done vc' rest) :
    ∃ arrFinal : List String, arrFinal.length = 4 ∧ arrFinal.Nodup ∧ (∀ x ∈ arrFinal, x ∈ vc.arr) ∧
      ∃ str ∈ arrFinal, vc' = { vc with arrFinal := arrFinal }.asks
        ((lastIndex str arrFinal).getD 0) str := by
  obtain ⟨resultSet, mid, hsample, hask⟩ := Sampler.after_bind_eq_done.mp h
  obtain ⟨hlen, hnodup, hmem⟩ := Sampler.toArray_of_sample order hsample
  exact ⟨order.toArray resultSet, hlen, hnodup, hmem, ask_done hask⟩

/-- A round of words: four distinct pictures, one of the titles they have asked for. -/
theorem showWordData_done (h : (showWordData order vc).after draws = .done vc' rest) :
    ∃ arrWordFinal : List String, arrWordFinal.length = 4 ∧ arrWordFinal.Nodup ∧
      (∀ x ∈ arrWordFinal, x ∈ vc.arrWordImages) ∧
      ∃ str ∈ arrGetTitleOfFetchedImages arrWordFinal vc.arrWord,
        vc' = { vc with arrWordFinal := arrWordFinal }.asks
          ((lastIndex str (arrGetTitleOfFetchedImages arrWordFinal vc.arrWord)).getD 0) str := by
  obtain ⟨resultSet, mid, hsample, hask⟩ := Sampler.after_bind_eq_done.mp h
  obtain ⟨hlen, hnodup, hmem⟩ := Sampler.toArray_of_sample order hsample
  exact ⟨order.toArray resultSet, hlen, hnodup, hmem, ask_done hask⟩

/-- The end of the clap, in either mode: new tiles, and a question. -/
theorem audioPlayerDidFinishPlaying_done
    (h : (vc.audioPlayerDidFinishPlaying order true).after draws = .done vc' rest) :
    ∃ arrFinal arrWordFinal index str,
      vc' = { vc with arrFinal := arrFinal, arrWordFinal := arrWordFinal }.asks index str := by
  simp only [audioPlayerDidFinishPlaying, if_true] at h
  split at h
  · obtain ⟨arrWordFinal, -, -, -, str, -, rfl⟩ := showWordData_done h
    exact ⟨_, arrWordFinal, _, str, rfl⟩
  · obtain ⟨arrFinal, -, -, -, str, -, rfl⟩ := showData_done h
    exact ⟨arrFinal, _, _, str, rfl⟩

/-- Loading, in any mode: the lists are read, the synthesizer is new, and a first question
    is asked.  The player is not touched. -/
theorem viewDidLoad_done {app : AppDelegate}
    (h : (vc.viewDidLoad order app).after draws = .done vc' rest) :
    ∃ (loaded : PlayViewController) (index : ℕ) (str : String),
      loaded.synthesizer = .idle ∧ loaded.rounds = vc.rounds ∧ loaded.player = vc.player ∧
        loaded.observers = vc.observers ∧ vc' = loaded.asks index str := by
  unfold viewDidLoad at h
  dsimp only at h
  split_ifs at h
  · obtain ⟨_, -, -, -, str, -, rfl⟩ := showWordData_done h
    refine ⟨_, _, str, ?_, ?_, ?_, ?_, rfl⟩ <;> rfl
  · obtain ⟨_, -, -, -, str, -, rfl⟩ := showData_done h
    refine ⟨_, _, str, ?_, ?_, ?_, ?_, rfl⟩ <;> rfl
  · obtain ⟨_, -, -, -, str, -, rfl⟩ := showData_done h
    refine ⟨_, _, str, ?_, ?_, ?_, ?_, rfl⟩ <;> rfl

/-! ### What a step can do -/

variable {e : PlayEvent}

/-- **A step that starts no round** changes the speech, the player and the registrations
    at most: the speech ends, or the apology is handed to `textToSpeech`. -/
theorem step_frame (he : e.startsRound = false) (h : vc.step e = some vc') :
    ∃ speaker player observers,
      vc' = { vc with toSpeaker := speaker, player := player, observers := observers } ∧
      (speaker = vc.toSpeaker ∨ speaker.synthesizer = .idle ∨
        speaker = vc.toSpeaker.textToSpeech "Sorry Please try again" (35 / 100) vc.rounds) := by
  cases e with
  | didSelectItemAt row created =>
    obtain ⟨-, hstep⟩ := Option.ite_none_right_eq_some.mp h
    cases hstep
    -- the right tile starts the clap, a wrong one toggles the speech
    by_cases hright : vc.indexFinal = row
    · rw [didSelectItemAt, if_pos hright]
      exact ⟨_, _, _, rfl, Or.inl rfl⟩
    · rw [didSelectItemAt, if_neg hright]
      exact ⟨_, _, _, rfl, Or.inr (Or.inr rfl)⟩
  | didFinishUtterance =>
    obtain ⟨synthesizer, hfinish, rfl⟩ := Option.map_eq_some_iff.mp h
    have hidle : synthesizer = .idle := AVSpeechSynthesizer.eq_idle_of_finish hfinish
    exact ⟨⟨synthesizer, vc.utterance⟩, vc.player, vc.observers, rfl, Or.inr (Or.inl hidle)⟩
  | audioPlayerDidFinishPlaying flag order draws =>
    -- the flag is false, and the handler does nothing
    obtain rfl : flag = false := he
    obtain ⟨-, hstep⟩ := Option.ite_none_right_eq_some.mp h
    cases hstep
    exact ⟨_, _, _, rfl, Or.inl rfl⟩

/-- **A step that starts a round** is the successful end of a clap. -/
theorem step_round (he : e.startsRound = true) (h : vc.step e = some vc') :
    ∃ order draws rest, e = .audioPlayerDidFinishPlaying true order draws ∧
      vc.player = .playing ∧
      ({ vc with player := .stopped }.audioPlayerDidFinishPlaying order true).after draws
        = .done vc' rest := by
  cases e with
  | didSelectItemAt => cases he
  | didFinishUtterance => cases he
  | audioPlayerDidFinishPlaying flag order draws =>
    obtain rfl : flag = true := he
    obtain ⟨hplaying, hstep⟩ := Option.ite_none_right_eq_some.mp h
    obtain ⟨rest, hdone⟩ := Progress.value?_eq_some.mp hstep
    exact ⟨order, draws, rest, rfl, hplaying, hdone⟩

end PlayViewController

end ChildLearning
