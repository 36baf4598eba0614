import ChildLearning.QuizRounds
import ChildLearning.RightAnswers

namespace ChildLearning

open Sampling Transition PlayViewController

/-!
# The two ends of a clap

`audioPlayerDidFinishPlaying` asks for the mode; `playerDidFinishPlaying`, which `playClap`
registers with every right answer and nobody removes, shows letters or numbers in either.
`handlersAgree_iff` says where one posting of the notification does what the end of the
clap does: on letters and numbers, after exactly one right answer.
-/

namespace PlayViewController

/-- The selector is called `n` times, one call after the other. -/
def callTimes (orders : ℕ → IterationOrder String) : ℕ → PlayViewController →
    Sampler PlayViewController
  | 0, vc     => pure vc
  | n + 1, vc => do
    let vc ← callTimes orders n vc
    vc.playerDidFinishPlaying (orders n)

/-- `AVPlayerItemDidPlayToEndTime` is posted: the selector is called once for each
    registration. -/
def postNotification (orders : ℕ → IterationOrder String) (vc : PlayViewController) :
    Sampler PlayViewController :=
  callTimes orders vc.observers vc

/-- Whatever is drawn: where the end of the clap comes to a round, one posting comes to the
    same one, with the same tiles, `indexFinal` and question, and starts no other. -/
def HandlersAgree (vc : PlayViewController) : Prop :=
  ∀ (orders : ℕ → IterationOrder String) draws vc' rest,
    (vc.audioPlayerDidFinishPlaying (orders 0) true).after draws = .done vc' rest →
    ∃ posted rest', (vc.postNotification orders).after draws = .done posted rest' ∧
      posted.arrFinal = vc'.arrFinal ∧ posted.arrWordFinal = vc'.arrWordFinal ∧
      posted.indexFinal = vc'.indexFinal ∧ posted.question = vc'.question ∧
      posted.rounds = vc.rounds + 1

end PlayViewController

variable {vc vc' start : PlayViewController} {order : IterationOrder String}
  {orders : ℕ → IterationOrder String}
  {draws rest : List ℕ} {es : List PlayEvent} {words : List Words} {n : ℕ}

/-! ### Calls -/

/-- Every call starts a round, and none touches `arr`. -/
theorem rounds_of_callTimes (h : (callTimes orders n vc).after draws = .done vc' rest) :
    vc'.rounds = vc.rounds + n ∧ vc'.arr = vc.arr := by
  induction n generalizing vc' draws rest with
  | zero =>
    cases h
    exact ⟨rfl, rfl⟩
  | succ n ih =>
    obtain ⟨before, mid, hbefore, hcall⟩ := Sampler.after_bind_eq_done.mp h
    obtain ⟨hrounds, harr⟩ := ih hbefore
    obtain ⟨tiles, -, -, -, str, -, rfl⟩ := showData_done hcall
    refine ⟨?_, harr⟩
    rw [asks_rounds]
    show before.rounds + 1 = vc.rounds + (n + 1)
    omega

/-- No call comes to an end while `arr` is empty. -/
theorem callTimes_eq_zero (harr : vc.arr = [])
    (h : (callTimes orders n vc).after draws = .done vc' rest) : n = 0 := by
  cases n with
  | zero => rfl
  | succ n =>
    obtain ⟨before, mid, hbefore, hcall⟩ := Sampler.after_bind_eq_done.mp h
    obtain ⟨tiles, hfour, -, hmem, -⟩ := showData_done hcall
    rw [(rounds_of_callTimes hbefore).2, harr] at hmem
    -- four tiles would have to be drawn from the empty list
    have hnil : tiles = [] := List.eq_nil_iff_forall_not_mem.mpr fun x hx => nomatch hmem x hx
    rw [hnil] at hfour
    cases hfour

/-- On letters and numbers, one registration: the two handlers are the same. -/
theorem after_postNotification (hisWords : vc.isWords = false) (hone : vc.observers = 1) :
    (vc.postNotification orders).after draws
      = (vc.audioPlayerDidFinishPlaying (orders 0) true).after draws := by
  rw [postNotification, hone, audioPlayerDidFinishPlaying, if_pos rfl, if_neg (by simp [hisWords])]
  rfl

/-! ### Agreement in a state -/

theorem handlersAgree_of_one (hisWords : vc.isWords = false) (hone : vc.observers = 1) :
    vc.HandlersAgree := by
  intro orders draws vc' rest h
  refine ⟨vc', rest, ?_, rfl, rfl, rfl, rfl, ?_⟩
  · rw [after_postNotification hisWords hone]
    exact h
  · obtain ⟨arrFinal, arrWordFinal, index, str, rfl⟩ := audioPlayerDidFinishPlaying_done h
    exact asks_rounds _ _

/-- If some draws end the clap in a round, agreement means one registration, and a list to
    show letters or numbers from. -/
theorem one_of_handlersAgree (hagree : vc.HandlersAgree)
    (h : (vc.audioPlayerDidFinishPlaying .insertion true).after draws = .done vc' rest) :
    vc.observers = 1 ∧ vc.arr ≠ [] := by
  obtain ⟨posted, rest', hposted, -, -, -, -, hrounds⟩ :=
    hagree (fun _ => .insertion) draws vc' rest h
  have hcalls := (rounds_of_callTimes hposted).1
  have hone : vc.observers = 1 := by omega
  refine ⟨hone, fun harr => ?_⟩
  have hzero := callTimes_eq_zero harr hposted
  omega

/-! ### Reachable states -/

/-- The controller plays the words quiz, and has loaded no letters or numbers. -/
structure PlaysOnlyWords (words : List Words) (vc : PlayViewController) : Prop where
  plays : PlaysWords words vc
  arr : vc.arr = []

theorem playsOnlyWords_of_showWordData (hs : PlaysOnlyWords words vc)
    (h : (showWordData order vc).after draws = .done vc' rest) : PlaysOnlyWords words vc' := by
  obtain ⟨tiles, -, -, -, str, -, rfl⟩ := showWordData_done h
  exact ⟨⟨hs.plays.isWords, hs.plays.arrWord, hs.plays.arrWordImages⟩, hs.arr⟩

/-- The step lemma. -/
theorem playsOnlyWords_of_step {e : PlayEvent} (hs : PlaysOnlyWords words vc)
    (h : step vc e = some vc') : PlaysOnlyWords words vc' := by
  obtain ⟨hplays, harr⟩ := hs
  cases he : e.startsRound with
  | false =>
    obtain ⟨speaker, player, observers, rfl, -⟩ := step_frame he h
    exact ⟨⟨hplays.isWords, hplays.arrWord, hplays.arrWordImages⟩, harr⟩
  | true =>
    obtain ⟨order, draws, rest, -, -, hdone⟩ := step_round he h
    obtain ⟨arrFinal, arrWordFinal, index, str, rfl⟩ := audioPlayerDidFinishPlaying_done hdone
    exact ⟨⟨hplays.isWords, hplays.arrWord, hplays.arrWordImages⟩, harr⟩

/-- On words, with four distinct pictures, some draws end the clap in a round. -/
theorem exists_clap_of_words (hplays : PlaysWords words vc)
    (h4 : 4 ≤ (words.map Words.Name).dedup.length) :
    ∃ draws vc', (vc.audioPlayerDidFinishPlaying .insertion true).after draws = .done vc' [] := by
  have hpos : 0 < words.length := by
    have hle := (List.dedup_sublist (words.map Words.Name)).length_le
    rw [List.length_map] at hle
    omega
  obtain ⟨word, hword⟩ := List.exists_mem_of_length_pos hpos
  have hname : word.Name ∈ words.map Words.Name := List.mem_map_of_mem hword
  obtain ⟨tiles, hcard, hsub, htile, -⟩ := exists_four_with h4 hname hname
  obtain ⟨draws, vc', hdone, -⟩ := exists_showWordData .insertion hplays hcard hsub hword htile
  refine ⟨draws, vc', ?_⟩
  rw [audioPlayerDidFinishPlaying, if_pos rfl, if_pos hplays.isWords]
  exact hdone

/-- On letters and numbers, the tiles on screen can be drawn again. -/
theorem exists_clap_of_letters {arr : List String} (hs : PlaysLetters arr vc) :
    ∃ draws vc', (vc.audioPlayerDidFinishPlaying .insertion true).after draws = .done vc' [] := by
  have hcard : vc.arrFinal.toFinset.card = 4 := by
    rw [List.toFinset_card_of_nodup hs.asks.nodup, hs.asks.four]
  have hquestion : vc.question ∈ vc.arrFinal.toFinset :=
    List.mem_toFinset.mpr (List.mem_of_getElem? ((hs.asks.only vc.indexFinal).mpr rfl))
  obtain ⟨draws, vc', hdone, -⟩ := exists_showData .insertion vc hcard
    (fun str hstr => hs.asks.mem str (List.mem_toFinset.mp hstr)) hquestion
  refine ⟨draws, vc', ?_⟩
  rw [audioPlayerDidFinishPlaying, if_pos rfl, if_neg (by simp [hs.isWords])]
  exact hdone

/-- **The two ends of a clap.**  In every state of every quiz the two handlers agree exactly
    on letters and numbers, and when one right answer has been given so far. -/
theorem handlersAgree_iff {screen : ButtonsViewController} {app : AppDelegate}
    (h : (screen.playClicked.viewDidLoad order app).after draws = .done start rest)
    (hrun : run step start es = some vc) :
    vc.HandlersAgree ↔ screen.isWords = false ∧ countAlong step rightTap start es = 1 := by
  have hobservers : vc.observers = countAlong step rightTap start es :=
    (roundsCounted_of_run h hrun).observers
  rw [← hobservers]
  cases hw : screen.isWords with
  | true =>
    obtain ⟨loaded, hplays, harr, hload⟩ := viewDidLoad_of_isWords hw order app
    rw [hload] at h
    have h4 : 4 ≤ (app.words.map Words.Name).dedup.length := by
      rw [← hplays.arrWordImages]
      exact Sampler.le_dedup_of_bind_done h
    have hs := run_invariant (fun _ _ _ hs hstep => playsOnlyWords_of_step hs hstep)
      (playsOnlyWords_of_showWordData ⟨hplays, harr⟩ h) hrun
    obtain ⟨draws', vc', hclap⟩ := exists_clap_of_words hs.plays h4
    constructor
    · exact fun hagree => absurd hs.arr (one_of_handlersAgree hagree hclap).2
    · rintro ⟨hfalse, -⟩
      cases hfalse
  | false =>
    obtain ⟨loaded, hisWords, harr, hload⟩ := viewDidLoad_of_not_isWords hw order app
    rw [hload] at h
    have hs := run_invariant (fun _ _ _ hs hstep => playsLetters_of_step hs hstep)
      (playsLetters_of_showData hisWords harr h) hrun
    obtain ⟨draws', vc', hclap⟩ := exists_clap_of_letters hs
    constructor
    · exact fun hagree => ⟨rfl, (one_of_handlersAgree hagree hclap).1⟩
    · rintro ⟨-, hone⟩
      exact handlersAgree_of_one hs.isWords hone

/-- Four letters. -/
def abcd : AppDelegate := { arrAlphabets := ["a", "b", "c", "d"] }

/-- After one right answer on letters the handlers agree. -/
theorem handlersAgree_iff_oneAnswer :
    ∃ start vc, (HomeButton.alphabetClicked.destination.playClicked.viewDidLoad .insertion
        abcd).after [0, 1, 2, 3, 0] = .done start [] ∧
      run step start [.didSelectItemAt 0 true] = some vc ∧ vc.HandlersAgree := by
  obtain ⟨start, vc, hload, hrun, hone⟩ : ∃ start vc,
      (HomeButton.alphabetClicked.destination.playClicked.viewDidLoad .insertion
        abcd).after [0, 1, 2, 3, 0] = .done start [] ∧
      run step start [.didSelectItemAt 0 true] = some vc ∧
      countAlong step rightTap start [.didSelectItemAt 0 true] = 1 := ⟨_, _, rfl, rfl, rfl⟩
  exact ⟨start, vc, hload, hrun, (handlersAgree_iff hload hrun).mpr ⟨rfl, hone⟩⟩

/-- After a right answer on words the posting reads the empty list of letters; after two
    right answers on letters it starts two rounds. -/
theorem posting_not_handlersAgree :
    (∃ start vc, (HomeButton.wordClicked.destination.playClicked.viewDidLoad .insertion
        fourWords).after [3, 1, 0, 2, 2] = .done start [] ∧
      run step start [.didSelectItemAt 2 true] = some vc ∧
      (vc.postNotification fun _ => .insertion).after [3, 1, 0, 2, 2] = .outOfBounds ∧
      ¬ vc.HandlersAgree) ∧
    (∃ start vc posted, (HomeButton.alphabetClicked.destination.playClicked.viewDidLoad .insertion
        abcd).after [0, 1, 2, 3, 0] = .done start [] ∧
      run step start [.didSelectItemAt 0 true, .didSelectItemAt 0 true] = some vc ∧
      (vc.postNotification fun _ => .insertion).after [0, 1, 2, 3, 1, 0, 1, 2, 3, 2]
        = .done posted [] ∧
      vc.rounds = 1 ∧ posted.rounds = 3 ∧ ¬ vc.HandlersAgree) := by
  refine ⟨⟨_, _, rfl, rfl, rfl, fun h => ?_⟩, ⟨_, _, _, rfl, rfl, rfl, rfl, rfl, fun h => ?_⟩⟩
  · obtain ⟨posted, rest', hposted, -⟩ := h (fun _ => .insertion) [3, 1, 0, 2, 2] _ _ rfl
    cases hposted
  · have hone := (@one_of_handlersAgree _ _ [0, 1, 2, 3, 1] _ h rfl).1
    exact absurd hone (by decide)

end ChildLearning
