import ChildLearning.Lib.Transition
import ChildLearning.PlayViewController

namespace ChildLearning

open Sampling Transition PlayViewController

/-!
# The rounds of a quiz

The end of a clap starts a round without asking which clap it was.  `rounds_of_run` says
that this is safe: whenever a clap is playing, the tile asked for has been tapped in the
round on screen, so no round is replaced that has not been answered.
-/

namespace PlayViewController

/-- The event is a tap on the tile that is asked for. -/
def rightTap (vc : PlayViewController) : PlayEvent → Bool
  | .didSelectItemAt row _ => vc.indexFinal = row
  | _                      => false

/-- The round on screen has been answered: at some step of the run the tile asked for was
    tapped, in this round and with these tiles. -/
def Answered (start : PlayViewController) (es : List PlayEvent) (vc : PlayViewController) : Prop :=
  Sometime step (fun s e => s.rightTap e = true ∧ s.rounds = vc.rounds ∧
    s.indexFinal = vc.indexFinal ∧ s.arrFinal = vc.arrFinal ∧ s.arrWordFinal = vc.arrWordFinal)
    start es

end PlayViewController

variable {vc vc' start : PlayViewController} {e : PlayEvent} {es : List PlayEvent}

/-! ### One step -/

/-- An event that starts no round leaves the round on screen. -/
theorem round_of_step (he : e.startsRound = false) (h : vc.step e = some vc') :
    vc'.arrFinal = vc.arrFinal ∧ vc'.arrWordFinal = vc.arrWordFinal ∧
      vc'.indexFinal = vc.indexFinal ∧ vc'.rounds = vc.rounds ∧ vc'.question = vc.question := by
  obtain ⟨speaker, player, observers, rfl, -⟩ := step_frame he h
  exact ⟨rfl, rfl, rfl, rfl, rfl⟩

/-- An event that starts no round lets the clap play only if it did so before or the right
    tile was tapped, and every such tap is registered. -/
theorem player_of_step (he : e.startsRound = false) (h : vc.step e = some vc') :
    (vc'.player = .playing → vc.rightTap e = true ∨ vc.player = .playing) ∧
      vc'.observers = vc.observers + if vc.rightTap e then 1 else 0 := by
  cases e with
  | didSelectItemAt row created =>
    obtain ⟨-, hstep⟩ := Option.ite_none_right_eq_some.mp h
    cases hstep
    by_cases hright : vc.indexFinal = row
    · have htap : vc.rightTap (.didSelectItemAt row created) = true := decide_eq_true hright
      rw [didSelectItemAt, if_pos hright, htap]
      exact ⟨fun _ => Or.inl rfl, rfl⟩
    · have htap : vc.rightTap (.didSelectItemAt row created) = false := decide_eq_false hright
      rw [didSelectItemAt, if_neg hright, htap]
      exact ⟨Or.inr, rfl⟩
  | didFinishUtterance =>
    obtain ⟨synthesizer, -, rfl⟩ := Option.map_eq_some_iff.mp h
    exact ⟨Or.inr, rfl⟩
  | audioPlayerDidFinishPlaying flag order draws =>
    -- the flag is false: the clap has ended, and nothing else happens
    obtain rfl : flag = false := he
    obtain ⟨-, hstep⟩ := Option.ite_none_right_eq_some.mp h
    cases hstep
    refine ⟨fun hplaying => ?_, rfl⟩
    cases hplaying

/-- An event that starts a round ends the clap. -/
theorem player_of_round (he : e.startsRound = true) (h : vc.step e = some vc') :
    vc.player = .playing ∧ vc'.player = .stopped ∧ vc'.observers = vc.observers ∧
      vc'.rounds = vc.rounds + 1 := by
  obtain ⟨order, draws, rest, rfl, hplaying, hdone⟩ := step_round he h
  obtain ⟨arrFinal, arrWordFinal, index, str, rfl⟩ := audioPlayerDidFinishPlaying_done hdone
  exact ⟨hplaying, rfl, rfl, rfl⟩

/-- No tap starts a round. -/
theorem not_rightTap_of_startsRound (he : e.startsRound = true) : vc.rightTap e = false := by
  cases e with
  | audioPlayerDidFinishPlaying => rfl
  | didSelectItemAt => cases he
  | didFinishUtterance => cases he

/-! ### The invariant -/

/-- **The invariant.** A clap that plays answers the round on screen; rounds and
    registrations are counted by the completions and by the right taps. -/
structure RoundsCounted (start : PlayViewController) (es : List PlayEvent)
    (vc : PlayViewController) : Prop where
  answered : vc.player = .playing → Answered start es vc
  rounds : vc.rounds = 1 + es.countP PlayEvent.startsRound
  taps : es.countP PlayEvent.startsRound + (if vc.player = .playing then 1 else 0)
    ≤ countAlong step rightTap start es
  observers : vc.observers = countAlong step rightTap start es

theorem RoundsCounted.step (hs : RoundsCounted start es vc) (hrun : run step start es = some vc)
    (h : vc.step e = some vc') : RoundsCounted start (es ++ [e]) vc' := by
  have hcount := countAlong_concat (p := rightTap) e hrun
  have htaps := hs.taps
  cases he : e.startsRound with
  | false =>
    obtain ⟨hfinal, hwords, hindex, hrounds, -⟩ := round_of_step he h
    obtain ⟨hplayer, hobservers⟩ := player_of_step he h
    have hstarts : (es ++ [e]).countP PlayEvent.startsRound = es.countP PlayEvent.startsRound := by
      simp [he]
    refine ⟨fun hplaying => ?_, ?_, ?_, ?_⟩
    · rcases hplayer hplaying with htap | hbefore
      · exact sometime_last hrun ⟨htap, hrounds.symm, hindex.symm, hfinal.symm, hwords.symm⟩
      · obtain hsome := (hs.answered hbefore).concat e
        rw [Answered, hrounds, hindex, hfinal, hwords]
        exact hsome
    · rw [hrounds, hs.rounds, hstarts]
    · -- a clap that has just been started is one right tap more
      rw [hcount, hstarts]
      by_cases hplaying : vc'.player = .playing
      · rw [if_pos hplaying]
        rcases hplayer hplaying with htap | hbefore
        · rw [htap, if_pos rfl]; omega
        · rw [if_pos hbefore] at htaps; omega
      · rw [if_neg hplaying]; omega
    · rw [hobservers, hs.observers, hcount]
  | true =>
    obtain ⟨hplaying, hstopped, hobservers, hrounds⟩ := player_of_round he h
    have hstarts : (es ++ [e]).countP PlayEvent.startsRound
        = es.countP PlayEvent.startsRound + 1 := by simp [he]
    have htap : vc.rightTap e = false := not_rightTap_of_startsRound he
    rw [if_pos hplaying] at htaps
    refine ⟨fun hplaying' => ?_, ?_, ?_, ?_⟩
    · rw [hstopped] at hplaying'
      cases hplaying'
    · rw [hrounds, hs.rounds, hstarts]; omega
    · rw [hcount, hstarts, hstopped, htap]
      simpa using htaps
    · rw [hobservers, hs.observers, hcount, htap]; rfl

/-! ### Runs -/

variable {screen : ButtonsViewController} {order : IterationOrder String} {app : AppDelegate}
  {draws rest : List ℕ}

/-- A quiz that has just loaded: the first round, and no clap. -/
theorem roundsCounted_viewDidLoad
    (h : (screen.playClicked.viewDidLoad order app).after draws = .done vc rest) :
    RoundsCounted vc [] vc := by
  obtain ⟨loaded, index, str, -, hrounds, hplayer, hobservers, rfl⟩ := viewDidLoad_done h
  have hstopped : (loaded.asks index str).player = .stopped := hplayer
  refine ⟨fun hplaying => ?_, ?_, ?_, hobservers⟩
  · rw [hstopped] at hplaying
    cases hplaying
  · rw [asks_rounds, hrounds]; rfl
  · rw [hstopped]; rfl

/-- The invariant holds wherever a run of a quiz leads. -/
theorem roundsCounted_of_run
    (h : (screen.playClicked.viewDidLoad order app).after draws = .done start rest)
    (hrun : run step start es = some vc) : RoundsCounted start es vc :=
  run_history (fun _ _ _ _ hbefore hs hstep => hs.step hbefore hstep) (roundsCounted_viewDidLoad h)
    hrun

/-- **No question is skipped.**  In every state of every quiz: a clap that plays answers the
    round on screen, so every round that was started replaced an answered one; the rounds
    are at most one more than the right answers; and an event that starts no round, a
    wrong tap or a completion with flag false among them, changes neither the tiles nor
    `indexFinal`. -/
theorem rounds_of_run
    (h : (screen.playClicked.viewDidLoad order app).after draws = .done start rest)
    (hrun : run step start es = some vc) :
    (vc.player = .playing → Answered start es vc) ∧
    (∀ before e after, es = before ++ e :: after → e.startsRound = true →
      ∃ replaced, run step start before = some replaced ∧ Answered start before replaced) ∧
    vc.rounds = 1 + es.countP PlayEvent.startsRound ∧
    vc.rounds ≤ 1 + countAlong step rightTap start es ∧
    (∀ e vc', e.startsRound = false → vc.step e = some vc' →
      vc'.arrFinal = vc.arrFinal ∧ vc'.arrWordFinal = vc.arrWordFinal ∧
        vc'.indexFinal = vc.indexFinal) := by
  have hs := roundsCounted_of_run h hrun
  refine ⟨hs.answered, ?_, hs.rounds, ?_, ?_⟩
  · rintro before e after rfl he
    rw [run_append, Option.bind_eq_some_iff] at hrun
    obtain ⟨replaced, hbefore, hrest⟩ := hrun
    obtain ⟨next, hstep, -⟩ := run_cons_eq_some.mp hrest
    have hplaying : replaced.player = .playing := (player_of_round he hstep).1
    exact ⟨replaced, hbefore, (roundsCounted_of_run h hbefore).answered hplaying⟩
  · have htaps := hs.taps
    rw [hs.rounds]
    omega
  · intro e vc' he hstep
    obtain ⟨hfinal, hwords, hindex, -⟩ := round_of_step he hstep
    exact ⟨hfinal, hwords, hindex⟩

/-- The quiz on the letters "a" to "d": the right tile is tapped twice, and the clap ends. -/
def tappedTwice : List PlayEvent :=
  [.didSelectItemAt 0 true, .didSelectItemAt 0 true,
    .audioPlayerDidFinishPlaying true .insertion [0, 1, 2, 3, 1]]

theorem rounds_of_run_tappedTwice :
    ∃ start vc, (HomeButton.alphabetClicked.destination.playClicked.viewDidLoad .insertion
        { arrAlphabets := ["a", "b", "c", "d"] }).after [0, 1, 2, 3, 0] = .done start [] ∧
      run step start tappedTwice = some vc ∧ vc.rounds = 2 ∧
      vc.rounds ≤ 1 + countAlong step rightTap start tappedTwice := by
  obtain ⟨start, vc, hload, hrun, hrounds⟩ : ∃ start vc,
      (HomeButton.alphabetClicked.destination.playClicked.viewDidLoad .insertion
        { arrAlphabets := ["a", "b", "c", "d"] }).after [0, 1, 2, 3, 0] = .done start [] ∧
      run step start tappedTwice = some vc ∧ vc.rounds = 2 := ⟨_, _, rfl, rfl, rfl⟩
  exact ⟨start, vc, hload, hrun, hrounds, (rounds_of_run hload hrun).2.2.2.1⟩

end ChildLearning
