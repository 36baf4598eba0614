import ChildLearning.Lib.Chance
import ChildLearning.ClapHandlers

namespace ChildLearning

open Sampling Transition PlayViewController

/-!
# The rounds of a quiz end

Nothing bounds the number of draws of a round.  `waiting_of_run` says what the chance of a
long drawing is, when the draws are uniform and independent: on a list with enough values
it falls geometrically, in the first round and in every later one; on a list with fewer than
four distinct values the first round never ends.  The draws are uniform on lists with fewer
than `2 ^ 32` entries; from there on the source traps before a draw.
-/

variable {order : IterationOrder String} {app : AppDelegate} {screen : ButtonsViewController}
  {start vc vc' : PlayViewController} {es : List PlayEvent} {draws rest : List ℕ} {b : ℕ}

/-! ### One round -/

/-- The question takes one draw. -/
theorem prompt_ask {candidates : List String} (hpos : 0 < candidates.length)
    (hb : candidates.length ≤ b) : Sampler.Prompt b 1 (ask order candidates vc) := by
  have hone : 1 ≤ candidates.dedup.length := by
    obtain ⟨x, hx⟩ := List.exists_mem_of_length_pos hpos
    exact List.length_pos_of_mem (List.mem_dedup.mpr hx)
  have hprompt : Sampler.Prompt b (1 + 0) (ask order candidates vc) := by
    refine Sampler.prompt_bind (Sampler.prompt_sample hone hb) fun _ set _ => ?_
    -- what follows the draw draws nothing
    cases order.toArray set with
    | nil => exact Sampler.prompt_pure _
    | cons str others => exact Sampler.prompt_pure _
  exact hprompt

/-- The tiles take four. -/
theorem prompt_showData {arr : List String} (harr : vc.arr = arr) (h : EnoughValues arr) :
    Sampler.Prompt arr.length 5 (showData order vc) := by
  subst harr
  have hle : vc.arr.dedup.length ≤ vc.arr.length := (List.dedup_sublist _).length_le
  show Sampler.Prompt vc.arr.length (4 + 1) (showData order vc)
  refine Sampler.prompt_bind (Sampler.prompt_sample h.1 (le_refl _)) fun _ set hdone => ?_
  obtain ⟨hlen, -, -⟩ := Sampler.toArray_of_sample order hdone
  have h4 := h.1
  exact prompt_ask (by omega) (by omega)

/-- So do the tiles of a round of words. -/
theorem prompt_showWordData {words : List Words} (hplays : PlaysWords words vc)
    (h : EnoughValues (words.map Words.Name)) :
    Sampler.Prompt words.length 5 (showWordData order vc) := by
  have himages : vc.arrWordImages = words.map Words.Name := hplays.arrWordImages
  rw [showWordData, himages, hplays.arrWord]
  show Sampler.Prompt words.length (4 + 1) _
  refine Sampler.prompt_bind (Sampler.prompt_sample h.1 (by rw [List.length_map])) fun _ set hdone => ?_
  obtain ⟨hlen, hnodup, hmem⟩ := Sampler.toArray_of_sample order hdone
  -- at least one title a tile, at most one a word
  have hlow := Join.length_le_join Words.title hmem
  apply prompt_ask
  · show 0 < (Join.join Words.Name Words.title (order.toArray set) words).length
    omega
  · exact Join.length_join_le Words.title hnodup words

/-! ### Every round -/

/-- The round on screen was drawn from the list of its mode. -/
def PlaysOn (screen : ButtonsViewController) (app : AppDelegate) (vc : PlayViewController) : Prop :=
  if screen.isWords then PlaysOnlyWords app.words vc else PlaysLetters (screen.quizList app) vc

theorem playsOn_viewDidLoad
    (h : (screen.playClicked.viewDidLoad order app).after draws = .done vc rest) :
    PlaysOn screen app vc := by
  unfold PlaysOn
  split_ifs with hw
  · obtain ⟨loaded, hplays, harr, hload⟩ := viewDidLoad_of_isWords hw order app
    exact playsOnlyWords_of_showWordData ⟨hplays, harr⟩ (hload ▸ h)
  · obtain ⟨loaded, hisWords, harr, hload⟩ :=
      viewDidLoad_of_not_isWords (Bool.eq_false_iff.mpr hw) order app
    exact playsLetters_of_showData hisWords harr (hload ▸ h)

theorem playsOn_of_run (hs : PlaysOn screen app start) (hrun : run step start es = some vc) :
    PlaysOn screen app vc := by
  unfold PlaysOn at hs ⊢
  split_ifs at hs ⊢
  · exact run_invariant (fun _ _ _ h hstep => playsOnlyWords_of_step h hstep) hs hrun
  · exact run_invariant (fun _ _ _ h hstep => playsLetters_of_step h hstep) hs hrun

/-- The round after a clap is drawn from the same list. -/
theorem prompt_of_playsOn (hs : PlaysOn screen app vc) (h : EnoughValues (screen.quizList app)) :
    Sampler.Prompt (screen.quizList app).length 5
      ({ vc with player := .stopped }.audioPlayerDidFinishPlaying order true) := by
  unfold PlaysOn at hs
  split_ifs at hs with hw
  · have hlist : screen.quizList app = app.words.map Words.Name := if_pos hw
    rw [hlist] at h ⊢
    rw [audioPlayerDidFinishPlaying, if_pos rfl, if_pos hs.plays.isWords, List.length_map]
    exact prompt_showWordData ⟨hs.plays.isWords, hs.plays.arrWord, hs.plays.arrWordImages⟩ h
  · rw [audioPlayerDidFinishPlaying, if_pos rfl, if_neg (by simp [hs.isWords])]
    exact prompt_showData hs.arr h

/-- So is the first. -/
theorem prompt_viewDidLoad (h : EnoughValues (screen.quizList app)) :
    Sampler.Prompt (screen.quizList app).length 5 (screen.playClicked.viewDidLoad order app) := by
  by_cases hw : screen.isWords = true
  · obtain ⟨loaded, hplays, -, hload⟩ := viewDidLoad_of_isWords hw order app
    have hlist : screen.quizList app = app.words.map Words.Name := if_pos hw
    rw [hlist] at h ⊢
    rw [hload, List.length_map]
    exact prompt_showWordData hplays h
  · obtain ⟨loaded, -, harr, hload⟩ :=
      viewDidLoad_of_not_isWords (Bool.eq_false_iff.mpr hw) order app
    rw [hload]
    exact prompt_showData harr h

/-- Too few values: the first round never ends. -/
theorem waiting_viewDidLoad_eq_one (hlt : (screen.quizList app).dedup.length < 4)
    (hne : screen.quizList app ≠ []) (n : ℕ) :
    (screen.playClicked.viewDidLoad order app).waiting n = 1 := by
  by_cases hw : screen.isWords = true
  · obtain ⟨loaded, hplays, -, hload⟩ := viewDidLoad_of_isWords hw order app
    have hlist : screen.quizList app = loaded.arrWordImages :=
      (if_pos hw).trans hplays.arrWordImages.symm
    rw [hload]
    exact Sampler.waiting_eq_one (hlist ▸ hlt) (hlist ▸ hne) _ n
  · obtain ⟨loaded, -, harr, hload⟩ :=
      viewDidLoad_of_not_isWords (Bool.eq_false_iff.mpr hw) order app
    rw [hload]
    exact Sampler.waiting_eq_one (harr ▸ hlt) (harr ▸ hne) _ n

/-- **Rounds end.**  When the list of the mode has enough values, no round of the quiz, not
    the first and not one after a clap, goes on for more than `5 * m` draws but with the
    chance `(1 - 1 / length ^ 5) ^ m`; when it has values but fewer than four distinct ones,
    the first round goes on for ever. -/
theorem waiting_of_run (screen : ButtonsViewController) (order : IterationOrder String)
    (app : AppDelegate) :
    (EnoughValues (screen.quizList app) → ∀ m,
      (screen.playClicked.viewDidLoad order app).waiting (5 * m)
        ≤ (1 - ((screen.quizList app).length : ℚ)⁻¹ ^ 5) ^ m ∧
      ∀ draws start rest es vc (order' : IterationOrder String),
        (screen.playClicked.viewDidLoad order app).after draws = .done start rest →
        run step start es = some vc →
        ({ vc with player := .stopped }.audioPlayerDidFinishPlaying order' true).waiting (5 * m)
          ≤ (1 - ((screen.quizList app).length : ℚ)⁻¹ ^ 5) ^ m) ∧
    (screen.quizList app ≠ [] → (screen.quizList app).dedup.length < 4 → ∀ n,
      (screen.playClicked.viewDidLoad order app).waiting n = 1) := by
  refine ⟨fun henough m => ⟨?_, ?_⟩, fun hne hlt n => waiting_viewDidLoad_eq_one hlt hne n⟩
  · exact (prompt_viewDidLoad henough).waiting_le m
  · intro draws start rest es vc order' hload hrun
    have hs := playsOn_of_run (playsOn_viewDidLoad hload) hrun
    exact (prompt_of_playsOn hs henough).waiting_le m

/-- Opened on the letters "a" to "d", the quiz draws more than ten indices with a chance of
    at most `(1 - 1 / 4 ^ 5) ^ 2`. -/
theorem waiting_of_run_letters :
    (HomeButton.alphabetClicked.destination.playClicked.viewDidLoad .insertion
        { arrAlphabets := ["a", "b", "c", "d"] }).waiting (5 * 2)
      ≤ (1 - ((["a", "b", "c", "d"].length : ℕ) : ℚ)⁻¹ ^ 5) ^ 2 :=
  ((waiting_of_run HomeButton.alphabetClicked.destination .insertion
    { arrAlphabets := ["a", "b", "c", "d"] }).1 ⟨by decide, by decide⟩ 2).1

end ChildLearning
