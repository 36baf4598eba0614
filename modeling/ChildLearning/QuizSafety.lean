import Mathlib.Algebra.Group.Nat.Defs
import ChildLearning.Lib.Join
import ChildLearning.Browsing
import ChildLearning.PlayViewController

namespace ChildLearning

open Sampling Transition PlayViewController

/-!
# Opening the quiz

`playClicked` opens the quiz whatever has been loaded.  `safe_viewDidLoad_iff` says for
which contents of the list that is safe: no index past an end is read, and no loop can
get stuck, exactly when the list of the mode has four distinct values (and fewer entries
than a `UInt32` counts).
-/

/-- `Int(arc4random_uniform(UInt32(n)))` may be `r`.  The result is below `n`, and 0 when
    `n` is 0; the conversion to `UInt32` traps from 2^32 on. -/
def arc4random_uniform (n r : ℕ) : Prop := n < 2 ^ 32 ∧ (r < n ∨ n = 0 ∧ r = 0)

/-- The generator returns the indices of a list that is neither empty nor too long. -/
theorem arc4random_uniform_iff {n r : ℕ} (hpos : 0 < n) (hlt : n < 2 ^ 32) :
    arc4random_uniform n r ↔ r < n := by
  unfold arc4random_uniform
  omega

/-- The list has four distinct values and can be counted by a `UInt32`. -/
def EnoughValues (xs : List String) : Prop := 4 ≤ xs.dedup.length ∧ xs.length < 2 ^ 32

/-- The list that the quiz of a library screen draws its tiles from. -/
def ButtonsViewController.quizList (screen : ButtonsViewController) (app : AppDelegate) :
    List String :=
  if screen.isWords then app.words.map Words.Name
  else if screen.isNumbers then app.arrNumber
  else app.arrAlphabets

variable {order : IterationOrder String} {vc : PlayViewController}

/-- The question can be drawn from any candidates. -/
theorem safe_ask {candidates : List String} (hpos : 0 < candidates.length)
    (hlt : candidates.length < 2 ^ 32) :
    Sampler.Safe arc4random_uniform (ask order candidates vc) := by
  have hone : 1 ≤ candidates.dedup.length := by
    obtain ⟨x, hx⟩ := List.exists_mem_of_length_pos hpos
    exact List.length_pos_of_mem (List.mem_dedup.mpr hx)
  refine Sampler.safe_bind
    (Sampler.safe_sample hone fun r => arc4random_uniform_iff hpos hlt) fun _ set _ => ?_
  -- what follows the draw reads nothing by index
  cases order.toArray set with
  | nil => exact Sampler.safe_pure _
  | cons str others => exact Sampler.safe_pure _

/-- Four tiles can be drawn from a list with enough values. -/
theorem safe_sample_of_enoughValues {xs : List String} (h : EnoughValues xs) :
    Sampler.Safe arc4random_uniform (Sampler.sample xs 4) := by
  have hle : xs.dedup.length ≤ xs.length := (List.dedup_sublist xs).length_le
  refine Sampler.safe_sample h.1 fun r => arc4random_uniform_iff ?_ h.2
  have := h.1
  omega

/-- A round whose tiles are drawn from `xs` can be safe only if `xs` has enough values. -/
theorem enoughValues_of_safe {xs : List String}
    {f : DrawnSet String → Sampler PlayViewController}
    (h : Sampler.Safe arc4random_uniform (Sampler.sample xs 4 >>= f)) : EnoughValues xs := by
  obtain ⟨draws, set, rest, hposs, hdone⟩ := h.exists_done_of_bind
  obtain ⟨r, hr⟩ := Sampler.exists_value_of_sample_done (by omega) hposs hdone
  exact ⟨Sampler.le_dedup_of_sample_done hdone, hr.1⟩

/-- Letters and numbers. -/
theorem safe_showData_iff :
    Sampler.Safe arc4random_uniform (showData order vc) ↔ EnoughValues vc.arr := by
  refine ⟨enoughValues_of_safe, fun h => ?_⟩
  refine Sampler.safe_bind (safe_sample_of_enoughValues h) fun _ set hdone => ?_
  obtain ⟨hlen, -, -⟩ := Sampler.toArray_of_sample order hdone
  exact safe_ask (by omega) (by omega)

/-- Words: every tile has a title, and there are no more titles than words. -/
theorem safe_showWordData_iff (himages : vc.arrWordImages = vc.arrWord.map Words.Name) :
    Sampler.Safe arc4random_uniform (showWordData order vc) ↔ EnoughValues vc.arrWordImages := by
  refine ⟨enoughValues_of_safe, fun h => ?_⟩
  refine Sampler.safe_bind (safe_sample_of_enoughValues h) fun _ set hdone => ?_
  obtain ⟨hlen, hnodup, hmem⟩ := Sampler.toArray_of_sample order hdone
  rw [himages] at hmem
  -- the candidates of the question are the joined titles: at least one a tile, at most one a word
  have hlow : 4 ≤ (Join.join Words.Name Words.title (order.toArray set) vc.arrWord).length := by
    rw [← hlen]
    exact Join.length_le_join Words.title hmem
  have hhigh : (Join.join Words.Name Words.title (order.toArray set) vc.arrWord).length
      ≤ vc.arrWord.length := Join.length_join_le Words.title hnodup vc.arrWord
  have hwords : vc.arrWord.length < 2 ^ 32 := by
    have hlt := h.2
    rwa [himages, List.length_map] at hlt
  apply safe_ask
  · show 0 < (Join.join Words.Name Words.title (order.toArray set) vc.arrWord).length
    omega
  · show (Join.join Words.Name Words.title (order.toArray set) vc.arrWord).length < 2 ^ 32
    omega

/-- **Opening the quiz.** Whatever the lists hold when the quiz of a library screen is
    opened: its drawing is safe exactly when the list of its mode has enough values. -/
theorem safe_viewDidLoad_iff (screen : ButtonsViewController) (order : IterationOrder String)
    (app : AppDelegate) :
    Sampler.Safe arc4random_uniform (screen.playClicked.viewDidLoad order app) ↔
      EnoughValues (screen.quizList app) := by
  unfold viewDidLoad ButtonsViewController.quizList
  dsimp only [ButtonsViewController.playClicked]
  split_ifs
  · exact safe_showWordData_iff rfl
  · exact safe_showData_iff
  · exact safe_showData_iff

/-- The quiz on letters is opened before any letter has been loaded: the first draw reads
    past the end of the empty list. -/
theorem emptyLibrary_not_safe :
    ∃ s screen, run (Browsing.step ⟨fun _ _ => false, fun _ _ => false⟩ id) .launch
        [.clicked .alphabetClicked] = some s ∧ s.opened = [screen] ∧
      Sampler.Possible arc4random_uniform
        (screen.playClicked.viewDidLoad .insertion s.loader.app) [0] ∧
      (screen.playClicked.viewDidLoad .insertion s.loader.app).after [0] = .outOfBounds := by
  refine ⟨_, _, rfl, rfl, ⟨fun n hn => ?_, trivial⟩, rfl⟩
  cases hn
  exact ⟨by decide, Or.inr ⟨rfl, rfl⟩⟩

end ChildLearning
