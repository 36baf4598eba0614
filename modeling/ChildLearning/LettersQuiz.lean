import Mathlib.Data.Finset.Card
import ChildLearning.PlayViewController

namespace ChildLearning

open Sampling PlayViewController

/-!
# The quiz on letters and numbers

`showData` samples four distinct values of `arr` by rejection and asks for one of them.
`showData_rounds` says which rounds it can make, for any list and any iteration order:
the loop ends exactly on lists with four distinct values, a round shows four of them and
asks for exactly one, and every choice of four and one is made by some draws.
-/

/-- The round on screen: four distinct values of `arr`, and the one at `indexFinal`, at no
    other place, is the one asked for. -/
structure AsksOneOfFour (vc : PlayViewController) : Prop where
  four : vc.arrFinal.length = 4
  nodup : vc.arrFinal.Nodup
  mem : ∀ str ∈ vc.arrFinal, str ∈ vc.arr
  index_lt : vc.indexFinal < 4
  only : ∀ i, vc.arrFinal[i]? = some vc.question ↔ i = vc.indexFinal

variable {order : IterationOrder String} {vc vc' : PlayViewController} {draws rest : List ℕ}

/-- The text of a question is set even where it is not spoken. -/
theorem utterance_asks (vc : PlayViewController) (index : ℕ) (str : String) :
    (vc.asks index str).utterance.string = "Where is " ++ str := by
  show (vc.toSpeaker.textToSpeech ("Where is " ++ str) (35 / 100) (vc.rounds + 1)).utterance.string = _
  unfold Speaker.textToSpeech
  cases vc.synthesizer <;> rfl

/-- **Soundness.** Whenever `showData` returns, the round asks for one of four. -/
theorem asksOneOfFour_of_showData (h : (showData order vc).after draws = .done vc' rest) :
    AsksOneOfFour vc' := by
  obtain ⟨tiles, hfour, hnodup, hmem, str, hstr, rfl⟩ := showData_done h
  obtain ⟨i, hi, hlt, hat⟩ := exists_lastIndex hstr
  rw [hi, Option.getD_some]
  have hlt' : i < 4 := by omega
  refine ⟨hfour, hnodup, hmem, hlt', fun j => ?_⟩
  show tiles[j]? = some str ↔ j = i
  constructor
  · intro hj
    -- the tiles are distinct, so no other place has the same value
    have hjlt : j < tiles.length := (List.getElem?_eq_some_iff.mp hj).1
    exact (List.getElem?_inj hjlt hnodup).mp (hj.trans hat.symm)
  · rintro rfl
    exact hat

/-- Any four values are the tiles of some draws. -/
theorem exists_sample (order : IterationOrder String) {arr : List String} {tiles : Finset String}
    (hcard : tiles.card = 4) (hsub : ∀ str ∈ tiles, str ∈ arr) :
    ∃ draws resultSet, (Sampler.sample arr 4).after draws = .done resultSet [] ∧
      ∀ str, str ∈ order.toArray resultSet ↔ str ∈ tiles := by
  obtain ⟨draws, resultSet, hloop, helems⟩ := exists_draws_collecting tiles.nodup_toList
    (fun x hx => hsub x (Finset.mem_toList.mp hx)) DrawnSet.empty (by simp)
  rw [Finset.length_toList, hcard] at hloop
  refine ⟨draws, resultSet, Sampler.sample_eq_done.mpr hloop, fun str => ?_⟩
  rw [order.mem_toArray, helems]
  simp

/-- **Completeness.** Any four distinct values of `arr`, and any of them to be asked for,
    are the round of some draws. -/
theorem exists_showData (order : IterationOrder String) (vc : PlayViewController)
    {tiles : Finset String} (hcard : tiles.card = 4) (hsub : ∀ str ∈ tiles, str ∈ vc.arr)
    {str : String} (hstr : str ∈ tiles) :
    ∃ draws vc', (showData order vc).after draws = .done vc' [] ∧
      vc'.arrFinal.toFinset = tiles ∧ vc'.question = str := by
  obtain ⟨draws, resultSet, hsample, hmem⟩ := exists_sample order hcard hsub
  obtain ⟨i, hi⟩ := List.getElem?_of_mem ((hmem str).mpr hstr)
  refine ⟨draws ++ [i], { vc with arrFinal := order.toArray resultSet }.asks
    ((lastIndex str (order.toArray resultSet)).getD 0) str, ?_, ?_, rfl⟩
  · rw [showData, Sampler.after_bind_of_done (Sampler.done_append _ hsample _)]
    exact ask_at hi _
  · show (order.toArray resultSet).toFinset = tiles
    ext x
    rw [List.mem_toFinset, hmem]

/-- **Termination.** On an infinite sequence of indices in which every index of `arr` occurs,
    the loop of `showData` ends exactly when `arr` has four distinct values. -/
theorem exists_sample_done_iff {arr : List String} {f : ℕ → ℕ} (hlt : ∀ n, f n < arr.length)
    (hall : ∀ i < arr.length, ∃ n, f n = i) :
    (∃ n resultSet, (Sampler.sample arr 4).after ((List.range n).map f) = .done resultSet []) ↔
      4 ≤ arr.dedup.length := by
  constructor
  · rintro ⟨n, resultSet, hdone⟩
    exact Sampler.le_dedup_of_sample_done hdone
  · intro hk
    obtain ⟨n, resultSet, hleft⟩ := exists_left_of_all_occur hk hlt hall
    exact ⟨n, resultSet, Sampler.sample_eq_done.mpr hleft⟩

/-- Behind the loop one more draw is enough, for the value that is asked for. -/
theorem exists_showData_done_iff (order : IterationOrder String) (vc : PlayViewController)
    {f : ℕ → ℕ} (hlt : ∀ n, f n < vc.arr.length) (hall : ∀ i < vc.arr.length, ∃ n, f n = i) :
    (∃ n i vc', (showData order vc).after ((List.range n).map f ++ [i]) = .done vc' []) ↔
      4 ≤ vc.arr.dedup.length := by
  constructor
  · rintro ⟨n, i, vc', hdone⟩
    obtain ⟨resultSet, mid, hsample, -⟩ := Sampler.after_bind_eq_done.mp hdone
    exact Sampler.le_dedup_of_sample_done hsample
  · intro hk
    obtain ⟨n, resultSet, hsample⟩ := (exists_sample_done_iff hlt hall).mpr hk
    obtain ⟨hlen, -, -⟩ := Sampler.toArray_of_sample order hsample
    obtain ⟨str, hstr⟩ : ∃ str, (order.toArray resultSet)[0]? = some str :=
      ⟨_, List.getElem?_eq_getElem (by omega)⟩
    refine ⟨n, 0, { vc with arrFinal := order.toArray resultSet }.asks
      ((lastIndex str (order.toArray resultSet)).getD 0) str, ?_⟩
    rw [showData, Sampler.after_bind_of_done (Sampler.done_append _ hsample _)]
    exact ask_at hstr _

/-- **Exactly the right rounds.**  For any list and iteration order: on every exhaustive
    sequence of indices the sampling loop of `showData` ends, and `showData` returns after
    one more draw, exactly when the list has four distinct values; whenever `showData`
    returns, it asks for one of four of them; and any four of them, with any one of these
    asked for, are the round of some draws. -/
theorem showData_rounds (order : IterationOrder String) (vc : PlayViewController) :
    (∀ f : ℕ → ℕ, (∀ n, f n < vc.arr.length) → (∀ i < vc.arr.length, ∃ n, f n = i) →
      ((∃ n resultSet, (Sampler.sample vc.arr 4).after ((List.range n).map f)
          = .done resultSet []) ↔ 4 ≤ vc.arr.dedup.length) ∧
      ((∃ n i vc', (showData order vc).after ((List.range n).map f ++ [i]) = .done vc' []) ↔
        4 ≤ vc.arr.dedup.length)) ∧
    (∀ draws vc' rest, (showData order vc).after draws = .done vc' rest →
      vc'.arr = vc.arr ∧ AsksOneOfFour vc' ∧ vc'.utterance.string = "Where is " ++ vc'.question) ∧
    (∀ tiles : Finset String, tiles.card = 4 → (∀ str ∈ tiles, str ∈ vc.arr) →
      ∀ str ∈ tiles, ∃ draws vc', (showData order vc).after draws = .done vc' [] ∧
        vc'.arrFinal.toFinset = tiles ∧ vc'.question = str) := by
  refine ⟨fun f hlt hall => ⟨exists_sample_done_iff hlt hall,
    exists_showData_done_iff order vc hlt hall⟩, fun draws vc' rest h => ?_, ?_⟩
  · obtain ⟨tiles, -, -, -, str, -, heq⟩ := showData_done h
    refine ⟨?_, asksOneOfFour_of_showData h, ?_⟩
    · rw [heq]; rfl
    · rw [heq]; exact utterance_asks _ _ _
  · intro tiles hcard hsub str hstr
    exact exists_showData order vc hcard hsub hstr

/-- A list of five letters with a repetition has a round on "a", "b", "c" and "d" that asks
    for "c". -/
theorem showData_rounds_fiveLetters :
    ∃ draws vc', (showData .insertion { arr := ["a", "b", "a", "c", "d"] }).after draws
        = .done vc' [] ∧ vc'.arrFinal.toFinset = {"a", "b", "c", "d"} ∧ vc'.question = "c" :=
  (showData_rounds .insertion { arr := ["a", "b", "a", "c", "d"] }).2.2 {"a", "b", "c", "d"}
    (by decide) (by decide) "c" (by decide)

end ChildLearning
