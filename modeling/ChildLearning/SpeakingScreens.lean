import Mathlib.Data.List.Pairwise
import ChildLearning.Session

namespace ChildLearning

open Transition Session

/-!
# Speaking screens

A speaking screen is left at the end of its utterance and in no other way, and
`speechSynthesizer(_:didFinish:)` pops whatever is on top.  With several selections before
the first push has covered the tiles there are several speaking screens.
`closesItself_along_iff` says when each of them closes itself and nothing else: exactly
when the utterances end in the reverse order of the selections.
-/

/-- A tile is selected, or the utterance of speaking screen `i` ends. -/
inductive SpeakingEvent where
  | didSelectItemAt
  | didFinish (i : ℕ)

/-- The event as one of the session. -/
def SpeakingEvent.event : SpeakingEvent → SessionEvent
  | .didSelectItemAt => .didSelectItemAt
  | .didFinish i     => .didFinish i

/-- One event. -/
def speakingStep (s : Session) (e : SpeakingEvent) : Option Session := s.step e.event

/-- Nobody speaks, and no speaking screen is on the stack. -/
structure Quiet (s : Session) : Prop where
  uttering : s.uttering = []
  nav : ∀ i, .speak i ∉ s.nav.viewControllers

/-- The end of an utterance removes its own screen, which was on top; and nothing, if that
    screen has been popped. -/
def ClosesItself (s : Session) : SpeakingEvent → Session → Prop
  | .didSelectItemAt, _ => True
  | .didFinish i, s'    =>
    if .speak i ∈ s.nav.viewControllers then s.nav = s'.nav.push (.speak i) else s'.nav = s.nav

/-- If every utterance has ended or its screen has been popped, no speaking screen is
    left. -/
def NoneLeft (s : Session) : Prop :=
  (∀ i ∈ s.uttering, .speak i ∉ s.nav.viewControllers) → ∀ i, .speak i ∉ s.nav.viewControllers

/-- Of the utterances still to end, the one of the last selection ends first. -/
def LastFirst (s : Session) : SpeakingEvent → Prop
  | .didSelectItemAt => True
  | .didFinish i     => ∀ j ∈ s.uttering, j ≤ i

/-- **The invariant.** Over a stack without speaking screens lie those that still speak, in
    the order of their selections. -/
structure Stacked (s : Session) : Prop where
  sorted : s.uttering.Pairwise (· < ·)
  lt : ∀ i ∈ s.uttering, i < s.speaks
  nav : ∃ base : NavStack Controller, (∀ i, .speak i ∉ base.viewControllers) ∧
    s.nav = base.pushAll (s.uttering.map .speak)

variable {s s' : Session} {e : SpeakingEvent} {i : ℕ}

theorem stacked_of_quiet (h : Quiet s) : Stacked s := by
  refine ⟨?_, ?_, s.nav, h.nav, ?_⟩
  · rw [h.uttering]; exact List.Pairwise.nil
  · rw [h.uttering]; nofun
  · rw [h.uttering]; rfl

/-- The speaking screens on the stack are those that still speak. -/
theorem Stacked.mem_iff (hs : Stacked s) (i : ℕ) :
    .speak i ∈ s.nav.viewControllers ↔ i ∈ s.uttering := by
  obtain ⟨base, hbase, hnav⟩ := hs.nav
  rw [hnav, NavStack.mem_viewControllers_pushAll, or_iff_left (hbase i), List.mem_map]
  constructor
  · rintro ⟨j, hj, heq⟩
    cases heq
    exact hj
  · exact fun hi => ⟨i, hi, rfl⟩

theorem Stacked.noneLeft (hs : Stacked s) : NoneLeft s := by
  intro hended i hi
  exact hended i ((hs.mem_iff i).mp hi) hi

/-- A selection. -/
theorem Stacked.didSelectItemAt (hs : Stacked s) (h : speakingStep s .didSelectItemAt = some s') :
    Stacked s' := by
  obtain ⟨base, hbase, hnav⟩ := hs.nav
  obtain ⟨-, hstep⟩ := Option.ite_none_right_eq_some.mp h
  cases hstep
  refine ⟨?_, fun i hi => ?_, base, hbase, ?_⟩
  · refine List.pairwise_append.mpr ⟨hs.sorted, List.pairwise_singleton _ _, fun i hi j hj => ?_⟩
    rw [List.mem_singleton.mp hj]
    exact hs.lt i hi
  · rcases List.mem_append.mp hi with hi | hi
    · exact Nat.lt_succ_of_lt (hs.lt i hi)
    · rw [List.mem_singleton.mp hi]
      exact Nat.lt_succ_self _
  · show s.nav.push (.speak s.speaks) = base.pushAll ((s.uttering ++ [s.speaks]).map .speak)
    rw [List.map_append, List.map_singleton, NavStack.pushAll_concat, hnav]

/-- The end of an utterance: the screen of the last selection is the one that is popped,
    whichever utterance it was. -/
theorem Stacked.didFinish (hs : Stacked s) (h : speakingStep s (.didFinish i) = some s') :
    ∃ before last, s.uttering = before ++ [last] ∧ i ∈ s.uttering ∧
      s.nav = s'.nav.push (.speak last) ∧ s' =
        { s with uttering := s.uttering.erase i, nav := s.nav.pop } := by
  obtain ⟨base, -, hnav⟩ := hs.nav
  obtain ⟨hi, hstep⟩ := Option.ite_none_right_eq_some.mp h
  cases hstep
  rcases List.eq_nil_or_concat' s.uttering with hnil | ⟨before, last, hlast⟩
  · rw [hnil] at hi
    cases hi
  · refine ⟨before, last, hlast, hi, ?_, ?_⟩
    · rw [if_pos ((hs.mem_iff i).mpr hi), hnav, hlast, List.map_append, List.map_singleton,
        NavStack.pushAll_concat, NavStack.pop_push]
    · rw [if_pos ((hs.mem_iff i).mpr hi)]

/-- The last one of an increasing list is the greatest. -/
theorem last_eq_iff {xs before : List ℕ} {last : ℕ} (hsorted : xs.Pairwise (· < ·))
    (hlast : xs = before ++ [last]) (hi : i ∈ xs) : last = i ↔ ∀ j ∈ xs, j ≤ i := by
  rw [hlast, List.pairwise_append] at hsorted
  have hlt : ∀ j ∈ before, j < last := fun j hj =>
    hsorted.2.2 j hj last (List.mem_singleton_self last)
  rw [hlast, List.mem_append, List.mem_singleton] at hi
  simp only [hlast, List.mem_append, List.mem_singleton]
  constructor
  · rintro rfl j (hj | rfl)
    · exact (hlt j hj).le
    · exact le_refl _
  · intro hle
    have hlastle : last ≤ i := hle last (Or.inr rfl)
    rcases hi with hi | rfl
    · have hilt := hlt i hi
      omega
    · rfl

/-- The utterance that ends closes its own screen exactly if it is the last one. -/
theorem closesItself_iff (hs : Stacked s) (h : speakingStep s e = some s') :
    ClosesItself s e s' ↔ LastFirst s e := by
  cases e with
  | didSelectItemAt => exact Iff.rfl
  | didFinish i =>
    obtain ⟨before, last, hlast, hi, hpush, -⟩ := hs.didFinish h
    rw [ClosesItself, if_pos ((hs.mem_iff i).mpr hi), hpush, NavStack.push_inj,
      Controller.speak.injEq]
    exact last_eq_iff hs.sorted hlast hi

/-- The step lemma: the screens stay in order if the last one ends first. -/
theorem Stacked.step (hs : Stacked s) (hfirst : LastFirst s e) (h : speakingStep s e = some s') :
    Stacked s' := by
  cases e with
  | didSelectItemAt => exact hs.didSelectItemAt h
  | didFinish i =>
    obtain ⟨before, last, hlast, hi, hpush, rfl⟩ := hs.didFinish h
    obtain rfl : last = i := (last_eq_iff hs.sorted hlast hi).mpr hfirst
    have hsorted := hs.sorted
    rw [hlast, List.pairwise_append] at hsorted
    have hnew : last ∉ before := fun hmem =>
      (hsorted.2.2 last hmem last (List.mem_singleton_self last)).false
    have herase : s.uttering.erase last = before := by
      rw [hlast, List.erase_append_right _ hnew, List.erase_cons_head, List.append_nil]
    obtain ⟨base, hbase, hnav⟩ := hs.nav
    refine ⟨?_, fun j hj => hs.lt j (List.mem_of_mem_erase hj), base, hbase, ?_⟩
    · rw [herase]; exact hsorted.1
    · show s.nav.pop = base.pushAll ((s.uttering.erase last).map .speak)
      rw [herase, hnav, hlast, List.map_append, List.map_singleton, NavStack.pushAll_concat,
        NavStack.pop_push]

/-- **Closing itself and nothing else.**  Along every sequence of selections and ends of
    utterances that starts without speaking screens: each end removes its own screen and
    nothing else, and no screen is left once all have ended, if and only if the utterances
    end in the reverse order of the selections. -/
theorem closesItself_along_iff (hquiet : Quiet s) (es : List SpeakingEvent) :
    NoneLeft s ∧
      (Along speakingStep (fun s e s' => ClosesItself s e s' ∧ NoneLeft s') s es ↔
        Along speakingStep (fun s e _ => LastFirst s e) s es) := by
  have hs := stacked_of_quiet hquiet
  refine ⟨hs.noneLeft, along_iff_along (I := Stacked) ?_ ?_ hs es⟩
  · intro s e s' hs hstep
    rw [closesItself_iff hs hstep]
    exact and_iff_left_of_imp fun hfirst => (hs.step hfirst hstep).noneLeft
  · intro s e s' hs hstep hP
    exact hs.step ((closesItself_iff hs hstep).mp hP.1) hstep

/-- Ann has signed up and opened the words. -/
def atWords : Session :=
  { nav := ⟨.viewController, [.buttons, .home "Ann", .signUp 0]⟩
    username := some "Ann"
    screens := [[]] }

theorem quiet_atWords : Quiet atWords := ⟨rfl, fun i => by simp [atWords]⟩

/-- She selects a word, and another one when the first has been spoken. -/
theorem closesItself_along_iff_oneByOne :
    Along speakingStep (fun s e s' => ClosesItself s e s' ∧ NoneLeft s') atWords
      [.didSelectItemAt, .didFinish 0, .didSelectItemAt, .didFinish 1] := by
  refine (closesItself_along_iff quiet_atWords _).2.mpr ?_
  refine (along_cons rfl).mpr ⟨trivial, (along_cons rfl).mpr ⟨fun j hj => ?_, ?_⟩⟩
  · exact (List.mem_singleton.mp hj).le
  refine (along_cons rfl).mpr ⟨trivial, (along_cons rfl).mpr ⟨fun j hj => ?_, trivial⟩⟩
  exact (List.mem_singleton.mp hj).le

/-- Two words are selected at once, and the first one is spoken faster: its end removes the
    screen of the second one, whose own end then removes nothing. -/
theorem twoSelections_not_closesItself :
    run step launch [.openSignUp,
        .signUpcClicked (some "Ann") (some "ann@mail.co") (some "secret"),
        .homeClicked .wordClicked] = some atWords ∧
    Quiet atWords ∧
    (∃ s, run speakingStep atWords [.didSelectItemAt, .didSelectItemAt, .didFinish 0, .didFinish 1]
      = some s ∧ s.uttering = [] ∧ s.nav.top = .speak 0 ∧ ¬ NoneLeft s) ∧
    ¬ Along speakingStep (fun s e s' => ClosesItself s e s' ∧ NoneLeft s') atWords
      [.didSelectItemAt, .didSelectItemAt, .didFinish 0] := by
  refine ⟨rfl, quiet_atWords, ⟨_, rfl, rfl, rfl, fun h => ?_⟩, fun h => ?_⟩
  · exact h nofun 0 (by decide)
  · have hlast := along_last [SpeakingEvent.didSelectItemAt, .didSelectItemAt] h rfl rfl
    have hclose : Controller.speak 1 = .speak 0 := NavStack.push_inj.mp hlast.1
    cases hclose

end ChildLearning
