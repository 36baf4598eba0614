import Mathlib.Data.Rat.Defs

namespace ChildLearning

/-!
# Speech

What the app uses of `AVSpeechSynthesizer`, and the three-way toggle `textToSpeech` that
`PlayViewController` and `SpeakViewController` share: it continues what is paused, pauses
what is spoken and starts to speak only when nothing is.
-/

/-- A text to be spoken.  `round` is the quiz round it was made in (ghost; 0 outside the
    quiz). -/
structure AVSpeechUtterance where
  string : String := ""
  voice : Option String := none
  rate : ℚ := 1 / 2
  round : ℕ := 0
  deriving DecidableEq, Repr

/-- A synthesizer: silent, speaking an utterance, or paused within one. -/
inductive AVSpeechSynthesizer where
  | idle
  | speaking (utterance : AVSpeechUtterance)
  | paused (utterance : AVSpeechUtterance)
  deriving DecidableEq, Repr

namespace AVSpeechSynthesizer

/-- `isPaused`. -/
def isPaused : AVSpeechSynthesizer → Bool
  | .paused _ => true
  | _         => false

/-- `isSpeaking`: an utterance has begun and not ended, paused or not. -/
def isSpeaking : AVSpeechSynthesizer → Bool
  | .idle => false
  | _     => true

/-- `speak(_:)` on a silent synthesizer. -/
def speak (utterance : AVSpeechUtterance) : AVSpeechSynthesizer → AVSpeechSynthesizer
  | .idle => .speaking utterance
  | other => other

/-- `pauseSpeaking(at: .immediate)`. -/
def pauseSpeaking : AVSpeechSynthesizer → AVSpeechSynthesizer
  | .speaking utterance => .paused utterance
  | other               => other

/-- `continueSpeaking()`. -/
def continueSpeaking : AVSpeechSynthesizer → AVSpeechSynthesizer
  | .paused utterance => .speaking utterance
  | other             => other

/-- The utterance spoken or paused. -/
def current : AVSpeechSynthesizer → Option AVSpeechUtterance
  | .idle               => none
  | .speaking utterance => some utterance
  | .paused utterance   => some utterance

/-- The utterance ends; only one that is spoken can. -/
def finish : AVSpeechSynthesizer → Option AVSpeechSynthesizer
  | .speaking _ => some .idle
  | _           => none

theorem eq_idle_of_finish {synthesizer after : AVSpeechSynthesizer}
    (h : synthesizer.finish = some after) : after = .idle := by
  cases synthesizer <;> cases h
  rfl

end AVSpeechSynthesizer

/-- The two speech properties of either controller. -/
structure Speaker where
  synthesizer : AVSpeechSynthesizer := .idle
  utterance : AVSpeechUtterance := {}
  deriving DecidableEq, Repr

/-- `textToSpeech`, with the text, the rate of the start branch and the round. -/
def Speaker.textToSpeech (speaker : Speaker) (str : String) (rate : ℚ) (round : ℕ) : Speaker :=
  let utterance : AVSpeechUtterance := { string := str, voice := some "en-US", round := round }
  -- the first two branches keep the new utterance but never hand it to the synthesizer
  if speaker.synthesizer.isPaused then
    { synthesizer := speaker.synthesizer.continueSpeaking, utterance := utterance }
  else if speaker.synthesizer.isSpeaking then
    { synthesizer := speaker.synthesizer.pauseSpeaking, utterance := utterance }
  else if !speaker.synthesizer.isSpeaking then
    { synthesizer := speaker.synthesizer.speak { utterance with rate := rate }
      utterance := { utterance with rate := rate } }
  else { speaker with utterance := utterance }

/-- **The toggle.** Only a silent synthesizer takes the text. -/
theorem Speaker.textToSpeech_synthesizer (speaker : Speaker) (str : String) (rate : ℚ)
    (round : ℕ) :
    (speaker.textToSpeech str rate round).synthesizer = match speaker.synthesizer with
      | .idle               => .speaking ⟨str, some "en-US", rate, round⟩
      | .speaking utterance => .paused utterance
      | .paused utterance   => .speaking utterance := by
  unfold textToSpeech
  cases speaker.synthesizer <;> rfl

/-- What is spoken or paused after the toggle was so before, or is the new text. -/
theorem Speaker.textToSpeech_current {speaker : Speaker} {str : String} {rate : ℚ} {round : ℕ}
    {utterance : AVSpeechUtterance}
    (h : (speaker.textToSpeech str rate round).synthesizer.current = some utterance) :
    speaker.synthesizer.current = some utterance ∨
      utterance = ⟨str, some "en-US", rate, round⟩ := by
  rw [textToSpeech_synthesizer] at h
  -- pausing and continuing change the state of the old utterance only
  cases hs : speaker.synthesizer with
  | idle => rw [hs] at h; exact Or.inr (Option.some.inj h).symm
  | speaking u => rw [hs] at h; exact Or.inl h
  | paused u => rw [hs] at h; exact Or.inl h

end ChildLearning
