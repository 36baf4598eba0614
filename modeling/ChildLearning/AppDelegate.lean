import Mathlib.Data.List.Sort
import ChildLearning.Lib.Transition
import ChildLearning.FirebaseModel

namespace ChildLearning

open Transition

/-!
# `AppDelegate`

The three lists of the app and the Firebase callbacks that fill them.  Letters and
numbers arrive in one callback each and are set at once; every document of the word
library starts a chain of two further callbacks, and the words are appended one by one
as the chains complete.

`Loader` holds the lists with the callbacks still to come; `Loader.step` runs one of
them.  Each callback runs once, at any time, with any result.
-/

/-! ### Documents -/

/-- A field of a Firestore document, as far as the app tells the types apart. -/
inductive FieldValue where
  | string (s : String)
  | reference (documentID : String)
  | other

namespace FieldValue

/-- `as? String`. -/
def asString? : FieldValue → Option String
  | .string s => some s
  | _         => none

/-- `as? DocumentReference`, as the id of the document referred to. -/
def asReference? : FieldValue → Option String
  | .reference documentID => some documentID
  | _                     => none

end FieldValue

/-- `document.data()`. -/
abbrev Document := List (String × FieldValue)

namespace Document

/-- `doc[key] as? String`. -/
def string? (doc : Document) (key : String) : Option String :=
  (doc.lookup key).bind FieldValue.asString?

/-- `doc[key] as? DocumentReference`. -/
def reference? (doc : Document) (key : String) : Option String :=
  (doc.lookup key).bind FieldValue.asReference?

end Document

/-! ### The lists and the callbacks -/

/-- The two comparisons of `NSString` that the lists are sorted by, as the relation
    "is `.orderedAscending`". -/
structure Collation where
  localizedCaseInsensitiveCompare : String → String → Bool
  localizedStandardCompare : String → String → Bool

/-- `list.sorted(by: areInIncreasingOrder)`. -/
def sorted (areInIncreasingOrder : String → String → Bool) (list : List String) : List String :=
  list.insertionSort fun a b => areInIncreasingOrder b a = false

/-- The lists that the whole app reads. -/
structure AppDelegate where
  arrAlphabets : List String := []
  arrNumber : List String := []
  words : List Words := []
  deriving DecidableEq, Repr

/-- Where the chain of a word document stands: waiting for `getDocument`, waiting for
    `downloadURL` of this path, or completed with this url. -/
inductive Stage where
  | getDocument
  | downloadURL (path : String)
  | completed (url : Option String)

/-- A document of the word library whose `Name` is a reference (`value`). -/
structure WordChain where
  doc : Document
  value : String
  stage : Stage

namespace AppDelegate

/-- The loop of `fetchAlphabets` and `fetchNumbers`: the names that are strings. -/
def names (documents : List Document) : List String :=
  documents.filterMap fun doc => doc.string? "name"

/-- `fetchAlphabets()`, the callback; without documents there was an error. -/
def fetchAlphabets (collation : Collation) (app : AppDelegate) :
    Option (List Document) → AppDelegate
  | some documents =>
    { app with arrAlphabets := sorted collation.localizedCaseInsensitiveCompare (names documents) }
  | none           => app

/-- `fetchNumbers()`, the callback. -/
def fetchNumbers (collation : Collation) (app : AppDelegate) :
    Option (List Document) → AppDelegate
  | some documents =>
    { app with arrNumber := sorted collation.localizedStandardCompare (names documents) }
  | none           => app

/-- `fetchWords()`, the outer callback: the chains it starts. -/
def fetchWords : Option (List Document) → List WordChain
  | some documents =>
    documents.filterMap fun doc => (doc.reference? "Name").map fun value => ⟨doc, value, .getDocument⟩
  | none           => []

/-- The entry that a chain ends in. -/
def word (doc : Document) (url : Option String) : Words :=
  ⟨(doc.string? "title").getD "", url.getD ""⟩

end AppDelegate

/-- `getDocument`, the callback; the document it delivers is the one referred to.
    Without one there was an error, and the path is empty. -/
def WordChain.getDocument (chain : WordChain) (found : Bool) : WordChain :=
  { chain with stage := .downloadURL (if found then chain.value else "") }

/-- The lists, which of the three fetches are still running, and all chains started. -/
structure Loader where
  app : AppDelegate := {}
  fetchingAlphabets : Bool := true
  fetchingNumbers : Bool := true
  fetchingWords : Bool := true
  chains : List WordChain := []

/-- A Firebase callback; chain `i` is the one of the `i`-th chain started. -/
inductive LoadEvent where
  | fetchAlphabets (query : Option (List Document))
  | fetchNumbers (query : Option (List Document))
  | fetchWords (query : Option (List Document))
  | getDocument (i : ℕ) (found : Bool)
  | downloadURL (i : ℕ) (url : Option String)

namespace Loader

/-- `application(_:didFinishLaunchingWithOptions:)`: nothing is loaded, all three
    fetches run. -/
def launch : Loader := {}

/-- One callback, in the serial order of the main queue. -/
def step (collation : Collation) (l : Loader) : LoadEvent → Option Loader
  | .fetchAlphabets query =>
    if l.fetchingAlphabets then some
      { l with app := l.app.fetchAlphabets collation query, fetchingAlphabets := false }
    else none
  | .fetchNumbers query =>
    if l.fetchingNumbers then some
      { l with app := l.app.fetchNumbers collation query, fetchingNumbers := false }
    else none
  | .fetchWords query =>
    -- the loop only starts the chains; the list of words is not touched
    if l.fetchingWords then some
      { l with chains := AppDelegate.fetchWords query, fetchingWords := false }
    else none
  | .getDocument i found =>
    l.chains[i]?.bind fun chain =>
      match chain.stage with
      | .getDocument => some { l with chains := l.chains.set i (chain.getDocument found) }
      | _            => none
  | .downloadURL i url =>
    l.chains[i]?.bind fun chain =>
      match chain.stage with
      -- the word is appended whether or not there is a url
      | .downloadURL _ => some
          { l with
            app := { l.app with words := l.app.words ++ [AppDelegate.word chain.doc url] }
            chains := l.chains.set i { chain with stage := .completed url } }
      | _              => none

variable {collation : Collation} {l l' : Loader}

/-- A document is delivered to the chain that waits for it. -/
theorem step_getDocument {i : ℕ} {found : Bool}
    (h : step collation l (.getDocument i found) = some l') :
    ∃ chain, l.chains[i]? = some chain ∧ chain.stage = .getDocument ∧
      l' = { l with chains := l.chains.set i (chain.getDocument found) } := by
  obtain ⟨chain, hchain, hstep⟩ := Option.bind_eq_some_iff.mp h
  split at hstep
  case h_1 hstage => cases hstep; exact ⟨chain, hchain, hstage, rfl⟩
  case h_2 => cases hstep

/-- A url is delivered to the chain that waits for it; the word is appended in any case. -/
theorem step_downloadURL {i : ℕ} {url : Option String}
    (h : step collation l (.downloadURL i url) = some l') :
    ∃ chain path, l.chains[i]? = some chain ∧ chain.stage = .downloadURL path ∧ l' =
      { l with
        app := { l.app with words := l.app.words ++ [AppDelegate.word chain.doc url] }
        chains := l.chains.set i { chain with stage := .completed url } } := by
  obtain ⟨chain, hchain, hstep⟩ := Option.bind_eq_some_iff.mp h
  split at hstep
  case h_1 path hstage => cases hstep; exact ⟨chain, path, hchain, hstage, rfl⟩
  case h_2 => cases hstep

/-- **What a callback does to the words.** It appends at most one entry. -/
theorem step_words {e : LoadEvent} (h : step collation l e = some l') :
    l'.app.words = l.app.words ∨ ∃ word, l'.app.words = l.app.words ++ [word] := by
  cases e with
  | fetchAlphabets query =>
    obtain ⟨-, hs⟩ := Option.ite_none_right_eq_some.mp h
    cases hs
    cases query <;> exact Or.inl rfl
  | fetchNumbers query =>
    obtain ⟨-, hs⟩ := Option.ite_none_right_eq_some.mp h
    cases hs
    cases query <;> exact Or.inl rfl
  | fetchWords query =>
    obtain ⟨-, hs⟩ := Option.ite_none_right_eq_some.mp h
    cases hs
    exact Or.inl rfl
  | getDocument i found =>
    obtain ⟨chain, -, -, rfl⟩ := step_getDocument h
    exact Or.inl rfl
  | downloadURL i url =>
    obtain ⟨chain, path, -, -, rfl⟩ := step_downloadURL h
    exact Or.inr ⟨_, rfl⟩

/-- A callback keeps the words already there, at their places. -/
theorem words_prefix_of_step {e : LoadEvent} (h : step collation l e = some l') :
    l.app.words <+: l'.app.words := by
  rcases step_words h with heq | ⟨word, happend⟩
  · exact heq ▸ List.prefix_refl _
  · rw [happend]; exact List.prefix_append _ _

end Loader

end ChildLearning
