import ChildLearning.AppDelegate
import ChildLearning.Speech

namespace ChildLearning

/-!
# `HomeViewController`, `ButtonsViewController` and `SpeakViewController`

The three screens of the library.  Home opens a `ButtonsViewController` with one of three
flags set; it copies the list of its mode when it loads, lays out one cell a row, and
hands the selected row to a `SpeakViewController`.

`none` is an index past the end of a list or the `nil` behind `word: Words!`: both trap.
`String.capitalized` is the parameter `capitalized`.
-/

/-! ### Colours and cells -/

/-- `UIColor(red:green:blue:alpha:)`, the first three in 255ths. -/
structure UIColor where
  red : ℕ := 0
  green : ℕ := 0
  blue : ℕ := 0
  alpha : ℚ := 1
  deriving DecidableEq, Repr

/-- `colorArray` of either controller. -/
def colorArray : Vector UIColor 4 :=
  #v[⟨116, 29, 149, 1⟩, ⟨255, 202, 0, 1⟩, ⟨255, 114, 0, 1⟩, ⟨116, 202, 0, 1⟩]

/-- A cell: the picture, by the text of its url, and the label. -/
structure ButtonCollectionViewCell where
  backgroundColor : UIColor := {}
  imgVIsHidden : Bool := false
  imgV : Option String := none
  lblName : Option String := none
  deriving DecidableEq, Repr

/-- What a child sees on a tile or on the speaking screen. -/
inductive Item where
  | image (url : String)
  | text (label : String)
  deriving DecidableEq, Repr

/-- The visible one of the picture and the label. -/
def ButtonCollectionViewCell.shows (cell : ButtonCollectionViewCell) : Item :=
  if cell.imgVIsHidden then .text (cell.lblName.getD "") else .image (cell.imgV.getD "")

/-! ### The speaking screen -/

/-- `SpeakViewController`. -/
structure SpeakViewController extends Speaker where
  strWord : String := ""
  isWord : Bool := false
  isNumbers : Bool := false
  isAlphabets : Bool := false
  word : Option Words := none
  lblTitle : String := ""
  lblName : Option String := none
  imgVIsHidden : Bool := false
  imgV : Option String := none
  color : UIColor := {}
  deriving DecidableEq, Repr

namespace SpeakViewController

/-- `viewDidLoad` takes its last branch, which forces `word`. -/
def takesWordBranch (vc : SpeakViewController) : Bool := !vc.isNumbers && !vc.isAlphabets

/-- `textToSpeech()`. -/
def textToSpeech (vc : SpeakViewController) : SpeakViewController :=
  { vc with toSpeaker := vc.toSpeaker.textToSpeech vc.strWord (1 / 4) 0 }

/-- `viewDidLoad()`. -/
def viewDidLoad (capitalized : String → String) (vc : SpeakViewController) :
    Option SpeakViewController :=
  let hidden := { vc with imgVIsHidden := true }
  let loaded : Option SpeakViewController :=
    if vc.isNumbers then some
      { hidden with
        lblName := some (capitalized vc.strWord), color := colorArray[2], lblTitle := "Number" }
    else if vc.isAlphabets then some
      { hidden with
        lblName := some (capitalized vc.strWord), color := colorArray[1], lblTitle := "Alphabets" }
    -- neither flag: `word` is forced
    else vc.word.map fun word =>
      { hidden with
        color := colorArray[0], imgVIsHidden := false, lblTitle := "Word", imgV := some word.Name }
  loaded.map fun vc => { vc with synthesizer := .idle }.textToSpeech

/-- The visible one of the picture and the label. -/
def shows (vc : SpeakViewController) : Item :=
  if vc.imgVIsHidden then .text (vc.lblName.getD "") else .image (vc.imgV.getD "")

variable {capitalized : String → String} {vc : SpeakViewController}

/-- Loading with a word: its picture is shown. -/
theorem viewDidLoad_of_word {word : Words} (hbranch : vc.takesWordBranch = true)
    (hword : vc.word = some word) :
    ∃ loaded, vc.viewDidLoad capitalized = some loaded ∧ loaded.shows = .image word.Name ∧
      loaded.strWord = vc.strWord ∧ loaded.word = some word ∧ loaded.takesWordBranch = true := by
  obtain ⟨hn, ha⟩ : vc.isNumbers = false ∧ vc.isAlphabets = false := by
    simpa [takesWordBranch] using hbranch
  simp [viewDidLoad, textToSpeech, shows, takesWordBranch, hn, ha, hword]

/-- Loading without one: the string is shown, capitalized. -/
theorem viewDidLoad_of_text (hbranch : vc.takesWordBranch = false) :
    ∃ loaded, vc.viewDidLoad capitalized = some loaded ∧
      loaded.shows = .text (capitalized vc.strWord) ∧ loaded.strWord = vc.strWord ∧
      loaded.takesWordBranch = false := by
  cases hn : vc.isNumbers with
  | true => simp [viewDidLoad, textToSpeech, shows, takesWordBranch, hn]
  | false =>
    have ha : vc.isAlphabets = true := by simpa [takesWordBranch, hn] using hbranch
    simp [viewDidLoad, textToSpeech, shows, takesWordBranch, hn, ha]

end SpeakViewController

/-! ### The library screen -/

/-- `ButtonsViewController`. -/
structure ButtonsViewController where
  arr : List String := []
  isNumbers : Bool := false
  isAlphabets : Bool := false
  isWords : Bool := false
  words : List Words := []
  lblTitle : String := ""
  color : UIColor := {}
  deriving DecidableEq, Repr

namespace ButtonsViewController

/-- `viewDidLoad()`. -/
def viewDidLoad (app : AppDelegate) (vc : ButtonsViewController) : ButtonsViewController :=
  if vc.isNumbers then
    { vc with arr := app.arrNumber, color := colorArray[2], lblTitle := "Numbers" }
  else if vc.isAlphabets then
    { vc with arr := app.arrAlphabets, color := colorArray[1], lblTitle := "Alphabets" }
  else
    { vc with words := app.words, color := colorArray[0], lblTitle := "Words" }

/-- `collectionView(_:numberOfItemsInSection:)`. -/
def numberOfItemsInSection (vc : ButtonsViewController) : ℕ :=
  if vc.isWords then vc.words.length else vc.arr.length

/-- `collectionView(_:cellForItemAt:)` on the dequeued cell: the words are read from the
    live list of the app, not from the copy. -/
def cellForItemAt (capitalized : String → String) (app : AppDelegate) (vc : ButtonsViewController)
    (row : ℕ) (dequeued : ButtonCollectionViewCell) : Option ButtonCollectionViewCell :=
  let cell := { dequeued with backgroundColor := vc.color }
  if vc.isWords then
    app.words[row]?.map fun word => { cell with imgVIsHidden := false, imgV := some word.Name }
  else
    vc.arr[row]?.map fun str => { cell with imgVIsHidden := true, lblName := some (capitalized str) }

/-- `collectionView(_:didSelectItemAt:)`: the controller that is pushed. -/
def didSelectItemAt (vc : ButtonsViewController) (row : ℕ) : Option SpeakViewController :=
  let speak : SpeakViewController :=
    { isWord := vc.isWords, isAlphabets := vc.isAlphabets, isNumbers := vc.isNumbers }
  -- the row is looked up in the copies, unlike that of a cell
  if vc.isWords then
    vc.words[row]?.map fun word =>
      { speak with strWord := word.title, isWord := true, word := some word }
  else
    vc.arr[row]?.map fun str => { speak with strWord := str }

end ButtonsViewController

/-! ### Home -/

/-- The three buttons of Home. -/
inductive HomeButton where
  | wordClicked
  | alphabetClicked
  | numberClicked
  deriving DecidableEq, Repr

/-- The controller that a button of Home instantiates. -/
def HomeButton.destination : HomeButton → ButtonsViewController
  | .wordClicked     => { isWords := true }
  | .alphabetClicked => { isAlphabets := true }
  | .numberClicked   => { isNumbers := true }

end ChildLearning
