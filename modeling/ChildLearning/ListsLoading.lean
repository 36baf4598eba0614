import ChildLearning.AppDelegate

namespace ChildLearning

open Transition

/-!
# Loading the letters and the numbers

Each of the two lists is set by one callback and by nothing else.  `lists_of_run` says what
it holds in every state of every run: nothing before the callback and after an error, else
the names of all documents that have one, sorted.

Swift's `sorted(by:)` asks for a strict weak order (`StrictWeakOrder`).
-/

/-- The order that `sorted(by:)` asks for: one of two values may come first, and it is
    transitive that a value need not come after another. -/
structure StrictWeakOrder (areInIncreasingOrder : String → String → Bool) : Prop where
  asymm : ∀ a b, areInIncreasingOrder a b = true → areInIncreasingOrder b a = false
  trans : ∀ a b c, areInIncreasingOrder b a = false → areInIncreasingOrder c b = false →
    areInIncreasingOrder c a = false

/-- Comparing the values of a key. -/
theorem strictWeakOrder_key {β : Type*} [LinearOrder β] (key : String → β) :
    StrictWeakOrder fun a b => decide (key a < key b) where
  asymm a b h := decide_eq_false (of_decide_eq_true h).asymm
  trans a b c h h' := by
    rw [decide_eq_false_iff_not, not_lt] at h h' ⊢
    exact h.trans h'

/-- No value of the list has to come before one that stands before it. -/
def Increasing (areInIncreasingOrder : String → String → Bool) (list : List String) : Prop :=
  list.Pairwise fun a b => areInIncreasingOrder b a = false

/-- **Sorting.** The values are those of the list, as often, in increasing order. -/
theorem sorted_spec {areInIncreasingOrder : String → String → Bool}
    (h : StrictWeakOrder areInIncreasingOrder) (list : List String) :
    (sorted areInIncreasingOrder list).Perm list ∧
      Increasing areInIncreasingOrder (sorted areInIncreasingOrder list) := by
  let r : String → String → Prop := fun a b => areInIncreasingOrder b a = false
  have htotal : Std.Total r := by
    refine ⟨fun a b => ?_⟩
    cases hba : areInIncreasingOrder b a with
    | false => exact Or.inl hba
    | true => exact Or.inr (h.asymm b a hba)
  have htrans : IsTrans String r := ⟨h.trans⟩
  exact ⟨List.perm_insertionSort r list, List.pairwise_insertionSort r list⟩

/-! ### Reading the events -/

/-- How `fetchAlphabets` ended, if this is its end. -/
def LoadEvent.alphabets? : LoadEvent → Option (Option (List Document))
  | .fetchAlphabets query => some query
  | _                     => none

/-- How `fetchNumbers` ended, if this is its end. -/
def LoadEvent.numbers? : LoadEvent → Option (Option (List Document))
  | .fetchNumbers query => some query
  | _                   => none

/-- What the callback of a fetch makes of its list; after an error it stays. -/
def fetched (areInIncreasingOrder : String → String → Bool) (list : List String) :
    Option (List Document) → List String
  | some documents => sorted areInIncreasingOrder (AppDelegate.names documents)
  | none           => list

namespace AppDelegate

variable (collation : Collation) (app : AppDelegate) (query : Option (List Document))

/-! ### What the two callbacks change -/

@[simp] theorem fetchAlphabets_arrAlphabets : (app.fetchAlphabets collation query).arrAlphabets
    = fetched collation.localizedCaseInsensitiveCompare app.arrAlphabets query := by
  cases query <;> rfl

@[simp] theorem fetchAlphabets_arrNumber :
    (app.fetchAlphabets collation query).arrNumber = app.arrNumber := by cases query <;> rfl

@[simp] theorem fetchNumbers_arrNumber : (app.fetchNumbers collation query).arrNumber
    = fetched collation.localizedStandardCompare app.arrNumber query := by
  cases query <;> rfl

@[simp] theorem fetchNumbers_arrAlphabets :
    (app.fetchNumbers collation query).arrAlphabets = app.arrAlphabets := by cases query <;> rfl

end AppDelegate

/-! ### One list -/

/-- **The invariant of one list.**  While its fetch is running the list is empty, and after
    its one end it is what this has made of the empty list. -/
structure FetchedBy (query? : LoadEvent → Option (Option (List Document)))
    (areInIncreasingOrder : String → String → Bool) (es : List LoadEvent) (fetching : Bool)
    (list : List String) : Prop where
  running : fetching = true → list = [] ∧ ∀ e ∈ es, query? e = none
  ended : fetching = false → ∃ query, (∃ e ∈ es, query? e = some query) ∧
    (∀ e ∈ es, ∀ query', query? e = some query' → query' = query) ∧
    list = fetched areInIncreasingOrder [] query

namespace FetchedBy

variable {query? : LoadEvent → Option (Option (List Document))}
  {areInIncreasingOrder : String → String → Bool} {es : List LoadEvent} {e : LoadEvent}
  {fetching : Bool} {list : List String}

/-- A callback of something else. -/
theorem frame (hs : FetchedBy query? areInIncreasingOrder es fetching list)
    (he : query? e = none) : FetchedBy query? areInIncreasingOrder (es ++ [e]) fetching list := by
  refine ⟨fun hrunning => ?_, fun hended => ?_⟩
  · obtain ⟨hlist, hnone⟩ := hs.running hrunning
    refine ⟨hlist, fun f hf => ?_⟩
    rcases List.mem_append.mp hf with hf | hf
    · exact hnone f hf
    · rw [List.mem_singleton.mp hf, he]
  · obtain ⟨query, ⟨f, hf, hquery⟩, honce, hlist⟩ := hs.ended hended
    refine ⟨query, ⟨f, List.mem_append_left _ hf, hquery⟩, fun g hg query' hquery' => ?_, hlist⟩
    rcases List.mem_append.mp hg with hg | hg
    · exact honce g hg query' hquery'
    · rw [List.mem_singleton.mp hg, he] at hquery'
      cases hquery'

/-- The end of the fetch. -/
theorem ends {query : Option (List Document)}
    (hs : FetchedBy query? areInIncreasingOrder es true list) (he : query? e = some query) :
    FetchedBy query? areInIncreasingOrder (es ++ [e]) false
      (fetched areInIncreasingOrder list query) := by
  obtain ⟨rfl, hnone⟩ := hs.running rfl
  refine ⟨nofun, fun _ => ⟨query, ⟨e, by simp, he⟩, fun g hg query' hquery' => ?_, rfl⟩⟩
  rcases List.mem_append.mp hg with hg | hg
  · rw [hnone g hg] at hquery'
    cases hquery'
  · rw [List.mem_singleton.mp hg, he] at hquery'
    exact (Option.some.inj hquery').symm

/-- What the list holds, once the documents have come. -/
theorem spec (hs : FetchedBy query? areInIncreasingOrder es fetching list)
    (horder : StrictWeakOrder areInIncreasingOrder) {documents : List Document} (he : e ∈ es)
    (hquery : query? e = some (some documents)) :
    list.Perm (AppDelegate.names documents) ∧ Increasing areInIncreasingOrder list := by
  cases fetching with
  | true =>
    rw [(hs.running rfl).2 e he] at hquery
    cases hquery
  | false =>
    obtain ⟨query, -, honce, rfl⟩ := hs.ended rfl
    obtain rfl : some documents = query := honce e he _ hquery
    exact sorted_spec horder _

/-- Before, and without the documents, it holds nothing. -/
theorem eq_nil (hs : FetchedBy query? areInIncreasingOrder es fetching list)
    (hnone : ∀ e ∈ es, ∀ documents, query? e ≠ some (some documents)) : list = [] := by
  cases fetching with
  | true => exact (hs.running rfl).1
  | false =>
    obtain ⟨query, ⟨e, he, hquery⟩, -, rfl⟩ := hs.ended rfl
    cases query with
    | none => rfl
    | some documents => exact absurd hquery (hnone e he documents)

/-- It never changes again once it holds something. -/
theorem eq_nil_or_eq {after : List LoadEvent} {fetching' : Bool} {list' : List String}
    (hs : FetchedBy query? areInIncreasingOrder es fetching list)
    (hs' : FetchedBy query? areInIncreasingOrder (es ++ after) fetching' list') :
    list = [] ∨ list = list' := by
  cases fetching with
  | true => exact Or.inl (hs.running rfl).1
  | false =>
    obtain ⟨query, ⟨e, he, hquery⟩, -, rfl⟩ := hs.ended rfl
    have he' : e ∈ es ++ after := List.mem_append_left after he
    cases fetching' with
    | true =>
      rw [(hs'.running rfl).2 e he'] at hquery
      cases hquery
    | false =>
      obtain ⟨query', -, honce, rfl⟩ := hs'.ended rfl
      rw [honce e he' query hquery]
      exact Or.inr rfl

end FetchedBy

/-! ### The loader -/

/-- The invariant of both lists. -/
structure ListsFetched (collation : Collation) (es : List LoadEvent) (l : Loader) : Prop where
  alphabets : FetchedBy LoadEvent.alphabets? collation.localizedCaseInsensitiveCompare es
    l.fetchingAlphabets l.app.arrAlphabets
  numbers : FetchedBy LoadEvent.numbers? collation.localizedStandardCompare es
    l.fetchingNumbers l.app.arrNumber

variable {collation : Collation} {l l' : Loader} {es : List LoadEvent} {e : LoadEvent}

theorem listsFetched_launch (collation : Collation) : ListsFetched collation [] .launch :=
  ⟨⟨fun _ => ⟨rfl, nofun⟩, nofun⟩, ⟨fun _ => ⟨rfl, nofun⟩, nofun⟩⟩

/-- The step lemma. -/
theorem ListsFetched.step (hs : ListsFetched collation es l) (h : l.step collation e = some l') :
    ListsFetched collation (es ++ [e]) l' := by
  cases e with
  | fetchAlphabets query =>
    obtain ⟨hfetching, hstep⟩ := Option.ite_none_right_eq_some.mp h
    cases hstep
    have halphabets := hs.alphabets
    rw [hfetching] at halphabets
    refine ⟨?_, ?_⟩
    · simp only [AppDelegate.fetchAlphabets_arrAlphabets]
      exact halphabets.ends rfl
    · simp only [AppDelegate.fetchAlphabets_arrNumber]
      exact hs.numbers.frame rfl
  | fetchNumbers query =>
    obtain ⟨hfetching, hstep⟩ := Option.ite_none_right_eq_some.mp h
    cases hstep
    have hnumbers := hs.numbers
    rw [hfetching] at hnumbers
    refine ⟨?_, ?_⟩
    · simp only [AppDelegate.fetchNumbers_arrAlphabets]
      exact hs.alphabets.frame rfl
    · simp only [AppDelegate.fetchNumbers_arrNumber]
      exact hnumbers.ends rfl
  | fetchWords query =>
    obtain ⟨-, hstep⟩ := Option.ite_none_right_eq_some.mp h
    cases hstep
    exact ⟨hs.alphabets.frame rfl, hs.numbers.frame rfl⟩
  | getDocument i found =>
    obtain ⟨chain, -, -, rfl⟩ := Loader.step_getDocument h
    exact ⟨hs.alphabets.frame rfl, hs.numbers.frame rfl⟩
  | downloadURL i url =>
    obtain ⟨chain, path, -, -, rfl⟩ := Loader.step_downloadURL h
    exact ⟨hs.alphabets.frame rfl, hs.numbers.frame rfl⟩

theorem listsFetched_of_run (h : run (Loader.step collation) .launch es = some l) :
    ListsFetched collation es l :=
  run_history (fun _ _ _ _ _ hs hstep => hs.step hstep) (listsFetched_launch collation) h

/-- **Loading the letters and the numbers.**  In every state of every run, whatever the order
    of the callbacks: each list is empty while its documents have not come, and when they
    have it holds the names of all of them whose name is a text, as often and sorted; and a
    list that holds something never changes again. -/
theorem lists_of_run {es : List LoadEvent}
    (hletters : StrictWeakOrder collation.localizedCaseInsensitiveCompare)
    (hnumbers : StrictWeakOrder collation.localizedStandardCompare)
    (hrun : run (Loader.step collation) .launch es = some l) :
    (∀ documents, .fetchAlphabets (some documents) ∈ es →
      l.app.arrAlphabets.Perm (documents.filterMap fun doc => doc.string? "name") ∧
        Increasing collation.localizedCaseInsensitiveCompare l.app.arrAlphabets) ∧
    (∀ documents, .fetchNumbers (some documents) ∈ es →
      l.app.arrNumber.Perm (documents.filterMap fun doc => doc.string? "name") ∧
        Increasing collation.localizedStandardCompare l.app.arrNumber) ∧
    ((∀ documents, .fetchAlphabets (some documents) ∉ es) → l.app.arrAlphabets = []) ∧
    ((∀ documents, .fetchNumbers (some documents) ∉ es) → l.app.arrNumber = []) ∧
    ∀ before after l₀, es = before ++ after →
      run (Loader.step collation) .launch before = some l₀ →
        (l₀.app.arrAlphabets = [] ∨ l₀.app.arrAlphabets = l.app.arrAlphabets) ∧
          (l₀.app.arrNumber = [] ∨ l₀.app.arrNumber = l.app.arrNumber) := by
  have hs := listsFetched_of_run hrun
  refine ⟨fun documents hmem => hs.alphabets.spec hletters hmem rfl,
    fun documents hmem => hs.numbers.spec hnumbers hmem rfl, fun hnone => ?_, fun hnone => ?_, ?_⟩
  · refine hs.alphabets.eq_nil fun e he documents hquery => hnone documents ?_
    cases e <;> cases hquery
    exact he
  · refine hs.numbers.eq_nil fun e he documents hquery => hnone documents ?_
    cases e <;> cases hquery
    exact he
  · rintro before after l₀ rfl hbefore
    have hs₀ := listsFetched_of_run hbefore
    exact ⟨hs₀.alphabets.eq_nil_or_eq hs.alphabets, hs₀.numbers.eq_nil_or_eq hs.numbers⟩

/-- Single letters by their lower case, and numerals by their value. -/
def lettersAndNumerals : Collation where
  localizedCaseInsensitiveCompare a b := decide (lowercase a < lowercase b)
  localizedStandardCompare a b := decide (value a < value b)
where
  lowercase (s : String) : ℕ := s.toList.foldl (fun n c => 256 * n + c.toLower.toNat) 0
  value (s : String) : ℕ := s.toList.foldl (fun n c => 10 * n + (c.toNat - 48)) 0

/-- Letters and numbers arrive; a document without a name, and one whose name is no string,
    are among them. -/
def lettersThenNumbers : List LoadEvent :=
  [.fetchAlphabets (some [[("name", .string "b")], [("name", .string "A")], [("title", .string "x")]]),
    .fetchNumbers (some [[("name", .string "10")], [("name", .other)], [("name", .string "2")]])]

theorem lists_of_run_lettersThenNumbers :
    ∃ l, run (Loader.step lettersAndNumerals) .launch lettersThenNumbers = some l ∧
      l.app.arrAlphabets = ["A", "b"] ∧ l.app.arrNumber = ["2", "10"] ∧
      Increasing lettersAndNumerals.localizedStandardCompare l.app.arrNumber := by
  obtain ⟨l, hrun, halphabets, hnumber⟩ : ∃ l,
      run (Loader.step lettersAndNumerals) .launch lettersThenNumbers = some l ∧
        l.app.arrAlphabets = ["A", "b"] ∧ l.app.arrNumber = ["2", "10"] := ⟨_, rfl, rfl, rfl⟩
  have hlists := lists_of_run (strictWeakOrder_key lettersAndNumerals.lowercase)
    (strictWeakOrder_key lettersAndNumerals.value) hrun
  exact ⟨l, hrun, halphabets, hnumber, (hlists.2.1 _ (List.mem_cons_of_mem _ List.mem_cons_self)).2⟩

end ChildLearning
