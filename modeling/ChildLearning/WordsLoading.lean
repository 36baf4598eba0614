import ChildLearning.Lib.Gather
import ChildLearning.AppDelegate

namespace ChildLearning

open Transition Gather

/-!
# Loading the words

`fetchWords` starts a chain of two callbacks for every document whose `Name` is a
reference, and the chains run side by side.  The state of a chain is read off the events
so far (`stageOf`), and the list of words gathers the results in the order of completion.
`words_of_run` says that nothing is lost, duplicated or mixed up.
-/

/-! ### Reading the events -/

/-- How `getDocument` of chain `i` ended, if this is its end. -/
def LoadEvent.document? (i : ℕ) : LoadEvent → Option Bool
  | .getDocument j found => if j = i then some found else none
  | _                    => none

/-- How `downloadURL` of chain `i` ended, if this is its end. -/
def LoadEvent.url? (i : ℕ) : LoadEvent → Option (Option String)
  | .downloadURL j url => if j = i then some url else none
  | _                  => none

/-- How `getDocument` of chain `i` has ended. -/
def documentOf (es : List LoadEvent) (i : ℕ) : Option Bool := es.findSome? (LoadEvent.document? i)

/-- How `downloadURL` of chain `i` has ended. -/
def urlOf (es : List LoadEvent) (i : ℕ) : Option (Option String) := es.findSome? (LoadEvent.url? i)

/-- Where a chain for the document with id `value` stands after these callbacks. -/
def stageOf (value : String) : Option Bool → Option (Option String) → Stage
  | none, _              => .getDocument
  | some found, none     => .downloadURL (if found then value else "")
  | some _, some url     => .completed url

/-- The documents whose `Name` is a reference. -/
def referenced (documents : List Document) : List Document :=
  documents.filter fun doc => (doc.reference? "Name").isSome

/-- One entry for every document whose chain has completed, in the order of the
    documents, with its title and its url. -/
def entries (documents : List Document) (es : List LoadEvent) : List Words :=
  (referenced documents).zipIdx.filterMap fun p =>
    (urlOf es p.2).map fun url => ⟨(p.1.string? "title").getD "", url.getD ""⟩

/-- The url obtained for the reference of chain `i`; none if either callback failed. -/
def obtained (es : List LoadEvent) (i : ℕ) : Option String :=
  if documentOf es i = some true then (urlOf es i).join else none

/-- The root of the bucket is no file: a request for the empty path yields no url. -/
def RootHasNoURL (l : Loader) (e : LoadEvent) (_ : Loader) : Prop :=
  ∀ i url chain, e = .downloadURL i url → l.chains[i]? = some chain →
    chain.stage = .downloadURL "" → url = none

variable {es : List LoadEvent} {e : LoadEvent} {i : ℕ}

theorem stageOf_eq_getDocument {value : String} {document : Option Bool}
    {url : Option (Option String)} (h : stageOf value document url = .getDocument) :
    document = none := by
  cases document with
  | none => rfl
  | some found => cases url <;> cases h

theorem stageOf_eq_downloadURL {value path : String} {document : Option Bool}
    {url : Option (Option String)} (h : stageOf value document url = .downloadURL path) :
    ∃ found, document = some found ∧ url = none ∧ path = if found then value else "" := by
  cases document with
  | none => cases h
  | some found =>
    cases url with
    | none => cases h; exact ⟨found, rfl, rfl, rfl⟩
    | some url => cases h

theorem documentOf_concat (es : List LoadEvent) (e : LoadEvent) (i : ℕ) :
    documentOf (es ++ [e]) i = (documentOf es i).or (e.document? i) := by
  simp [documentOf, List.findSome?_append]

/-- An event that looks up no document here. -/
theorem documentOf_concat_of_none (h : e.document? i = none) :
    documentOf (es ++ [e]) i = documentOf es i := by
  rw [documentOf_concat, h, Option.or_none]

theorem urlOf_concat (es : List LoadEvent) (e : LoadEvent) (i : ℕ) :
    urlOf (es ++ [e]) i = (urlOf es i).or (e.url? i) := by
  simp [urlOf, List.findSome?_append]

/-- An event that brings no url here. -/
theorem urlOf_concat_of_none (h : e.url? i = none) : urlOf (es ++ [e]) i = urlOf es i := by
  rw [urlOf_concat, h, Option.or_none]

/-! ### The chains -/

namespace WordChain

/-- What a chain was started with. -/
def request (chain : WordChain) : Document × String := (chain.doc, chain.value)

/-- The entry of a chain, once it has completed. -/
def entry? (chain : WordChain) : Option Words :=
  match chain.stage with
  | .completed url => some (AppDelegate.word chain.doc url)
  | _              => none

end WordChain

/-- A chain that has just been started. -/
theorem mem_fetchWords {query : Option (List Document)} {chain : WordChain}
    (h : chain ∈ AppDelegate.fetchWords query) :
    chain.doc.reference? "Name" = some chain.value ∧ chain.stage = .getDocument := by
  cases query with
  | none => cases h
  | some documents =>
    obtain ⟨doc, -, hchain⟩ := List.mem_filterMap.mp h
    obtain ⟨value, hvalue, rfl⟩ := Option.map_eq_some_iff.mp hchain
    exact ⟨hvalue, rfl⟩

/-- One chain for every document with a reference, in order. -/
theorem map_doc_fetchWords (documents : List Document) :
    (AppDelegate.fetchWords (some documents)).map WordChain.doc = referenced documents := by
  rw [AppDelegate.fetchWords, referenced, List.map_filterMap, ← List.filterMap_eq_filter]
  refine List.filterMap_congr fun doc _ => ?_
  cases hdoc : doc.reference? "Name" <;> simp [Option.guard, hdoc]

/-- The documents of chains are part of what they were started with. -/
theorem map_doc_eq (chains : List WordChain) :
    chains.map WordChain.doc = (chains.map WordChain.request).map Prod.fst := by
  rw [List.map_map]
  rfl

/-! ### The invariant -/

/-- **The invariant.** Every chain stands where its callbacks have brought it, and the
    words gather the entries of the completed ones. -/
structure Accounted (es : List LoadEvent) (l : Loader) : Prop where
  waiting : l.fetchingWords = true → l.chains = []
  fetched : l.fetchingWords = false → ∃ query, .fetchWords query ∈ es
  started : ∀ query, .fetchWords query ∈ es →
    l.fetchingWords = false ∧
      l.chains.map WordChain.request = (AppDelegate.fetchWords query).map WordChain.request
  stage : ∀ i chain, l.chains[i]? = some chain →
    chain.stage = stageOf chain.value (documentOf es i) (urlOf es i)
  quiet : ∀ i, l.chains[i]? = none → documentOf es i = none ∧ urlOf es i = none
  ordered : ∀ i, documentOf es i = none → urlOf es i = none
  gathered : Gathered WordChain.entry? l.chains l.app.words

variable {collation : Collation} {l l' : Loader} {documents : List Document}

theorem accounted_launch : Accounted [] .launch where
  waiting _ := rfl
  fetched := nofun
  started _ := nofun
  stage _ _ := nofun
  quiet _ _ := ⟨rfl, rfl⟩
  ordered _ _ := rfl
  gathered := gathered_start nofun

/-- An event that is no callback of the words changes nothing here. -/
theorem Accounted.frame (hs : Accounted es l) (hdocument : ∀ i, e.document? i = none)
    (hurl : ∀ i, e.url? i = none) (hfetch : ∀ query, e ≠ .fetchWords query)
    (hwaiting : l'.fetchingWords = l.fetchingWords) (hchains : l'.chains = l.chains)
    (hwords : l'.app.words = l.app.words) : Accounted (es ++ [e]) l' := by
  have hd : documentOf (es ++ [e]) = documentOf es :=
    funext fun i => documentOf_concat_of_none (hdocument i)
  have hu : urlOf (es ++ [e]) = urlOf es := funext fun i => urlOf_concat_of_none (hurl i)
  refine
    { waiting := ?_, fetched := ?_, started := ?_, stage := ?_, quiet := ?_, ordered := ?_,
      gathered := ?_ }
  · rw [hwaiting, hchains]; exact hs.waiting
  · intro hdone
    obtain ⟨query, hquery⟩ := hs.fetched (hwaiting ▸ hdone)
    exact ⟨query, List.mem_append_left _ hquery⟩
  · intro query hquery
    rw [hwaiting, hchains]
    rcases List.mem_append.mp hquery with hold | hnew
    · exact hs.started query hold
    · exact absurd (List.mem_singleton.mp hnew).symm (hfetch query)
  · rw [hd, hu, hchains]; exact hs.stage
  · rw [hd, hu, hchains]; exact hs.quiet
  · rw [hd, hu]; exact hs.ordered
  · rw [hchains, hwords]; exact hs.gathered

/-- The outer callback starts the chains. -/
theorem Accounted.fetchWords (hs : Accounted es l) {query : Option (List Document)}
    (h : l.step collation (.fetchWords query) = some l') :
    Accounted (es ++ [.fetchWords query]) l' := by
  obtain ⟨hfetching, hstep⟩ := Option.ite_none_right_eq_some.mp h
  cases hstep
  have hnone : l.chains = [] := hs.waiting hfetching
  have hsilent : ∀ i, documentOf es i = none ∧ urlOf es i = none := by
    intro i
    exact hs.quiet i (by rw [hnone]; rfl)
  have hd : ∀ i, documentOf (es ++ [.fetchWords query]) i = none := fun i =>
    (documentOf_concat_of_none rfl).trans (hsilent i).1
  have hu : ∀ i, urlOf (es ++ [.fetchWords query]) i = none := fun i =>
    (urlOf_concat_of_none rfl).trans (hsilent i).2
  refine
    { waiting := nofun, fetched := fun _ => ⟨query, by simp⟩, started := ?_, stage := ?_,
      quiet := fun i _ => ⟨hd i, hu i⟩, ordered := fun i _ => hu i, gathered := ?_ }
  · intro query' hquery
    rcases List.mem_append.mp hquery with hold | hnew
    · have hdone := (hs.started query' hold).1
      rw [hfetching] at hdone
      cases hdone
    · cases List.mem_singleton.mp hnew
      exact ⟨rfl, rfl⟩
  · intro i chain hchain
    rw [hd, hu, (mem_fetchWords (List.mem_of_getElem? hchain)).2]
    rfl
  · have hwords : l.app.words = [] := by
      have hgathered := hs.gathered
      rw [hnone] at hgathered
      exact List.Perm.eq_nil hgathered
    show Gathered WordChain.entry? (AppDelegate.fetchWords query) l.app.words
    rw [hwords]
    refine gathered_start fun chain hchain => ?_
    rw [WordChain.entry?, (mem_fetchWords hchain).2]

/-- One chain advances, by a callback of its own. -/
theorem Accounted.advance (hs : Accounted es l) {i : ℕ} {chain : WordChain} (chain' : WordChain)
    (hchain : l.chains[i]? = some chain) (hrequest : chain'.request = chain.request)
    (hothers : ∀ j, j ≠ i → e.document? j = none ∧ e.url? j = none)
    (hfetch : ∀ query, e ≠ .fetchWords query)
    (hwaiting : l'.fetchingWords = l.fetchingWords) (hchains : l'.chains = l.chains.set i chain')
    (hstage : chain'.stage
      = stageOf chain.value (documentOf (es ++ [e]) i) (urlOf (es ++ [e]) i))
    (hordered : documentOf (es ++ [e]) i = none → urlOf (es ++ [e]) i = none)
    (hgathered : Gathered WordChain.entry? l'.chains l'.app.words) : Accounted (es ++ [e]) l' := by
  have hd : ∀ j, j ≠ i → documentOf (es ++ [e]) j = documentOf es j := fun j hj =>
    documentOf_concat_of_none (hothers j hj).1
  have hu : ∀ j, j ≠ i → urlOf (es ++ [e]) j = urlOf es j := fun j hj =>
    urlOf_concat_of_none (hothers j hj).2
  have hi : i < l.chains.length := (List.getElem?_eq_some_iff.mp hchain).1
  refine
    { waiting := ?_, fetched := ?_, started := ?_, stage := ?_, quiet := ?_, ordered := ?_,
      gathered := hgathered }
  · intro hfetching
    rw [hwaiting] at hfetching
    rw [hs.waiting hfetching] at hchain
    cases hchain
  · intro hdone
    obtain ⟨query, hquery⟩ := hs.fetched (hwaiting ▸ hdone)
    exact ⟨query, List.mem_append_left _ hquery⟩
  · intro query hquery
    rcases List.mem_append.mp hquery with hold | hnew
    · obtain ⟨hdone, hsame⟩ := hs.started query hold
      refine ⟨hwaiting.trans hdone, ?_⟩
      rw [hchains, map_set_eq WordChain.request hchain hrequest, hsame]
    · exact absurd (List.mem_singleton.mp hnew).symm (hfetch query)
  · intro j other hother
    rw [hchains] at hother
    rcases getElem?_set_cases hother with ⟨rfl, rfl⟩ | ⟨hj, hold⟩
    · have hvalue : other.value = chain.value := congrArg Prod.snd hrequest
      rw [hstage, hvalue]
    · rw [hd j hj, hu j hj]
      exact hs.stage j other hold
  · intro j hj
    rw [hchains, List.getElem?_eq_none_iff, List.length_set] at hj
    have hne : j ≠ i := by omega
    rw [hd j hne, hu j hne]
    exact hs.quiet j (List.getElem?_eq_none_iff.mpr hj)
  · intro j
    by_cases hj : j = i
    · rw [hj]; exact hordered
    · rw [hd j hj, hu j hj]; exact hs.ordered j

/-- A document has been looked up: its chain asks for the url. -/
theorem Accounted.getDocument (hs : Accounted es l) {i : ℕ} {found : Bool}
    (h : l.step collation (.getDocument i found) = some l') :
    Accounted (es ++ [.getDocument i found]) l' := by
  obtain ⟨chain, hchain, hstage, rfl⟩ := Loader.step_getDocument h
  have hnone : documentOf es i = none :=
    stageOf_eq_getDocument ((hs.stage i chain hchain).symm.trans hstage)
  have hd : documentOf (es ++ [.getDocument i found]) i = some found := by
    rw [documentOf_concat, hnone, Option.none_or]
    exact if_pos rfl
  have hu : urlOf (es ++ [.getDocument i found]) i = none :=
    (urlOf_concat_of_none rfl).trans (hs.ordered i hnone)
  refine hs.advance (chain.getDocument found) hchain rfl ?_ nofun rfl rfl ?_ ?_ ?_
  · exact fun j hj => ⟨if_neg (Ne.symm hj), rfl⟩
  · rw [hd, hu]; rfl
  · exact fun _ => hu
  · refine hs.gathered.set hchain ?_
    simp [WordChain.entry?, WordChain.getDocument, hstage]

/-- A url has arrived, or has not: the chain completes, and its entry is appended. -/
theorem Accounted.downloadURL (hs : Accounted es l) {i : ℕ} {url : Option String}
    (h : l.step collation (.downloadURL i url) = some l') :
    Accounted (es ++ [.downloadURL i url]) l' := by
  obtain ⟨chain, path, hchain, hstage, rfl⟩ := Loader.step_downloadURL h
  obtain ⟨found, hfound, hnone, -⟩ :=
    stageOf_eq_downloadURL ((hs.stage i chain hchain).symm.trans hstage)
  have hd : documentOf (es ++ [.downloadURL i url]) i = some found :=
    (documentOf_concat_of_none rfl).trans hfound
  have hu : urlOf (es ++ [.downloadURL i url]) i = some url := by
    rw [urlOf_concat, hnone, Option.none_or]
    exact if_pos rfl
  refine hs.advance { chain with stage := .completed url } hchain rfl ?_ nofun rfl rfl ?_ ?_ ?_
  · exact fun j hj => ⟨rfl, if_neg (Ne.symm hj)⟩
  · rw [hd, hu]; rfl
  · intro hdocument
    rw [hd] at hdocument
    cases hdocument
  · refine hs.gathered.complete hchain ?_ rfl
    rw [WordChain.entry?, hstage]

/-- The step lemma. -/
theorem Accounted.step (hs : Accounted es l) (h : l.step collation e = some l') :
    Accounted (es ++ [e]) l' := by
  cases e with
  | fetchAlphabets query =>
    obtain ⟨-, hstep⟩ := Option.ite_none_right_eq_some.mp h
    cases hstep
    refine hs.frame (fun _ => rfl) (fun _ => rfl) nofun rfl rfl ?_
    cases query <;> rfl
  | fetchNumbers query =>
    obtain ⟨-, hstep⟩ := Option.ite_none_right_eq_some.mp h
    cases hstep
    refine hs.frame (fun _ => rfl) (fun _ => rfl) nofun rfl rfl ?_
    cases query <;> rfl
  | fetchWords query => exact hs.fetchWords h
  | getDocument i found => exact hs.getDocument h
  | downloadURL i url => exact hs.downloadURL h

/-- The invariant holds wherever a run from the launch leads. -/
theorem accounted_of_run (h : run (Loader.step collation) .launch es = some l) : Accounted es l :=
  run_history (fun _ _ _ _ _ hs hstep => hs.step hstep) accounted_launch h

/-- In an invariant state a url comes for the path of a document's own reference only. -/
theorem Accounted.request (hs : Accounted es l) {i : ℕ} {url : String}
    (hroot : RootHasNoURL l (.downloadURL i (some url)) l')
    (h : l.step collation (.downloadURL i (some url)) = some l') :
    documentOf es i = some true ∧
      ∃ chain, l.chains[i]? = some chain ∧ chain.stage = .downloadURL chain.value := by
  obtain ⟨chain, path, hchain, hstage, -⟩ := Loader.step_downloadURL h
  obtain ⟨found, hfound, -, hpath⟩ :=
    stageOf_eq_downloadURL ((hs.stage i chain hchain).symm.trans hstage)
  cases found with
  | true => exact ⟨hfound, chain, hchain, by rw [hstage, hpath]; rfl⟩
  | false =>
    -- the look-up failed, and the request was for the root
    have hempty : chain.stage = .downloadURL "" := by rw [hstage, hpath]; rfl
    cases hroot i _ chain rfl hchain hempty

/-- Along a run a url is obtained for a document that was found only. -/
theorem documentOf_of_urlOf (hroot : Along (Loader.step collation) RootHasNoURL .launch es)
    (h : run (Loader.step collation) .launch es = some l) {i : ℕ} {url : String}
    (hurl : urlOf es i = some (some url)) : documentOf es i = some true := by
  induction es using List.reverseRecOn generalizing l with
  | nil => cases hurl
  | append_singleton es e ih =>
    obtain ⟨before, hbefore, hstep⟩ := run_concat_eq_some.mp h
    obtain ⟨hes, -⟩ := along_append hroot hbefore
    rw [documentOf_concat]
    rw [urlOf_concat, Option.or_eq_some_iff] at hurl
    rcases hurl with hold | ⟨-, hnew⟩
    · rw [ih hes hbefore hold]; rfl
    · -- the url has just arrived
      cases e with
      | downloadURL j url' =>
        obtain ⟨rfl, heq⟩ := Option.ite_none_right_eq_some.mp hnew
        cases heq
        have hs := accounted_of_run hbefore
        rw [(hs.request (along_last es hroot hbefore hstep) hstep).1]; rfl
      | _ => cases hnew

/-! ### All interleavings -/

/-- In an invariant state a completed chain is one whose `downloadURL` has ended. -/
theorem Accounted.entry?_eq (hs : Accounted es l) {i : ℕ} {chain : WordChain}
    (hchain : l.chains[i]? = some chain) :
    chain.entry? = (urlOf es i).map fun url => AppDelegate.word chain.doc url := by
  rw [WordChain.entry?, hs.stage i chain hchain]
  cases hd : documentOf es i with
  | none => rw [hs.ordered i hd]; rfl
  | some found => cases urlOf es i <;> rfl

/-- In an invariant state the chains are those of the documents with a reference. -/
theorem Accounted.map_doc (hs : Accounted es l) (hfetch : .fetchWords (some documents) ∈ es) :
    l.chains.map WordChain.doc = referenced documents := by
  rw [map_doc_eq, (hs.started _ hfetch).2, ← map_doc_eq, map_doc_fetchWords]

/-- In an invariant state the words are the entries of the completed chains. -/
theorem Accounted.words_perm (hs : Accounted es l) (hfetch : .fetchWords (some documents) ∈ es) :
    l.app.words.Perm (entries documents es) := by
  have hentries : entries documents es = l.chains.filterMap WordChain.entry? := by
    rw [entries, ← hs.map_doc hfetch, List.zipIdx_map, List.filterMap_map]
    have hzip : l.chains.filterMap WordChain.entry?
        = (l.chains.zipIdx.map Prod.fst).filterMap WordChain.entry? := by rw [List.zipIdx_map_fst]
    rw [hzip, List.filterMap_map]
    refine List.filterMap_congr fun p hp => ?_
    exact (hs.entry?_eq (List.mem_zipIdx_iff_getElem?.mp hp)).symm
  rw [hentries]
  exact hs.gathered

/-- The words of a run only grow at their end. -/
theorem words_prefix_of_run {es : List LoadEvent} (h : run (Loader.step collation) l es = some l') :
    l.app.words <+: l'.app.words := by
  refine run_invariant (I := fun l' => l.app.words <+: l'.app.words) ?_ (List.prefix_refl _) h
  exact fun _ _ _ hs hstep => hs.trans (Loader.words_prefix_of_step hstep)

/-- A url that arrives was asked for by a chain of one of the documents, under the path of
    this document's own reference. -/
theorem request_of_downloadURL {before after : List LoadEvent} {i : ℕ} {url : String}
    (hroot : Along (Loader.step collation) RootHasNoURL .launch
      (before ++ .downloadURL i (some url) :: after))
    (hrun : run (Loader.step collation) .launch (before ++ .downloadURL i (some url) :: after)
      = some l)
    (hfetch : .fetchWords (some documents) ∈ before ++ .downloadURL i (some url) :: after) :
    ∃ l' chain, run (Loader.step collation) .launch before = some l' ∧ l'.chains[i]? = some chain ∧
      (referenced documents)[i]? = some chain.doc ∧
      chain.doc.reference? "Name" = some chain.value ∧ chain.stage = .downloadURL chain.value := by
  have hend := accounted_of_run hrun
  rw [run_append, Option.bind_eq_some_iff] at hrun
  obtain ⟨l₁, hbefore, hrest⟩ := hrun
  obtain ⟨l₂, hstep, -⟩ := run_cons_eq_some.mp hrest
  obtain ⟨-, hrootRest⟩ := along_append hroot hbefore
  have hs := accounted_of_run hbefore
  obtain ⟨-, chain, hchain, hstage⟩ := hs.request (hrootRest l₂ hstep).1 hstep
  -- the documents were delivered before, and only once
  have hfetched : l₁.fetchingWords = false := by
    by_contra hwaiting
    rw [hs.waiting (by simpa using hwaiting)] at hchain
    cases hchain
  obtain ⟨query, hquery⟩ := hs.fetched hfetched
  have hrequests : l₁.chains.map WordChain.request
      = (AppDelegate.fetchWords (some documents)).map WordChain.request := by
    rw [(hs.started query hquery).2, ← (hend.started query (List.mem_append_left _ hquery)).2,
      (hend.started _ hfetch).2]
  have hown : chain.doc.reference? "Name" = some chain.value := by
    have hmem : chain.request ∈ l₁.chains.map WordChain.request :=
      List.mem_map_of_mem (List.mem_of_getElem? hchain)
    rw [hrequests] at hmem
    obtain ⟨started, hstarted, hsame⟩ := List.mem_map.mp hmem
    have hdoc : started.doc = chain.doc := congrArg Prod.fst hsame
    have hvalue : started.value = chain.value := congrArg Prod.snd hsame
    rw [← hdoc, ← hvalue]
    exact (mem_fetchWords hstarted).1
  have hdocs : l₁.chains.map WordChain.doc = referenced documents := by
    rw [map_doc_eq, hrequests, ← map_doc_eq, map_doc_fetchWords]
  have hplace : (referenced documents)[i]? = some chain.doc := by
    rw [← hdocs, List.getElem?_map, hchain]; rfl
  exact ⟨l₁, chain, hbefore, hchain, hplace, hown, hstage⟩

/-- **Loading the words.**  In every state of every run, whatever the order of the
    callbacks: the words are one entry for each document whose chain has completed, and
    they have only been appended to.  When all chains have completed there is one entry for
    each document with a reference, with its title and the url obtained for its own
    reference, and the empty text for either that there is none of. -/
theorem words_of_run {es : List LoadEvent}
    (hrun : run (Loader.step collation) .launch es = some l)
    (hfetch : .fetchWords (some documents) ∈ es) :
    l.app.words.Perm (entries documents es) ∧
    (∀ before after l', es = before ++ after →
      run (Loader.step collation) .launch before = some l' → l'.app.words <+: l.app.words) ∧
    (Along (Loader.step collation) RootHasNoURL .launch es →
      ((∀ i < (referenced documents).length, (urlOf es i).isSome) →
        l.app.words.Perm ((referenced documents).zipIdx.map fun p =>
          ⟨(p.1.string? "title").getD "", (obtained es p.2).getD ""⟩)) ∧
      ∀ before i url after, es = before ++ .downloadURL i (some url) :: after →
        ∃ l' chain, run (Loader.step collation) .launch before = some l' ∧
          l'.chains[i]? = some chain ∧ (referenced documents)[i]? = some chain.doc ∧
          chain.doc.reference? "Name" = some chain.value ∧
          chain.stage = .downloadURL chain.value) := by
  have hs := accounted_of_run hrun
  refine ⟨hs.words_perm hfetch, ?_, fun hroot => ⟨fun hall => ?_, ?_⟩⟩
  · rintro before after l' rfl hbefore
    rw [run_append, hbefore, Option.bind_some] at hrun
    exact words_prefix_of_run hrun
  · have hentries : entries documents es
        = (referenced documents).zipIdx.map fun p =>
          ⟨(p.1.string? "title").getD "", (obtained es p.2).getD ""⟩ := by
      rw [entries, ← List.filterMap_eq_map]
      refine List.filterMap_congr fun p hp => ?_
      obtain ⟨hlt, -⟩ := List.getElem?_eq_some_iff.mp (List.mem_zipIdx_iff_getElem?.mp hp)
      obtain ⟨url, hurl⟩ := Option.isSome_iff_exists.mp (hall p.2 hlt)
      -- without the document there is no url either
      have hobtained : obtained es p.2 = url := by
        rw [obtained, hurl]
        cases url with
        | none => simp
        | some str => rw [if_pos (documentOf_of_urlOf hroot hrun hurl)]; rfl
      rw [hurl, Function.comp_apply, hobtained]
      rfl
    rw [← hentries]
    exact hs.words_perm hfetch
  · rintro before i url after rfl
    exact request_of_downloadURL hroot hrun hfetch

/-- Three documents, one of them without a reference and one without a title that is a text. -/
def threeDocuments : List Document :=
  [[("title", .string "Cat"), ("Name", .reference "cat.png")], [("title", .string "Dog")],
    [("title", .other), ("Name", .reference "cow.png")]]

/-- Two chains overlap: the second one gets its url first, and the first one gets none. -/
def overlapping : List LoadEvent :=
  [.fetchWords (some threeDocuments), .getDocument 0 true, .getDocument 1 true,
    .downloadURL 1 (some "https://images/cow"), .downloadURL 0 none]

theorem words_of_run_overlapping :
    ∃ l, run (Loader.step ⟨fun _ _ => false, fun _ _ => false⟩) .launch overlapping = some l ∧
      l.app.words.Perm [⟨"Cat", ""⟩, ⟨"", "https://images/cow"⟩] := by
  have hroot : Along (Loader.step ⟨fun _ _ => false, fun _ _ => false⟩) RootHasNoURL .launch
      overlapping := by
    refine (along_cons rfl).mpr ⟨nofun, ?_⟩
    refine (along_cons rfl).mpr ⟨nofun, ?_⟩
    refine (along_cons rfl).mpr ⟨nofun, ?_⟩
    refine (along_cons rfl).mpr ⟨?_, ?_⟩
    · -- the second chain asks for "cow.png"
      rintro i url chain ⟨⟩ ⟨⟩ hstage
      exact absurd (Stage.downloadURL.inj hstage) (by decide)
    · refine (along_cons rfl).mpr ⟨?_, trivial⟩
      rintro i url chain ⟨⟩ hchain hstage
      rfl
  obtain ⟨l, hrun⟩ : ∃ l, run (Loader.step ⟨fun _ _ => false, fun _ _ => false⟩) .launch overlapping
      = some l := ⟨_, rfl⟩
  have hfetch : .fetchWords (some threeDocuments) ∈ overlapping := List.mem_cons_self
  have hall : ∀ i < (referenced threeDocuments).length, (urlOf overlapping i).isSome := by decide
  exact ⟨l, hrun, ((words_of_run hrun hfetch).2.2 hroot).1 hall⟩

end ChildLearning
