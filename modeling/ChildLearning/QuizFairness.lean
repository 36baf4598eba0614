import ChildLearning.Lib.Coupling
import ChildLearning.QuizTermination

namespace ChildLearning

open Sampling PlayViewController

/-!
# The quiz is fair

The tiles of a round are sampled by rejection, the question is drawn from them, and the sets
in between hand out their members in an order of their own.  On a list without repetitions
none of this favours anything: any two choices of four items, with any of them asked for,
are equally likely after any number of draws, and whatever the iteration orders
(`showData_fair`, `showWordData_fair`).  So every round has the same share of what is not
lost to waiting (`showData_uniform`, `showWordData_uniform`).
-/

variable {words : List Words} {order order' : IterationOrder String} {vc vc' : PlayViewController}
  {candidates candidates' : List String} {τ : String → String}

/-- The tiles as a set, of lists that correspond. -/
theorem toFinset_of_perm_map {tiles tiles' : List String} (h : tiles'.Perm (tiles.map τ)) :
    tiles'.toFinset = tiles.toFinset.image τ := by
  rw [List.toFinset_eq_of_perm _ _ h]
  ext x
  simp only [List.mem_toFinset, List.mem_map, Finset.mem_image]

/-- The second half of two rounds: corresponding candidates are asked for. -/
theorem coupled_ask (hc : Sampler.Corresponds τ candidates candidates') :
    Sampler.Coupled (ask order candidates vc) (ask order' candidates' vc') fun a b =>
      ∃ str ∈ candidates, a = vc.asks ((lastIndex str candidates).getD 0) str ∧
        b = vc'.asks ((lastIndex (τ str) candidates').getD 0) (τ str) := by
  refine Sampler.coupled_bind (Sampler.coupled_sample hc 1).reached fun s t hst => ?_
  obtain ⟨hsame, ⟨draws, hdone⟩, -⟩ := hst
  -- either set has one member, and the one is the counterpart of the other
  obtain ⟨hone, -, hmem⟩ := Sampler.toArray_of_sample order hdone
  obtain ⟨str, hstr⟩ := List.length_eq_one_iff.mp hone
  have hperm := (hsame.corresponds hc order order').perm
  rw [hstr, List.map_singleton, List.perm_singleton] at hperm
  rw [hstr, hperm]
  have hin : str ∈ candidates := hmem str (by rw [hstr]; exact List.mem_singleton_self str)
  exact Sampler.coupled_pure ⟨str, hin, rfl, rfl⟩

/-- Two rounds of letters or numbers on corresponding lists. -/
theorem coupled_showData (hc : Sampler.Corresponds τ vc.arr vc'.arr) :
    Sampler.Coupled (showData order vc) (showData order' vc') fun a b =>
      b.arrFinal.Perm (a.arrFinal.map τ) ∧ b.question = τ a.question := by
  refine Sampler.coupled_bind (Sampler.coupled_sample hc 4) fun s t hsame => ?_
  have hcorr := hsame.corresponds hc order order'
  refine (coupled_ask hcorr).mono fun a b => ?_
  rintro ⟨str, -, rfl, rfl⟩
  exact ⟨hcorr.perm, rfl⟩

/-- **Fair rounds.**  On a list of letters or numbers without repetitions any two rounds are
    equally likely: after any number of draws, the chance of four given tiles with a given
    one of them asked for is that of any other four with any of these asked for, whatever
    the iteration orders of the two sets. -/
theorem showData_fair (order order' : IterationOrder String) (vc : PlayViewController)
    (hnodup : vc.arr.Nodup) {tiles tiles' : Finset String} (hcard : tiles.card = 4)
    (hcard' : tiles'.card = 4) (hsub : ∀ str ∈ tiles, str ∈ vc.arr)
    (hsub' : ∀ str ∈ tiles', str ∈ vc.arr) {str str' : String} (hstr : str ∈ tiles)
    (hstr' : str' ∈ tiles') (n : ℕ) :
    (showData order vc).chance (fun a => a.arrFinal.toFinset = tiles ∧ a.question = str) n
      = (showData order' vc).chance (fun a => a.arrFinal.toFinset = tiles' ∧ a.question = str') n := by
  obtain ⟨τ, hc, himage, hτ⟩ := Sampler.exists_exchange hnodup hsub hsub'
    (hcard.trans hcard'.symm) hstr hstr'
  refine Sampler.chance_eq_of_coupled (coupled_showData hc) (fun a b hab => ?_) n
  obtain ⟨htiles, hquestion⟩ := hab
  -- the exchange takes the one round to the other
  have hb : b.arrFinal.toFinset = a.arrFinal.toFinset.image τ := toFinset_of_perm_map htiles
  rw [hb, hquestion, ← himage, ← hτ, τ.injective.eq_iff,
    (Finset.image_injective τ.injective).eq_iff]

/-! ### Words -/

/-- Two rounds of words with distinct pictures, on which the title is the function `f` of the
    picture: corresponding pictures are shown and asked for. -/
theorem coupled_showWordData {f g : String → String} (hplays : PlaysWords words vc)
    (hplays' : PlaysWords words vc') (hc : Sampler.Corresponds τ (words.map Words.Name)
      (words.map Words.Name)) (hnames : (words.map Words.Name).Nodup)
    (hf : ∀ word ∈ words, f word.Name = word.title)
    (hg : ∀ word ∈ words, g word.title = word.Name) :
    Sampler.Coupled (showWordData order vc) (showWordData order' vc') fun a b =>
      b.arrWordFinal.Perm (a.arrWordFinal.map τ) ∧
        ∃ x ∈ words.map Words.Name, a.question = f x ∧ b.question = f (τ x) := by
  have himages : vc.arrWordImages = words.map Words.Name := hplays.arrWordImages
  have himages' : vc'.arrWordImages = words.map Words.Name := hplays'.arrWordImages
  have hgf : ∀ x ∈ words.map Words.Name, g (f x) = x := by
    intro x hx
    obtain ⟨word, hword, rfl⟩ := List.mem_map.mp hx
    rw [hf word hword, hg word hword]
  rw [showWordData, showWordData, himages, himages', hplays.arrWord, hplays'.arrWord]
  refine Sampler.coupled_bind (Sampler.coupled_sample hc 4) fun s t hsame => ?_
  -- the titles of the drawn pictures are drawn from in turn, and correspond
  have hcorr := hsame.corresponds hc order order'
  have hdrawn : ∀ x ∈ order.toArray s, x ∈ words.map Words.Name :=
    fun x hx => hsame.mem x (order.mem_toArray.mp hx)
  have hdrawn' : ∀ x ∈ order'.toArray t, x ∈ words.map Words.Name := by
    intro x hx
    obtain ⟨y, hy, rfl⟩ := List.mem_map.mp (hcorr.perm.mem_iff.mp hx)
    exact hc.perm.mem_iff.mpr (List.mem_map_of_mem (hdrawn y hy))
  have hask := hcorr.map (f := f) (g := g) (fun x hx => hgf x (hdrawn x hx))
    (fun x hx => hgf x (hdrawn' x hx))
  show Sampler.Coupled
    (ask order (Join.join Words.Name Words.title (order.toArray s) words) _)
    (ask order' (Join.join Words.Name Words.title (order'.toArray t) words) _) _
  rw [Join.join_eq_map hnames hdrawn hf, Join.join_eq_map hnames hdrawn' hf]
  refine (coupled_ask hask).mono fun a b => ?_
  rintro ⟨str, hstr, rfl, rfl⟩
  obtain ⟨x, hx, rfl⟩ := List.mem_map.mp hstr
  refine ⟨hcorr.perm, x, hdrawn x hx, rfl, ?_⟩
  show f (τ (g (f x))) = f (τ x)
  rw [hgf x (hdrawn x hx)]

/-- Distinct titles tell the pictures apart. -/
theorem inj_of_val {f g : String → String} (hf : ∀ word ∈ words, f word.Name = word.title)
    (hg : ∀ word ∈ words, g word.title = word.Name) :
    ∀ x ∈ words.map Words.Name, ∀ y ∈ words.map Words.Name, f x = f y → x = y := by
  intro x hx y hy hxy
  obtain ⟨first, hfirst, rfl⟩ := List.mem_map.mp hx
  obtain ⟨second, hsecond, rfl⟩ := List.mem_map.mp hy
  rw [hf first hfirst, hf second hsecond] at hxy
  rw [← hg first hfirst, ← hg second hsecond, hxy]

/-- **Fair rounds of words.**  With distinct pictures and distinct titles any four pictures
    with the word of any of them asked for are as likely as any other four with the word of
    any of these. -/
theorem showWordData_fair (order order' : IterationOrder String) (hplays : PlaysWords words vc)
    (hnames : (words.map Words.Name).Nodup) (htitles : (words.map Words.title).Nodup)
    {tiles tiles' : Finset String} (hcard : tiles.card = 4) (hcard' : tiles'.card = 4)
    (hsub : ∀ str ∈ tiles, str ∈ words.map Words.Name)
    (hsub' : ∀ str ∈ tiles', str ∈ words.map Words.Name) {word word' : Words}
    (hword : word ∈ words) (hword' : word' ∈ words) (htile : word.Name ∈ tiles)
    (htile' : word'.Name ∈ tiles') (n : ℕ) :
    (showWordData order vc).chance
        (fun a => a.arrWordFinal.toFinset = tiles ∧ a.question = word.title) n
      = (showWordData order' vc).chance
        (fun a => a.arrWordFinal.toFinset = tiles' ∧ a.question = word'.title) n := by
  obtain ⟨τ, hc, himage, hτ⟩ := Sampler.exists_exchange hnames hsub hsub'
    (hcard.trans hcard'.symm) htile htile'
  obtain ⟨f, hf⟩ := Join.exists_val Words.title hnames
  obtain ⟨g, hg⟩ := Join.exists_val Words.Name htitles
  have hinj := inj_of_val hf hg
  refine Sampler.chance_eq_of_coupled (coupled_showWordData hplays hplays hc hnames hf hg)
    (fun a b hab => ?_) n
  obtain ⟨htiles, x, hx, hquestion, hquestion'⟩ := hab
  have hτx : τ x ∈ words.map Words.Name := hc.perm.mem_iff.mpr (List.mem_map_of_mem hx)
  have hb : b.arrWordFinal.toFinset = a.arrWordFinal.toFinset.image τ := toFinset_of_perm_map htiles
  -- the one word is asked for when the other is
  have hasked : f x = word.title ↔ f (τ x) = word'.title := by
    rw [← hf word hword, ← hf word' hword']
    refine ⟨fun h => ?_, fun h => ?_⟩
    · rw [hinj x hx word.Name (List.mem_map_of_mem hword) h, hτ]
    · have heq := hinj (τ x) hτx word'.Name (List.mem_map_of_mem hword') h
      rw [τ.injective (heq.trans hτ.symm)]
  rw [hb, hquestion, hquestion', ← himage, (Finset.image_injective τ.injective).eq_iff, hasked]

/-! ### Uniform rounds -/

/-- All choices of four of the values, with the name that `f` gives to one of them. -/
def choices (xs : List String) (f : String → String) : Finset (Σ _ : Finset String, String) :=
  (Finset.powersetCard 4 xs.toFinset).sigma fun tiles => tiles.image f

theorem mem_choices {xs : List String} {f : String → String} {i : Σ _ : Finset String, String} :
    i ∈ choices xs f ↔
      (∀ str ∈ i.1, str ∈ xs) ∧ i.1.card = 4 ∧ ∃ str ∈ i.1, f str = i.2 := by
  rw [choices, Finset.mem_sigma, Finset.mem_powersetCard, Finset.mem_image, and_assoc]
  refine and_congr_left' ⟨fun h str hstr => ?_, fun h str hstr => ?_⟩
  · exact List.mem_toFinset.mp (h hstr)
  · exact List.mem_toFinset.mpr (h str hstr)

/-- There are `4 * (length choose 4)` of them. -/
theorem card_choices {xs : List String} {f : String → String} (hnodup : xs.Nodup)
    (hinj : ∀ x ∈ xs, ∀ y ∈ xs, f x = f y → x = y) :
    (choices xs f).card = xs.length.choose 4 * 4 := by
  have hfour : ∀ tiles ∈ Finset.powersetCard 4 xs.toFinset, (tiles.image f).card = 4 := by
    intro tiles htiles
    obtain ⟨hsub, hcard⟩ := Finset.mem_powersetCard.mp htiles
    rw [Finset.card_image_of_injOn, hcard]
    intro x hx y hy hxy
    exact hinj x (List.mem_toFinset.mp (hsub hx)) y (List.mem_toFinset.mp (hsub hy)) hxy
  rw [choices, Finset.card_sigma, Finset.sum_congr rfl hfour, Finset.sum_const,
    Finset.card_powersetCard, List.toFinset_card_of_nodup hnodup, smul_eq_mul]

/-- **Uniform rounds.**  On a list of enough letters or numbers without repetitions, any four
    tiles with any of them asked for are the round after at most `n` draws with the same
    chance: the one that the drawing has ended, divided by `4 * (length choose 4)`. -/
theorem showData_uniform (order : IterationOrder String) (vc : PlayViewController)
    (henough : EnoughValues vc.arr) (hnodup : vc.arr.Nodup) {tiles : Finset String}
    (hcard : tiles.card = 4) (hsub : ∀ str ∈ tiles, str ∈ vc.arr) {str : String}
    (hstr : str ∈ tiles) (n : ℕ) :
    ((vc.arr.length.choose 4 * 4 : ℕ) : ℚ) * (showData order vc).within
        (fun a => a.arrFinal.toFinset = tiles ∧ a.question = str) n
      = 1 - (showData order vc).waiting n := by
  let Q (i : Σ _ : Finset String, String) (a : PlayViewController) : Prop :=
    a.arrFinal.toFinset = i.1 ∧ a.question = i.2
  have hcount := card_choices (f := id) hnodup fun x _ y _ h => h
  rw [← hcount]
  refine Sampler.card_mul_within (Q := Q) (i := ⟨tiles, str⟩) (prompt_showData rfl henough)
    (fun draws c hdone => ?_) (fun j hj m => ?_) n
  · -- the round is the choice of its own tiles and question
    obtain ⟨arrFinal, hfour, hdistinct, hmem, asked, hasked, rfl⟩ := showData_done hdone
    refine ⟨⟨arrFinal.toFinset, asked⟩, mem_choices.mpr ⟨?_, ?_, asked, ?_, rfl⟩, fun j _ => ?_⟩
    · exact fun x hx => hmem x (List.mem_toFinset.mp hx)
    · rw [List.toFinset_card_of_nodup hdistinct, hfour]
    · exact List.mem_toFinset.mpr hasked
    · show arrFinal.toFinset = j.1 ∧ asked = j.2 ↔ j = ⟨arrFinal.toFinset, asked⟩
      obtain ⟨jtiles, jstr⟩ := j
      rw [Sigma.mk.injEq, heq_eq_eq, eq_comm, @eq_comm _ asked]
  · obtain ⟨hjsub, hjcard, x, hx, hxj⟩ := mem_choices.mp hj
    obtain rfl : x = j.2 := hxj
    exact showData_fair order order vc hnodup hjcard hcard hjsub hsub hx hstr m

/-- Among the letters "a" to "e" each round is one of twenty. -/
theorem showData_uniform_letters :
    (((["a", "b", "c", "d", "e"].length).choose 4 * 4 : ℕ) : ℚ)
        * (showData .insertion { arr := ["a", "b", "c", "d", "e"] }).within
          (fun a => a.arrFinal.toFinset = {"a", "c", "d", "e"} ∧ a.question = "d") 7
      = 1 - (showData .insertion { arr := ["a", "b", "c", "d", "e"] }).waiting 7 :=
  showData_uniform .insertion { arr := ["a", "b", "c", "d", "e"] } ⟨by decide, by decide⟩
    (by decide) (by decide) (by decide) (by decide) 7

/-- **Uniform rounds of words.**  With enough distinct pictures and distinct titles, the same
    holds of any four pictures with the word of any of them asked for. -/
theorem showWordData_uniform (order : IterationOrder String) (hplays : PlaysWords words vc)
    (henough : EnoughValues (words.map Words.Name)) (hnames : (words.map Words.Name).Nodup)
    (htitles : (words.map Words.title).Nodup) {tiles : Finset String} (hcard : tiles.card = 4)
    (hsub : ∀ str ∈ tiles, str ∈ words.map Words.Name) {word : Words} (hword : word ∈ words)
    (htile : word.Name ∈ tiles) (n : ℕ) :
    ((words.length.choose 4 * 4 : ℕ) : ℚ) * (showWordData order vc).within
        (fun a => a.arrWordFinal.toFinset = tiles ∧ a.question = word.title) n
      = 1 - (showWordData order vc).waiting n := by
  obtain ⟨f, hf⟩ := Join.exists_val Words.title hnames
  obtain ⟨g, hg⟩ := Join.exists_val Words.Name htitles
  let Q (i : Σ _ : Finset String, String) (a : PlayViewController) : Prop :=
    a.arrWordFinal.toFinset = i.1 ∧ a.question = i.2
  have hcount := card_choices hnames (inj_of_val hf hg)
  rw [List.length_map] at hcount
  rw [← hcount]
  refine Sampler.card_mul_within (Q := Q) (i := ⟨tiles, word.title⟩)
    (prompt_showWordData hplays henough) (fun draws c hdone => ?_) (fun j hj m => ?_) n
  · obtain ⟨arrWordFinal, hfour, hdistinct, hmem, asked, hasked, rfl⟩ := showWordData_done hdone
    rw [hplays.arrWordImages] at hmem
    rw [hplays.arrWord, arrGetTitleOfFetchedImages_eq_join, Join.join_eq_map hnames hmem hf] at hasked
    obtain ⟨x, hx, hfx⟩ := List.mem_map.mp hasked
    refine ⟨⟨arrWordFinal.toFinset, asked⟩, mem_choices.mpr ⟨?_, ?_, x, ?_, hfx⟩, fun j _ => ?_⟩
    · exact fun y hy => hmem y (List.mem_toFinset.mp hy)
    · rw [List.toFinset_card_of_nodup hdistinct, hfour]
    · exact List.mem_toFinset.mpr hx
    · show arrWordFinal.toFinset = j.1 ∧ asked = j.2 ↔ j = ⟨arrWordFinal.toFinset, asked⟩
      obtain ⟨jtiles, jstr⟩ := j
      rw [Sigma.mk.injEq, heq_eq_eq, eq_comm, @eq_comm _ asked]
  · obtain ⟨hjsub, hjcard, x, hx, hxj⟩ := mem_choices.mp hj
    obtain ⟨other, hother, rfl⟩ := List.mem_map.mp (hjsub x hx)
    rw [hf other hother] at hxj
    have hfair := showWordData_fair order order hplays hnames htitles hjcard hcard hjsub hsub hother
      hword hx htile m
    rwa [hxj] at hfair

/-- A quiz on five words with a picture each. -/
def fiveWords : PlayViewController where
  isWords := true
  arrWord := ⟨"Pig", "pig.png"⟩ :: fourWords.words
  arrWordImages := "pig.png" :: fourWords.words.map Words.Name

/-- Each of its rounds is one of twenty. -/
theorem showWordData_uniform_fiveWords :
    ((fiveWords.arrWord.length.choose 4 * 4 : ℕ) : ℚ) * (showWordData .insertion fiveWords).within
        (fun a => a.arrWordFinal.toFinset = {"cat.png", "dog.png", "cow.png", "hen.png"} ∧
          a.question = (⟨"Cat", "cat.png"⟩ : Words).title) 7
      = 1 - (showWordData .insertion fiveWords).waiting 7 :=
  showWordData_uniform .insertion ⟨rfl, rfl, rfl⟩ ⟨by decide, by decide⟩ (by decide) (by decide)
    (by decide) (by decide) (by decide) (by decide) 7

end ChildLearning
