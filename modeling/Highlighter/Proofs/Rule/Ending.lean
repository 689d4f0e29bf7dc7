import Highlighter.Proofs.Regex.Locality
import Highlighter.Proofs.Rule.Scans

/-! The number of searches that a rule may make is no restriction: a scan that ends after any number
of searches at all has ended by then, with the same texts (`apply_eq_of_ends`). The only searches
that take up nothing of the remainder are those for an empty match whose replacement is not empty.
Such a match can follow itself in the same place only while the pattern sees something else than the
blanks of the replacements before it; after that the scan goes on for ever. -/
namespace Highlighter

namespace Rule

variable {pattern : Pattern} {handler : Handler}

/-- How many blanks stand right before a place. -/
def blanks (left : Text) : Nat := (left.takeWhile (· = ' ')).length

theorem take_of_le_blanks {left : Text} {n : Nat} (h : n ≤ blanks left) :
    left.take n = List.replicate n ' ' := by
  induction left generalizing n with
  | nil =>
    have hn : n = 0 := Nat.le_zero.mp h
    rw [hn]
    rfl
  | cons c left ih =>
    cases n with
    | zero => rfl
    | succ n =>
      unfold blanks at h
      rw [List.takeWhile_cons] at h
      split at h
      · rename_i hc
        have hle : n ≤ blanks left := Nat.le_of_succ_le_succ h
        rw [List.take_succ_cons, List.replicate_succ, ih hle, of_decide_eq_true hc]
      · exact absurd h (Nat.not_succ_le_zero n)

theorem blanks_shadow_append (t left : Text) :
    blanks (t.shadow ++ left) = t.byteLength + blanks left := by
  unfold blanks Text.shadow
  have hall : ∀ c ∈ List.replicate t.byteLength ' ', decide (c = ' ') = true := by
    intro c hc
    exact decide_eq_true (List.eq_of_mem_replicate hc)
  rw [List.takeWhile_append_of_pos hall, List.length_append, List.length_replicate]

/-- Where the pattern sees only blanks before the place, more blanks make no difference. -/
theorem search_shadow_append {left : Text} (h : pattern.regex.reach ≤ blanks left) (t right : Text) :
    pattern.regex.reach ≤ blanks (t.shadow ++ left) ∧
      pattern.search (t.shadow ++ left) right = pattern.search left right := by
  have hmore : pattern.regex.reach ≤ blanks (t.shadow ++ left) := by
    rw [blanks_shadow_append]
    exact Nat.le_add_left_of_le h
  refine ⟨hmore, pattern.search_congr right ?_⟩
  rw [take_of_le_blanks hmore, take_of_le_blanks h]

/-- Once the pattern sees nothing but blanks before the place and there matches the empty text, which
is replaced by something, it does so for ever. -/
theorem Scans.cutOff_of_stuck {left right pending result remainder : Text} {gap : Nat}
    {ending : Ending} {log : List Substitution} {k : Nat}
    (h : Scans pattern handler k left right gap pending result remainder ending log) (hgap : gap = 0)
    (hblank : pattern.regex.reach ≤ blanks left)
    (hs : pattern.search left right = .found ⟨[], [], right⟩) (hh : handler [] ≠ []) :
    ending = .cutOff := by
  -- Such a match is never left as it is, so each search ends in the same replacement.
  have hleft (m : Match) (start gap : Nat) (pending : Text) (here : List Substitution)
      (hm : m = ⟨[], [], right⟩) (hg : gap = 0) (hl : m.IsLeft handler start gap pending here) :
      False := by
    subst hm hg
    cases hl with
    | torn ht =>
      have hsome := Text.sliceAt?_append [] [] pending
      exact absurd (ht.symm.trans hsome) (by simp)
    | idle _ _ _ _ hidle => exact hh hidle
  induction h with
  | cutOff => rfl
  | noMatch hn => exact absurd (hn.symm.trans hs) Search.noConfusion
  | gaveUp hg => exact absurd (hg.symm.trans hs) Search.noConfusion
  | pastEnd hm hl _ => exact (hleft _ _ _ _ _ (Search.found.inj (hm.symm.trans hs)) hgap hl).elim
  | pass hm hl _ _ _ => exact (hleft _ _ _ _ _ (Search.found.inj (hm.symm.trans hs)) hgap hl).elim
  | @replace _ left right gap kept slice tail m result remainder ending log hm hk hl hn later ih =>
    have hmatch := Search.found.inj (hm.symm.trans hs)
    subst hmatch
    have hslice : slice = [] := (Text.byteLength_eq_zero_iff slice).mp hl
    subst hslice
    obtain ⟨hblank', hsame⟩ := search_shadow_append hblank (handler []) right
    dsimp only at ih
    rw [List.nil_append, Text.reverse_shadow] at ih
    exact ih rfl hblank' (hsame.trans hs) hleft

/-- A number of searches after which every scan from a place has ended that ends at all. -/
def searchesFrom (pattern : Pattern) (left right : Text) : Nat :=
  right.length * (pattern.regex.reach + 1) + (pattern.regex.reach - blanks left) + 1

/-- Where a search takes up some text, one search less is needed after it. -/
theorem searchesFrom_lt_of_length_lt (pattern : Pattern) (left left' : Text) {right right' : Text}
    (h : right'.length < right.length) :
    searchesFrom pattern left' right' < searchesFrom pattern left right := by
  have hmul := Nat.mul_le_mul_right (pattern.regex.reach + 1) (Nat.succ_le_of_lt h)
  rw [Nat.succ_mul] at hmul
  unfold searchesFrom
  omega

theorem treat_of_isLeft {m : Match} {at' gap : Nat} {pending : Text} {here : List Substitution}
    (h : m.IsLeft handler at' gap pending here) (source : Text) (start : Nat) :
    ∃ events, m.treat source handler start gap pending = .leave events := by
  unfold Match.treat
  cases h with
  | torn ht => exact ⟨_, by rw [ht]⟩
  | idle kept tail ht hm hh => exact ⟨_, by rw [ht]; exact if_pos ⟨hm, hh⟩⟩

theorem treat_of_replace {m : Match} {gap : Nat} {kept slice : Text} (tail : Text)
    (hk : kept.byteLength = gap + m.skipped.byteLength)
    (hl : slice.byteLength = m.matched.byteLength) (hn : ¬ (m.matched = [] ∧ handler slice = []))
    (source : Text) (start : Nat) : m.treat source handler start gap (kept ++ slice ++ tail) =
      .replace kept (handler slice) tail := by
  unfold Match.treat
  rw [← hk, ← hl, Text.sliceAt?_append]
  exact if_neg hn

theorem exists_succ_of_searchesFrom_le {left right : Text} {n : Nat}
    (h : searchesFrom pattern left right ≤ n) : ∃ k, n = k + 1 :=
  Nat.exists_eq_add_one_of_ne_zero (Nat.ne_of_gt (Nat.lt_of_lt_of_le (Nat.succ_pos _) h))

/-- After a match that is left as it is, one search less is needed. -/
theorem searchesFrom_lt_of_pass {left right passed rest : Text} {m : Match}
    (hs : pattern.search left right = .found m) (hp : m.passed? = some (passed, rest)) :
    searchesFrom pattern ((m.skipped ++ passed).reverse ++ left) rest <
      searchesFrom pattern left right := by
  obtain ⟨hparts, hne, _⟩ := Match.passed?_eq_some hp
  apply searchesFrom_lt_of_length_lt
  have hlen := congrArg List.length (Pattern.text_of_found hs)
  rw [List.append_assoc, hparts] at hlen
  have hpos := List.length_pos_iff.mpr hne
  simp only [List.length_append] at hlen
  omega

/-- After a replacement one search less is needed, if the run ends at all. -/
theorem searchesFrom_lt_of_replace {left right slice tail result remainder : Text} {m : Match}
    {ending : Ending} {log : List Substitution} {k : Nat}
    (hs : pattern.search left right = .found m) (hl : slice.byteLength = m.matched.byteLength)
    (hn : ¬ (m.matched = [] ∧ handler slice = []))
    (later : Scans pattern handler k ((m.skipped ++ (handler slice).shadow).reverse ++ left) m.rest 0
      tail result remainder ending log) (he : ending ≠ .cutOff) :
    searchesFrom pattern ((m.skipped ++ (handler slice).shadow).reverse ++ left) m.rest <
      searchesFrom pattern left right := by
  have htext := Pattern.text_of_found hs
  by_cases hempty : m.skipped = [] ∧ m.matched = []
  · -- Nothing was taken up, so the pattern must still see something else than blanks.
    obtain ⟨skipped, matched, rest⟩ := m
    obtain ⟨rfl, rfl⟩ := hempty
    dsimp only at *
    have hrest : rest = right := htext
    subst hrest
    have hslice : slice = [] := (Text.byteLength_eq_zero_iff slice).mp hl
    subst hslice
    have hreplaced : handler [] ≠ [] := fun h => hn ⟨rfl, h⟩
    rw [List.nil_append, Text.reverse_shadow] at later ⊢
    have hsee : ¬ pattern.regex.reach ≤ blanks left := by
      intro hblank
      obtain ⟨hblank', hsame⟩ := search_shadow_append hblank (handler []) rest
      exact he (later.cutOff_of_stuck rfl hblank' (hsame.trans hs) hreplaced)
    have hpos := Text.byteLength_pos_of_ne_nil hreplaced
    unfold searchesFrom
    rw [blanks_shadow_append]
    omega
  · apply searchesFrom_lt_of_length_lt
    have hlen := congrArg List.length htext
    simp only [List.length_append] at hlen
    have hpos : 0 < m.skipped.length + m.matched.length := by
      by_contra hzero
      apply hempty
      exact ⟨List.length_eq_zero_iff.mp (by omega), List.length_eq_zero_iff.mp (by omega)⟩
    omega

/-- A scan that may make enough searches follows every run that ends. -/
theorem Scans.scan_eq {left right pending result remainder : Text} {gap : Nat} {ending : Ending}
    {log : List Substitution} {k : Nat}
    (h : Scans pattern handler k left right gap pending result remainder ending log)
    (he : ending ≠ .cutOff) (n position : Nat) (hn : searchesFrom pattern left right ≤ n) :
    let s := scan pattern handler n position left right gap pending
    s.result = result ∧ s.remainder = remainder ∧ s.ending = ending := by
  -- Along the run, what is left of `n` stays enough.
  induction h generalizing n position with
  | cutOff => exact absurd rfl he
  | noMatch hs | gaveUp hs =>
    obtain ⟨n, rfl⟩ := exists_succ_of_searchesFrom_le hn
    unfold scan
    rw [hs]
    exact ⟨rfl, rfl, rfl⟩
  | @pastEnd _ left right gap pending m here hs hl hp =>
    obtain ⟨n, rfl⟩ := exists_succ_of_searchesFrom_le hn
    obtain ⟨events, ht⟩ := treat_of_isLeft hl pattern.source (position + m.skipped.byteLength)
    unfold scan
    rw [hs]
    dsimp only
    rw [ht, hp]
    exact ⟨rfl, rfl, rfl⟩
  | @pass _ left right gap pending m passed rest result remainder ending here log hs hl hp later ih =>
    obtain ⟨n, rfl⟩ := exists_succ_of_searchesFrom_le hn
    obtain ⟨events, ht⟩ := treat_of_isLeft hl pattern.source (position + m.skipped.byteLength)
    have hless := searchesFrom_lt_of_pass hs hp
    obtain ⟨h1, h2, h3⟩ := ih he n (position + m.skipped.byteLength + passed.byteLength)
      (by omega)
    unfold scan
    rw [hs]
    dsimp only
    rw [ht, hp]
    dsimp only
    rw [left_after_pass, gap_after_pass passed m gap]
    exact ⟨h1, congrArg (m.skipped ++ passed ++ ·) h2, h3⟩
  | @replace _ left right gap kept slice tail m result remainder ending log hs hk hl hne later ih =>
    obtain ⟨n, rfl⟩ := exists_succ_of_searchesFrom_le hn
    have ht := treat_of_replace tail hk hl hne pattern.source
      (position + m.skipped.byteLength)
    have hless := searchesFrom_lt_of_replace hs hl hne later he
    obtain ⟨h1, h2, h3⟩ := ih he n
      (position + m.skipped.byteLength + (handler slice).byteLength) (by omega)
    unfold scan
    rw [hs]
    dsimp only
    rw [ht]
    dsimp only
    rw [left_after_replace]
    exact ⟨congrArg (kept ++ handler slice ++ ·) h1,
      congrArg (m.skipped ++ (handler slice).shadow ++ ·) h2, h3⟩

theorem searchesFrom_le_searchBound (pattern : Pattern) (b : Buffers) :
    searchesFrom pattern [] b.remainder ≤ searchBound pattern b := by
  unfold searchesFrom searchBound
  have hmul : (b.remainder.length + 1) * (pattern.regex.reach + 2) =
      b.remainder.length * (pattern.regex.reach + 1) + b.remainder.length +
        (pattern.regex.reach + 2) := by
    rw [Nat.succ_mul, Nat.mul_succ]
  omega

/-- If the scan ends after any number of searches, it ends within those that the rule makes. -/
theorem apply_eq_of_ends {b : Buffers} {searches : Nat}
    (h : (scanWithin pattern handler searches b).ending ≠ .cutOff) :
    (regex pattern handler).apply b = (scanWithin pattern handler searches b).buffers ∧
      (scanAll pattern handler b).ending = (scanWithin pattern handler searches b).ending := by
  obtain ⟨log, hrun⟩ := scans_scanWithin pattern handler searches b
  obtain ⟨h1, h2, h3⟩ := hrun.scan_eq h (searchBound pattern b) 0
    (searchesFrom_le_searchBound pattern b)
  refine ⟨?_, h3⟩
  change Buffers.mk _ _ = Buffers.mk _ _
  exact congrArg₂ Buffers.mk h1 h2

/-- Where every match takes up some of the text, a scan with a search for each character ends with a
search that finds nothing. -/
theorem Scans.ending_of_matched {n : Nat} {left right pending result remainder : Text} {gap : Nat}
    {ending : Ending} {log : List Substitution}
    (h : Scans pattern handler n left right gap pending result remainder ending log)
    (hne : ∀ left right m, pattern.search left right = .found m → m.matched ≠ [])
    (hn : right.length < n) : ending = .noMatch ∨ ending = .gaveUp := by
  induction h with
  | cutOff => exact absurd hn (Nat.not_lt_zero _)
  | noMatch => exact Or.inl rfl
  | gaveUp => exact Or.inr rfl
  | pastEnd hs _ hp => exact absurd (Match.passed?_eq_none hp).1 (hne _ _ _ hs)
  | pass hs _ hp _ ih =>
    obtain ⟨hrest, hpassed, _⟩ := Match.passed?_eq_some hp
    have hlen := congrArg List.length (Pattern.text_of_found hs)
    have hlen' := congrArg List.length hrest
    have hpos := List.length_pos_iff.mpr hpassed
    simp only [List.length_append] at hlen hlen'
    exact ih (by omega)
  | replace hs _ _ _ _ ih =>
    have hlen := congrArg List.length (Pattern.text_of_found hs)
    have hpos := List.length_pos_iff.mpr (hne _ _ _ hs)
    simp only [List.length_append] at hlen
    exact ih (by omega)

/-- No search for a regular pattern gives up. -/
theorem Scans.ending_ne_gaveUp {n : Nat} {left right pending result remainder : Text} {gap : Nat}
    {ending : Ending} {log : List Substitution}
    (h : Scans pattern handler n left right gap pending result remainder ending log)
    (hr : pattern.regex.isRegular = true) : ending ≠ .gaveUp := by
  induction h with
  | cutOff | noMatch | pastEnd => exact Ending.noConfusion
  | gaveUp hs =>
    rw [Pattern.search_of_isRegular hr] at hs
    generalize pattern.regex.first? _ _ = o at hs
    cases o <;> exact Search.noConfusion hs
  | pass _ _ _ _ ih => exact ih
  | replace _ _ _ _ _ ih => exact ih

/-- A scan in which a search gives up says so. -/
theorem stoppedScanning_of_gaveUp (searches position : Nat) (left right : Text) (gap : Nat)
    (pending : Text)
    (h : (scan pattern handler searches position left right gap pending).ending = .gaveUp) :
    ∃ place, .stoppedScanning pattern.source place ∈
      (scan pattern handler searches position left right gap pending).events := by
  -- Only the last search of a scan can give up, and what is said there is kept by all steps before.
  induction searches generalizing position left right gap pending with
  | zero => exact Ending.noConfusion h
  | succ searches ih =>
    unfold scan at h ⊢
    cases hs : pattern.search left right with
    | nowhere =>
      rw [hs] at h
      exact Ending.noConfusion h
    | gaveUp => exact ⟨position, List.mem_singleton.mpr rfl⟩
    | found m =>
      rw [hs] at h
      dsimp only at h ⊢
      cases ht : m.treat pattern.source handler (position + m.skipped.byteLength) gap pending with
      | leave events =>
        rw [ht] at h
        dsimp only at h ⊢
        cases hp : m.passed? with
        | none =>
          rw [hp] at h
          exact Ending.noConfusion h
        | some pr =>
          rw [hp] at h
          obtain ⟨place, hplace⟩ := ih _ _ _ _ _ h
          exact ⟨place, List.mem_append_right events hplace⟩
      | replace kept replacement tail =>
        rw [ht] at h
        exact ih _ _ _ _ _ h

end Rule

end Highlighter
