import Highlighter.Json.Reading
import Highlighter.Proofs.Json.Tokens
import Mathlib.Data.List.DropRight

/-! A JSON text is read to its end exactly if the grammar derives a value from it, and then as that
value. The fuel of a reading is no limit: twice the length of the text is enough. -/
namespace Highlighter.Json

theorem isBlank_iff {c : Char} : isBlank c = true ↔ c = ' ' ∨ c = '\n' ∨ c = '\t' ∨ c = '\r' := by
  simp only [isBlank, Bool.or_eq_true, decide_eq_true_eq, or_assoc]

section Blanks

variable {b t : Text}

theorem dropBlanks_append (hb : Blank b) (t : Text) : dropBlanks (b ++ t) = dropBlanks t :=
  List.dropWhile_append_of_pos fun c hc => isBlank_iff.mpr (hb c hc)

theorem dropBlanks_dropBlanks (t : Text) : dropBlanks (dropBlanks t) = dropBlanks t :=
  List.dropWhile_idempotent isBlank t

theorem exists_blank (t : Text) : ∃ b, Blank b ∧ t = b ++ dropBlanks t :=
  ⟨t.takeWhile isBlank, fun _ hc => isBlank_iff.mp (List.mem_takeWhile_imp hc),
    List.takeWhile_append_dropWhile.symm⟩

theorem Blank.apart (hb : Blank b) (ht : Number.Apart t) : Number.Apart (b ++ t) := by
  cases b with
  | nil => exact ht
  | cons c b =>
    intro d hd
    obtain rfl := Option.some.inj hd
    rcases hb c List.mem_cons_self with rfl | rfl | rfl | rfl <;> decide

theorem readValue_dropBlanks (fuel : Nat) (t : Text) :
    readValue fuel (dropBlanks t) = readValue fuel t := by
  cases fuel with
  | zero => rfl
  | succ fuel => rw [readValue, readValue, dropBlanks_dropBlanks]

theorem readItems_dropBlanks (fuel : Nat) (t : Text) :
    readItems fuel (dropBlanks t) = readItems fuel t := by
  cases fuel with
  | zero => rfl
  | succ fuel => rw [readItems, readItems, readValue_dropBlanks]

theorem readMembers_dropBlanks (fuel : Nat) (t : Text) :
    readMembers fuel (dropBlanks t) = readMembers fuel t := by
  cases fuel with
  | zero => rfl
  | succ fuel => rw [readMembers, readMembers, dropBlanks_dropBlanks]

theorem readValue_append (hb : Blank b) (fuel : Nat) (t : Text) :
    readValue fuel (b ++ t) = readValue fuel t := by
  rw [← readValue_dropBlanks, dropBlanks_append hb, readValue_dropBlanks]

end Blanks

section Completeness

variable {fuel : Nat} {t rest : Text}

theorem readValue_digit {c : Char} (hc : c.isDigit = true) (fuel : Nat) (t : Text) :
    readValue (fuel + 1) (c :: t) = readNumber false (c :: t) := by
  have hblank : isBlank c = false := by
    by_contra h
    rcases isBlank_iff.mp (by simpa using h) with rfl | rfl | rfl | rfl <;>
      exact absurd hc (by decide)
  have hdrop : dropBlanks (c :: t) = c :: t := List.dropWhile_cons_of_neg (by simp [hblank])
  rw [readValue, hdrop]
  split <;> simp_all

theorem Number.Spells.exists_digit {negative : Bool} {w : Text} {n : Except Fault Number}
    (h : Number.Spells negative w n) : ∃ c w', w = c :: w' ∧ c.isDigit = true := by
  cases h with
  | @parts whole f e _ _ hw _ _ =>
    obtain ⟨c, whole, rfl⟩ := List.exists_cons_of_ne_nil hw.1.1
    exact ⟨c, whole ++ (f ++ e), rfl, hw.1.2 c List.mem_cons_self⟩

theorem String.Quoted.exists_quote {w : Text} {s : Except Fault Text} (h : String.Quoted w s) :
    ∃ w', w = '"' :: w' := by
  cases h <;> exact ⟨_, rfl⟩

theorem readValue_quote (fuel : Nat) (t : Text) : readValue (fuel + 1) ('"' :: t) =
    match String.read t with
    | .ok (s, t) => (string s, some t)
    | .error b => (broken b, none) := rfl

theorem readNumber_append {negative : Bool} {w : Text} {n : Except Fault Number}
    (h : Number.Spells negative w n) (hrest : Number.Apart rest) :
    readNumber negative (w ++ rest) = (number n, some rest) := by
  rw [readNumber, Number.read_append h hrest]

theorem readValue_bracket (fuel : Nat) (t : Text) : readValue (fuel + 1) ('[' :: t) =
    match dropBlanks t with
    | [] => (array [] (some .endOfText), none)
    | ']' :: t => (array [] none, some t)
    | t => (array (readItems fuel t).1 (readItems fuel t).2.1, (readItems fuel t).2.2) := rfl

/-- An array whose items can be read can be read. -/
theorem readValue_array {vs : List Json} (h : readItems fuel t = (vs, none, some rest)) :
    readValue (fuel + 1) ('[' :: t) = (array vs none, some rest) := by
  rw [← readItems_dropBlanks] at h
  rw [readValue_bracket]
  split
  · next heq =>
    rw [heq] at h
    rcases fuel with _ | _ | fuel <;> cases h
  · next r heq =>
    rw [heq] at h
    rcases fuel with _ | _ | fuel <;> cases h
  · rw [h]

theorem readValue_brace (fuel : Nat) (t : Text) : readValue (fuel + 1) ('\x7b' :: t) =
    match dropBlanks t with
    | [] => (object [] (some .endOfText), none)
    | '\x7d' :: t => (object [] none, some t)
    | t => (object (readMembers fuel t).1 (readMembers fuel t).2.1, (readMembers fuel t).2.2) := rfl

/-- An object whose members can be read can be read. -/
theorem readValue_object {ms : List (Except Fault Text × Json)}
    (h : readMembers fuel t = (ms, none, some rest)) :
    readValue (fuel + 1) ('\x7b' :: t) = (object ms none, some rest) := by
  rw [← readMembers_dropBlanks] at h
  rw [readValue_brace]
  split
  · next heq =>
    rw [heq] at h
    rcases fuel with _ | fuel <;> cases h
  · next r heq =>
    rw [heq] at h
    rcases fuel with _ | fuel <;> cases h
  · rw [h]

/-- A key and its colon lead to the value of the member. -/
theorem readMembers_key {b k b' : Text} {key : Except Fault Text} (hb : Blank b)
    (hk : String.Quoted k key) (hb' : Blank b') (fuel : Nat) (t : Text) :
    readMembers (fuel + 1) (b ++ (k ++ (b' ++ ':' :: t))) =
      match readValue fuel t with
      | (v, none) => ([(key, v)], some .malformed, none)
      | (v, some t) =>
        match dropBlanks t with
        | '\x7d' :: t => ([(key, v)], none, some t)
        | ',' :: t =>
          ((key, v) :: (readMembers fuel t).1, (readMembers fuel t).2.1, (readMembers fuel t).2.2)
        | t => ([(key, v)], some (noSeparator t), none) := by
  obtain ⟨k, rfl⟩ := hk.exists_quote
  have hopen : dropBlanks ('"' :: (k ++ (b' ++ ':' :: t))) = '"' :: (k ++ (b' ++ ':' :: t)) := rfl
  have hcolon : dropBlanks (b' ++ ':' :: t) = ':' :: t := dropBlanks_append hb' _
  have hread := readMembers.eq_def (fuel + 1) (b ++ ('"' :: k ++ (b' ++ ':' :: t)))
  simp only [dropBlanks_append hb, List.cons_append, hopen] at hread
  simp only [← List.cons_append, String.read_of_quoted hk, hcolon] at hread
  exact hread

/-- The last item is followed by the bracket. -/
theorem readItems_last {b : Text} {v : Json} (hb : Blank b)
    (h : readValue fuel t = (v, some (b ++ ']' :: rest))) :
    readItems (fuel + 1) t = ([v], none, some rest) := by
  have hclose : dropBlanks (b ++ ']' :: rest) = ']' :: rest := dropBlanks_append hb _
  rw [readItems, h]
  simp only [hclose]

/-- Any other item is followed by a comma and further items. -/
theorem readItems_item {b more : Text} {v : Json} {vs : List Json} (hb : Blank b)
    (h : readValue fuel t = (v, some (b ++ ',' :: more)))
    (hlater : readItems fuel more = (vs, none, some rest)) :
    readItems (fuel + 1) t = (v :: vs, none, some rest) := by
  have hcomma : dropBlanks (b ++ ',' :: more) = ',' :: more := dropBlanks_append hb _
  rw [readItems, h]
  simp only [hcomma, hlater]

/-- The value of the last member is followed by the brace. -/
theorem readMembers_last {b k b' b'' : Text} {key : Except Fault Text} {v : Json} (hb : Blank b)
    (hk : String.Quoted k key) (hb' : Blank b') (hb'' : Blank b'')
    (h : readValue fuel t = (v, some (b'' ++ '\x7d' :: rest))) :
    readMembers (fuel + 1) (b ++ (k ++ (b' ++ ':' :: t))) = ([(key, v)], none, some rest) := by
  have hclose : dropBlanks (b'' ++ '\x7d' :: rest) = '\x7d' :: rest := dropBlanks_append hb'' _
  rw [readMembers_key hb hk hb', h]
  simp only [hclose]

/-- The value of any other member is followed by a comma and further members. -/
theorem readMembers_member {b k b' b'' more : Text} {key : Except Fault Text} {v : Json}
    {ms : List (Except Fault Text × Json)} (hb : Blank b) (hk : String.Quoted k key)
    (hb' : Blank b') (hb'' : Blank b'') (h : readValue fuel t = (v, some (b'' ++ ',' :: more)))
    (hlater : readMembers fuel more = (ms, none, some rest)) :
    readMembers (fuel + 1) (b ++ (k ++ (b' ++ ':' :: t))) = ((key, v) :: ms, none, some rest) := by
  have hcomma : dropBlanks (b'' ++ ',' :: more) = ',' :: more := dropBlanks_append hb'' _
  rw [readMembers_key hb hk hb', h]
  simp only [hcomma, hlater]

/-- What reading a text as a phrase comes to, with enough fuel and whatever follows. -/
def Phrase.IsRead (t : Text) : Phrase → Prop
  | value v => ∀ rest fuel, Number.Apart rest → 2 * t.length ≤ fuel + 1 →
    readValue fuel (t ++ rest) = (v, some rest)
  | padded v => ∀ rest fuel, Number.Apart rest → 2 * t.length ≤ fuel + 1 →
    ∃ b, Blank b ∧ readValue fuel (t ++ rest) = (v, some (b ++ rest))
  | items vs => ∀ rest fuel, 2 * t.length ≤ fuel →
    readItems fuel (t ++ rest) = (vs, none, some rest)
  | members ms => ∀ rest fuel, 2 * t.length ≤ fuel →
    readMembers fuel (t ++ rest) = (ms, none, some rest)

theorem apart_cons {c : Char} (hc : c ∈ ([',', ']', '\x7d'] : Text)) (t : Text) :
    Number.Apart (c :: t) := by
  intro d hd
  obtain rfl := Option.some.inj hd
  simp only [List.mem_cons, List.not_mem_nil, or_false] at hc
  rcases hc with rfl | rfl | rfl <;> decide

theorem isRead_of_spells {p : Phrase} (h : Spells t p) : p.IsRead t := by
  -- On the derivation. Items and members take one step of fuel more than their parts; the comma or
  -- the bracket behind a part pays for it.
  induction h with
  | null | true | false =>
    intro rest fuel _ hfuel
    obtain ⟨fuel, rfl⟩ := Nat.exists_eq_add_one_of_ne_zero (by simp at hfuel; omega : fuel ≠ 0)
    rfl
  | number h =>
    intro rest fuel hrest hfuel
    obtain ⟨c, w, rfl, hc⟩ := h.exists_digit
    rw [List.length_cons] at hfuel
    obtain ⟨fuel, rfl⟩ := Nat.exists_eq_add_one_of_ne_zero (by omega : fuel ≠ 0)
    rw [List.cons_append, readValue_digit hc, ← List.cons_append, readNumber_append h hrest]
  | negative h =>
    intro rest fuel hrest hfuel
    rw [List.length_cons] at hfuel
    obtain ⟨fuel, rfl⟩ := Nat.exists_eq_add_one_of_ne_zero (by omega : fuel ≠ 0)
    exact readNumber_append h hrest
  | string h =>
    intro rest fuel _ hfuel
    obtain ⟨w, rfl⟩ := h.exists_quote
    rw [List.length_cons] at hfuel
    obtain ⟨fuel, rfl⟩ := Nat.exists_eq_add_one_of_ne_zero (by omega : fuel ≠ 0)
    rw [List.cons_append, readValue_quote, String.read_of_quoted h]
  | emptyArray hb =>
    intro rest fuel _ hfuel
    rw [List.length_cons] at hfuel
    obtain ⟨fuel, rfl⟩ := Nat.exists_eq_add_one_of_ne_zero (by omega : fuel ≠ 0)
    rw [List.cons_append, List.append_assoc, readValue_bracket, dropBlanks_append hb]
    rfl
  | array _ ih =>
    intro rest fuel _ hfuel
    rw [List.length_cons] at hfuel
    obtain ⟨fuel, rfl⟩ := Nat.exists_eq_add_one_of_ne_zero (by omega : fuel ≠ 0)
    exact readValue_array (ih rest _ (by omega))
  | emptyObject hb =>
    intro rest fuel _ hfuel
    rw [List.length_cons] at hfuel
    obtain ⟨fuel, rfl⟩ := Nat.exists_eq_add_one_of_ne_zero (by omega : fuel ≠ 0)
    rw [List.cons_append, List.append_assoc, readValue_brace, dropBlanks_append hb]
    rfl
  | object _ ih =>
    intro rest fuel _ hfuel
    rw [List.length_cons] at hfuel
    obtain ⟨fuel, rfl⟩ := Nat.exists_eq_add_one_of_ne_zero (by omega : fuel ≠ 0)
    exact readValue_object (ih rest _ (by omega))
  | @padded b w b' v hb _ hb' ih =>
    intro rest fuel hrest hfuel
    simp only [List.length_append] at hfuel
    refine ⟨b', hb', ?_⟩
    rw [List.append_assoc, List.append_assoc, readValue_append hb]
    exact ih (b' ++ rest) fuel (hb'.apart hrest) (by omega)
  | lastItem _ ih =>
    intro rest fuel hfuel
    rw [List.length_append, List.length_singleton] at hfuel
    obtain ⟨fuel, rfl⟩ := Nat.exists_eq_add_one_of_ne_zero (by omega : fuel ≠ 0)
    obtain ⟨b, hb, hread⟩ := ih (']' :: rest) fuel (apart_cons (by simp) _) (by omega)
    rw [List.append_assoc]
    exact readItems_last hb hread
  | @item w ws v vs _ _ ih ihlater =>
    intro rest fuel hfuel
    rw [List.length_append, List.length_cons] at hfuel
    obtain ⟨fuel, rfl⟩ := Nat.exists_eq_add_one_of_ne_zero (by omega : fuel ≠ 0)
    obtain ⟨b, hb, hread⟩ := ih (',' :: (ws ++ rest)) fuel (apart_cons (by simp) _) (by omega)
    rw [List.append_assoc]
    exact readItems_item hb hread (ihlater rest fuel (by omega))
  | lastMember hb hk hb' _ ih =>
    intro rest fuel hfuel
    simp only [List.length_append, List.length_cons] at hfuel
    obtain ⟨fuel, rfl⟩ := Nat.exists_eq_add_one_of_ne_zero (by omega : fuel ≠ 0)
    obtain ⟨b'', hb'', hread⟩ := ih ('\x7d' :: rest) fuel (apart_cons (by simp) _) (by omega)
    simp only [List.append_assoc, List.cons_append, List.nil_append]
    exact readMembers_last hb hk hb' hb'' hread
  | @member b k b' w ws key v ms hb hk hb' _ _ ih ihlater =>
    intro rest fuel hfuel
    simp only [List.length_append, List.length_cons] at hfuel
    obtain ⟨fuel, rfl⟩ := Nat.exists_eq_add_one_of_ne_zero (by omega : fuel ≠ 0)
    obtain ⟨b'', hb'', hread⟩ := ih (',' :: (ws ++ rest)) fuel (apart_cons (by simp) _) (by omega)
    simp only [List.append_assoc, List.cons_append]
    exact readMembers_member hb hk hb' hb'' hread (ihlater rest fuel (by omega))

end Completeness

section Soundness

/-- A reading that goes on has read what the grammar derives. -/
structure Sound (fuel : Nat) : Prop where
  values : ∀ t v rest, readValue fuel t = (v, some rest) →
    ∃ b w, Blank b ∧ Spells w (.value v) ∧ t = b ++ (w ++ rest)
  items : ∀ t vs ending rest, readItems fuel t = (vs, ending, some rest) →
    ending = none ∧ ∃ w, Spells w (.items vs) ∧ t = w ++ rest
  members : ∀ t ms ending rest, readMembers fuel t = (ms, ending, some rest) →
    ending = none ∧ ∃ w, Spells w (.members ms) ∧ t = w ++ rest

variable {fuel : Nat} {t rest : Text}

theorem eq_of_readWord {v v' : Json} {word : Text} (h : readWord v word t = (v', some rest)) :
    v' = v ∧ t = word ++ rest := by
  induction word generalizing t with
  | nil =>
    obtain ⟨rfl, hrest⟩ := Prod.mk.inj h
    exact ⟨rfl, Option.some.inj hrest⟩
  | cons w word ih =>
    cases t with
    | nil => cases h
    | cons c t =>
      rw [readWord] at h
      split at h
      · next hc =>
        obtain ⟨rfl, rfl⟩ := ih h
        exact ⟨rfl, by rw [hc]; rfl⟩
      · cases h

theorem spells_of_readNumber {negative : Bool} {v : Json}
    (h : readNumber negative t = (v, some rest)) :
    ∃ w n, Number.Spells negative w n ∧ v = number n ∧ t = w ++ rest := by
  unfold readNumber at h
  split at h
  · next n t' hread =>
    obtain ⟨rfl, hrest⟩ := Prod.mk.inj h
    obtain rfl := Option.some.inj hrest
    obtain ⟨w, hw, rfl⟩ := Number.spells_of_read hread
    exact ⟨w, n, hw, rfl, rfl⟩
  · cases h

theorem Sound.values_succ (hs : Sound fuel) {v : Json}
    (h : readValue (fuel + 1) t = (v, some rest)) :
    ∃ b w, Blank b ∧ Spells w (.value v) ∧ t = b ++ (w ++ rest) := by
  obtain ⟨b, hb, ht⟩ := exists_blank t
  suffices ∃ w, Spells w (.value v) ∧ dropBlanks t = w ++ rest by
    obtain ⟨w, hw, hrest⟩ := this
    exact ⟨b, w, hb, hw, hrest ▸ ht⟩
  unfold readValue at h
  split at h
  · cases h
  · next t' heq =>
    obtain ⟨rfl, rfl⟩ := eq_of_readWord h
    exact ⟨_, .null, heq⟩
  · next t' heq =>
    obtain ⟨rfl, rfl⟩ := eq_of_readWord h
    exact ⟨_, .true, heq⟩
  · next t' heq =>
    obtain ⟨rfl, rfl⟩ := eq_of_readWord h
    exact ⟨_, .false, heq⟩
  · next t' heq =>
    obtain ⟨w, n, hw, rfl, rfl⟩ := spells_of_readNumber h
    exact ⟨_, .negative hw, heq⟩
  · next t' heq =>
    split at h
    · next s t'' hread =>
      obtain ⟨rfl, hrest⟩ := Prod.mk.inj h
      obtain rfl := Option.some.inj hrest
      obtain ⟨w, hw, rfl⟩ := String.quoted_of_read hread
      exact ⟨_, .string hw, heq⟩
    · cases h
  · next t' heq =>
    obtain ⟨b', hb', ht'⟩ := exists_blank t'
    split at h
    · cases h
    · next t'' heq' =>
      obtain ⟨rfl, hrest⟩ := Prod.mk.inj h
      obtain rfl := Option.some.inj hrest
      refine ⟨_, .emptyArray hb', ?_⟩
      rw [heq, ht', heq']
      simp
    · rcases hread : readItems fuel (dropBlanks t') with ⟨vs, ending, r⟩
      rw [hread] at h
      obtain ⟨rfl, rfl⟩ := Prod.mk.inj h
      rw [readItems_dropBlanks] at hread
      obtain ⟨rfl, w, hw, rfl⟩ := hs.items _ _ _ _ hread
      exact ⟨_, .array hw, heq⟩
  · next t' heq =>
    obtain ⟨b', hb', ht'⟩ := exists_blank t'
    split at h
    · cases h
    · next t'' heq' =>
      obtain ⟨rfl, hrest⟩ := Prod.mk.inj h
      obtain rfl := Option.some.inj hrest
      refine ⟨_, .emptyObject hb', ?_⟩
      rw [heq, ht', heq']
      simp
    · rcases hread : readMembers fuel (dropBlanks t') with ⟨ms, ending, r⟩
      rw [hread] at h
      obtain ⟨rfl, rfl⟩ := Prod.mk.inj h
      rw [readMembers_dropBlanks] at hread
      obtain ⟨rfl, w, hw, rfl⟩ := hs.members _ _ _ _ hread
      exact ⟨_, .object hw, heq⟩
  · next c t' _ _ _ _ _ _ _ heq =>
    split at h
    · obtain ⟨w, n, hw, rfl, hrest⟩ := spells_of_readNumber h
      exact ⟨_, .number hw, heq.trans hrest⟩
    · cases h

theorem Sound.padded (hs : Sound fuel) {v : Json} (h : readValue fuel t = (v, some rest)) :
    ∃ w, Spells w (.padded v) ∧ t = w ++ dropBlanks rest := by
  obtain ⟨b, w, hb, hw, rfl⟩ := hs.values _ _ _ h
  obtain ⟨b', hb', hrest⟩ := exists_blank rest
  refine ⟨_, .padded hb hw hb', ?_⟩
  rw [List.append_assoc, List.append_assoc, ← hrest]

theorem Sound.items_succ (hs : Sound fuel) {vs : List Json} {ending : Option Break}
    (h : readItems (fuel + 1) t = (vs, ending, some rest)) :
    ending = none ∧ ∃ w, Spells w (.items vs) ∧ t = w ++ rest := by
  rw [readItems] at h
  split at h
  · cases h
  · next v t' hread =>
    obtain ⟨w, hw, rfl⟩ := hs.padded hread
    split at h
    · next t'' heq =>
      cases h
      rw [heq]
      exact ⟨rfl, w ++ [']'], .lastItem hw, by simp⟩
    · next t'' heq =>
      rcases hlater : readItems fuel t'' with ⟨vs', ending', r⟩
      rw [hlater] at h
      cases h
      obtain ⟨rfl, ws, hws, rfl⟩ := hs.items _ _ _ _ hlater
      rw [heq]
      exact ⟨rfl, w ++ ',' :: ws, .item hw hws, by simp⟩
    · cases h

theorem Sound.members_succ (hs : Sound fuel) {ms : List (Except Fault Text × Json)}
    {ending : Option Break} (h : readMembers (fuel + 1) t = (ms, ending, some rest)) :
    ending = none ∧ ∃ w, Spells w (.members ms) ∧ t = w ++ rest := by
  obtain ⟨b, hb, ht⟩ := exists_blank t
  rw [readMembers] at h
  split at h
  · next t₁ heq₁ =>
    split at h
    · cases h
    · next key t₂ hkey =>
      obtain ⟨k, hk, rfl⟩ := String.quoted_of_read hkey
      obtain ⟨b', hb', ht₂⟩ := exists_blank t₂
      split at h
      · next t₃ heq₃ =>
        split at h
        · cases h
        · next v t₄ hread =>
          obtain ⟨w, hw, rfl⟩ := hs.padded hread
          rw [heq₃] at ht₂
          rw [heq₁, ht₂] at ht
          split at h
          · next t₅ heq₅ =>
            cases h
            rw [heq₅] at ht
            exact ⟨rfl, _, .lastMember hb hk hb' hw, by simp [ht]⟩
          · next t₅ heq₅ =>
            rcases hlater : readMembers fuel t₅ with ⟨ms', ending', r⟩
            rw [hlater] at h
            cases h
            obtain ⟨rfl, ws, hws, rfl⟩ := hs.members _ _ _ _ hlater
            rw [heq₅] at ht
            exact ⟨rfl, _, .member hb hk hb' hw hws, by simp [ht]⟩
          · cases h
      · cases h
  · cases h

theorem sound (fuel : Nat) : Sound fuel := by
  induction fuel with
  | zero =>
    refine ⟨fun _ _ _ h => ?_, fun _ _ _ _ h => ?_, fun _ _ _ _ h => ?_⟩ <;> cases h
  | succ fuel ih =>
    exact ⟨fun _ _ _ => ih.values_succ, fun _ _ _ _ => ih.items_succ,
      fun _ _ _ _ => ih.members_succ⟩

end Soundness

/-- A text is decoded exactly if it is one value that the decoder accepts. -/
theorem decode_eq_ok_iff {α : Type} {decoder : Decoder α} {t : Text} {a : α} :
    decode decoder t = .ok a ↔ ∃ v, IsText t v ∧ decoder v = .ok a := by
  constructor
  · intro h
    unfold decode at h
    rcases hread : readValue (2 * t.length + 2) t with ⟨v, rest⟩
    rw [hread] at h
    obtain ⟨a', ha, h⟩ := Except.bind_eq_ok_iff.mp h
    cases rest with
    | none => cases h
    | some rest =>
      dsimp only at h
      split at h
      · next hrest =>
        cases h
        obtain ⟨w, hw, ht⟩ := (sound _).padded hread
        rw [hrest, List.append_nil] at ht
        exact ⟨v, ht ▸ hw, ha⟩
      · cases h
  · rintro ⟨v, ht, ha⟩
    obtain ⟨b, hb, hread⟩ :=
      isRead_of_spells ht [] (2 * t.length + 2) (by simp [Number.Apart]) (by omega)
    have hrest : dropBlanks (b ++ []) = [] := dropBlanks_append hb []
    rw [List.append_nil] at hread
    unfold decode
    rw [hread]
    simp only [ha, bind, Except.bind, hrest, if_true]
    rfl

end Highlighter.Json
