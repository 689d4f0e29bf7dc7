import Highlighter.Json.String
import Highlighter.Proofs.Json.Grammar
import Highlighter.Proofs.Results
import Mathlib.Data.List.TakeWhile
import Mathlib.Tactic.IntervalCases

/-! Strings and numbers are read as the grammar says: what is read is spelled by what stood in front
of the rest, and whatever spells a string or a number is read. -/
namespace Highlighter.Json

namespace String

theorem toNat_lt_of_hexValue? {c : Char} {n : Nat} (h : hexValue? c = some n) : c.toNat < 128 := by
  have hc : c.toNat = c.val.toNat := rfl
  have h9 : '9'.val.toNat = 57 := rfl
  have hf : 'f'.val.toNat = 102 := rfl
  have hF : 'F'.val.toNat = 70 := rfl
  unfold hexValue? at h
  simp only [Char.isDigit, Bool.and_eq_true, decide_eq_true_eq, Char.le_def,
    UInt32.le_iff_toNat_le] at h
  grind

theorem hexDigit_ofNat : ∀ k < 128, ∀ n ∈ hexValue? (Char.ofNat k), HexDigit (Char.ofNat k) n := by
  unfold HexDigit
  decide

theorem hexValue?_eq_some {c : Char} {n : Nat} : hexValue? c = some n ↔ HexDigit c n := by
  constructor
  · intro h
    have hdigit := hexDigit_ofNat c.toNat (toNat_lt_of_hexValue? h) n
    rw [Char.ofNat_toNat] at hdigit
    exact hdigit h
  · rintro ⟨hn, rfl | rfl⟩ <;> interval_cases n <;> rfl

theorem readUnit_eq_ok {t rest : Text} {n : Nat} :
    readUnit t = .ok (n, rest) ↔ ∃ u, CodeUnit u n ∧ t = u ++ rest := by
  constructor
  · intro h
    unfold readUnit at h
    split at h
    · next a b c d r =>
      split at h
      · next values hv =>
        simp only [List.mapM_cons, List.mapM_nil, Option.bind_eq_bind, Option.bind_eq_some_iff,
          Option.pure_def, Option.some.injEq, hexValue?_eq_some] at hv
        obtain ⟨i, hi, _, ⟨j, hj, _, ⟨k, hk, _, ⟨l, hl, _, rfl, rfl⟩, rfl⟩, rfl⟩, rfl⟩ := hv
        obtain ⟨rfl, rfl⟩ := Prod.mk.inj (Except.ok.inj h)
        have hvalue : 0x1000 * i + 0x100 * j + 0x10 * k + l =
            [i, j, k, l].foldl (fun n v => 16 * n + v) 0 := by
          simp only [List.foldl_cons, List.foldl_nil]
          omega
        exact ⟨[a, b, c, d], hvalue ▸ .digits hi hj hk hl, rfl⟩
      · cases h
    · cases h
  · rintro ⟨u, ⟨ha, hb, hc, hd⟩, rfl⟩
    rw [← hexValue?_eq_some] at ha hb hc hd
    simp [readUnit, List.mapM_cons, ha, hb, hc, hd]
    omega

theorem readUnit_append {u : Text} {n : Nat} (hu : CodeUnit u n) (t : Text) :
    readUnit (u ++ t) = .ok (n, t) := readUnit_eq_ok.mpr ⟨u, hu, rfl⟩

theorem lookup_escapes {e c : Char} : escapes.lookup e = some c ↔ Escape e c := by
  constructor
  · intro h
    obtain ⟨l, l', hl, -⟩ := List.lookup_eq_some_iff.mp h
    have hmem : (e, c) ∈ escapes := by rw [hl]; simp
    simp only [escapes, List.mem_cons, Prod.mk.injEq, List.not_mem_nil, or_false] at hmem
    rcases hmem with ⟨rfl, rfl⟩ | ⟨rfl, rfl⟩ | ⟨rfl, rfl⟩ | ⟨rfl, rfl⟩ | ⟨rfl, rfl⟩ | ⟨rfl, rfl⟩ |
      ⟨rfl, rfl⟩ | ⟨rfl, rfl⟩ <;> constructor
  · intro h
    cases h <;> rfl

section Skipping

/-! A string that is skipped. -/

theorem readSkipped_plain {c : Char} (hc : Plain c) (fuel : Nat) (t : Text) :
    readSkipped (fuel + 1) (c :: t) = readSkipped fuel t := by
  obtain ⟨hquote, hback, hspace⟩ := hc
  rw [readSkipped.eq_def]
  split <;> simp_all

theorem readSkipped_escape {e c : Char} (he : Escape e c) (fuel : Nat) (t : Text) :
    readSkipped (fuel + 1) ('\\' :: e :: t) = readSkipped fuel t := by
  cases he <;> rfl

theorem readSkipped_unit {u : Text} {n : Nat} (hu : CodeUnit u n) (fuel : Nat) (t : Text) :
    readSkipped (fuel + 1) ('\\' :: 'u' :: (u ++ t)) = readSkipped fuel t := by
  rw [readSkipped, readUnit_append hu]
  rfl

theorem readSkipped_of_formed {w : Text} (h : Formed w) {fuel : Nat} (hfuel : w.length < fuel)
    (rest : Text) : readSkipped fuel (w ++ '"' :: rest) = .ok rest := by
  induction h generalizing fuel with
  | nil =>
    obtain ⟨fuel, rfl⟩ := Nat.exists_eq_add_of_lt hfuel
    rfl
  | plain hc _ ih =>
    obtain ⟨fuel, rfl⟩ := Nat.exists_eq_add_of_lt hfuel
    rw [List.cons_append, readSkipped_plain hc]
    apply ih
    rw [List.length_cons]
    omega
  | escape he _ ih =>
    obtain ⟨fuel, rfl⟩ := Nat.exists_eq_add_of_lt hfuel
    rw [List.cons_append, List.cons_append, readSkipped_escape he]
    apply ih
    rw [List.length_cons, List.length_cons]
    omega
  | unit hu _ ih =>
    obtain ⟨fuel, rfl⟩ := Nat.exists_eq_add_of_lt hfuel
    rw [List.cons_append, List.cons_append, List.append_assoc, readSkipped_unit hu]
    apply ih
    rw [List.length_cons, List.length_cons, List.length_append]
    omega

theorem formed_of_readSkipped {fuel : Nat} {t rest : Text} (h : readSkipped fuel t = .ok rest) :
    ∃ w, Formed w ∧ t = w ++ '"' :: rest := by
  induction fuel generalizing t with
  | zero => cases h
  | succ fuel ih =>
    unfold readSkipped at h
    split at h
    · cases h
    · obtain rfl := Except.ok.inj h
      exact ⟨[], .nil, rfl⟩
    · next r =>
      cases hunit : readUnit r with
      | error f =>
        rw [hunit] at h
        cases h
      | ok p =>
        obtain ⟨n, r'⟩ := p
        obtain ⟨u, hu, rfl⟩ := readUnit_eq_ok.mp hunit
        rw [hunit] at h
        obtain ⟨w, hw, rfl⟩ := ih h
        exact ⟨'\\' :: 'u' :: (u ++ w), .unit hu hw, by simp⟩
    · cases h
    · next e r _ =>
      split at h
      · next he =>
        obtain ⟨c, hc⟩ := Option.isSome_iff_exists.mp he
        obtain ⟨w, hw, rfl⟩ := ih h
        exact ⟨'\\' :: e :: w, .escape (lookup_escapes.mp hc) hw, rfl⟩
      · cases h
    · next c r hquote hunit hend hback =>
      split at h
      · cases h
      · next hspace =>
        -- A backslash, at the end or in front of anything, belongs to an earlier case.
        have hne : c ≠ '\\' := by
          rintro rfl
          cases r with
          | nil => exact hend rfl rfl
          | cons d r => exact hback d r rfl rfl
        obtain ⟨w, hw, rfl⟩ := ih h
        exact ⟨c :: w, .plain ⟨hquote, hne, Nat.not_lt.mp hspace⟩ hw, rfl⟩

/-- The closing quote is the first that no backslash stands before. -/
theorem Formed.unique {w w' rest rest' : Text} (h : Formed w) (h' : Formed w')
    (heq : w ++ '"' :: rest = w' ++ '"' :: rest') : w = w' ∧ rest = rest' := by
  have hread : readSkipped (w.length + w'.length + 1) (w ++ '"' :: rest) = .ok rest :=
    readSkipped_of_formed h (by omega) rest
  have hread' : readSkipped (w.length + w'.length + 1) (w' ++ '"' :: rest') = .ok rest' :=
    readSkipped_of_formed h' (by omega) rest'
  rw [heq, hread'] at hread
  obtain rfl := Except.ok.inj hread
  exact ⟨List.append_cancel_right heq, rfl⟩

end Skipping

section Using

/-! A string that is used. -/

theorem readUsed_plain {c : Char} (hc : Plain c) (fuel : Nat) (t : Text) :
    readUsed (fuel + 1) (c :: t) = (readUsed fuel t).map fun (s, rest) => (c :: s, rest) := by
  obtain ⟨hquote, hback, hspace⟩ := hc
  have hnot : ¬ c.toNat < 0x20 := Nat.not_lt.mpr hspace
  rw [readUsed.eq_def]
  split <;> simp_all [Functor.map]

theorem readUsed_escape {e c : Char} (he : Escape e c) (fuel : Nat) (t : Text) :
    readUsed (fuel + 1) ('\\' :: e :: t) =
      (readUsed fuel t).map fun (s, rest) => (c :: s, rest) := by
  have hstep (x : Except Fault (Text × Text)) :
      (do let (s, rest) ← x; return (c :: s, rest)) = x.map fun (s, rest) => (c :: s, rest) := by
    cases x <;> rfl
  cases he <;> exact hstep _

theorem readUsed_unit {u : Text} {n : Nat} (hu : CodeUnit u n) (hn : n < 0xD800 ∨ 0xDFFF < n)
    (fuel : Nat) (t : Text) : readUsed (fuel + 1) ('\\' :: 'u' :: (u ++ t)) =
      (readUsed fuel t).map fun (s, rest) => (Char.ofNat n :: s, rest) := by
  have hlow : ¬ (0xDC00 ≤ n ∧ n ≤ 0xDFFF) := by omega
  have hhigh : ¬ (0xD800 ≤ n ∧ n ≤ 0xDBFF) := by omega
  rw [readUsed, readUnit_append hu]
  simp only [bind, Except.bind, Bool.and_eq_true, decide_eq_true_eq, hlow, hhigh, if_false]
  cases readUsed fuel t <;> rfl

theorem readUsed_pair {u v : Text} {high low : Nat} (hu : CodeUnit u high) (hv : CodeUnit v low)
    (hhigh : 0xD800 ≤ high ∧ high ≤ 0xDBFF) (hlow : 0xDC00 ≤ low ∧ low ≤ 0xDFFF) (fuel : Nat)
    (t : Text) : readUsed (fuel + 1) ('\\' :: 'u' :: (u ++ '\\' :: 'u' :: (v ++ t))) =
      (readUsed fuel t).map fun (s, rest) => (ofPair high low :: s, rest) := by
  have hnot : ¬ (0xDC00 ≤ high ∧ high ≤ 0xDFFF) := by omega
  have hin : ¬ (low < 0xDC00 ∨ 0xDFFF < low) := by omega
  rw [readUsed, readUnit_append hu]
  simp only [bind, Except.bind, Bool.and_eq_true, Bool.or_eq_true, decide_eq_true_eq, hnot, hhigh,
    and_self, if_true, if_false, readUnit_append hv, hin]
  cases readUsed fuel t <;> rfl

/-- Half of a surrogate pair in front of anything but an escaped code unit. -/
theorem readUsed_unpaired {u t : Text} {n : Nat} (hu : CodeUnit u n)
    (hn : 0xD800 ≤ n ∧ n ≤ 0xDFFF) (hend : t ≠ [] ∧ t ≠ ['\\'])
    (hunit : ∀ r, t ≠ '\\' :: 'u' :: r) (fuel : Nat) :
    readUsed (fuel + 1) ('\\' :: 'u' :: (u ++ t)) = .error .malformed := by
  rw [readUsed, readUnit_append hu]
  simp only [bind, Except.bind, Bool.and_eq_true, decide_eq_true_eq]
  split
  · rfl
  · rw [if_pos (by omega)]
    split <;> simp_all
    rfl

/-- Half of a surrogate pair in front of a code unit that is not the other half. -/
theorem readUsed_mispaired {u v t : Text} {n low : Nat} (hu : CodeUnit u n) (hv : CodeUnit v low)
    (hn : 0xD800 ≤ n ∧ n ≤ 0xDFFF) (hnot : ¬ (n ≤ 0xDBFF ∧ 0xDC00 ≤ low ∧ low ≤ 0xDFFF))
    (fuel : Nat) : readUsed (fuel + 1) ('\\' :: 'u' :: (u ++ '\\' :: 'u' :: (v ++ t))) =
      .error .malformed := by
  rw [readUsed, readUnit_append hu]
  simp only [bind, Except.bind, Bool.and_eq_true, Bool.or_eq_true, decide_eq_true_eq,
    readUnit_append hv]
  split
  · rfl
  · rw [if_pos (by omega), if_pos (by omega)]
    rfl

theorem readUsed_of_spells {w t : Text} (h : Spells w t) {fuel : Nat} (hfuel : w.length < fuel)
    (rest : Text) : readUsed fuel (w ++ '"' :: rest) = .ok (t, rest) := by
  induction h generalizing fuel with
  | nil =>
    obtain ⟨fuel, rfl⟩ := Nat.exists_eq_add_of_lt hfuel
    rfl
  | plain hc _ ih =>
    obtain ⟨fuel, rfl⟩ := Nat.exists_eq_add_of_lt hfuel
    rw [List.cons_append, readUsed_plain hc, ih (by rw [List.length_cons]; omega)]
    rfl
  | escape he _ ih =>
    obtain ⟨fuel, rfl⟩ := Nat.exists_eq_add_of_lt hfuel
    rw [List.cons_append, List.cons_append, readUsed_escape he,
      ih (by rw [List.length_cons, List.length_cons]; omega)]
    rfl
  | unit hu hn _ ih =>
    obtain ⟨fuel, rfl⟩ := Nat.exists_eq_add_of_lt hfuel
    rw [List.cons_append, List.cons_append, List.append_assoc, readUsed_unit hu hn,
      ih (by rw [List.length_cons, List.length_cons, List.length_append]; omega)]
    rfl
  | pair hu hv hhigh hlow _ ih =>
    obtain ⟨fuel, rfl⟩ := Nat.exists_eq_add_of_lt hfuel
    simp only [List.cons_append, List.append_assoc, List.length_cons, List.length_append]
      at hfuel ih ⊢
    rw [readUsed_pair hu hv hhigh hlow, ih (by omega)]
    rfl

theorem spells_of_readUsed {fuel : Nat} {t s rest : Text} (h : readUsed fuel t = .ok (s, rest)) :
    ∃ w, Spells w s ∧ t = w ++ '"' :: rest := by
  induction fuel generalizing t s with
  | zero => cases h
  | succ fuel ih =>
    unfold readUsed at h
    split at h
    · cases h
    · obtain ⟨rfl, rfl⟩ := Prod.mk.inj (Except.ok.inj h)
      exact ⟨[], .nil, rfl⟩
    · next r =>
      obtain ⟨⟨high, r'⟩, hunit, hrest⟩ := Except.bind_eq_ok_iff.mp h
      obtain ⟨u, hu, rfl⟩ := readUnit_eq_ok.mp hunit
      simp only [Bool.and_eq_true, Bool.or_eq_true, decide_eq_true_eq] at hrest
      -- A second half is a fault, a first half asks for its second, and all else is a character.
      split at hrest
      · cases hrest
      · next hnot =>
        split at hrest
        · next hhigh =>
          split at hrest
          · cases hrest
          · cases hrest
          · next r'' =>
            obtain ⟨⟨low, r'''⟩, hunit', hpair⟩ := Except.bind_eq_ok_iff.mp hrest
            obtain ⟨v, hv, rfl⟩ := readUnit_eq_ok.mp hunit'
            dsimp only at hpair
            split at hpair
            · cases hpair
            · next hlow =>
              obtain ⟨⟨s', _⟩, hread, hs⟩ := Except.bind_eq_ok_iff.mp hpair
              obtain ⟨rfl, rfl⟩ := Prod.mk.inj (Except.ok.inj hs)
              obtain ⟨w, hw, rfl⟩ := ih hread
              exact ⟨_, .pair hu hv hhigh (by omega) hw, by simp⟩
          · cases hrest
        · next hlow =>
          obtain ⟨⟨s', _⟩, hread, hs⟩ := Except.bind_eq_ok_iff.mp hrest
          obtain ⟨rfl, rfl⟩ := Prod.mk.inj (Except.ok.inj hs)
          obtain ⟨w, hw, rfl⟩ := ih hread
          exact ⟨_, .unit hu (by omega) hw, by simp⟩
    · cases h
    · next e r _ =>
      split at h
      · cases h
      · next d hd =>
        obtain ⟨⟨s', r'⟩, hread, h⟩ := Except.bind_eq_ok_iff.mp h
        obtain ⟨rfl, rfl⟩ := Prod.mk.inj (Except.ok.inj h)
        obtain ⟨w, hw, rfl⟩ := ih hread
        exact ⟨'\\' :: e :: w, .escape (lookup_escapes.mp hd) hw, rfl⟩
    · next c r hquote hunit hend hback =>
      split at h
      · cases h
      · next hspace =>
        have hne : c ≠ '\\' := by
          rintro rfl
          cases r with
          | nil => exact hend rfl rfl
          | cons d r => exact hback d r rfl rfl
        obtain ⟨⟨s', r'⟩, hread, h⟩ := Except.bind_eq_ok_iff.mp h
        obtain ⟨rfl, rfl⟩ := Prod.mk.inj (Except.ok.inj h)
        obtain ⟨w, hw, rfl⟩ := ih hread
        exact ⟨c :: w, .plain ⟨hquote, hne, Nat.not_lt.mp hspace⟩ hw, rfl⟩

/-- What is well formed can be unusable for one reason only. -/
theorem fault_of_formed {w : Text} (h : Formed w) {fuel : Nat} (hfuel : w.length < fuel)
    {rest : Text} {f : Fault} (hf : readUsed fuel (w ++ '"' :: rest) = .error f) :
    f = .malformed := by
  -- On the fuel: behind the first half of a pair the rest of `w` is two steps of `Formed` away.
  induction fuel generalizing w f with
  | zero => omega
  | succ fuel ih =>
    have hlater {x : Except Fault (Text × Text)} {g : Text × Text → Text × Text}
        (hx : ∀ f', x = .error f' → f' = .malformed) (hf : x.map g = .error f) : f = .malformed := by
      cases x with
      | error f' =>
        cases hf
        exact hx f rfl
      | ok p => cases hf
    cases h with
    | nil => cases hf
    | plain hc h =>
      rw [List.cons_append, readUsed_plain hc] at hf
      rw [List.length_cons] at hfuel
      exact hlater (fun f' hf' => ih h (by omega) hf') hf
    | escape he h =>
      rw [List.cons_append, List.cons_append, readUsed_escape he] at hf
      rw [List.length_cons, List.length_cons] at hfuel
      exact hlater (fun f' hf' => ih h (by omega) hf') hf
    | @unit u w n hu h =>
      rw [List.cons_append, List.cons_append, List.append_assoc] at hf
      rw [List.length_cons, List.length_cons, List.length_append] at hfuel
      by_cases hn : n < 0xD800 ∨ 0xDFFF < n
      · rw [readUsed_unit hu hn] at hf
        exact hlater (fun f' hf' => ih h (by omega) hf') hf
      · have hhalf : 0xD800 ≤ n ∧ n ≤ 0xDFFF := by omega
        -- Half of a pair: what follows decides.
        cases h with
        | nil =>
          rw [readUsed_unpaired hu hhalf (by simp) (by simp)] at hf
          exact (Except.error.inj hf).symm
        | plain hc h =>
          rw [readUsed_unpaired hu hhalf (by simp) (by simp [hc.2.1])] at hf
          exact (Except.error.inj hf).symm
        | escape he h =>
          rw [readUsed_unpaired hu hhalf (by simp) (by cases he <;> simp)] at hf
          exact (Except.error.inj hf).symm
        | @unit v w low hv h =>
          rw [List.cons_append, List.cons_append, List.append_assoc] at hf
          rw [List.length_cons, List.length_cons, List.length_append] at hfuel
          by_cases hpair : n ≤ 0xDBFF ∧ 0xDC00 ≤ low ∧ low ≤ 0xDFFF
          · rw [readUsed_pair hu hv ⟨hhalf.1, hpair.1⟩ hpair.2] at hf
            exact hlater (fun f' hf' => ih h (by omega) hf') hf
          · rw [readUsed_mispaired hu hv hhalf hpair] at hf
            exact (Except.error.inj hf).symm

end Using

theorem read_append {w : Text} (h : Formed w) (rest : Text) : read (w ++ '"' :: rest) =
    .ok ((readUsed ((w ++ '"' :: rest).length + 1) (w ++ '"' :: rest)).map (·.1), rest) := by
  have hfuel : w.length < (w ++ '"' :: rest).length + 1 := by
    rw [List.length_append]
    omega
  have hskip := readSkipped_of_formed h hfuel rest
  unfold read
  dsimp only
  rw [hskip]

theorem read_of_quoted {w : Text} {s : Except Fault Text} (h : Quoted ('"' :: w) s) (rest : Text) :
    read (w ++ rest) = .ok (s, rest) := by
  cases h with
  | @text w t h =>
    rw [List.append_assoc, List.singleton_append, read_append h.formed,
      readUsed_of_spells h (by rw [List.length_append]; omega)]
    rfl
  | @unpaired w h hnone =>
    rw [List.append_assoc, List.singleton_append, read_append h]
    cases hused : readUsed ((w ++ '"' :: rest).length + 1) (w ++ '"' :: rest) with
    | error f =>
      rw [fault_of_formed h (by rw [List.length_append]; omega) hused]
      rfl
    | ok p =>
      obtain ⟨w', hw', heq⟩ := spells_of_readUsed hused
      obtain ⟨rfl, -⟩ := h.unique hw'.formed heq
      exact absurd hw' (hnone p.1)

theorem quoted_of_read {t rest : Text} {s : Except Fault Text} (h : read t = .ok (s, rest)) :
    ∃ w, Quoted ('"' :: w) s ∧ t = w ++ rest := by
  have hskip : ∃ r, readSkipped (t.length + 1) t = .ok r := by
    unfold read at h
    dsimp only at h
    split at h
    · exact ⟨_, by assumption⟩
    · cases h
    · cases h
  obtain ⟨r, hskip⟩ := hskip
  obtain ⟨w, hw, rfl⟩ := formed_of_readSkipped hskip
  rw [read_append hw] at h
  obtain ⟨rfl, rfl⟩ := Prod.mk.inj (Except.ok.inj h)
  refine ⟨w ++ ['"'], ?_, by simp⟩
  cases hused : readUsed ((w ++ '"' :: r).length + 1) (w ++ '"' :: r) with
  | error f =>
    obtain rfl := fault_of_formed hw (by rw [List.length_append]; omega) hused
    refine .unpaired hw fun t ht => ?_
    rw [readUsed_of_spells ht (by rw [List.length_append]; omega)] at hused
    cases hused
  | ok p =>
    -- Both readings stop at the same quote.
    obtain ⟨w', hw', heq⟩ := spells_of_readUsed hused
    obtain ⟨rfl, -⟩ := hw.unique hw'.formed heq
    exact .text hw'

end String

namespace Number

/-- No digit comes next. -/
def Stops (t : Text) : Prop := ∀ c ∈ t.head?, c.isDigit = false

/-- Nothing comes next that could belong to a number. -/
def Apart (t : Text) : Prop := ∀ c ∈ t.head?, c.isDigit = false ∧ c ≠ '.' ∧ c ≠ 'e' ∧ c ≠ 'E'

theorem Apart.stops {t : Text} (h : Apart t) : Stops t := fun c hc => (h c hc).1

section Digits

variable {ds t : Text}

theorem Digits.takeWhile (hds : Digits ds) (ht : Stops t) :
    (ds ++ t).takeWhile Char.isDigit = ds := by
  rw [List.takeWhile_append_of_pos hds.2]
  cases t with
  | nil => exact List.append_nil ds
  | cons c t => rw [List.takeWhile_cons_of_neg (by simp [ht c rfl]), List.append_nil]

theorem Digits.dropWhile (hds : Digits ds) (ht : Stops t) :
    (ds ++ t).dropWhile Char.isDigit = t := by
  rw [List.dropWhile_append_of_pos hds.2]
  cases t with
  | nil => rfl
  | cons c t => exact List.dropWhile_cons_of_neg (by simp [ht c rfl])

theorem digits_takeWhile (h : t.takeWhile Char.isDigit ≠ []) : Digits (t.takeWhile Char.isDigit) :=
  ⟨h, fun _ hc => List.mem_takeWhile_imp hc⟩

end Digits

theorem readWhole_append {ds t : Text} (hds : Whole ds) (ht : Stops t) :
    readWhole (ds ++ t) = .ok (ds, t) := by
  obtain ⟨hdigits, hzero⟩ := hds
  unfold readWhole
  rw [hdigits.takeWhile ht, hdigits.dropWhile ht]
  split
  · exact absurd rfl hdigits.1
  · exact absurd (hzero rfl) (by simp)
  · rfl

theorem whole_of_readWhole {t ds rest : Text} (h : readWhole t = .ok (ds, rest)) :
    Whole ds ∧ t = ds ++ rest := by
  unfold readWhole at h
  split at h
  · cases h
  · cases h
  · next hnil hzero =>
    obtain ⟨rfl, rfl⟩ := Prod.mk.inj (Except.ok.inj h)
    refine ⟨⟨digits_takeWhile hnil, fun hhead => ?_⟩, List.takeWhile_append_dropWhile.symm⟩
    cases hds : t.takeWhile Char.isDigit with
    | nil => exact absurd hds hnil
    | cons c ds =>
      rw [hds] at hhead
      obtain rfl := Option.some.inj hhead
      cases ds with
      | nil => rfl
      | cons d ds => exact (hzero _ _ hds).elim

theorem readFraction_append {f t : Text} {fraction : Option Text} (hf : Fraction f fraction)
    (ht : Stops t) (hpoint : ∀ c ∈ t.head?, c ≠ '.') : readFraction (f ++ t) = .ok (fraction, t) := by
  cases hf with
  | none =>
    rw [List.nil_append]
    unfold readFraction
    split
    · exact absurd rfl (hpoint '.' rfl)
    · rfl
  | some h =>
    rw [List.cons_append, readFraction]
    rw [h.takeWhile ht, h.dropWhile ht, if_neg h.1]

theorem fraction_of_readFraction {t rest : Text} {fraction : Option Text}
    (h : readFraction t = .ok (fraction, rest)) : ∃ f, Fraction f fraction ∧ t = f ++ rest := by
  unfold readFraction at h
  split at h
  · next t =>
    dsimp only at h
    split at h
    · cases h
    · next hnil =>
      obtain ⟨rfl, rfl⟩ := Prod.mk.inj (Except.ok.inj h)
      refine ⟨_, .some (digits_takeWhile hnil), ?_⟩
      rw [List.cons_append, List.takeWhile_append_dropWhile]
  · obtain ⟨rfl, rfl⟩ := Prod.mk.inj (Except.ok.inj h)
    exact ⟨[], .none, rfl⟩

theorem readExponent_append {e t : Text} {exponent : Option (Bool × Text)} (he : Exponent e exponent)
    (ht : Apart t) : readExponent (e ++ t) = .ok (exponent, t) := by
  cases he with
  | none =>
    rw [List.nil_append]
    unfold readExponent
    split
    · exact absurd rfl (ht 'e' rfl).2.2.1
    · exact absurd rfl (ht 'E' rfl).2.2.2
    · rfl
  | @some e sign ds down he hs h =>
    obtain ⟨c, ds, rfl⟩ := List.exists_cons_of_ne_nil h.1
    have hplus : c ≠ '+' := by
      rintro rfl
      exact absurd (h.2 '+' List.mem_cons_self) (by decide)
    have hminus : c ≠ '-' := by
      rintro rfl
      exact absurd (h.2 '-' List.mem_cons_self) (by decide)
    have htake := h.takeWhile ht.stops
    have hdrop := h.dropWhile ht.stops
    unfold readExponent
    rcases he with rfl | rfl <;> cases hs <;> simp_all

theorem exponent_of_readExponent {t rest : Text} {exponent : Option (Bool × Text)}
    (h : readExponent t = .ok (exponent, rest)) : ∃ e, Exponent e exponent ∧ t = e ++ rest := by
  have hletter {c : Char} (hc : c = 'e' ∨ c = 'E') {sign t : Text} {down : Bool}
      (hs : Sign sign down) (h : (if t.takeWhile Char.isDigit = [] then .error (missingDigit t)
        else .ok (some (down, t.takeWhile Char.isDigit), t.dropWhile Char.isDigit)) =
          Except.ok (exponent, rest)) :
      ∃ e, Exponent e exponent ∧ c :: (sign ++ t) = e ++ rest := by
    split at h
    · cases h
    · next hnil =>
      obtain ⟨rfl, rfl⟩ := Prod.mk.inj (Except.ok.inj h)
      refine ⟨_, .some hc hs (digits_takeWhile hnil), ?_⟩
      rw [List.cons_append, List.append_assoc, List.takeWhile_append_dropWhile]
  unfold readExponent at h
  dsimp only at h
  split at h
  · next t =>
    split at h
    · exact hletter (.inl rfl) .plus h
    · exact hletter (.inl rfl) .minus h
    · exact hletter (.inl rfl) .none h
  · next t =>
    split at h
    · exact hletter (.inr rfl) .plus h
    · exact hletter (.inr rfl) .minus h
    · exact hletter (.inr rfl) .none h
  · obtain ⟨rfl, rfl⟩ := Prod.mk.inj (Except.ok.inj h)
    exact ⟨[], .none, rfl⟩

theorem read_append {negative : Bool} {w : Text} {n : Except Fault Number} (h : Spells negative w n)
    {rest : Text} (hrest : Apart rest) : read negative (w ++ rest) = .ok (n, rest) := by
  obtain ⟨hw, hf, he⟩ := h
  rename_i whole f e fraction exponent
  -- The head of what follows each part belongs to no earlier part.
  have hhead : ∀ c ∈ (e ++ rest).head?, c.isDigit = false ∧ c ≠ '.' := by
    intro c hc
    cases he with
    | none => exact ⟨(hrest c hc).1, (hrest c hc).2.1⟩
    | some he _ _ =>
      obtain rfl := Option.some.inj hc
      rcases he with rfl | rfl <;> decide
  have hstops : Stops (f ++ (e ++ rest)) := by
    intro c hc
    cases hf with
    | none => exact (hhead c hc).1
    | some _ =>
      obtain rfl := Option.some.inj hc
      rfl
  rw [List.append_assoc, List.append_assoc]
  unfold read
  rw [readWhole_append hw hstops]
  simp only [bind, Except.bind]
  rw [readFraction_append hf (fun c hc => (hhead c hc).1) (fun c hc => (hhead c hc).2)]
  dsimp only
  rw [readExponent_append he hrest]
  rfl

theorem spells_of_read {negative : Bool} {t rest : Text} {n : Except Fault Number}
    (h : read negative t = .ok (n, rest)) : ∃ w, Spells negative w n ∧ t = w ++ rest := by
  unfold read at h
  obtain ⟨⟨whole, t₁⟩, hwhole, h₁⟩ := Except.bind_eq_ok_iff.mp h
  obtain ⟨⟨fraction, t₂⟩, hfraction, h₂⟩ := Except.bind_eq_ok_iff.mp h₁
  obtain ⟨⟨exponent, t₃⟩, hexponent, h₃⟩ := Except.bind_eq_ok_iff.mp h₂
  obtain ⟨hn, rfl⟩ := Prod.mk.inj (Except.ok.inj h₃)
  obtain ⟨hw, rfl⟩ := whole_of_readWhole hwhole
  obtain ⟨f, hf, rfl⟩ := fraction_of_readFraction hfraction
  obtain ⟨e, he, rfl⟩ := exponent_of_readExponent hexponent
  refine ⟨whole ++ (f ++ e), ?_, by simp⟩
  rw [← hn]
  exact .parts hw hf he

end Number

end Highlighter.Json
