import Highlighter.Catalog
import Highlighter.Proofs.Json.Values

/-! Which texts are sample documents. The catalog of a text is there exactly if the text is a JSON
value of the form that is asked for, and it is whole: one sample for each record, in order. -/
namespace Highlighter

namespace Json

/-- A value without a break. -/
def Phrase.Intact : Phrase → Prop
  | value v | padded v => v.skipFault? = none
  | items vs => skipItems? vs = none
  | members ms => skipMembers? ms = none

theorem Spells.intact {t : Text} {p : Phrase} (h : Spells t p) : p.Intact := by
  induction h with
  | null | true | false | number | negative | string | emptyArray | emptyObject => rfl
  | array _ ih | object _ ih => exact (Option.or_none).trans ih
  | padded _ _ _ ih => exact ih
  | lastItem _ ih | lastMember _ _ _ _ ih => exact (Option.or_none).trans ih
  | item _ _ ih ihlater | member _ _ _ _ _ ih ihlater =>
    exact Option.or_eq_none_iff.mpr ⟨ih, ihlater⟩

/-- An array of strings. -/
def lines (ts : List Text) : Json := array (ts.map fun t => string (.ok t)) none

/-- The values that stand under a key, in order. -/
def under (key : Text) (ms : List (Except Fault Text × Json)) : List Json :=
  ms.filterMap fun m => if m.1.toOption = some key then some m.2 else none

@[simp]
theorem under_nil (key : Text) : under key [] = [] := rfl

theorem skipFault?_of_mem_under {key : Text} {ms : List (Except Fault Text × Json)}
    (hms : skipMembers? ms = none) {v : Json} (hv : v ∈ under key ms) : v.skipFault? = none := by
  induction ms with
  | nil => cases hv
  | cons m ms ih =>
    obtain ⟨hm, hms⟩ := Option.or_eq_none_iff.mp hms
    by_cases hkey : m.1.toOption = some key
    · have hunder : under key (m :: ms) = m.2 :: under key ms := by simp [under, hkey]
      obtain rfl | hv := List.mem_cons.mp (hunder ▸ hv)
      · exact hm
      · exact ih hms hv
    · have hunder : under key (m :: ms) = under key ms := by simp [under, hkey]
      exact ih hms (hunder ▸ hv)

/-- All keys can be used. -/
def KeysReadable (ms : List (Except Fault Text × Json)) : Prop := ∀ m ∈ ms, ∃ key, m.1 = .ok key

theorem text_eq_ok_iff {v : Json} {t : Text} : text v = .ok t ↔ v = string (.ok t) := by
  constructor
  · intro h
    unfold text at h
    split at h
    · rw [Except.ok.inj h]
    · cases h
  · rintro rfl
    rfl

theorem skip_eq_ok_iff {v : Json} : skip v = .ok () ↔ v.skipFault? = none := by
  unfold skip
  cases v.skipFault? <;> simp

theorem close_eq_ok_iff {ending : Option Break} : close ending = .ok () ↔ ending = none := by
  cases ending <;> simp [close]

section Decoders

variable {α : Type} {decoder : Decoder α}

theorem list_eq_ok_iff {v : Json} {as : List α} : list decoder v = .ok as ↔
    ∃ vs, v = array vs none ∧ List.Forall₂ (fun v a => decoder v = .ok a) vs as := by
  constructor
  · intro h
    unfold list at h
    split at h
    · next vs ending =>
      obtain ⟨as', has, h⟩ := Except.bind_eq_ok_iff.mp h
      obtain ⟨⟨⟩, hclose, h⟩ := Except.bind_eq_ok_iff.mp h
      obtain rfl := Except.ok.inj h
      obtain rfl := close_eq_ok_iff.mp hclose
      exact ⟨vs, rfl, Except.mapM_eq_ok_iff.mp has⟩
    · cases h
  · rintro ⟨vs, rfl, h⟩
    rw [list, Except.mapM_eq_ok_iff.mpr h]
    rfl

theorem list_text_eq_ok_iff {v : Json} {ts : List Text} :
    list text v = .ok ts ↔ v = lines ts := by
  rw [list_eq_ok_iff]
  simp only [text_eq_ok_iff]
  constructor
  · rintro ⟨vs, rfl, h⟩
    have hvs : vs = ts.map fun t => string (.ok t) :=
      List.forall₂_eq_eq_eq ▸ List.forall₂_map_right_iff.mpr h
    rw [hvs, lines]
  · rintro rfl
    exact ⟨_, rfl, List.forall₂_map_left_iff.mpr (List.forall₂_same.mpr fun _ _ => rfl)⟩

/-- The next item of an array without a break. -/
theorem nextItem_eq_ok_iff {expected : Text} {count : Nat} {vs vs' : List Json} {a : α} :
    nextItem decoder expected none count vs = .ok (a, vs') ↔
      ∃ v, vs = v :: vs' ∧ decoder v = .ok a := by
  cases vs with
  | nil => exact ⟨nofun, nofun⟩
  | cons v vs =>
    rw [nextItem, Except.map_eq_ok_iff]
    constructor
    · rintro ⟨a', ha, h⟩
      obtain ⟨rfl, rfl⟩ := Prod.mk.inj h
      exact ⟨v, rfl, ha⟩
    · rintro ⟨v', h, ha⟩
      obtain ⟨rfl, rfl⟩ := List.cons.inj h
      exact ⟨a, ha, rfl⟩

theorem noMoreItems_eq_ok_iff {vs : List Json} : noMoreItems none vs = .ok () ↔ vs = [] := by
  cases vs with
  | nil => exact ⟨fun _ => rfl, fun _ => rfl⟩
  | cons v vs => exact ⟨nofun, nofun⟩

/-- What becomes of a field that has been seen or not when the values under its name are read. -/
inductive Gathers (decoder : Decoder α) : Option α → List Json → Option α → Prop
  | none (seen : Option α) : Gathers decoder seen [] seen
  | once {v : Json} {a : α} (h : decoder v = .ok a) : Gathers decoder none [v] (some a)

theorem gathers_nil_iff {seen seen' : Option α} :
    Gathers decoder seen [] seen' ↔ seen = seen' :=
  ⟨fun h => by cases h; rfl, fun h => h ▸ .none seen⟩

theorem gathers_cons_iff (key : Text) {seen seen' : Option α} {v : Json} {vs : List Json} :
    Gathers decoder seen (v :: vs) seen' ↔
      ∃ now, onceField key seen decoder v = .ok now ∧ Gathers decoder now vs seen' := by
  constructor
  · intro h
    cases h with
    | @once _ a ha => exact ⟨some a, Except.map_eq_ok_iff.mpr ⟨a, ha, rfl⟩, .none _⟩
  · rintro ⟨now, hnow, h⟩
    cases seen with
    | some a => cases hnow
    | none =>
      obtain ⟨a, ha, rfl⟩ := Except.map_eq_ok_iff.mp hnow
      cases h
      exact .once ha

theorem gathers_none_iff {vs : List Json} : Gathers decoder none vs none ↔ vs = [] := by
  constructor
  · intro h
    cases h
    rfl
  · rintro rfl
    exact .none none

theorem gathers_some_iff {vs : List Json} {a : α} :
    Gathers decoder none vs (some a) ↔ ∃ v, vs = [v] ∧ decoder v = .ok a := by
  constructor
  · intro h
    cases h with
    | once ha => exact ⟨_, rfl, ha⟩
  · rintro ⟨v, rfl, ha⟩
    exact .once ha

theorem neededField_eq_ok_iff {name : Text} {seen : Option α} {a : α} :
    neededField name seen = .ok a ↔ seen = some a := by
  cases seen <;> simp [neededField]

/-- What becomes of a field when a member is read that may stand under its name. -/
def Takes (decoder : Decoder α) (field key : Text) (v : Json) (seen now : Option α) : Prop :=
  if key = field then onceField key seen decoder v = .ok now else now = seen

theorem gathers_under_cons {field key : Text} {v : Json} {ms : List (Except Fault Text × Json)}
    {seen seen' : Option α} : Gathers decoder seen (under field ((.ok key, v) :: ms)) seen' ↔
      ∃ now, Takes decoder field key v seen now ∧ Gathers decoder now (under field ms) seen' := by
  unfold Takes
  by_cases h : key = field
  · have hunder : under field ((.ok key, v) :: ms) = v :: under field ms := by
      simp [under, Except.toOption, h]
    simp only [hunder, if_pos h]
    exact gathers_cons_iff key
  · have hunder : under field ((.ok key, v) :: ms) = under field ms := by
      simp [under, Except.toOption, h]
    simp only [hunder, if_neg h, exists_eq_left]

end Decoders

/-- Reading members one after another: `R` says what becomes of what has been seen, member by
member. -/
theorem foldlM_eq_ok_iff {δ : Type} {add : δ → Except Fault Text × Json → Except Problem δ}
    (R : δ → List (Except Fault Text × Json) → δ → Prop) (hnil : ∀ d d', R d [] d' ↔ d = d')
    (hcons : ∀ {d d' key v ms}, v.skipFault? = none →
      (R d ((.ok key, v) :: ms) d' ↔ ∃ now, add d (.ok key, v) = .ok now ∧ R now ms d'))
    (herror : ∀ {d f v d'}, add d (.error f, v) ≠ .ok d') {ms : List (Except Fault Text × Json)}
    (hms : skipMembers? ms = none) {d d' : δ} :
    ms.foldlM add d = .ok d' ↔ KeysReadable ms ∧ R d ms d' := by
  induction ms generalizing d with
  | nil =>
    rw [hnil]
    exact ⟨fun h => ⟨fun _ hm => absurd hm List.not_mem_nil, Except.ok.inj h⟩,
      fun h => congrArg Except.ok h.2⟩
  | cons m ms ih =>
    obtain ⟨key, v⟩ := m
    obtain ⟨hv, hms⟩ := Option.or_eq_none_iff.mp hms
    rw [List.foldlM_cons, Except.bind_eq_ok_iff]
    simp only [ih hms]
    -- A key that cannot be used ends the reading at once; any other goes to the step.
    cases key with
    | error f =>
      constructor
      · rintro ⟨_, h, _⟩
        exact absurd h herror
      · rintro ⟨h, _⟩
        obtain ⟨_, hkey⟩ := h _ List.mem_cons_self
        cases hkey
    | ok key =>
      have hkeys : KeysReadable ((.ok key, v) :: ms) ↔ KeysReadable ms := by simp [KeysReadable]
      rw [hcons hv, hkeys]
      constructor
      · rintro ⟨now, hnow, hkeys, h⟩
        exact ⟨hkeys, now, hnow, h⟩
      · rintro ⟨hkeys, now, hnow, h⟩
        exact ⟨now, hnow, hkeys, h⟩

end Json

namespace Sample

open Json

/-- The record of a sample: an object in which each of the four fields stands once, or the array of
the fields. Other keys and their values do not matter. -/
inductive IsRecord : Json → Sample → Prop
  | object {ms : List (Except Json.Fault Text × Json)} {name format : Text}
      {description code : List Text} (hkeys : KeysReadable ms)
      (hname : under "name" ms = [string (.ok name)])
      (hformat : under "format" ms = [string (.ok format)])
      (hdescription : under "description" ms = [lines description])
      (hcode : under "code" ms = [lines code]) :
      IsRecord (.object ms none) ⟨name, format, Text.unlines description, Text.unlines code⟩
  | array (name format : Text) (description code : List Text) :
      IsRecord (.array [string (.ok name), string (.ok format), lines description, lines code] none)
        ⟨name, format, Text.unlines description, Text.unlines code⟩

theorem Draft.add_eq_ok_iff {key : Text} {v : Json} (hv : v.skipFault? = none) {d d' : Draft} :
    d.add (.ok key, v) = .ok d' ↔
      Takes text "name" key v d.name d'.name ∧ Takes text "format" key v d.format d'.format ∧
      Takes (list text) "description" key v d.description d'.description ∧
      Takes (list text) "code" key v d.code d'.code := by
  obtain ⟨n, f, de, c⟩ := d
  obtain ⟨n', f', de', c'⟩ := d'
  have hskip := skip_eq_ok_iff.mpr hv
  unfold Draft.add Takes
  dsimp only
  -- One case for each name of a field, and one for all other keys.
  split_ifs <;> simp_all [Except.map_eq_ok_iff] <;> grind

/-- What becomes of the fields seen so far when members are read. -/
def Draft.Gathers (d : Draft) (ms : List (Except Json.Fault Text × Json)) (d' : Draft) : Prop :=
  Json.Gathers text d.name (under "name" ms) d'.name ∧
  Json.Gathers text d.format (under "format" ms) d'.format ∧
  Json.Gathers (list text) d.description (under "description" ms) d'.description ∧
  Json.Gathers (list text) d.code (under "code" ms) d'.code

theorem foldlM_add_eq_ok_iff {ms : List (Except Json.Fault Text × Json)}
    (hms : skipMembers? ms = none) {d d' : Draft} :
    ms.foldlM Draft.add d = .ok d' ↔ KeysReadable ms ∧ d.Gathers ms d' := by
  apply foldlM_eq_ok_iff Draft.Gathers ?nil ?cons ?error hms
  case nil =>
    rintro ⟨n, f, de, c⟩ ⟨n', f', de', c'⟩
    simp only [Draft.Gathers, under_nil, gathers_nil_iff, Draft.mk.injEq]
  case cons =>
    intro d d' key v ms hv
    simp only [Draft.add_eq_ok_iff hv, Draft.Gathers, gathers_under_cons]
    constructor
    · rintro ⟨⟨n, hn, hn'⟩, ⟨f, hf, hf'⟩, ⟨d, hd, hd'⟩, ⟨c, hc, hc'⟩⟩
      exact ⟨⟨n, f, d, c⟩, ⟨hn, hf, hd, hc⟩, hn', hf', hd', hc'⟩
    · rintro ⟨now, ⟨hn, hf, hd, hc⟩, hn', hf', hd', hc'⟩
      exact ⟨⟨_, hn, hn'⟩, ⟨_, hf, hf'⟩, ⟨_, hd, hd'⟩, ⟨_, hc, hc'⟩⟩
  case error =>
    intro d f v d' h
    cases h

theorem Draft.sample_eq_ok_iff {d : Draft} {s : Sample} : d.sample = .ok s ↔
    ∃ name format description code, d = ⟨some name, some format, some description, some code⟩ ∧
      s = ⟨name, format, Text.unlines description, Text.unlines code⟩ := by
  obtain ⟨n, f, de, c⟩ := d
  unfold Draft.sample
  simp only [Except.bind_eq_ok_iff, neededField_eq_ok_iff]
  constructor
  · rintro ⟨name, rfl, format, rfl, description, rfl, code, rfl, h⟩
    exact ⟨name, format, description, code, rfl, (Except.ok.inj h).symm⟩
  · rintro ⟨name, format, description, code, h, rfl⟩
    obtain ⟨rfl, rfl, rfl, rfl⟩ := Draft.mk.inj h
    exact ⟨name, rfl, format, rfl, description, rfl, code, rfl, rfl⟩

theorem decoder_object_eq_ok_iff {ms : List (Except Json.Fault Text × Json)}
    (hms : skipMembers? ms = none) {s : Sample} :
    decoder (.object ms none) = .ok s ↔ IsRecord (.object ms none) s := by
  have hdecoder : decoder (.object ms none) = .ok s ↔
      ∃ d, ms.foldlM Draft.add ⟨none, none, none, none⟩ = .ok d ∧ d.sample = .ok s :=
    Except.bind_eq_ok_iff
  rw [hdecoder]
  simp only [foldlM_add_eq_ok_iff hms, Draft.sample_eq_ok_iff]
  constructor
  · rintro ⟨_, ⟨hkeys, hn, hf, hd, hc⟩, name, format, description, code, rfl, rfl⟩
    simp only [gathers_some_iff, text_eq_ok_iff, list_text_eq_ok_iff, exists_eq_right]
      at hn hf hd hc
    exact .object hkeys hn hf hd hc
  · rintro (_ | _)
    next name format description code hkeys hn hf hd hc =>
    refine ⟨_, ⟨hkeys, ?_, ?_, ?_, ?_⟩, name, format, description, code, rfl, rfl⟩
    · exact gathers_some_iff.mpr ⟨_, hn, text_eq_ok_iff.mpr rfl⟩
    · exact gathers_some_iff.mpr ⟨_, hf, text_eq_ok_iff.mpr rfl⟩
    · exact gathers_some_iff.mpr ⟨_, hd, list_text_eq_ok_iff.mpr rfl⟩
    · exact gathers_some_iff.mpr ⟨_, hc, list_text_eq_ok_iff.mpr rfl⟩

theorem decoder_array_eq_ok_iff {vs : List Json} {s : Sample} :
    decoder (.array vs none) = .ok s ↔ IsRecord (.array vs none) s := by
  constructor
  · -- Each field takes the next item, and after the fourth there is none left.
    intro h
    obtain ⟨⟨name, vs₁⟩, hn, h₁⟩ := Except.bind_eq_ok_iff.mp h
    obtain ⟨⟨format, vs₂⟩, hf, h₂⟩ := Except.bind_eq_ok_iff.mp h₁
    obtain ⟨⟨description, vs₃⟩, hd, h₃⟩ := Except.bind_eq_ok_iff.mp h₂
    obtain ⟨⟨code, vs₄⟩, hc, h₄⟩ := Except.bind_eq_ok_iff.mp h₃
    obtain ⟨⟨⟩, hend, h₅⟩ := Except.bind_eq_ok_iff.mp h₄
    obtain rfl := Except.ok.inj h₅
    simp only [nextItem_eq_ok_iff, text_eq_ok_iff, list_text_eq_ok_iff, noMoreItems_eq_ok_iff]
      at hn hf hd hc hend
    obtain ⟨_, rfl, rfl⟩ := hn
    obtain ⟨_, rfl, rfl⟩ := hf
    obtain ⟨_, rfl, rfl⟩ := hd
    obtain ⟨_, rfl, rfl⟩ := hc
    obtain rfl := hend
    exact .array name format description code
  · intro h
    cases h with
    | array name format description code =>
      have hlines (ts : List Text) : list text (lines ts) = .ok ts := list_text_eq_ok_iff.mpr rfl
      simp only [decoder, nextItem, hlines, text, Except.map, bind, Except.bind, noMoreItems, close]
      rfl

/-- A value without a break is read as a sample exactly if it is the record of it. -/
theorem decoder_eq_ok_iff {v : Json} (hv : v.skipFault? = none) {s : Sample} :
    decoder v = .ok s ↔ IsRecord v s := by
  cases v with
  | object ms ending =>
    obtain ⟨hms, hending⟩ := Option.or_eq_none_iff.mp hv
    obtain rfl := Option.map_eq_none_iff.mp hending
    exact decoder_object_eq_ok_iff hms
  | array vs ending =>
    obtain ⟨_, hending⟩ := Option.or_eq_none_iff.mp hv
    obtain rfl := Option.map_eq_none_iff.mp hending
    exact decoder_array_eq_ok_iff
  | null | bool | number | string | broken => exact ⟨nofun, nofun⟩

end Sample

namespace Catalog

open Json

/-- The document of a catalog: an object with samples and perhaps an example, or the array of both.
Other keys and their values do not matter. -/
inductive IsDocument : Json → Catalog → Prop
  | object {ms : List (Except Json.Fault Text × Json)} {exampleLines : List Text} {vs : List Json}
      {samples : List Sample} (hkeys : KeysReadable ms)
      (hexample : under "example" ms = [] ∧ exampleLines = [] ∨
        under "example" ms = [lines exampleLines])
      (hsamples : under "samples" ms = [.array vs none])
      (hrecords : List.Forall₂ Sample.IsRecord vs samples) :
      IsDocument (.object ms none) ⟨exampleLines, samples⟩
  | array (exampleLines : List Text) {vs : List Json} {samples : List Sample}
      (hrecords : List.Forall₂ Sample.IsRecord vs samples) :
      IsDocument (.array [lines exampleLines, .array vs none] none) ⟨exampleLines, samples⟩

theorem Draft.add_eq_ok_iff {key : Text} {v : Json} (hv : v.skipFault? = none) {d d' : Draft} :
    d.add (.ok key, v) = .ok d' ↔
      Takes (list text) "example" key v d.exampleLines d'.exampleLines ∧
      Takes (list Sample.decoder) "samples" key v d.samples d'.samples := by
  obtain ⟨e, s⟩ := d
  obtain ⟨e', s'⟩ := d'
  have hskip := skip_eq_ok_iff.mpr hv
  unfold Draft.add Takes
  dsimp only
  split_ifs <;> simp_all [Except.map_eq_ok_iff] <;> grind

/-- What becomes of the fields seen so far when members are read. -/
def Draft.Gathers (d : Draft) (ms : List (Except Json.Fault Text × Json)) (d' : Draft) : Prop :=
  Json.Gathers (list text) d.exampleLines (under "example" ms) d'.exampleLines ∧
  Json.Gathers (list Sample.decoder) d.samples (under "samples" ms) d'.samples

theorem foldlM_add_eq_ok_iff {ms : List (Except Json.Fault Text × Json)}
    (hms : skipMembers? ms = none) {d d' : Draft} :
    ms.foldlM Draft.add d = .ok d' ↔ KeysReadable ms ∧ d.Gathers ms d' := by
  apply foldlM_eq_ok_iff Draft.Gathers ?nil ?cons ?error hms
  case nil =>
    rintro ⟨e, s⟩ ⟨e', s'⟩
    simp only [Draft.Gathers, under_nil, gathers_nil_iff, Draft.mk.injEq]
  case cons =>
    intro d d' key v ms hv
    simp only [Draft.add_eq_ok_iff hv, Draft.Gathers, gathers_under_cons]
    constructor
    · rintro ⟨⟨e, he, he'⟩, ⟨s, hs, hs'⟩⟩
      exact ⟨⟨e, s⟩, ⟨he, hs⟩, he', hs'⟩
    · rintro ⟨now, ⟨he, hs⟩, he', hs'⟩
      exact ⟨⟨_, he, he'⟩, ⟨_, hs, hs'⟩⟩
  case error =>
    intro d f v d' h
    cases h

theorem forall₂_decoder_iff {vs : List Json} (hvs : skipItems? vs = none) {samples : List Sample} :
    List.Forall₂ (fun v s => Sample.decoder v = .ok s) vs samples ↔
      List.Forall₂ Sample.IsRecord vs samples := by
  induction vs generalizing samples with
  | nil => simp only [List.forall₂_nil_left_iff]
  | cons v vs ih =>
    obtain ⟨hv, hvs⟩ := Option.or_eq_none_iff.mp hvs
    simp only [List.forall₂_cons_left_iff, ih hvs, Sample.decoder_eq_ok_iff hv]

/-- The samples of a value without a break. -/
theorem list_sample_eq_ok_iff {v : Json} (hv : v.skipFault? = none) {samples : List Sample} :
    list Sample.decoder v = .ok samples ↔
      ∃ vs, v = .array vs none ∧ List.Forall₂ Sample.IsRecord vs samples := by
  rw [list_eq_ok_iff]
  refine exists_congr fun vs => and_congr_right ?_
  rintro rfl
  exact forall₂_decoder_iff (Option.or_eq_none_iff.mp hv).1

theorem decoder_object_eq_ok_iff {ms : List (Except Json.Fault Text × Json)}
    (hms : skipMembers? ms = none) {c : Catalog} :
    decoder (.object ms none) = .ok c ↔ IsDocument (.object ms none) c := by
  have hdecoder : decoder (.object ms none) =
      ms.foldlM Draft.add ⟨none, none⟩ >>= fun d =>
        neededField "samples" d.samples >>= fun samples =>
          .ok ⟨d.exampleLines.getD [], samples⟩ := rfl
  have hsome {vs : List Json} {ts : List Text} :
      Gathers (list text) none vs (some ts) ↔ vs = [lines ts] := by
    simp only [gathers_some_iff, list_text_eq_ok_iff, exists_eq_right]
  rw [hdecoder]
  simp only [Except.bind_eq_ok_iff, foldlM_add_eq_ok_iff hms, neededField_eq_ok_iff]
  constructor
  · rintro ⟨⟨seen, _⟩, ⟨hkeys, hexample, hsamples⟩, samples, rfl, h⟩
    obtain rfl := Except.ok.inj h
    obtain ⟨v, hv, hsample⟩ := gathers_some_iff.mp hsamples
    -- What can be skipped is without a break, so the one value of the field is without a break too.
    have hintact : v.skipFault? = none := skipFault?_of_mem_under hms (hv ▸ List.mem_cons_self)
    obtain ⟨vs, rfl, hrecords⟩ := (list_sample_eq_ok_iff hintact).mp hsample
    refine .object hkeys ?_ hv hrecords
    cases seen with
    | none => exact .inl ⟨gathers_none_iff.mp hexample, rfl⟩
    | some ts => exact .inr (hsome.mp hexample)
  · intro h
    cases h with
    | @object _ exampleLines vs samples hkeys hexample hsamples hrecords =>
      have hintact : (Json.array vs none).skipFault? = none :=
        skipFault?_of_mem_under hms (hsamples ▸ List.mem_cons_self)
      have hgathers : Gathers (list Sample.decoder) none (under "samples" ms) (some samples) :=
        gathers_some_iff.mpr ⟨_, hsamples, (list_sample_eq_ok_iff hintact).mpr ⟨vs, rfl, hrecords⟩⟩
      obtain ⟨hnone, rfl⟩ | hone := hexample
      · exact ⟨⟨none, some samples⟩, ⟨hkeys, gathers_none_iff.mpr hnone, hgathers⟩, samples, rfl, rfl⟩
      · exact ⟨⟨some exampleLines, some samples⟩, ⟨hkeys, hsome.mpr hone, hgathers⟩, samples, rfl,
          rfl⟩

theorem decoder_array_eq_ok_iff {vs : List Json} (hvs : skipItems? vs = none) {c : Catalog} :
    decoder (.array vs none) = .ok c ↔ IsDocument (.array vs none) c := by
  constructor
  · intro h
    cases vs with
    | nil => cases h
    | cons v vs =>
      obtain ⟨exampleLines, he, h₁⟩ := Except.bind_eq_ok_iff.mp h
      obtain ⟨⟨samples, vs₁⟩, hs, h₂⟩ := Except.bind_eq_ok_iff.mp h₁
      obtain ⟨⟨⟩, hend, h₃⟩ := Except.bind_eq_ok_iff.mp h₂
      obtain rfl := Except.ok.inj h₃
      obtain ⟨w, rfl, hw⟩ := nextItem_eq_ok_iff.mp hs
      obtain rfl := noMoreItems_eq_ok_iff.mp hend
      obtain rfl := list_text_eq_ok_iff.mp he
      have hintact : w.skipFault? = none :=
        (Option.or_eq_none_iff.mp (Option.or_eq_none_iff.mp hvs).2).1
      obtain ⟨ws, rfl, hrecords⟩ := (list_sample_eq_ok_iff hintact).mp hw
      exact .array exampleLines hrecords
  · intro h
    cases h with
    | @array exampleLines ws samples hrecords =>
      have hintact : (Json.array ws none).skipFault? = none :=
        (Option.or_eq_none_iff.mp (Option.or_eq_none_iff.mp hvs).2).1
      have hlines : list text (lines exampleLines) = .ok exampleLines :=
        list_text_eq_ok_iff.mpr rfl
      have hws : list Sample.decoder (.array ws none) = .ok samples :=
        (list_sample_eq_ok_iff hintact).mpr ⟨ws, rfl, hrecords⟩
      refine Except.bind_eq_ok_iff.mpr ⟨exampleLines, hlines, ?_⟩
      refine Except.bind_eq_ok_iff.mpr ⟨(samples, []), nextItem_eq_ok_iff.mpr ⟨_, rfl, hws⟩, ?_⟩
      exact Except.bind_eq_ok_iff.mpr ⟨(), noMoreItems_eq_ok_iff.mpr rfl, rfl⟩

theorem decoder_eq_ok_iff {v : Json} (hv : v.skipFault? = none) {c : Catalog} :
    decoder v = .ok c ↔ IsDocument v c := by
  cases v with
  | object ms ending =>
    obtain ⟨hms, hending⟩ := Option.or_eq_none_iff.mp hv
    obtain rfl := Option.map_eq_none_iff.mp hending
    exact decoder_object_eq_ok_iff hms
  | array vs ending =>
    obtain ⟨hvs, hending⟩ := Option.or_eq_none_iff.mp hv
    obtain rfl := Option.map_eq_none_iff.mp hending
    exact decoder_array_eq_ok_iff hvs
  | null | bool | number | string | broken => exact ⟨nofun, nofun⟩

theorem ofJson_eq_ok_iff {t : Text} {c : Catalog} :
    ofJson t = .ok c ↔ ∃ v, IsText t v ∧ IsDocument v c := by
  unfold ofJson
  rw [decode_eq_ok_iff]
  exact exists_congr fun v => and_congr_right fun h => decoder_eq_ok_iff h.intact

/-- A text gives a catalog exactly if it is one value that is a document, and then the catalog of
the document. Every other text is rejected as a whole. -/
theorem ofJson_accepts_documents (t : Text) :
    (∀ c, ofJson t = .ok c ↔ ∃ v, IsText t v ∧ IsDocument v c) ∧
      ((∃ p, ofJson t = .error p) ↔ ¬ ∃ v c, IsText t v ∧ IsDocument v c) := by
  refine ⟨fun c => ofJson_eq_ok_iff, ?_⟩
  constructor
  · rintro ⟨p, hp⟩ ⟨v, c, h⟩
    have hc : ofJson t = .ok c := ofJson_eq_ok_iff.mpr ⟨v, h⟩
    rw [hp] at hc
    cases hc
  · intro hnone
    cases h : ofJson t with
    | error p => exact ⟨p, rfl⟩
    | ok c =>
      obtain ⟨v, hv⟩ := ofJson_eq_ok_iff.mp h
      exact absurd ⟨v, c, hv⟩ hnone

/-- Both the document and its one record are arrays, and there is no description. -/
example : ofJson "[[], [[\"one\", \"lavendeux\", [], [\"x = 1\", \"x\"]]]]" =
    .ok ⟨[], [⟨"one", "lavendeux", [], "x = 1\nx"⟩]⟩ := by cbv

end Catalog

end Highlighter
