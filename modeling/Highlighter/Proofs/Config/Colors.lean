import Highlighter.Config
import Highlighter.Language
import Mathlib.Data.List.Nodup

/-! The styler of a configuration. Its colours are set one after another, but a dictionary has each
name once, so that each category gets the colour under its own name and no other (`color_styler`);
names of no category are told in order and change nothing. -/
namespace Highlighter

namespace Category

theorem ofName?_eq_some_iff {name : Text} {c : Category} :
    ofName? name = some c ↔ c.name = name := by
  constructor
  · intro h
    have hfound := List.find?_some (p := fun c : Category => decide (c.name = name)) h
    exact of_decide_eq_true hfound
  · rintro rfl
    exact ofName?_name c

theorem ofName?_eq_none_iff {name : Text} :
    ofName? name = none ↔ ∀ c : Category, c.name ≠ name := by
  rw [Option.eq_none_iff_forall_not_mem]
  exact forall_congr' fun c => not_congr ofName?_eq_some_iff

end Category

namespace Config

/-- An entry changes the colour of the category of its name only. -/
theorem color_addColor (p : Palette) (entry : Text × Text) (c : Category) :
    (addColor p entry).color c = if c.name = entry.1 then entry.2 else p.color c := by
  unfold addColor
  cases h : Category.ofName? entry.1 with
  | none => exact (if_neg (Category.ofName?_eq_none_iff.mp h c)).symm
  | some c' =>
    have hname : c = c' ↔ c.name = entry.1 := by
      rw [← Category.ofName?_eq_some_iff, h, Option.some_inj, eq_comm]
    simp only [Palette.color_set, hname]

/-- Where each name stands once, the order of the entries makes no difference to a colour. -/
theorem color_foldl_addColor {entries : List (Text × Text)} (h : (entries.map (·.1)).Nodup)
    (p : Palette) (c : Category) :
    (entries.foldl addColor p).color c = (entries.lookup c.name).getD (p.color c) := by
  induction entries generalizing p with
  | nil => rfl
  | cons entry entries ih =>
    obtain ⟨hfirst, hrest⟩ := List.nodup_cons.mp h
    rw [List.foldl_cons, ih hrest, color_addColor, List.lookup_cons]
    by_cases hname : c.name = entry.1
    · have hnone : entries.lookup c.name = none := by
        rw [List.lookup_eq_none_iff]
        intro e he
        exact bne_iff_ne.mpr fun heq => hfirst (List.mem_map.mpr ⟨e, he, heq.symm.trans hname⟩)
      rw [if_pos hname, hnone, hname, beq_self_eq_true]
      rfl
    · rw [if_neg hname, beq_false_of_ne hname]

theorem color_styler (c : Config) (cat : Category) :
    c.styler.palette.color cat = (c.colors.find? cat.name).getD (Palette.default.color cat) :=
  color_foldl_addColor (List.Pairwise.nodup c.colors.sorted) Palette.default cat

/-- Names of no category make no difference to the styler. -/
theorem styler_congr {c c' : Config}
    (hmode : c'.mode = c.mode) (hstyle : c'.containerStyle = c.containerStyle)
    (hcolors : ∀ cat : Category, c'.colors.find? cat.name = c.colors.find? cat.name) :
    c'.styler = c.styler := by
  have hpalette : c'.styler.palette.color = c.styler.palette.color := by
    funext cat
    rw [color_styler, color_styler, hcolors]
  change Styler.mk c'.mode ⟨c'.styler.palette.color⟩ (c'.containerStyle.getD _) = _
  rw [hmode, hstyle, hpalette]
  rfl

/-- The names in a configuration that are no names of categories. -/
def unknownNames (c : Config) : List Text :=
  c.colors.names.filter fun name => (Category.ofName? name).isNone

theorem mem_unknownNames (c : Config) (name : Text) :
    name ∈ c.unknownNames ↔ name ∈ c.colors.names ∧ ∀ cat : Category, cat.name ≠ name := by
  rw [unknownNames, List.mem_filter, Option.isNone_iff_eq_none, Category.ofName?_eq_none_iff]

/-- A configuration is taken at its word. In its styler each category has the colour that stands
under exactly its name, or its default colour; the mode is that of the configuration, and so is the
container style, unless there is none. Each name of no category is told in one warning, in order of
the names, and nothing else is told. Two configurations that differ only in such names format every
input alike, in every language. -/
theorem styler_of_colors (c : Config) :
    (∀ cat : Category, c.styler.palette.color cat =
      (c.colors.find? cat.name).getD (Palette.default.color cat)) ∧
    c.styler.mode = c.mode ∧
    c.styler.containerStyle = c.containerStyle.getD Styler.defaultContainerStyle ∧
    (∃ names : List Text, names.Pairwise (· < ·) ∧
      (∀ name, name ∈ names ↔ name ∈ c.colors.names ∧ ∀ cat : Category, cat.name ≠ name) ∧
      c.stylerEvents.map (fun e => (e.level, e.message)) =
        names.map fun name => (.warn, "Unknown category in [colors]: ".toList ++ name)) ∧
    ∀ c' : Config, c'.mode = c.mode → c'.containerStyle = c.containerStyle →
      (∀ cat : Category, c'.colors.find? cat.name = c.colors.find? cat.name) →
      ∀ (l : Language) (input : Text),
        (l.engine c'.styler).format input = (l.engine c.styler).format input := by
  refine ⟨c.color_styler, rfl, rfl, ⟨c.unknownNames,
    c.colors.pairwise_names.sublist List.filter_sublist, c.mem_unknownNames, ?_⟩, ?_⟩
  · rw [stylerEvents, List.map_map]
    rfl
  · intro c' hmode hstyle hcolors l input
    rw [styler_congr hmode hstyle hcolors]

/-- One category with a colour, between two names of none. -/
theorem styler_of_colors_of_unknown :
    let c : Config :=
      ⟨.inline, none, .ofEntries [("Data", "red"), ("data", "#000000"), ("keyword", "blue")]⟩
    let c' : Config := ⟨.inline, none, .ofEntries [("data", "#000000")]⟩
    c.styler.palette.color .data = "#000000" ∧ c.styler.palette.color .radix = "#cc00cc" ∧
      c.stylerEvents = [.unknownColor "Data", .unknownColor "keyword"] ∧
      ∀ (l : Language) (input : Text),
        (l.engine c'.styler).format input = (l.engine c.styler).format input := by
  intro c c'
  obtain ⟨hcolor, _, _, _, hformat⟩ := styler_of_colors c
  refine ⟨(hcolor .data).trans rfl, (hcolor .radix).trans rfl, by decide +kernel, ?_⟩
  exact hformat c' rfl rfl fun cat => by cases cat <;> rfl

end Config

end Highlighter
