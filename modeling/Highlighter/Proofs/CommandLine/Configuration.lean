import Highlighter.Main
import Highlighter.Proofs.CommandLine.Commands
import Highlighter.Proofs.Config.Colors
import Highlighter.Proofs.Files.Paths

/-! Which configuration counts, and what it does not depend on. A command that is told which
configuration to use does not see the one in the working directory, and a new configuration file is
made without reading any. -/
namespace Highlighter

open FileSystem

theorem Config.toOption_load (fs : FileSystem) (path : Text) :
    (Config.load fs path).toOption = (fs.read path).toOption.bind fun t => (ofText t).toOption := by
  unfold Config.load
  cases fs.read path with
  | error e => rfl
  | ok t => exact Except.toOption_mapError _ _

theorem Config.toOption_create (fs : FileSystem) (path : Text) :
    (Config.create fs path).toOption =
      if fs.exists? path then none else (fs.write path defaultText).toOption := by
  rw [create_eq]
  split_ifs
  · rfl
  · exact Except.toOption_mapError _ _

theorem Config.isSome_create (fs : FileSystem) (path : Text) :
    (Config.create fs path).toOption.isSome =
      (!fs.exists? path && (fs.write path defaultText).toOption.isSome) := by
  rw [toOption_create]
  cases fs.exists? path <;> rfl

theorem Catalog.toOption_load (fs : FileSystem) (path : Text) :
    (Catalog.load fs path).toOption =
      (fs.read path).toOption.bind fun t => (ofJson t).toOption := by
  unfold Catalog.load
  cases fs.read path with
  | error e => rfl
  | ok t => exact Except.toOption_mapError _ _

namespace CommandLine

/-- Where the configuration file of the working directory stands. -/
def configLocation (files : FileSystem) : Location := files.workingDirectory ++ [Config.fileName]

theorem Outcome.Gives.agree {out out' : Outcome} {before before' : FileSystem}
    {x x' : Option (Text × FileSystem)} (h : out.Gives before x) (h' : out'.Gives before' x')
    (hx : x.map Prod.fst = x'.map Prod.fst) :
    out.exitCode = out'.exitCode ∧ out.output = out'.output := by
  cases x with
  | none =>
    obtain rfl := Option.map_eq_none_iff.mp hx.symm
    exact ⟨h.1.trans h'.1.symm, h.2.1.trans h'.2.1.symm⟩
  | some a =>
    obtain ⟨a', rfl, ha⟩ := Option.map_eq_some_iff.mp hx.symm
    exact ⟨h.1.trans h'.1.symm, h.2.1.trans (ha.symm.trans h'.2.1.symm)⟩

/-- What is printed does not tell what the files are like afterwards. -/
theorem map_fst_bind {x x' : Option FileSystem} (h : x.isSome = x'.isSome) (t : Text) :
    (x.bind fun files => some (t, files)).map Prod.fst =
      (x'.bind fun files => some (t, files)).map Prod.fst := by
  have hfst (y : Option FileSystem) : (y.bind fun files => some (t, files)).map Prod.fst =
      if y.isSome then some t else none := by
    cases y <;> rfl
  rw [hfst, hfst, h]

section Isolation

variable {s s' : Setting} {l : Location}

theorem toOption_source_of_differ (h : DifferAt l s.files s'.files) (hinput : s.input = s'.input)
    {file : Option Text} (hfile : ∀ p ∈ file, s.files.locate p ≠ .ok l) :
    (source s.input file s.files).toOption = (source s'.input file s'.files).toOption := by
  unfold source
  cases file with
  | none => rw [hinput]
  | some path =>
    dsimp only
    split_ifs
    · rw [hinput]
    · exact h.toOption_read (hfile path rfl)

theorem toOption_catalog_of_differ (h : DifferAt l s.files s'.files) {file : Option Text}
    (hfile : ∀ p ∈ file, s.files.locate p ≠ .ok l) :
    (catalog s.files file).toOption = (catalog s'.files file).toOption := by
  cases file with
  | none => rfl
  | some path =>
    have hread := h.toOption_read (hfile path rfl)
    unfold catalog
    rw [Catalog.toOption_load, Catalog.toOption_load, hread]

/-- A location that no path of a command leads to has no part in what the command prints. -/
theorem output_answer_of_differ (h : DifferAt l s.files s'.files) (hinput : s.input = s'.input)
    {c : Command} (hc : ∀ p ∈ c.paths, s.files.locate p ≠ .ok l) (r : Registry) :
    (c.answer s.input r s.files).map Prod.fst = (c.answer s'.input r s'.files).map Prod.fst := by
  cases c with
  | init path =>
    have hpath := hc path List.mem_cons_self
    apply map_fst_bind
    rw [Config.isSome_create, Config.isSome_create, h.exists? hpath, h.isSome_write hpath]
  | format file language tracing =>
    have hfile : ∀ p ∈ file, s.files.locate p ≠ .ok l := fun p hp => hc p (Option.mem_toList.mpr hp)
    rw [Command.answer, Command.answer, toOption_source_of_differ h hinput hfile, Option.map_bind,
      Option.map_bind]
    rfl
  | samples file output =>
    have hfile : ∀ p ∈ file, s.files.locate p ≠ .ok l := fun p hp =>
      hc p (List.mem_append_left _ (Option.mem_toList.mpr hp))
    rw [Command.answer, Command.answer, toOption_catalog_of_differ h hfile, Option.map_bind,
      Option.map_bind]
    congr 1
    funext c
    cases output with
    | none => rfl
    | some path =>
      have hpath := hc path (List.mem_append_right _ List.mem_cons_self)
      exact map_fst_bind (h.isSome_write hpath _) []
  | showExample file =>
    have hfile : ∀ p ∈ file, s.files.locate p ≠ .ok l := fun p hp => hc p (Option.mem_toList.mpr hp)
    rw [Command.answer, Command.answer, toOption_catalog_of_differ h hfile, Option.map_bind,
      Option.map_bind]
    rfl
  | languages => rfl

/-- The configuration does not depend on a location that it is told to pass over. -/
theorem toOption_config_of_differ (h : DifferAt l s.files s'.files) {o : Options}
    (ho : o.noConfig = true ∨ ∃ path, o.config = some path ∧ s.files.locate path ≠ .ok l) :
    (config s.files o).toOption = (config s'.files o).toOption := by
  unfold config configFile?
  by_cases hno : o.noConfig = true
  · rw [if_pos hno, if_pos hno]
  · obtain ⟨path, hpath, hl⟩ := ho.resolve_left hno
    rw [if_neg hno, if_neg hno, hpath]
    dsimp only
    rw [Config.toOption_load, Config.toOption_load, h.toOption_read hl]

theorem engines?_of_differ (h : DifferAt l s.files s'.files) {o : Options}
    (ho : o.noConfig = true ∨ ∃ path, o.config = some path ∧ s.files.locate path ≠ .ok l)
    (c : Command) : c.engines? s.files o = c.engines? s'.files o := by
  cases c with
  | init => rfl
  | format | samples | showExample | languages =>
    unfold Command.engines?
    rw [toOption_config_of_differ h ho]

theorem output_execute_of_differ (h : DifferAt l s.files s'.files) (hinput : s.input = s'.input)
    {c : Command} (hc : ∀ p ∈ c.paths, s.files.locate p ≠ .ok l) {o : Options}
    (ho : o.noConfig = true ∨ ∃ path, o.config = some path ∧ s.files.locate path ≠ .ok l) :
    (execute s o c).exitCode = (execute s' o c).exitCode ∧
      (execute s o c).output = (execute s' o c).output := by
  apply (execute_gives s o c).agree (execute_gives s' o c)
  rw [engines?_of_differ h ho, Option.map_bind, Option.map_bind]
  exact Option.bind_congr fun r _ => output_answer_of_differ h hinput hc r

end Isolation

/-- Whether a new configuration file can be made is a matter of where directories and files stand. -/
theorem output_execute_init {s s' : Setting} (h : SameShape s.files s'.files) (path : Text)
    (o o' : Options) :
    (execute s o (.init path)).exitCode = (execute s' o' (.init path)).exitCode ∧
      (execute s o (.init path)).output = (execute s' o' (.init path)).output := by
  apply (execute_gives s o (.init path)).agree (execute_gives s' o' (.init path))
  apply map_fst_bind
  rw [Config.isSome_create, Config.isSome_create, h.exists?,
    h.sameWays.isSome_write fun l _ => h.write l]

theorem isName_fileName : IsName Config.fileName := by
  constructor <;> decide

/-- The full path of the configuration file of the working directory. -/
def configPath (files : FileSystem) : Text :=
  join (absolute files.workingDirectory) Config.fileName

/-- The file in the working directory is found if there is a file, or a link that leads to one. -/
theorem isFile_configPath_iff {files : FileSystem} (hreach : files.Reachable)
    (hwd : ∀ n ∈ files.workingDirectory, IsName n) :
    files.isFile (configPath files) = true ↔
      (∃ content, files.node? (configLocation files) = some (.file content)) ∨
      ∃ target l content, files.node? (configLocation files) = some (.link target) ∧
        files.follow (linkLimit - 1) (origin files.workingDirectory target) (names target) = .ok l ∧
        files.node? l = some (.file content) := by
  have hlocate := (locate_join hreach hwd isName_fileName).trans
    (follow_name hreach isName_fileName (linkLimit - 1))
  rw [isFile_iff, configPath, hlocate, ← configLocation]
  rcases hnode : files.node? (configLocation files) with _ | content | _ | target <;> simp [hnode]

/-- The configuration is the default one, or that of the file that is given, or else that of the file
in the working directory, if there is one. -/
theorem config_eq (files : FileSystem) (o : Options) :
    config files o =
      if o.noConfig then .ok .default
      else match o.config with
        | some path => Config.load files path
        | none =>
          if files.isFile (configPath files) then Config.load files (configPath files)
          else .ok .default := by
  have hdiscover : Config.discover files (absolute files.workingDirectory) =
      if files.isFile (configPath files) then some (configPath files) else none := rfl
  rw [config, configFile?, hdiscover]
  split_ifs
  · rfl
  · cases o.config <;> rfl
  · cases o.config <;> rfl

/-- The styler that a command works with has the palette and the container style of the configuration
that counts, and its mode unless another one is given. A configuration that cannot be read makes the
command fail. What stands where the configuration file of the working directory is does not matter to
a command that is told what to use instead and that neither reads nor writes there; for a new
configuration file nothing is read at all. -/
theorem configuration_decides_styler (s : Setting) (o : Options) (c : Command) :
    let out := execute s o c
    -- Which configuration counts.
    (config s.files o =
        if o.noConfig then .ok .default
        else match o.config with
          | some path => Config.load s.files path
          | none =>
            if s.files.isFile (configPath s.files) then Config.load s.files (configPath s.files)
            else .ok .default) ∧
      (s.files.Reachable → (∀ n ∈ s.files.workingDirectory, IsName n) →
        (s.files.isFile (configPath s.files) = true ↔
          (∃ content, s.files.node? (configLocation s.files) = some (.file content)) ∨
          ∃ target l content, s.files.node? (configLocation s.files) = some (.link target) ∧
            s.files.follow (linkLimit - 1) (origin s.files.workingDirectory target)
              (names target) = .ok l ∧ s.files.node? l = some (.file content))) ∧
    -- What comes of it.
    ((∀ path, c ≠ .init path) →
      match config s.files o with
      | .ok cfg => ∃ σ : Styler, σ.mode = o.style.getD cfg.mode ∧
          (∀ cat : Category, σ.palette.color cat =
            (cfg.colors.find? cat.name).getD (Palette.default.color cat)) ∧
          σ.containerStyle = cfg.containerStyle.getD Styler.defaultContainerStyle ∧
          out.Gives s.files (c.answer s.input (Registry.ofStyler σ) s.files)
      | .error _ => out.exitCode = 2 ∧ out.output = []) ∧
    -- What it does not depend on.
    (∀ s' : Setting, DifferAt (configLocation s.files) s.files s'.files → s.input = s'.input →
      (∀ path ∈ c.paths, s.files.locate path ≠ .ok (configLocation s.files)) →
      (o.noConfig = true ∨ ∃ path, o.config = some path ∧
        s.files.locate path ≠ .ok (configLocation s.files)) →
      out.exitCode = (execute s' o c).exitCode ∧ out.output = (execute s' o c).output) ∧
    ∀ path, c = .init path → ∀ (s' : Setting) (o' : Options), SameShape s.files s'.files →
      out.exitCode = (execute s' o' c).exitCode ∧ out.output = (execute s' o' c).output := by
  intro out
  refine ⟨config_eq s.files o, isFile_configPath_iff, ?_, ?_, ?_⟩
  · intro hc
    have hgives := execute_gives s o c
    rw [c.engines?_of_ne_init s.files o hc] at hgives
    cases hcfg : config s.files o with
    | ok cfg =>
      rw [hcfg] at hgives
      exact ⟨o.styler cfg, rfl, cfg.color_styler, rfl, hgives⟩
    | error e =>
      rw [hcfg] at hgives
      exact ⟨hgives.1, hgives.2.1⟩
  · intro s' hdiffer hinput hpaths ho
    exact output_execute_of_differ hdiffer hinput hpaths ho
  · rintro path rfl s' o' hshape
    exact output_execute_init hshape path o o'

/-- A malformed file in the working directory: it ends a command that is told nothing about the
configuration, and it does not matter under options that pass it over, nor for a new file. -/
theorem configuration_decides_styler_of_malformed :
    let files : FileSystem := .empty ["home"]
    let malformed : FileSystem := files.set (configLocation files) (some (.file (.text "[")))
    let s : Setting := ⟨files, .text "f(2)", none⟩
    let s' : Setting := ⟨malformed, .text "f(2)", none⟩
    let ignoring : Options := ⟨none, true, some .byClass, false⟩
    let plain : Options := ⟨none, false, none, false⟩
    let format : Command := .format none "javascript" false
    malformed.isFile (configPath malformed) = true ∧ (execute s' plain format).exitCode = 2 ∧
      (∃ σ : Styler, σ.mode = .byClass ∧
        (execute s ignoring format).Gives files
          (format.answer s.input (Registry.ofStyler σ) files)) ∧
      (execute s ignoring format).output = (execute s' ignoring format).output ∧
      (execute s' plain (.init "new")).exitCode = (execute s' ignoring (.init "new")).exitCode := by
  intro files malformed s s' ignoring plain format
  have hdiffer : DifferAt (configLocation files) files malformed := differAt_set nofun
  have hwd : ∀ n ∈ malformed.workingDirectory, IsName n := by
    intro n hn
    obtain rfl := List.mem_singleton.mp hn
    constructor <;> decide
  have hinit : ∀ path, format ≠ .init path := nofun
  obtain ⟨_, hfile, hfails, _⟩ := configuration_decides_styler s' plain format
  obtain ⟨_, _, hworks, hignored, _⟩ := configuration_decides_styler s ignoring format
  obtain ⟨_, _, _, _, hnew⟩ := configuration_decides_styler s' plain (.init "new")
  have hthere : malformed.isFile (configPath malformed) = true :=
    (hfile (fun _ _ => rfl) hwd).mpr (.inl ⟨.text "[", rfl⟩)
  have hshape : SameShape malformed malformed :=
    ⟨rfl, fun _ => rfl, fun _ => rfl, fun _ => rfl⟩
  refine ⟨hthere, ?_, ?_, ?_, ?_⟩
  · have herror : config malformed plain = .error (.invalid .malformed) := rfl
    have h := hfails hinit
    simp only [s', herror] at h
    exact h.1
  · obtain ⟨σ, hmode, _, _, hgives⟩ := hworks hinit
    exact ⟨σ, hmode, hgives⟩
  · exact (hignored s' hdiffer rfl nofun (.inl rfl)).2
  · exact (hnew "new" rfl s' ignoring hshape).1

end CommandLine

end Highlighter
