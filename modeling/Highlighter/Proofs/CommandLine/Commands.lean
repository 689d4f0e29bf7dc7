import Highlighter.Proofs.CommandLine.Jobs

/-! What each command gives: its output and the files afterwards, or nothing if it fails. What is
said on the way has no part in it. Each command looks at everything that it needs before it prints or
writes, so that nothing can fail behind that. -/
namespace Highlighter.CommandLine

open Steps

/-- The file of the configuration, if one counts: none, or the file that is given, or else the file
in the working directory. -/
def configFile? (files : FileSystem) (o : Options) : Option Text :=
  if o.noConfig then none
  else match o.config with
    | some path => some path
    | none => Config.discover files (FileSystem.absolute files.workingDirectory)

/-- The configuration that counts. -/
def config (files : FileSystem) (o : Options) : Except ConfigError Config :=
  match configFile? files o with
  | some path => Config.load files path
  | none => .ok .default

/-- The styler of a configuration under the options. -/
def Options.styler (o : Options) (c : Config) : Styler :=
  { c.styler with mode := o.style.getD c.mode }

/-- The catalog of a file, or else the bundled one. -/
def catalog (files : FileSystem) (file : Option Text) : Except CatalogError Catalog :=
  match file with
  | some path => Catalog.load files path
  | none => Catalog.bundled

/-- What a command gives with the engines of a registry: the output and the files afterwards. -/
def Command.answer (input : Content) (r : Registry) (files : FileSystem) :
    Command → Option (Text × FileSystem)
  | .init path =>
    (Config.create files path).toOption.bind fun files' =>
      some (line ("Created default configuration file: " ++ path), files')
  | .format file language _ =>
    (source input file files).toOption.bind fun t =>
      some (line ((r.get language).format t), files)
  | .samples file output =>
    (catalog files file).toOption.bind fun c =>
      match output with
      | some path => (files.write path (c.html r)).toOption.bind fun files' => some ([], files')
      | none => some (line (c.html r), files)
  | .showExample file =>
    (catalog files file).toOption.bind fun c => some (line c.exampleText, files)
  | .languages => some ((languageLines r).flatMap line, files)

/-- The engines that a command works with. Making a new configuration file takes no engine, and no
configuration is read for it. -/
def Command.engines? (files : FileSystem) (o : Options) : Command → Option Registry
  | .init _ => some (Registry.ofStyler Config.default.styler)
  | _ => (config files o).toOption.map fun cfg => Registry.ofStyler (o.styler cfg)

theorem Command.engines?_of_ne_init (files : FileSystem) (o : Options) {c : Command}
    (hc : ∀ path, c ≠ .init path) : c.engines? files o =
      (config files o).toOption.map fun cfg => Registry.ofStyler (o.styler cfg) := by
  cases c with
  | init path => exact absurd rfl (hc path)
  | format | samples | showExample | languages => rfl

section Looking

open Job

theorem looks_loadConfig (path : Text) :
    (loadConfig path).Looks fun files => (Config.load files path).toOption := by
  have h : (loadConfig path).Looks fun files => (Config.load files path).toOption.map id :=
    (looks_look .config _).told (fun _ => Config.loadEvents path) id
  simpa only [Option.map_id, id_eq] using h

theorem looks_findConfig (o : Options) :
    (findConfig o).Looks fun files => (config files o).toOption := by
  unfold findConfig config configFile?
  by_cases hno : o.noConfig = true
  · simp only [if_pos hno]
    exact looks_pure Config.default
  · simp only [if_neg hno]
    cases o.config with
    | some path => exact looks_loadConfig path
    | none =>
      -- The file that is found counts, and it is read after it has been found.
      refine looks_of_files (y := fun found files =>
        (match Config.discover found (FileSystem.absolute found.workingDirectory) with
          | some path => Config.load files path
          | none => .ok .default).toOption) fun found => ?_
      cases Config.discover found (FileSystem.absolute found.workingDirectory) with
      | none => exact looks_pure Config.default
      | some path =>
        have h := (looks_loadConfig path).told (fun _ => [.usingConfig path]) id
        simpa only [Option.map_id, id_eq] using h

theorem looks_registry (o : Options) : (registry o).Looks fun files =>
    (config files o).toOption.map fun c => Registry.ofStyler (o.styler c) :=
  (looks_findConfig o).told (fun c => Config.stylerEvents { c with mode := o.style.getD c.mode })
    fun c => Registry.ofStyler (Config.styler { c with mode := o.style.getD c.mode })

/-- What is said while a text is formatted. -/
def formatRemarks (r : Registry) (language input : Text) (tracing : Bool) : List Remark :=
  let e := r.get language
  let unknown := if r.has language then [] else [Event.unknownLanguage language]
  unknown.map .event ++ (r.lookupEvents language).map .event ++
    (if tracing then (e.events input).map .event ++ (trace e input).map .line else []) ++
    (e.events input).map .event

theorem result_format (r : Registry) (language input : Text) (tracing : Bool) (p : Progress) :
    result (format r language input tracing) p = (.ok ((r.get language).format input),
      { p with remarks := p.remarks ++ formatRemarks r language input tracing }) := by
  unfold format formatRemarks
  cases r.has language <;> cases tracing <;>
    simp only [result_bind, result_tell, result_say, result_pure, reduceIte,
      Bool.false_eq_true, List.append_assoc, List.map_nil, List.append_nil, List.nil_append]

theorem looks_format (r : Registry) (language input : Text) (tracing : Bool) :
    (format r language input tracing).Looks fun _ => some ((r.get language).format input) :=
  looks_of_result (x := fun _ => .ok _) fun p => ⟨_, result_format r language input tracing p⟩

theorem looks_findCatalog (file : Option Text) :
    (findCatalog file).Looks fun files => (catalog files file).toOption := by
  have h : (findCatalog file).Looks fun files => (catalog files file).toOption.map id := by
    cases file with
    | some path => exact (looks_look .catalog _).told Catalog.loadEvents id
    | none => exact (looks_take .catalog _).told Catalog.loadEvents id
  simpa only [Option.map_id, id_eq] using h

end Looking

section Doing

open Job

theorem does_after_registry {input : Content} {o : Options} {c : Command}
    (hc : ∀ path, c ≠ .init path) {f : Registry → Job Unit}
    (hf : ∀ r, (f r).Does fun files => (c.answer input r files).map fun a => ((), a)) :
    (registry o >>= f).Does fun files =>
      ((c.engines? files o).bind fun r => c.answer input r files).map fun a => ((), a) := by
  simp only [c.engines?_of_ne_init _ o hc, Option.map_bind]
  exact (looks_registry o).bind_does hf

/-- Every command gives what it answers with its engines, or fails before it has done anything. -/
theorem does_carryOut (input : Content) (o : Options) (c : Command) :
    (carryOut input o c).Does fun files =>
      ((c.engines? files o).bind fun r => c.answer input r files).map fun a => ((), a) := by
  cases c with
  | init path =>
    simp only [Command.engines?, Command.answer, Option.bind_some, Option.map_bind]
    exact (does_onFiles (Config.leaves_make path) .config).then_print _
  | format file language tracing =>
    apply does_after_registry (c := .format file language tracing) (fun _ h => by cases h)
    intro r
    simp only [Command.answer, Option.map_bind]
    apply (looks_look .system (source input file)).bind_does
    intro t
    exact (looks_format r language t tracing).bind_does fun html => does_print (line html)
  | samples file output =>
    apply does_after_registry (c := .samples file output) (fun _ h => by cases h)
    intro r
    simp only [Command.answer, Option.map_bind]
    apply (looks_findCatalog file).bind_does
    intro c
    apply Does.after_say
    cases output with
    | none => exact does_print (line (c.html r))
    | some path =>
      simp only [Function.comp, Option.map_bind]
      exact does_onFiles (FileSteps.leaves_write path (c.html r)) .system
  | showExample file =>
    apply does_after_registry (c := .showExample file) (fun _ h => by cases h)
    intro r
    simp only [Command.answer, Option.map_bind]
    exact (looks_findCatalog file).bind_does fun c => does_print (line c.exampleText)
  | languages =>
    apply does_after_registry (c := .languages) (fun _ h => by cases h)
    intro r p
    exact ⟨p.remarks, result_forM_print (languageLines r) line p⟩

end Doing

/-- No command that fails has printed anything or changed a file on its way. -/
theorem unchanged_of_failure {input : Content} {o : Options} {c : Command} {p p' : Progress}
    {e : Failure} (h : result (carryOut input o c) p = (.error e, p')) :
    p'.output = p.output ∧ p'.files = p.files :=
  (does_carryOut input o c).unchanged_of_error h

/-- What is left where a command gives an output and files, or fails. -/
def Outcome.Gives (out : Outcome) (before : FileSystem) : Option (Text × FileSystem) → Prop
  | some (output, files) => out.exitCode = 0 ∧ out.output = output ∧ out.files = files
  | none => out.exitCode = 2 ∧ out.output = [] ∧ out.files = before

/-- What is left of a command, by how its job ends. -/
theorem execute_eq (s : Setting) (o : Options) (c : Command) :
    let ended := result (carryOut s.input o c) ⟨s.files, [], []⟩
    let lines := (filter s o).2.map EventFilter.Problem.message ++
      ended.2.remarks.filterMap (·.line? (filter s o).1)
    execute s o c = match ended.1 with
      | .ok () => ⟨0, ended.2.output, lines, ended.2.files⟩
      | .error e => ⟨2, ended.2.output, lines ++ ["Error: " ++ e.message], ended.2.files⟩ := rfl

/-- Every command gives what it answers with its engines. -/
theorem execute_gives (s : Setting) (o : Options) (c : Command) :
    (execute s o c).Gives s.files
      ((c.engines? s.files o).bind fun r => c.answer s.input r s.files) := by
  have hends := does_carryOut s.input o c ⟨s.files, [], []⟩
  rw [execute_eq]
  cases hx : (c.engines? s.files o).bind fun r => c.answer s.input r s.files with
  | none =>
    simp only [hx] at hends
    obtain ⟨e, said, hresult⟩ := hends
    rw [hresult]
    exact ⟨rfl, rfl, rfl⟩
  | some a =>
    simp only [hx] at hends
    obtain ⟨said, hresult⟩ := hends
    rw [hresult]
    exact ⟨rfl, rfl, rfl⟩

end Highlighter.CommandLine
