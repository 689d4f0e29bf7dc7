import Highlighter.Proofs.CommandLine.Configuration

/-! What a command leaves. One that fails has not got as far as printing or writing, and of those that
succeed only two write a file, one each. -/
namespace Highlighter.CommandLine

open FileSystem Steps

namespace Outcome.Gives

variable {out : Outcome} {before : FileSystem} {x : Option (Text × FileSystem)}

theorem exitCode_eq (h : out.Gives before x) : out.exitCode = 0 ∨ out.exitCode = 2 := by
  cases x with
  | none => exact .inr h.1
  | some a => exact .inl h.1

theorem of_success (h : out.Gives before x) (hcode : out.exitCode = 0) :
    x = some (out.output, out.files) := by
  cases x with
  | none =>
    have htwo : out.exitCode = 2 := h.1
    rw [hcode] at htwo
    cases htwo
  | some a => exact congrArg some (Prod.ext h.2.1.symm h.2.2.symm)

end Outcome.Gives

/-- A failure comes before anything is printed or written. -/
theorem execute_of_failure {s : Setting} {o : Options} {c : Command}
    (hcode : (execute s o c).exitCode = 2) :
    (execute s o c).output = [] ∧ (execute s o c).files = s.files := by
  rw [execute_eq] at hcode ⊢
  rcases hended : result (carryOut s.input o c) ⟨s.files, [], []⟩ with ⟨e | done, p⟩
  · exact unchanged_of_failure hended
  · rw [hended] at hcode
    cases hcode

/-- The text of a new configuration file is read as the default configuration. -/
theorem toOption_ofText_defaultText :
    (Config.ofText Config.defaultText).toOption = some .default := by decide +kernel

/-- A new configuration file stands where nothing was, and it is read as the default
configuration. -/
theorem of_create_eq_ok {fs fs' : FileSystem} {path : Text} (h : Config.create fs path = .ok fs') :
    ∃ l, fs.locate path = .ok l ∧ fs.node? l = none ∧ DifferAt l fs fs' ∧
      Config.load fs' path = .ok .default := by
  have hsome := Except.toOption_eq_some_iff.mpr h
  rw [Config.toOption_create] at hsome
  split_ifs at hsome with hexists
  obtain ⟨l, hl, hdiffer, _, hread⟩ := of_write_eq_ok (Except.toOption_eq_some_iff.mp hsome)
  have hnone : fs.node? l = none := by
    rw [exists?_eq, toOption_lookup, hl] at hexists
    exact Option.not_isSome_iff_eq_none.mp hexists
  refine ⟨l, hl, hnone, hdiffer, Except.toOption_eq_some_iff.mp ?_⟩
  rw [Config.toOption_load, Except.toOption_eq_some_iff.mpr (hread (.inl hnone)), Option.bind_some,
    toOption_ofText_defaultText]

/-- What a command that succeeds leaves of the files that it found. -/
def Command.Leaves (s : Setting) (o : Options) (after : FileSystem) : Command → Prop
  | .init path => ∃ l, s.files.locate path = .ok l ∧ s.files.node? l = none ∧
      DifferAt l s.files after ∧ Config.load after path = .ok .default
  | .samples file (some path) => ∃ l html, s.files.locate path = .ok l ∧ DifferAt l s.files after ∧
      after.node? l = some (.file (.text html)) ∧
      (after.refusal .read l = none → after.read path = .ok html) ∧
      (execute s o (.samples file none)).exitCode = 0 ∧
      (execute s o (.samples file none)).output = html ++ ['\n']
  | _ => after = s.files

theorem leaves_of_success {s : Setting} {o : Options} {c : Command}
    (hcode : (execute s o c).exitCode = 0) : c.Leaves s o (execute s o c).files := by
  have hgives := (execute_gives s o c).of_success hcode
  obtain ⟨r, hr, hanswer⟩ := Option.bind_eq_some_iff.mp hgives
  cases c with
  | init path =>
    obtain ⟨files, hfiles, h⟩ := Option.bind_eq_some_iff.mp hanswer
    obtain ⟨_, rfl⟩ := Prod.mk.inj (Option.some.inj h)
    exact of_create_eq_ok (Except.toOption_eq_some_iff.mp hfiles)
  | format file language tracing =>
    obtain ⟨input, _, h⟩ := Option.bind_eq_some_iff.mp hanswer
    exact (congrArg Prod.snd (Option.some.inj h)).symm
  | showExample file =>
    obtain ⟨c, _, h⟩ := Option.bind_eq_some_iff.mp hanswer
    exact (congrArg Prod.snd (Option.some.inj h)).symm
  | languages => exact (congrArg Prod.snd (Option.some.inj hanswer)).symm
  | samples file output =>
    obtain ⟨c, hc, h⟩ := Option.bind_eq_some_iff.mp hanswer
    cases output with
    | none => exact (congrArg Prod.snd (Option.some.inj h)).symm
    | some path =>
      obtain ⟨files, hfiles, h⟩ := Option.bind_eq_some_iff.mp h
      obtain ⟨_, rfl⟩ := Prod.mk.inj (Option.some.inj h)
      obtain ⟨l, hl, hdiffer, hnode, hread⟩ :=
        of_write_eq_ok (Except.toOption_eq_some_iff.mp hfiles)
      -- The same command without a file works with the same engines and the same catalog.
      have hsame : (Command.samples file none).engines? s.files o = some r := hr
      have hprints := execute_gives s o (.samples file none)
      rw [hsame, Option.bind_some, Command.answer, hc] at hprints
      exact ⟨l, _, hl, hdiffer, hnode, fun h => hread (.inr h), hprints.1, hprints.2.1⟩

/-- A run that fails prints nothing and leaves all files as they were. A run that succeeds leaves
them as they were too, but for a new configuration file, which stands where nothing was and is read as
the default configuration, and for the file that the samples are written to, which then holds what the
same command prints where no file is given, without the end of the line. -/
theorem run_leaves (s : Setting) (i : Invocation) :
    let out := run s i
    (out.exitCode = 0 ∨ out.exitCode = 2) ∧
      (out.exitCode = 2 → out.output = [] ∧ out.files = s.files) ∧
      (out.exitCode = 0 → match i with
        | .run o c => c.Leaves s o out.files
        | .help | .version | .usageError => out.files = s.files) := by
  intro out
  cases i with
  | run o c =>
    have hgives := execute_gives s o c
    exact ⟨hgives.exitCode_eq, execute_of_failure, leaves_of_success⟩
  | help | version => exact ⟨.inl rfl, nofun, fun _ => rfl⟩
  | usageError => exact ⟨.inr rfl, fun _ => ⟨rfl, rfl⟩, nofun⟩

/-- A standard input that is no text, a disk that is full, a new configuration file, and samples written
to a file. -/
theorem run_leaves_of_commands :
    let files : FileSystem :=
      (FileSystem.empty ["home"]).set ["home", "samples.json"] (some (.file (.text "[[], []]")))
    let full : FileSystem :=
      { files with refusal := fun access _ => if access = .write then some .noSpace else none }
    let s : Setting := ⟨files, .binary [255], none⟩
    let o : Options := ⟨none, true, none, false⟩
    let samples : Command := .samples (some "samples.json") (some "out.html")
    let failed := run s (.run o (.format none "javascript" false))
    let refused := run { s with files := full } (.run o samples)
    let created := run s (.run o (.init "new"))
    let written := run s (.run o samples)
    (failed.exitCode = 2 ∧ failed.output = [] ∧ failed.files = files) ∧
      (refused.exitCode = 2 ∧ refused.output = [] ∧ refused.files = full) ∧
      (created.exitCode = 0 ∧ Config.load created.files "new" = .ok .default) ∧
      written.exitCode = 0 ∧ ∃ l html, files.locate "out.html" = .ok l ∧
        written.files.node? l = some (.file (.text html)) ∧
        (execute s o (.samples (some "samples.json") none)).output = html ++ ['\n'] := by
  intro files full s o samples failed refused created written
  have hfailed : failed.exitCode = 2 := rfl
  have hrefused : refused.exitCode = 2 := by
    simp only [refused, samples, full, s, o, files]
    decide +kernel
  have hcreated : created.exitCode = 0 := rfl
  have hwritten : written.exitCode = 0 := by
    simp only [written, samples, s, o, files]
    decide +kernel
  obtain ⟨_, hnothing, _⟩ := run_leaves s (.run o (.format none "javascript" false))
  obtain ⟨_, hnothing', _⟩ := run_leaves { s with files := full } (.run o samples)
  obtain ⟨_, _, hnew⟩ := run_leaves s (.run o (.init "new"))
  obtain ⟨_, _, hsamples⟩ := run_leaves s (.run o samples)
  obtain ⟨_, _, _, _, hdefault⟩ := hnew hcreated
  obtain ⟨l, html, hl, _, hnode, _, _, hprinted⟩ := hsamples hwritten
  exact ⟨⟨hfailed, hnothing hfailed⟩, ⟨hrefused, hnothing' hrefused⟩, ⟨hcreated, hdefault⟩,
    hwritten, l, html, hl, hnode, hprinted⟩

end Highlighter.CommandLine
