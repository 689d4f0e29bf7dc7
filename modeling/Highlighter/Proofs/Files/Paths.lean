import Highlighter.FileSystem
import Highlighter.Proofs.Results

/-! Where written paths lead, and what becomes of a read or a write there. Which location a path
leads to depends on the directories and links alone, and what can be read or written there on what
stands at that location and on what the system refuses there. -/
namespace Highlighter

/-- What stands somewhere, but for what it holds if it is a file. -/
def Node.shape : Node → Node
  | .file _ => .file (.text [])
  | .directory => .directory
  | .link target => .link target

def Node.isFile : Node → Bool
  | .file _ => true
  | _ => false

namespace FileSystem

variable {fs fs' : FileSystem}

theorem toOption_lookup (fs : FileSystem) (path : Text) :
    (fs.lookup path).toOption = (fs.locate path).toOption.bind fs.node? := by
  unfold lookup
  rw [Except.toOption_bind]
  congr
  funext l
  cases fs.node? l <;> rfl

theorem toOption_read (fs : FileSystem) (path : Text) : (fs.read path).toOption =
    (fs.locate path).toOption.bind fun l => (fs.readAt l).toOption := Except.toOption_bind _ _

theorem exists?_eq (fs : FileSystem) (path : Text) :
    fs.exists? path = (fs.lookup path).toOption.isSome := by
  unfold exists?
  cases fs.lookup path <;> rfl

theorem isFile_iff (fs : FileSystem) (path : Text) :
    fs.isFile path = true ↔ ∃ l content, fs.locate path = .ok l ∧
      fs.node? l = some (.file content) := by
  have hlookup : fs.isFile path = (fs.lookup path).toOption.any Node.isFile := by
    unfold isFile
    rcases fs.lookup path with _ | _ | _ | _ <;> rfl
  rw [hlookup, toOption_lookup]
  cases fs.locate path with
  | error e => exact iff_of_false nofun nofun
  | ok l =>
    rcases hnode : fs.node? l with _ | _ | _ | _ <;>
      simp [Except.toOption, Node.isFile, hnode]

/-- A text is written where no directory stands and the system does not refuse it. -/
theorem toOption_writeAt (fs : FileSystem) (l : Location) (t : Text) :
    (fs.writeAt l t).toOption =
      if fs.node? l = some .directory ∨ fs.refusal .write l ≠ none then none
      else some (fs.put l t) := by
  unfold writeAt
  rcases fs.node? l with _ | _ | _ | _ <;> cases fs.refusal .write l <;>
    simp [Except.toOption]

theorem toOption_write (fs : FileSystem) (path t : Text) :
    (fs.write path t).toOption =
      if path.getLast? = some '/' then none
      else (fs.locate path).toOption.bind fun l => (fs.writeAt l t).toOption := by
  unfold write
  split_ifs with hslash
  · cases fs.follow linkLimit (fs.start path) (namesAbove path) <;> rfl
  · exact Except.toOption_bind _ _

section Ways

/-- Written paths lead to the same locations: the same directories and links are there, and the same
directories can be entered. -/
structure SameWays (fs fs' : FileSystem) : Prop where
  workingDirectory : fs.workingDirectory = fs'.workingDirectory
  directory_iff : ∀ l, fs.node? l = some .directory ↔ fs'.node? l = some .directory
  link_iff : ∀ l target, fs.node? l = some (.link target) ↔ fs'.node? l = some (.link target)
  enter : ∀ l, fs.node? l = some .directory → fs.refusal .enter l = fs'.refusal .enter l

theorem toOption_enter (fs : FileSystem) (l : Location) (name : Text) :
    (fs.enter l name).toOption =
      if fs.node? l = some .directory ∧ (name = [] ∨ fs.refusal .enter l = none) then some ()
      else none := by
  unfold enter
  rcases fs.node? l with _ | _ | _ | _ <;> try simp [Except.toOption]
  cases fs.refusal .enter l with
  | none => simp
  | some reason => by_cases hname : name = [] <;> simp [hname]

variable {jump jump' : Location → List Text → Except OsError Location} {l : Location}
  {name target : Text}

theorem walk_cons_of_link (h : fs.node? (step l name) = some (.link target))
    (names : List Text) : fs.walk jump l (name :: names) =
      fs.enter l name >>= fun _ => jump (origin l target) (FileSystem.names target ++ names) := by
  rw [walk, h]

theorem walk_cons_of_ne_link (h : ∀ target, fs.node? (step l name) ≠ some (.link target))
    (names : List Text) : fs.walk jump l (name :: names) =
      fs.enter l name >>= fun _ => fs.walk jump (step l name) names := by
  rw [walk]
  cases hnode : fs.node? (step l name) with
  | none => rfl
  | some n =>
    cases n with
    | file | directory => rfl
    | link target => exact absurd hnode (h target)

theorem SameWays.toOption_enter (h : SameWays fs fs') (l : Location) (name : Text) :
    (fs.enter l name).toOption = (fs'.enter l name).toOption := by
  rw [FileSystem.toOption_enter, FileSystem.toOption_enter]
  apply if_congr _ rfl rfl
  constructor
  · rintro ⟨hdirectory, henter⟩
    exact ⟨(h.directory_iff l).mp hdirectory, h.enter l hdirectory ▸ henter⟩
  · rintro ⟨hdirectory, henter⟩
    have hdirectory' := (h.directory_iff l).mpr hdirectory
    exact ⟨hdirectory', (h.enter l hdirectory').symm ▸ henter⟩

theorem SameWays.toOption_walk (h : SameWays fs fs')
    (hjump : ∀ l names, (jump l names).toOption = (jump' l names).toOption) (l : Location)
    (names : List Text) : (fs.walk jump l names).toOption = (fs'.walk jump' l names).toOption := by
  induction names generalizing l with
  | nil => rfl
  | cons name names ih =>
    by_cases hlink : ∃ target, fs.node? (step l name) = some (.link target)
    · obtain ⟨target, hlink⟩ := hlink
      rw [walk_cons_of_link hlink, walk_cons_of_link ((h.link_iff _ _).mp hlink),
        Except.toOption_bind, Except.toOption_bind, h.toOption_enter, hjump]
    · have hlink' : ∀ target, fs'.node? (step l name) ≠ some (.link target) := fun target ht =>
        hlink ⟨target, (h.link_iff _ _).mpr ht⟩
      rw [walk_cons_of_ne_link (not_exists.mp hlink), walk_cons_of_ne_link hlink',
        Except.toOption_bind, Except.toOption_bind, h.toOption_enter, ih]

theorem SameWays.toOption_follow (h : SameWays fs fs') (links : Nat) (l : Location)
    (names : List Text) :
    (fs.follow links l names).toOption = (fs'.follow links l names).toOption := by
  induction links generalizing l names with
  | zero => exact h.toOption_walk (fun _ _ => rfl) l names
  | succ links ih => exact h.toOption_walk ih l names

/-- A path leads to the same location where the same directories and links are. -/
theorem SameWays.toOption_locate (h : SameWays fs fs') (path : Text) :
    (fs.locate path).toOption = (fs'.locate path).toOption := by
  have hstart : fs.start path = fs'.start path := by
    unfold start
    rw [h.workingDirectory]
  unfold locate
  split_ifs
  · rfl
  · rw [h.toOption_follow, hstart]

/-- Whether a text can be written under a path is a matter of the ways to its location and of what is
refused there. -/
theorem SameWays.isSome_write (h : SameWays fs fs') {path : Text}
    (hrefusal : ∀ l, fs.locate path = .ok l → fs.refusal .write l = fs'.refusal .write l)
    (t : Text) : (fs.write path t).toOption.isSome = (fs'.write path t).toOption.isSome := by
  rw [toOption_write, toOption_write, ← h.toOption_locate]
  split_ifs
  · rfl
  · cases hl : fs.locate path with
    | error e => rfl
    | ok l =>
      change (fs.writeAt l t).toOption.isSome = (fs'.writeAt l t).toOption.isSome
      simp only [toOption_writeAt, hrefusal l hl, h.directory_iff l]
      split_ifs <;> rfl

end Ways

section Links

/-- No link stands at a location. -/
def NoLink (fs : FileSystem) (l : Location) : Prop := ∀ target, fs.node? l ≠ some (.link target)

variable {jump : Location → List Text → Except OsError Location} {l l' : Location}

theorem NoLink.of_above (h : l <+: fs.workingDirectory) : fs.NoLink l := by
  have hnode : fs.node? l = some .directory := if_pos (List.isPrefixOf_iff_prefix.mpr h)
  intro target ht
  rw [hnode] at ht
  cases ht

theorem NoLink.origin (h : fs.NoLink l) (path : Text) : fs.NoLink (origin l path) := by
  unfold FileSystem.origin
  split_ifs
  · exact .of_above List.nil_prefix
  · exact h

theorem NoLink.walk (hjump : ∀ l names l', fs.NoLink l → jump l names = .ok l' → fs.NoLink l')
    {names : List Text} (hl : fs.NoLink l) (h : fs.walk jump l names = .ok l') : fs.NoLink l' := by
  induction names generalizing l with
  | nil => exact Except.ok.inj h ▸ hl
  | cons name names ih =>
    by_cases hlink : ∃ target, fs.node? (step l name) = some (.link target)
    · obtain ⟨target, hlink⟩ := hlink
      rw [walk_cons_of_link hlink] at h
      obtain ⟨_, _, hjumped⟩ := Except.bind_eq_ok_iff.mp h
      exact hjump _ _ _ (hl.origin target) hjumped
    · rw [walk_cons_of_ne_link (not_exists.mp hlink)] at h
      obtain ⟨_, _, hwalked⟩ := Except.bind_eq_ok_iff.mp h
      exact ih (not_exists.mp hlink) hwalked

theorem NoLink.follow (links : Nat) {names : List Text} (hl : fs.NoLink l)
    (h : fs.follow links l names = .ok l') : fs.NoLink l' := by
  induction links generalizing l l' names with
  | zero =>
    refine NoLink.walk ?_ hl h
    intro _ _ _ _ hjump
    cases hjump
  | succ links ih => exact NoLink.walk (fun _ _ _ hl h => ih hl h) hl h

/-- A path does not end at a link, but where the link leads. -/
theorem noLink_of_locate {path : Text} (h : fs.locate path = .ok l) : fs.NoLink l := by
  unfold locate at h
  split_ifs at h
  exact NoLink.follow _ (NoLink.origin (.of_above List.prefix_rfl) path) h

/-- A link that leads to itself leads nowhere. -/
example : ((empty []).set ["loop"] (some (.link "loop"))).locate "loop" = .error .tooManyLinks := rfl

end Links

section Shape

/-- Directories, links and files stand at the same locations, and the system lets the same files be
written. What the files hold does not matter, nor whether they can be read. -/
structure SameShape (fs fs' : FileSystem) : Prop where
  workingDirectory : fs.workingDirectory = fs'.workingDirectory
  shape : ∀ l, (fs.node? l).map Node.shape = (fs'.node? l).map Node.shape
  enter : ∀ l, fs.refusal .enter l = fs'.refusal .enter l
  write : ∀ l, fs.refusal .write l = fs'.refusal .write l

theorem map_shape_eq_directory_iff (n : Option Node) :
    n.map Node.shape = some .directory ↔ n = some .directory := by
  rcases n with _ | _ | _ | _ <;> simp [Node.shape]

theorem map_shape_eq_link_iff (n : Option Node) (target : Text) :
    n.map Node.shape = some (.link target) ↔ n = some (.link target) := by
  rcases n with _ | _ | _ | _ <;> simp [Node.shape]

theorem SameShape.sameWays (h : SameShape fs fs') : SameWays fs fs' where
  workingDirectory := h.workingDirectory
  directory_iff l := by
    rw [← map_shape_eq_directory_iff, h.shape, map_shape_eq_directory_iff]
  link_iff l target := by
    rw [← map_shape_eq_link_iff, h.shape, map_shape_eq_link_iff]
  enter l _ := h.enter l

theorem SameShape.exists? (h : SameShape fs fs') (path : Text) :
    fs.exists? path = fs'.exists? path := by
  have hnode (l : Location) : (fs.node? l).isSome = (fs'.node? l).isSome := by
    rw [← Option.isSome_map (f := Node.shape), h.shape, Option.isSome_map]
  rw [exists?_eq, exists?_eq, toOption_lookup, toOption_lookup, h.sameWays.toOption_locate]
  cases (fs'.locate path).toOption with
  | none => rfl
  | some l => exact hnode l

end Shape

section Difference

variable {l : Location}

/-- At a location stands a file, if anything. -/
def FileAtMost (fs : FileSystem) (l : Location) : Prop :=
  ∀ n, fs.node? l = some n → ∃ content, n = .file content

/-- The file systems agree but for one location, where each has a file or nothing. -/
structure DifferAt (l : Location) (fs fs' : FileSystem) : Prop where
  workingDirectory : fs.workingDirectory = fs'.workingDirectory
  node : ∀ p, p ≠ l → fs.node? p = fs'.node? p
  refusal : ∀ access p, p ≠ l → fs.refusal access p = fs'.refusal access p
  fileAtMost : fs.FileAtMost l
  fileAtMost' : fs'.FileAtMost l

theorem FileAtMost.ne_directory (h : fs.FileAtMost l) : fs.node? l ≠ some .directory := by
  intro hnode
  obtain ⟨_, heq⟩ := h _ hnode
  cases heq

theorem FileAtMost.noLink (h : fs.FileAtMost l) : fs.NoLink l := by
  intro target hnode
  obtain ⟨_, heq⟩ := h _ hnode
  cases heq

theorem DifferAt.sameWays (h : DifferAt l fs fs') : SameWays fs fs' where
  workingDirectory := h.workingDirectory
  directory_iff p := by
    by_cases hp : p = l
    · subst hp
      exact iff_of_false h.fileAtMost.ne_directory h.fileAtMost'.ne_directory
    · rw [h.node p hp]
  link_iff p target := by
    by_cases hp : p = l
    · subst hp
      exact iff_of_false (h.fileAtMost.noLink target) (h.fileAtMost'.noLink target)
    · rw [h.node p hp]
  enter p hp := h.refusal .enter p fun heq => h.fileAtMost.ne_directory (heq ▸ hp)

/-- What comes of a path that does not lead to the location is the same in both. -/
theorem DifferAt.bind_locate {α : Type} {f f' : Location → Option α} (h : DifferAt l fs fs')
    {path : Text} (hpath : fs.locate path ≠ .ok l) (hf : ∀ p, p ≠ l → f p = f' p) :
    (fs.locate path).toOption.bind f = (fs'.locate path).toOption.bind f' := by
  rw [← h.sameWays.toOption_locate]
  cases hp : fs.locate path with
  | error e => rfl
  | ok p => exact hf p fun heq => hpath (heq ▸ hp)

theorem DifferAt.exists? (h : DifferAt l fs fs') {path : Text}
    (hpath : fs.locate path ≠ .ok l) : fs.exists? path = fs'.exists? path := by
  rw [exists?_eq, exists?_eq, toOption_lookup, toOption_lookup, h.bind_locate hpath h.node]

theorem DifferAt.toOption_read (h : DifferAt l fs fs') {path : Text}
    (hpath : fs.locate path ≠ .ok l) : (fs.read path).toOption = (fs'.read path).toOption := by
  rw [FileSystem.toOption_read, FileSystem.toOption_read]
  apply h.bind_locate hpath
  intro p hp
  rw [readAt, readAt, h.node p hp, h.refusal .read p hp]

theorem DifferAt.isSome_write (h : DifferAt l fs fs') {path : Text}
    (hpath : fs.locate path ≠ .ok l) (t : Text) :
    (fs.write path t).toOption.isSome = (fs'.write path t).toOption.isSome :=
  h.sameWays.isSome_write (fun p hp => h.refusal .write p fun heq => hpath (heq ▸ hp)) t

theorem node?_set (fs : FileSystem) (l p : Location) (n : Option Node) :
    (fs.set l n).node? p = if p.isPrefixOf fs.workingDirectory then some .directory
      else if p = l then n else fs.entries p := rfl

theorem node?_set_of_ne (fs : FileSystem) (n : Option Node) {p : Location} (h : p ≠ l) :
    (fs.set l n).node? p = fs.node? p := by
  rw [node?_set, if_neg h]
  rfl

theorem node?_set_self {n : Option Node} (h : fs.node? l ≠ some .directory) :
    (fs.set l n).node? l = n := by
  have hprefix : ¬ l.isPrefixOf fs.workingDirectory = true := fun hl => h (if_pos hl)
  rw [node?_set, if_neg hprefix, if_pos rfl]

theorem differAt_set {content : Content} (h : fs.FileAtMost l) :
    DifferAt l fs (fs.set l (some (.file content))) where
  workingDirectory := rfl
  node _ hp := (node?_set_of_ne fs _ hp).symm
  refusal _ _ _ := rfl
  fileAtMost := h
  fileAtMost' n hn := by
    rw [node?_set_self h.ne_directory] at hn
    exact ⟨content, (Option.some.inj hn).symm⟩

theorem differAt_put (h : fs.FileAtMost l) (t : Text) : DifferAt l fs (fs.put l t) :=
  have hset : DifferAt l fs (fs.set l (some (.file (.text t)))) := differAt_set h
  { hset with
    refusal := fun _ _ hp => (if_neg fun hnew => hp hnew.2.1).symm }

/-- What a write leaves: the text stands where the path leads, and nothing else has changed. The text
can be read back, unless the file was there before and cannot be read. -/
theorem of_write_eq_ok {path t : Text} (h : fs.write path t = .ok fs') :
    ∃ l, fs.locate path = .ok l ∧ DifferAt l fs fs' ∧ fs'.node? l = some (.file (.text t)) ∧
      (fs.node? l = none ∨ fs'.refusal .read l = none → fs'.read path = .ok t) := by
  have hsome := Except.toOption_eq_some_iff.mpr h
  rw [toOption_write] at hsome
  split_ifs at hsome
  obtain ⟨l, hl, hput⟩ := Option.bind_eq_some_iff.mp hsome
  rw [toOption_writeAt] at hput
  split_ifs at hput with hwritten
  obtain ⟨hdirectory, _⟩ := not_or.mp hwritten
  obtain rfl := Option.some.inj hput
  have hlocate := Except.toOption_eq_some_iff.mp hl
  have hfile : fs.FileAtMost l := by
    intro n hn
    cases n with
    | file content => exact ⟨content, rfl⟩
    | directory => exact absurd hn hdirectory
    | link target => exact absurd hn (noLink_of_locate hlocate target)
  have hdiffer := differAt_put hfile t
  have hnode : (fs.put l t).node? l = some (.file (.text t)) := node?_set_self hdirectory
  refine ⟨l, hlocate, hdiffer, hnode, fun hread => Except.toOption_eq_some_iff.mp ?_⟩
  have hreadable : (fs.put l t).refusal .read l = none := hread.elim
    (fun hnew => if_pos ⟨rfl, rfl, hnew⟩) id
  -- The write has moved no directory, so that the path still leads to the same location.
  rw [toOption_read, ← hdiffer.sameWays.toOption_locate, hl, Option.bind_some, readAt, hnode,
    hreadable]
  rfl

end Difference

section Names

/-- A name that leads one level down. -/
structure IsName (name : Text) : Prop where
  ne_nil : name ≠ []
  ne_dot : name ≠ ".".toList
  ne_dots : name ≠ "..".toList
  noSlash : '/' ∉ name

theorem IsName.step {name : Text} (h : IsName name) (l : Location) : step l name = l ++ [name] := by
  simp only [FileSystem.step, h.ne_nil, h.ne_dot, h.ne_dots, decide_false, Bool.or_self,
    Bool.false_eq_true, if_false]

/-- All directories on the way to the working directory can be entered. -/
def Reachable (fs : FileSystem) : Prop :=
  ∀ l, l <+: fs.workingDirectory → fs.refusal .enter l = none

theorem enter_above (h : fs.Reachable) {l : Location} (hl : l <+: fs.workingDirectory)
    (name : Text) : fs.enter l name = .ok () := by
  have hnode : fs.node? l = some .directory := if_pos (List.isPrefixOf_iff_prefix.mpr hl)
  rw [enter, hnode, h l hl]

/-- From each directory on the way, the names that are left lead to the working directory, and from
there on with the names behind them. -/
theorem walk_workingDirectory {jump : Location → List Text → Except OsError Location}
    (h : fs.Reachable) {passed left : Location} (hwd : fs.workingDirectory = passed ++ left)
    (hleft : ∀ n ∈ left, IsName n) (names : List Text) :
    fs.walk jump passed (left ++ names) = fs.walk jump fs.workingDirectory names := by
  induction left generalizing passed with
  | nil => rw [hwd, List.append_nil, List.nil_append]
  | cons n left ih =>
    obtain ⟨hn, hleft⟩ := List.forall_mem_cons.mp hleft
    have hwd' : fs.workingDirectory = (passed ++ [n]) ++ left := by
      rw [hwd, List.append_assoc, List.singleton_append]
    have hpassed : passed <+: fs.workingDirectory := hwd ▸ List.prefix_append _ _
    have hnext : fs.NoLink (step passed n) := by
      rw [hn.step]
      exact .of_above (hwd' ▸ List.prefix_append _ _)
    rw [List.cons_append, walk_cons_of_ne_link hnext, enter_above h hpassed, hn.step]
    exact ih hwd' hleft

theorem intercalate_cons (sep a : Text) (as : List Text) :
    sep.intercalate (a :: as) = a ++ as.flatMap (sep ++ ·) := by
  induction as generalizing a with
  | nil => rw [List.intercalate_singleton, List.flatMap_nil, List.append_nil]
  | cons b as ih =>
    rw [List.intercalate_cons_cons, ih, List.flatMap_cons, List.append_assoc, List.append_assoc]

theorem join_absolute {l : Location} (hl : ∀ n ∈ l, IsName n) (name : Text) :
    join (absolute l) name = ['/'].intercalate ([] :: (l ++ [name])) := by
  rw [intercalate_cons, List.flatMap_append, List.flatMap_singleton]
  obtain rfl | ⟨above, n, rfl⟩ := List.eq_nil_or_concat' l
  · rfl
  · have hn : IsName n := hl n (List.mem_append_right above List.mem_cons_self)
    let path : Text := (above ++ [n]).flatMap ('/' :: ·)
    have hpath : path = above.flatMap ('/' :: ·) ++ '/' :: n := by
      simp only [path, List.flatMap_append, List.flatMap_singleton]
    have habsolute : absolute (above ++ [n]) = path := by
      unfold absolute
      cases above <;> rfl
    have hne : path ≠ [] := by
      rw [hpath]
      exact List.append_ne_nil_of_right_ne_nil _ nofun
    -- The path ends with the last name, in which there is no slash.
    have hslash : path.getLast? ≠ some '/' := by
      obtain ⟨m, c, rfl⟩ := List.eq_nil_or_concat' n |>.resolve_left hn.ne_nil
      have hlast : path.getLast? = some c := by
        rw [hpath, ← List.cons_append, ← List.append_assoc, List.getLast?_concat]
      rw [hlast]
      intro h
      exact hn.noSlash (List.mem_append_right m (Option.some.inj h ▸ List.mem_cons_self))
    rw [habsolute, join, if_neg hne, if_neg hslash]
    simp only [path, List.nil_append, List.append_assoc]
    rfl

theorem names_join {l : Location} {name : Text} (hl : ∀ n ∈ l, IsName n) (hname : IsName name) :
    names (join (absolute l) name) = [] :: (l ++ [name]) := by
  unfold names
  rw [join_absolute hl]
  apply List.splitOn_intercalate '/'
  · intro n hn
    obtain rfl | hn := List.mem_cons.mp hn
    · exact List.not_mem_nil
    · obtain hn | hn := List.mem_append.mp hn
      · exact (hl n hn).noSlash
      · exact List.mem_singleton.mp hn ▸ hname.noSlash
  · nofun

/-- The full path of a name in the working directory leads where the name itself does. -/
theorem locate_join {name : Text} (h : fs.Reachable) (hwd : ∀ n ∈ fs.workingDirectory, IsName n)
    (hname : IsName name) : fs.locate (join (absolute fs.workingDirectory) name) =
      fs.follow linkLimit fs.workingDirectory [name] := by
  have hnames := names_join hwd hname
  have hhead : (join (absolute fs.workingDirectory) name).head? = some '/' := by
    rw [join_absolute hwd, intercalate_cons]
    cases fs.workingDirectory <;> rfl
  have hne : join (absolute fs.workingDirectory) name ≠ [] := by
    intro h
    rw [h] at hhead
    cases hhead
  have hroot : fs.NoLink (step [] []) := .of_above List.nil_prefix
  rw [locate, if_neg hne, start, origin, if_pos hhead, hnames, linkLimit, follow,
    walk_cons_of_ne_link hroot, enter_above h List.nil_prefix]
  exact walk_workingDirectory h (List.nil_append _).symm hwd [name]

/-- A name in the working directory is followed through the link that may stand there. -/
theorem follow_name {name : Text} (h : fs.Reachable) (hname : IsName name) (links : Nat) :
    fs.follow (links + 1) fs.workingDirectory [name] =
      match fs.node? (fs.workingDirectory ++ [name]) with
      | some (.link target) => fs.follow links (origin fs.workingDirectory target) (names target)
      | _ => .ok (fs.workingDirectory ++ [name]) := by
  rw [follow, walk, enter_above h List.prefix_rfl, hname.step]
  rcases fs.node? (fs.workingDirectory ++ [name]) with _ | _ | _ | target
  · rfl
  · rfl
  · rfl
  · change fs.follow links _ (names target ++ []) = _
    rw [List.append_nil]

end Names

end FileSystem

end Highlighter
