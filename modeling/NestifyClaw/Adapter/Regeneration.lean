import NestifyClaw.Adapter.Overwrite
import NestifyClaw.Adapter.Sources

/-!
# Running the generator again

A second run reads what the first one left, and another file system may list the vendored files in
another order.  As long as no module is written into the directories that are searched, a second
run changes nothing (`Confined.again`).  Two runs whose listings differ in their order leave the
same adapter if the same specifier's module stays in each of its files (`SameLast.sameAdapter`), and
only then unless a specifier has a line break (`SameAdapter.sameLast`): a specifier has one file,
but a file may have many specifiers, and the last one that is referenced stays.
-/

namespace NestifyClaw.Adapter

/-- The same files and directories from `src/common/openclaw` on. -/
structure SameAdapter (root : Path) (tree tree' : Entry) : Prop where
  files : ∀ path, adapterDir root <+: path → tree'.fileAt path = tree.fileAt path
  dirs : ∀ path, adapterDir root <+: path → (tree'.IsDir path ↔ tree.IsDir path)

/-- The tree that a run leaves. -/
def after (root : Path) (createSourceFile : Path → String → Node) (tree : Entry) : Entry :=
  (main root createSourceFile tree).1.tree

/-- A second run leaves the adapter as the first one does, and so does a run on the other tree. -/
structure Regenerates (root : Path) (createSourceFile : Path → String → Node)
    (tree tree' : Entry) : Prop where
  idempotent : SameAdapter root (after root createSourceFile tree)
    (after root createSourceFile (after root createSourceFile tree))
  ordered : SameAdapter root (after root createSourceFile tree) (after root createSourceFile tree')

/-- No module that the run gets to is written into the directories that are searched. -/
def Confined (root : Path) (createSourceFile : Path → String → Node) (tree : Entry) : Prop :=
  ∀ spec, Reached root createSourceFile tree spec →
    handWritten tree (adapterPathFor root spec) = true ∨ ¬ Searched root (adapterPathFor root spec)

/-- The specifier is the last one of the file that the run gets to. -/
def Last (root : Path) (createSourceFile : Path → String → Node) (tree : Entry) (file : Path)
    (spec : String) : Prop :=
  ∃ files before later, sources root createSourceFile tree = .ok files ∧
    (referenced files).items = before ++ spec :: later ∧
    Accepted tree ((before ++ [spec]).map (adapterPathFor root)) ∧
    adapterPathFor root spec = file ∧
    ∀ other ∈ later, Reached root createSourceFile tree other → adapterPathFor root other ≠ file

/-- The file already holds the module of a referenced specifier. -/
def Current (root : Path) (createSourceFile : Path → String → Node) (tree : Entry) (file : Path)
    (spec : String) : Prop :=
  ∃ files m, sources root createSourceFile tree = .ok files ∧
    (collectAll files).get spec = some m ∧ tree.fileAt file = some (stub root spec m)

/-- The module of the specifier is the one that stays: it is the last one of the file, or the run
gets to none of the file and it is there already. -/
def Stays (root : Path) (createSourceFile : Path → String → Node) (tree : Entry) (file : Path)
    (spec : String) : Prop :=
  Last root createSourceFile tree file spec ∨
    (∀ other, ¬ Last root createSourceFile tree file other) ∧
      Current root createSourceFile tree file spec

/-- In each adapter file that is not a hand-written one the same specifier's module stays. -/
def SameLast (root : Path) (createSourceFile : Path → String → Node) (tree tree' : Entry) : Prop :=
  ∀ file, adapterDir root <+: file → handWritten tree file = false → ∀ spec,
    Stays root createSourceFile tree file spec ↔ Stays root createSourceFile tree' file spec

/-- No referenced specifier has a line break. -/
def OneLine (root : Path) (createSourceFile : Path → String → Node) (tree : Entry) : Prop :=
  ∀ files, sources root createSourceFile tree = .ok files →
    ∀ spec ∈ (referenced files).items, '\n' ∉ spec.toList

/-- No two referenced specifiers have the same adapter file, hand-written ones apart. -/
def Distinct (root : Path) (createSourceFile : Path → String → Node) (tree : Entry) : Prop :=
  ∀ files, sources root createSourceFile tree = .ok files → ∀ spec ∈ (referenced files).items,
    ∀ other ∈ (referenced files).items, adapterDir root <+: adapterPathFor root spec →
      handWritten tree (adapterPathFor root spec) = false →
      adapterPathFor root other = adapterPathFor root spec → other = spec

section

variable {root : Path} {createSourceFile : Path → String → Node} {tree tree' : Entry}
  {modules : List (String × ModuleNeeds)} {run : Run} {file : Path} {spec : String}

/-! ## A second run -/

theorem Leaves.fits (left : Leaves root tree modules run)
    (fits : Fits tree (paths root modules)) : Fits run.tree (paths root modules) := by
  have isPath : ∀ q ∈ run.written, q ∈ paths root modules := by
    intro q isWritten
    rw [left.written] at isWritten
    exact (List.mem_filter.mp isWritten).1
  refine ⟨fun q there isDir => ?_, fun q there => ?_, fits.apart⟩
  · rcases (left.dirs q).mp isDir with was | ⟨q', isWritten, along⟩
    · exact fits.noDir q there was
    · exact fits.apart q there q' (isPath q' isWritten) along
  · rw [left.handWritten_eq]
    refine (fits.dirFree q there).imp_right fun free dir along => ?_
    exact left.fileAt_eq_none.mpr ⟨free dir along, fun isWritten =>
      fits.apart dir (isPath dir isWritten) q there along⟩

theorem Leaves.of_fits (left : Leaves root tree modules run) {files : List Path}
    (fits : Fits run.tree files) : Fits tree files := by
  refine ⟨fun q there isDir => ?_, fun q there => ?_, fits.apart⟩
  · exact fits.noDir q there ((left.dirs q).mpr (Or.inl isDir))
  · rw [← left.handWritten_eq]
    exact (fits.dirFree q there).imp_right fun free dir along =>
      (left.fileAt_eq_none.mp (free dir along)).1

/-- Going through the same modules again changes nothing. -/
theorem Leaves.again (left : Leaves root tree modules run) {run' : Run}
    (left' : Leaves root run.tree modules run') :
    (∀ path, run'.tree.fileAt path = run.tree.fileAt path) ∧
      ∀ path, run'.tree.IsDir path ↔ run.tree.IsDir path := by
  have written : run'.written = run.written := by
    rw [left'.written, left.written, writes, writes]
    exact List.filter_congr fun q _ => by rw [left.handWritten_eq]
  refine ⟨fun path => ?_, fun path => ?_⟩
  · rw [left'.files, left.handWritten_eq, left.files]
    cases handWritten tree path with
    | true => rfl
    | false => cases lastStub root modules path <;> rfl
  · rw [left'.dirs, written, left.dirs, or_assoc, or_self]

/-- A run on what a run left gets equally far. -/
theorem longest_again (left : Leaves root tree modules run)
    (accepted : Accepted tree (paths root modules)) {all done : List (String × ModuleNeeds)}
    (along : modules <+: all) (along' : done <+: all)
    (accepted' : Accepted run.tree (paths root done))
    (longest : ∀ before, before <+: all → Accepted tree (paths root before) → before <+: modules)
    (longest' : ∀ before, before <+: all → Accepted run.tree (paths root before) →
      before <+: done) : done = modules := by
  have inDone : modules <+: done := longest' modules along
    (accepted_paths_iff.mpr (left.fits (accepted_paths_iff.mp accepted)))
  have inModules : done <+: modules := longest done along'
    (accepted_paths_iff.mpr (left.of_fits (accepted_paths_iff.mp accepted')))
  exact inModules.eq_of_length_le inDone.length_le

/-- A run that writes nothing into the searched directories leaves them alone. -/
theorem Confined.lookup (confined : Confined root createSourceFile tree)
    (left : Leaves root tree modules run)
    (returned : generate root ⟨tree, []⟩ modules = (run, .ok ()))
    (reached : ∀ entry ∈ modules, Reached root createSourceFile tree entry.1) {path : Path}
    (searched : Searched root path) : run.tree.lookup path = tree.lookup path := by
  refine lookup_generate returned fun q isWritten along => ?_
  rw [left.written] at isWritten
  obtain ⟨isPath, goes⟩ := List.mem_filter.mp isWritten
  obtain ⟨entry, there, rfl⟩ := List.mem_map.mp isPath
  have away := (confined entry.1 (reached entry there)).resolve_left fun stays => by
    simp [stays] at goes
  exact away (searched.below along)

/-- A second run leaves the whole tree as the first one does. -/
theorem Confined.again (confined : Confined root createSourceFile tree) :
    (∀ path, (after root createSourceFile (after root createSourceFile tree)).fileAt path =
        (after root createSourceFile tree).fileAt path) ∧
      ∀ path, (after root createSourceFile (after root createSourceFile tree)).IsDir path ↔
        (after root createSourceFile tree).IsDir path := by
  cases read : sources root createSourceFile tree with
  | error err =>
      have nothing : after root createSourceFile tree = tree := by rw [after, main, read]
      rw [nothing, nothing]
      exact ⟨fun _ => rfl, fun _ => Iff.rfl⟩
  | ok files =>
      obtain ⟨done, along, accepted, stops, longest⟩ :=
        generate_longest root tree (collectAll files).entries
      obtain ⟨run, returned, left⟩ := (generate_accepted done).1 accepted
      have first : after root createSourceFile tree = run.tree := by
        rw [after, main, read]
        exact congrArg Run.tree (stops.trans (by rw [returned]))
      have reached := reached_iff read along accepted longest
      have read' : sources root createSourceFile run.tree = .ok files := by
        rw [← read]
        exact sources_congr fun path searched => confined.lookup left returned
          (fun entry there => (reached entry.1).mpr ⟨entry.2, there⟩) searched
      obtain ⟨done', along', accepted', left', longest'⟩ :=
        leaves_generate root run.tree (collectAll files).entries
      cases longest_again left accepted along along' accepted' longest longest'
      rw [first, after, main, read']
      exact left.again left'

/-! ## What a run leaves in a file -/

/-- A run that reads the files is one through these modules. -/
structure Went (root : Path) (createSourceFile : Path → String → Node) (tree : Entry)
    (files : List Node) (done : List (String × ModuleNeeds)) : Prop where
  along : done <+: (collectAll files).entries
  accepted : Accepted tree (paths root done)
  leaves : Leaves root tree done (main root createSourceFile tree).1
  reached : ∀ spec, Reached root createSourceFile tree spec ↔ ∃ m, (spec, m) ∈ done

theorem exists_went {files : List Node} (read : sources root createSourceFile tree = .ok files) :
    ∃ done, Went root createSourceFile tree files done := by
  obtain ⟨done, along, accepted, left, longest⟩ :=
    leaves_generate root tree (collectAll files).entries
  refine ⟨done, along, accepted, ?_, reached_iff read along accepted longest⟩
  rw [main, read]
  exact left

/-- Every run leaves what some modules leave. -/
theorem exists_leaves (root : Path) (createSourceFile : Path → String → Node) (tree : Entry) :
    ∃ done, Leaves root tree done (main root createSourceFile tree).1 := by
  cases read : sources root createSourceFile tree with
  | error err =>
      refine ⟨[], ?_⟩
      rw [main, read]
      exact .start
  | ok files =>
      obtain ⟨done, went⟩ := exists_went read
      exact ⟨done, went.leaves⟩

/-- The last specifier of a file, from the modules that the run went through. -/
theorem Went.last_iff {files : List Node} {done : List (String × ModuleNeeds)}
    (went : Went root createSourceFile tree files done)
    (read : sources root createSourceFile tree = .ok files) :
    Last root createSourceFile tree file spec ↔ ∃ before m later,
      done = before ++ (spec, m) :: later ∧ adapterPathFor root spec = file ∧
        ∀ entry ∈ later, adapterPathFor root entry.1 ≠ file := by
  obtain ⟨rest, entries⟩ := went.along
  have keys : (referenced files).items = done.map Prod.fst ++ rest.map Prod.fst := by
    rw [← map_fst_collectAll, ← entries, List.map_append]
  have nodup := (referenced files).nodup
  constructor
  · rintro ⟨files', before, later, read', split, accepts, isPath, none⟩
    cases read.symm.trans read'
    obtain ⟨m, there⟩ := (went.reached spec).mp ⟨files, before, later, read, split, accepts⟩
    obtain ⟨before', later', rfl⟩ := List.append_of_mem there
    refine ⟨before', m, later', rfl, isPath, fun entry inLater => ?_⟩
    have here : before ++ spec :: later =
        before'.map Prod.fst ++ spec :: (later'.map Prod.fst ++ rest.map Prod.fst) := by
      rw [← split, keys]
      simp
    rw [split, List.nodup_append, List.nodup_cons] at nodup
    obtain ⟨-, ⟨notLater, -⟩, apart⟩ := nodup
    have notBefore : spec ∉ before := fun inBefore =>
      apart spec inBefore spec List.mem_cons_self rfl
    obtain ⟨-, -, rfl⟩ := (List.append_cons_inj_of_notMem notBefore notLater).mp here
    refine none entry.1 (List.mem_append_left _ (List.mem_map_of_mem inLater))
      ((went.reached entry.1).mpr ⟨entry.2, ?_⟩)
    exact List.mem_append_right _ (List.mem_cons_of_mem _ inLater)
  · rintro ⟨before, m, later, rfl, isPath, none⟩
    refine ⟨files, before.map Prod.fst, later.map Prod.fst ++ rest.map Prod.fst, read, ?_, ?_,
      isPath, fun other inLater reached => ?_⟩
    · rw [keys]
      simp
    · refine went.accepted.of_prefix ⟨(later.map Prod.fst).map (adapterPathFor root), ?_⟩
      rw [paths_eq]
      simp
    · obtain ⟨m', there⟩ := (went.reached other).mp reached
      rcases List.mem_append.mp inLater with inLater | inRest
      · obtain ⟨entry, isEntry, rfl⟩ := List.mem_map.mp inLater
        exact none entry isEntry
      · rw [keys, List.nodup_append] at nodup
        exact absurd rfl (nodup.2.2 other (List.mem_map_of_mem there) other inRest)

/-- The module of the last specifier stays. -/
theorem Last.fileAt (last : Last root createSourceFile tree file spec)
    (goes : handWritten tree file = false) :
    ∃ files m, sources root createSourceFile tree = .ok files ∧
      (collectAll files).get spec = some m ∧
      (after root createSourceFile tree).fileAt file = some (stub root spec m) := by
  have isLast := last
  obtain ⟨files, -, -, read, -⟩ := last
  obtain ⟨done, went⟩ := exists_went read
  obtain ⟨before, m, later, rfl, isPath, none⟩ := (went.last_iff read).mp isLast
  refine ⟨files, m, read, OrdMap.get_eq_some.mpr (went.along.subset (by simp)), ?_⟩
  rw [after, went.leaves.files, goes, lastStub_of_split isPath none]
  rfl

/-- A file of which the run gets to no module stays as it is. -/
theorem fileAt_of_no_last (none : ∀ spec, ¬ Last root createSourceFile tree file spec) :
    (after root createSourceFile tree).fileAt file = tree.fileAt file := by
  cases read : sources root createSourceFile tree with
  | error err => rw [after, main, read]
  | ok files =>
      obtain ⟨done, went⟩ := exists_went read
      have noStub : lastStub root done file = Option.none := by
        refine lastStub_eq_none.mpr fun isPath => ?_
        obtain ⟨before, entry, later, split, isPath, noLater⟩ :=
          exists_last (List.mem_map.mp isPath)
        exact none entry.1 ((went.last_iff read).mpr
          ⟨before, entry.2, later, split, isPath, noLater⟩)
      rw [after, went.leaves.files, noStub]
      split <;> rfl

theorem handWritten_stays (stays : handWritten tree file = true) :
    (after root createSourceFile tree).fileAt file = tree.fileAt file := by
  obtain ⟨done, left⟩ := exists_leaves root createSourceFile tree
  exact (left.files file).trans (if_pos stays)

theorem Stays.fileAt (stays : Stays root createSourceFile tree file spec)
    (goes : handWritten tree file = false) :
    ∃ files m, sources root createSourceFile tree = .ok files ∧
      (collectAll files).get spec = some m ∧
      (after root createSourceFile tree).fileAt file = some (stub root spec m) := by
  rcases stays with last | ⟨none, files, m, read, found, holds⟩
  · exact last.fileAt goes
  · exact ⟨files, m, read, found, (fileAt_of_no_last none).trans holds⟩

/-- A directory is an old one or above a file that was written. -/
theorem isDir_after {path : Path} : (after root createSourceFile tree).IsDir path ↔
    tree.IsDir path ∨ ∃ file ∈ (main root createSourceFile tree).1.written,
      path <+: file.dropLast := by
  obtain ⟨done, left⟩ := exists_leaves root createSourceFile tree
  exact left.dirs path

theorem proper_of_mem_written (isWritten : file ∈ (main root createSourceFile tree).1.written) :
    file ≠ [] ∧ ∃ text, (after root createSourceFile tree).fileAt file = some text := by
  obtain ⟨done, left⟩ := exists_leaves root createSourceFile tree
  constructor
  · have isPath := isWritten
    rw [left.written] at isPath
    obtain ⟨entry, -, rfl⟩ := List.mem_map.mp (List.mem_filter.mp isPath).1
    exact adapterPathFor_ne_nil root entry.1
  · refine Option.ne_none_iff_exists'.mp fun absent => ?_
    exact (left.fileAt_eq_none.mp absent).2 isWritten

/-! ## Another order -/

/-- The directories of the adapter are those of its files. -/
theorem SameAdapter.of_files (reordered : Entry.Reordered tree tree')
    (files : ∀ path, adapterDir root <+: path → (after root createSourceFile tree').fileAt path =
      (after root createSourceFile tree).fileAt path) :
    SameAdapter root (after root createSourceFile tree) (after root createSourceFile tree') := by
  refine ⟨files, fun path below => ?_⟩
  constructor
  · intro isDir
    rcases isDir_after.mp isDir with was | ⟨file, isWritten, along⟩
    · exact isDir_after.mpr (Or.inl ((reordered.dirs path).mp was))
    · obtain ⟨proper, text, isFile⟩ := proper_of_mem_written isWritten
      rw [files file (below.trans (along.trans (List.dropLast_prefix file)))] at isFile
      exact isDir_of_fileAt isFile proper along
  · intro isDir
    rcases isDir_after.mp isDir with was | ⟨file, isWritten, along⟩
    · exact isDir_after.mpr (Or.inl ((reordered.dirs path).mpr was))
    · obtain ⟨proper, text, isFile⟩ := proper_of_mem_written isWritten
      rw [← files file (below.trans (along.trans (List.dropLast_prefix file)))] at isFile
      exact isDir_of_fileAt isFile proper along

/-- The order of the listings changes nothing in what is read but the order. -/
theorem sources_reordered (reordered : Entry.Reordered tree tree') {files : List Node}
    (read : sources root createSourceFile tree = .ok files) :
    ∃ files', sources root createSourceFile tree' = .ok files' ∧
      ∀ sf, sf ∈ files' ↔ sf ∈ files := by
  obtain ⟨walkable, mem⟩ := @sources_spec root _ reordered.listed createSourceFile
  obtain ⟨walkable', mem'⟩ := @sources_spec root _ reordered.listed' createSourceFile
  obtain ⟨connectors, extensions, core⟩ := walkable.mpr ⟨files, read⟩
  obtain ⟨files', read'⟩ := walkable'.mp
    ⟨(reordered.files _).trans connectors, fun name => (reordered.files _).trans (extensions name),
      (reordered.files _).trans core⟩
  refine ⟨files', read', fun sf => ?_⟩
  rw [mem' files' read', mem files read]
  simp only [reordered.files]

theorem stub_reordered {files files' : List Node} (same : ∀ sf, sf ∈ files' ↔ sf ∈ files)
    {m m' : ModuleNeeds} (found : (collectAll files).get spec = some m)
    (found' : (collectAll files').get spec = some m') : stub root spec m' = stub root spec m := by
  have openclaw : isOpenclaw spec = true :=
    isOpenclaw_of_mem_collectAll (OrdMap.get_eq_some.mp found)
  refine stub_congr (fun name => ?_) (Bool.eq_iff_iff.mpr ?_)
  · rw [mem_names_collectAll openclaw found', mem_names_collectAll openclaw found]
    simp only [same]
  · rw [needsDefault_collectAll openclaw found', needsDefault_collectAll openclaw found]
    simp only [same]

/-- When the same specifier's module stays in a file, the runs leave the same content there. -/
theorem Stays.fileAt_eq (reordered : Entry.Reordered tree tree')
    (goes : handWritten tree file = false) (stays : Stays root createSourceFile tree file spec)
    (stays' : Stays root createSourceFile tree' file spec) :
    (after root createSourceFile tree').fileAt file =
      (after root createSourceFile tree).fileAt file := by
  have goes' : handWritten tree' file = false :=
    (handWritten_congr (reordered.files file)).trans goes
  obtain ⟨files, m, read, found, isFile⟩ := stays.fileAt goes
  obtain ⟨files', m', read', found', isFile'⟩ := stays'.fileAt goes'
  obtain ⟨others, readOthers, same⟩ := sources_reordered reordered read
  cases readOthers.symm.trans read'
  rw [isFile, isFile', stub_reordered same found found']

/-- Two runs leave the same adapter if in each of its files the same specifier's module stays. -/
theorem SameLast.sameAdapter (reordered : Entry.Reordered tree tree')
    (same : SameLast root createSourceFile tree tree') :
    SameAdapter root (after root createSourceFile tree) (after root createSourceFile tree') := by
  refine .of_files reordered fun path below => ?_
  cases stays : handWritten tree path with
  | true =>
      have stays' := (handWritten_congr (reordered.files path)).trans stays
      rw [handWritten_stays stays', handWritten_stays stays, reordered.files]
  | false =>
      have staysIff := same path below stays
      by_cases some_ : ∃ spec, Last root createSourceFile tree path spec
      · obtain ⟨spec, last⟩ := some_
        exact Stays.fileAt_eq reordered stays (Or.inl last) ((staysIff spec).mp (Or.inl last))
      · by_cases some_' : ∃ spec, Last root createSourceFile tree' path spec
        · obtain ⟨spec, last⟩ := some_'
          exact Stays.fileAt_eq reordered stays ((staysIff spec).mpr (Or.inl last)) (Or.inl last)
        · rw [not_exists] at some_ some_'
          rw [fileAt_of_no_last some_, fileAt_of_no_last some_', reordered.files]

/-! ## Which module a file holds -/

theorem eq_of_append_cons {α : Type} [DecidableEq α] {a : α} {as bs rest rest' : List α}
    (notFirst : a ∉ as) (notFirst' : a ∉ bs) (same : as ++ a :: rest = bs ++ a :: rest') :
    as = bs := by
  have stops : ∀ cs rest : List α, a ∉ cs → (cs ++ a :: rest).takeWhile (· ≠ a) = cs := by
    intro cs rest notIn
    rw [List.takeWhile_append_of_pos fun c there => by
      simpa using fun isSep : c = a => notIn (isSep ▸ there)]
    simp
  rw [← stops as rest notFirst, same, stops bs rest' notFirst']

/-- The line of a generated module that names its specifier. -/
theorem toList_stub_eq_line (root : Path) (spec : String) (m : ModuleNeeds) :
    ∃ rest, (stub root spec m).toList = "/* eslint-disable */".toList ++ '\n' ::
      (("/* " ++ GENERATED_SENTINEL ++ " for '").toList ++ spec.toList ++
        "'. Do not edit by hand.".toList ++ '\n' :: rest) := by
  rw [toList_stub, lines, header]
  simp only [List.cons_append, List.flatMap_cons, String.toList_append, List.append_assoc,
    List.nil_append]
  exact ⟨_, rfl⟩

/-- The text of a generated module tells its specifier. -/
theorem spec_eq_of_stub {spec' : String} {m m' : ModuleNeeds} (oneLine : '\n' ∉ spec.toList)
    (oneLine' : '\n' ∉ spec'.toList) (same : stub root spec m = stub root spec' m') :
    spec = spec' := by
  obtain ⟨rest, text⟩ := toList_stub_eq_line root spec m
  obtain ⟨rest', text'⟩ := toList_stub_eq_line root spec' m'
  rw [same, text'] at text
  have noBreak : ∀ spec : String, '\n' ∉ spec.toList →
      '\n' ∉ ("/* " ++ GENERATED_SENTINEL ++ " for '").toList ++ spec.toList ++
        "'. Do not edit by hand.".toList := by
    intro spec oneLine inLine
    rcases List.mem_append.mp inLine with inLine | inLine
    · rcases List.mem_append.mp inLine with inLine | inLine
      · exact absurd inLine (by decide)
      · exact oneLine inLine
    · exact absurd inLine (by decide)
  have line := eq_of_append_cons (noBreak spec' oneLine') (noBreak spec oneLine)
    (List.cons.inj (List.append_cancel_left text)).2
  exact (String.toList_inj.mp (List.append_cancel_left (List.append_cancel_right line))).symm

/-- The module that a file holds after the run is the one that stays. -/
theorem OneLine.stays (oneLine : OneLine root createSourceFile tree) {files : List Node}
    (read : sources root createSourceFile tree = .ok files) {m : ModuleNeeds}
    (found : (collectAll files).get spec = some m) (goes : handWritten tree file = false)
    (isFile : (after root createSourceFile tree).fileAt file = some (stub root spec m)) :
    Stays root createSourceFile tree file spec := by
  by_cases some_ : ∃ other, Last root createSourceFile tree file other
  · obtain ⟨other, last⟩ := some_
    obtain ⟨files', m', read', found', isFile'⟩ := last.fileAt goes
    cases read.symm.trans read'
    rw [isFile, Option.some.injEq] at isFile'
    have same := spec_eq_of_stub (oneLine files read spec (referenced_of_get found))
      (oneLine files read other (referenced_of_get found')) isFile'
    exact Or.inl (same ▸ last)
  · rw [not_exists] at some_
    rw [fileAt_of_no_last some_] at isFile
    exact Or.inr ⟨some_, files, m, read, found, isFile⟩

theorem mem_referenced_reordered {files files' : List Node}
    (same : ∀ sf, sf ∈ files' ↔ sf ∈ files) :
    spec ∈ (referenced files').items ↔ spec ∈ (referenced files).items := by
  rw [mem_referenced, mem_referenced]
  simp only [same]

theorem OneLine.reordered (oneLine : OneLine root createSourceFile tree)
    (reordered : Entry.Reordered tree tree') : OneLine root createSourceFile tree' := by
  intro files' read' spec there
  obtain ⟨files, read, same⟩ := sources_reordered reordered.symm read'
  exact oneLine files read spec ((mem_referenced_reordered same).mpr there)

theorem OneLine.stays_reordered (oneLine : OneLine root createSourceFile tree)
    (reordered : Entry.Reordered tree tree') (goes : handWritten tree file = false)
    (same : (after root createSourceFile tree').fileAt file =
      (after root createSourceFile tree).fileAt file)
    (stays : Stays root createSourceFile tree file spec) :
    Stays root createSourceFile tree' file spec := by
  obtain ⟨files, m, read, found, isFile⟩ := stays.fileAt goes
  obtain ⟨files', read', sameFiles⟩ := sources_reordered reordered read
  obtain ⟨m', found'⟩ :=
    exists_needs ((mem_referenced_reordered sameFiles).mpr (referenced_of_get found))
  have goes' : handWritten tree' file = false :=
    (handWritten_congr (reordered.files file)).trans goes
  refine (oneLine.reordered reordered).stays read' found' goes' ?_
  rw [same, isFile, stub_reordered sameFiles found found']

/-- Two runs that leave the same adapter leave the same specifier's module in each of its files. -/
theorem SameAdapter.sameLast (oneLine : OneLine root createSourceFile tree)
    (reordered : Entry.Reordered tree tree')
    (same : SameAdapter root (after root createSourceFile tree)
      (after root createSourceFile tree')) :
    SameLast root createSourceFile tree tree' := by
  intro file below goes spec
  have goes' : handWritten tree' file = false :=
    (handWritten_congr (reordered.files file)).trans goes
  exact ⟨oneLine.stays_reordered reordered goes (same.files file below),
    (oneLine.reordered reordered).stays_reordered reordered.symm goes' (same.files file below).symm⟩

/-! ## One file for each specifier -/

theorem Fits.reordered {files files' : List Path} (fits : Fits tree files)
    (reordered : Entry.Reordered tree tree') (subset : ∀ q ∈ files', q ∈ files) :
    Fits tree' files' := by
  refine ⟨fun q there isDir => ?_, fun q there => ?_, fun q there q' there' => ?_⟩
  · exact fits.noDir q (subset q there) ((reordered.dirs q).mp isDir)
  · rw [handWritten_congr (reordered.files q)]
    refine (fits.dirFree q (subset q there)).imp_right fun free dir along => ?_
    exact (reordered.files dir).trans (free dir along)
  · exact fits.apart q (subset q there) q' (subset q' there')

/-- Whether the run returns does not depend on the order of the listings. -/
theorem returns_reordered (reordered : Entry.Reordered tree tree')
    (returns : (main root createSourceFile tree).2 = .ok ()) :
    (main root createSourceFile tree').2 = .ok () := by
  cases read : sources root createSourceFile tree with
  | error err =>
      rw [main, read] at returns
      cases returns
  | ok files =>
      obtain ⟨files', read', same⟩ := sources_reordered reordered read
      rw [main, read] at returns
      rw [main, read']
      have fits := accepted_paths_iff.mp (generate_isOk_iff.mp returns)
      refine generate_isOk_iff.mpr (accepted_paths_iff.mpr (fits.reordered reordered ?_))
      rw [paths_eq, paths_eq, map_fst_collectAll, map_fst_collectAll]
      intro q there
      obtain ⟨spec, isSpec, rfl⟩ := List.mem_map.mp there
      exact List.mem_map_of_mem ((mem_referenced_reordered same).mp isSpec)

theorem Distinct.reordered (distinct : Distinct root createSourceFile tree)
    (reordered : Entry.Reordered tree tree') : Distinct root createSourceFile tree' := by
  intro files' read' spec there other there' below goes samePath
  obtain ⟨files, read, same⟩ := sources_reordered reordered.symm read'
  have samePlace := handWritten_congr (reordered.files (adapterPathFor root spec))
  exact distinct files read spec ((mem_referenced_reordered same).mpr there) other
    ((mem_referenced_reordered same).mpr there') below (samePlace.symm.trans goes) samePath

/-- Every referenced specifier is the last one of its file. -/
theorem Distinct.last_iff (distinct : Distinct root createSourceFile tree)
    (returns : (main root createSourceFile tree).2 = .ok ()) {files : List Node}
    (read : sources root createSourceFile tree = .ok files) (below : adapterDir root <+: file)
    (goes : handWritten tree file = false) :
    Last root createSourceFile tree file spec ↔
      spec ∈ (referenced files).items ∧ adapterPathFor root spec = file := by
  constructor
  · rintro ⟨files', before, later, read', split, -, isPath, -⟩
    cases read.symm.trans read'
    refine ⟨?_, isPath⟩
    rw [split]
    exact List.mem_append_right _ List.mem_cons_self
  · rintro ⟨there, rfl⟩
    rw [main, read] at returns
    have accepted := generate_isOk_iff.mp returns
    rw [paths_eq, map_fst_collectAll] at accepted
    obtain ⟨before, later, split⟩ := List.append_of_mem there
    have nodup := (referenced files).nodup
    rw [split, List.nodup_append, List.nodup_cons] at nodup
    obtain ⟨-, ⟨notLater, -⟩, -⟩ := nodup
    refine ⟨files, before, later, read, split, accepted.of_prefix ?_, rfl,
      fun other inLater _ samePath => notLater ?_⟩
    · rw [split]
      exact ⟨later.map (adapterPathFor root), by simp⟩
    · have isOther : other ∈ (referenced files).items := by
        rw [split]
        exact List.mem_append_right _ (List.mem_cons_of_mem _ inLater)
      exact distinct files read spec there other isOther below goes samePath ▸ inLater

theorem Current.reordered (current : Current root createSourceFile tree file spec)
    (reordered : Entry.Reordered tree tree') : Current root createSourceFile tree' file spec := by
  obtain ⟨files, m, read, found, isFile⟩ := current
  obtain ⟨files', read', same⟩ := sources_reordered reordered read
  obtain ⟨m', found'⟩ :=
    exists_needs ((mem_referenced_reordered same).mpr (referenced_of_get found))
  refine ⟨files', m', read', found', ?_⟩
  rw [reordered.files, isFile, stub_reordered same found found']

/-- Where each referenced specifier has a file of its own, the order of the listings does not
matter to a run that returns. -/
theorem Distinct.sameLast (distinct : Distinct root createSourceFile tree)
    (returns : (main root createSourceFile tree).2 = .ok ())
    (reordered : Entry.Reordered tree tree') : SameLast root createSourceFile tree tree' := by
  intro file below goes
  have goes' : handWritten tree' file = false :=
    (handWritten_congr (reordered.files file)).trans goes
  have last : ∀ spec, Last root createSourceFile tree file spec ↔
      Last root createSourceFile tree' file spec := by
    intro spec
    cases read : sources root createSourceFile tree with
    | error err =>
        rw [main, read] at returns
        cases returns
    | ok files =>
        obtain ⟨files', read', same⟩ := sources_reordered reordered read
        rw [distinct.last_iff returns read below goes, (distinct.reordered reordered).last_iff
          (returns_reordered reordered returns) read' below goes', mem_referenced_reordered same]
  intro spec
  rw [Stays, Stays, last spec]
  simp only [last]
  exact or_congr_right (and_congr_right fun _ =>
    ⟨fun current => current.reordered reordered, fun current => current.reordered reordered.symm⟩)

/-- The generator regenerates the adapter if it writes nothing into the directories that it
searches and the same specifier's module stays in each adapter file in both orders; where no
specifier has a line break, only then do two runs in these orders leave the same adapter. -/
theorem regenerates_iff (reordered : Entry.Reordered tree tree') :
    (Confined root createSourceFile tree ∧ SameLast root createSourceFile tree tree' →
        Regenerates root createSourceFile tree tree') ∧
      (OneLine root createSourceFile tree → Regenerates root createSourceFile tree tree' →
        SameLast root createSourceFile tree tree') := by
  constructor
  · rintro ⟨confined, same⟩
    obtain ⟨files, dirs⟩ := confined.again
    exact ⟨⟨fun path _ => files path, fun path _ => dirs path⟩, same.sameAdapter reordered⟩
  · intro oneLine regenerates
    exact regenerates.ordered.sameLast oneLine reordered

end

/-! ## Two listings -/

/-- An extension of two source files, listed in this order. -/
def listing (first second : String) : Entry :=
  .dir [("repo", .dir [("src", .dir [("connectors", .dir [("telegram", .dir [("extension",
    .dir [(first, .file ""), (second, .file "")])])])])])]

/-- The syntax tree of an import of `a` from `openclaw/x` in `a.ts`, and of one of `b` from another
module in the other file. -/
def twoImports (spec : String) (file : Path) (_ : String) : Node :=
  if file.getLast? = some "a.ts" then
    .mk .other [.mk (.importDeclaration (some "openclaw/x")
      (some ⟨none, some (.namedImports [⟨none, "a"⟩])⟩)) []]
  else
    .mk .other [.mk (.importDeclaration (some spec)
      (some ⟨none, some (.namedImports [⟨none, "b"⟩])⟩)) []]

theorem reordered_listing : Entry.Reordered (listing "a.ts" "b.ts") (listing "b.ts" "a.ts") := by
  refine .single _ (.single _ (.single _ (.single _ (.single _ (.of_perm (by decide)
    (List.Perm.swap _ _ _) fun name e there => ?_)))))
  simp only [List.mem_cons, Prod.mk.injEq, List.not_mem_nil, or_false] at there
  rcases there with ⟨-, rfl⟩ | ⟨-, rfl⟩ <;> exact Entry.listed_file ""

theorem sources_listing (spec : String) :
    sources ["repo"] (twoImports spec) (listing "a.ts" "b.ts") =
      .ok [twoImports spec ["a.ts"] "", twoImports spec ["b.ts"] ""] := rfl

/-- What the two files import, in the one order. -/
theorem referenced_y :
    (referenced [twoImports "openclaw/y" ["a.ts"] "", twoImports "openclaw/y" ["b.ts"] ""]).items =
      ["openclaw/x", "openclaw/y"] := by
  decide

theorem confined_y : Confined ["repo"] (twoImports "openclaw/y") (listing "a.ts" "b.ts") := by
  rintro spec ⟨files, before, later, read, split, -⟩
  cases read.symm.trans (sources_listing "openclaw/y")
  have there : spec ∈ before ++ spec :: later := by simp
  rw [← split, referenced_y] at there
  refine Or.inr ?_
  simp only [List.mem_cons, List.not_mem_nil, or_false] at there
  rcases there with rfl | rfl <;> unfold Searched <;> decide

theorem distinct_y : Distinct ["repo"] (twoImports "openclaw/y") (listing "a.ts" "b.ts") := by
  intro files read
  cases read.symm.trans (sources_listing "openclaw/y")
  rw [referenced_y]
  intro spec there other there' _ _ samePath
  simp only [List.mem_cons, List.not_mem_nil, or_false] at there there'
  rcases there with rfl | rfl <;> rcases there' with rfl | rfl
  · rfl
  · exact absurd samePath (by decide)
  · exact absurd samePath (by decide)
  · rfl

/-- With a file for each specifier the two orders lead to the same adapter. -/
theorem regenerates_y : Regenerates ["repo"] (twoImports "openclaw/y") (listing "a.ts" "b.ts")
    (listing "b.ts" "a.ts") :=
  (regenerates_iff reordered_listing).1
    ⟨confined_y, distinct_y.sameLast rfl reordered_listing⟩

/-! Two specifiers of one file. -/

theorem sources_listing_ba (spec : String) :
    sources ["repo"] (twoImports spec) (listing "b.ts" "a.ts") =
      .ok [twoImports spec ["b.ts"] "", twoImports spec ["a.ts"] ""] := rfl

theorem adapterPathFor_xx : adapterPathFor ["repo"] "openclaw//x" =
    adapterPathFor ["repo"] "openclaw/x" := by
  decide

theorem fits_listing {files : List Path}
    (only : ∀ q ∈ files, q = ["repo", "src", "common", "openclaw", "x.ts"]) :
    Fits (listing "a.ts" "b.ts") files := by
  have noFile : ∀ dir ∈ ["repo", "src", "common", "openclaw"].inits,
      (listing "a.ts" "b.ts").fileAt dir = none := by decide
  refine ⟨fun q there isDir => ?_, fun q there => Or.inr fun dir along => ?_,
    fun q there q' there' along => ?_⟩
  · obtain ⟨children, found⟩ := only q there ▸ isDir
    cases found
  · rw [only q there] at along
    exact noFile dir ((List.mem_inits _ _).mpr along)
  · have short := along.length_le
    rw [only q there, only q' there'] at short
    exact absurd short (by decide)

/-- Where two specifiers have one file, the order decides which module it holds. -/
theorem not_regenerates :
    Entry.Reordered (listing "a.ts" "b.ts") (listing "b.ts" "a.ts") ∧
      ¬ Regenerates ["repo"] (twoImports "openclaw//x") (listing "a.ts" "b.ts")
        (listing "b.ts" "a.ts") := by
  refine ⟨reordered_listing, fun regenerates => ?_⟩
  have onePath : ∀ q ∈ [adapterPathFor ["repo"] "openclaw/x", adapterPathFor ["repo"] "openclaw/x"],
      q = ["repo", "src", "common", "openclaw", "x.ts"] := by decide
  have fits := fits_listing onePath
  have proper : ∀ q ∈ [adapterPathFor ["repo"] "openclaw/x", adapterPathFor ["repo"] "openclaw/x"],
      q ≠ [] := by decide
  have last : Last ["repo"] (twoImports "openclaw//x") (listing "a.ts" "b.ts")
      (adapterPathFor ["repo"] "openclaw/x") "openclaw//x" := by
    refine ⟨_, ["openclaw/x"], [], sources_listing _, by decide, ?_, adapterPathFor_xx, by simp⟩
    rw [List.singleton_append, List.map_cons, List.map_singleton, adapterPathFor_xx]
    exact (accepted_iff proper).mpr fits
  have last' : Last ["repo"] (twoImports "openclaw//x") (listing "b.ts" "a.ts")
      (adapterPathFor ["repo"] "openclaw/x") "openclaw/x" := by
    refine ⟨_, ["openclaw//x"], [], sources_listing_ba _, by decide, ?_, rfl, by simp⟩
    rw [List.singleton_append, List.map_cons, List.map_singleton, adapterPathFor_xx]
    exact (accepted_iff proper).mpr (fits.reordered reordered_listing fun _ => id)
  obtain ⟨files, m, -, -, isFile⟩ := last.fileAt rfl
  obtain ⟨files', m', -, -, isFile'⟩ := last'.fileAt rfl
  have inside : adapterDir ["repo"] <+: adapterPathFor ["repo"] "openclaw/x" := by decide
  have sameText := regenerates.ordered.files _ inside
  rw [isFile, isFile', Option.some.injEq] at sameText
  have sameSpec : "openclaw/x" = "openclaw//x" :=
    spec_eq_of_stub (by decide) (by decide) sameText
  exact absurd sameSpec (by decide)

end NestifyClaw.Adapter
