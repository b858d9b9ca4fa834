import NestifyClaw.Adapter.Generate

/-!
# Which files the generator reads

`main` walks the extension directories below `src/connectors` and `src/core/openclaw`.
`sources_spec` says which syntax trees it gets from a tree whose directories list each entry once:
those of the vendored files, whatever the order of the listings.  What it gets, order included,
depends only on what lies below the two directories (`sources_congr`).
-/

namespace NestifyClaw.Adapter

/-- A path below a walked directory that the walk does not pass over. -/
def Walked : Path → Prop
  | [] => False
  | [name] => ".ts".toList.isSuffixOf name.toList ∧ ¬ ".d.ts".toList.isSuffixOf name.toList
  | name :: next :: rest => ¬ (name = "node_modules" ∨ name = "dist") ∧ Walked (next :: rest)

/-- A path at which `main` takes a file for a vendored one. -/
def IsVendored (root file : Path) : Prop :=
  (∃ name rest, file = connectorsDir root ++ [name, "extension"] ++ rest ∧ Walked rest) ∨
    ∃ rest, file = coreOpenclawDir root ++ rest ∧ Walked rest

/-- A path in one of the two directories that are searched. -/
def Searched (root path : Path) : Prop :=
  connectorsDir root <+: path ∨ coreOpenclawDir root <+: path

/-- No file stands where a directory is walked. -/
structure Walkable (root : Path) (tree : Entry) : Prop where
  connectors : tree.fileAt (connectorsDir root) = none
  extensions : ∀ name, tree.fileAt (connectorsDir root ++ [name, "extension"]) = none
  core : tree.fileAt (coreOpenclawDir root) = none

/-! ## Runs over a list -/

section

variable {α β ε : Type} {f : α → Except ε β}

theorem mapM_cons_eq_ok {a : α} {as : List α} {bs : List β} :
    (a :: as).mapM f = .ok bs ↔ ∃ b rest, f a = .ok b ∧ as.mapM f = .ok rest ∧ bs = b :: rest := by
  rw [List.mapM_cons]
  cases f a with
  | error err => exact ⟨nofun, fun ⟨_, _, failed, _⟩ => nomatch failed⟩
  | ok b =>
      cases as.mapM f with
      | error err => exact ⟨nofun, fun ⟨_, _, _, failed, _⟩ => nomatch failed⟩
      | ok rest =>
          constructor
          · rintro ⟨⟩
            exact ⟨b, rest, rfl, rfl, rfl⟩
          · rintro ⟨_, _, ⟨⟩, ⟨⟩, rfl⟩
            rfl

/-- A run over a list yields what it yields for the members. -/
theorem mem_of_mapM {as : List α} : ∀ {bs : List β}, as.mapM f = .ok bs →
    ∀ b, b ∈ bs ↔ ∃ a ∈ as, f a = .ok b := by
  induction as with
  | nil =>
      rintro bs ⟨⟩ b
      simp
  | cons a as ih =>
      intro bs done b
      obtain ⟨first, rest, head, tail, rfl⟩ := mapM_cons_eq_ok.mp done
      rw [List.mem_cons, ih tail, List.exists_mem_cons_iff, head, Except.ok.injEq, eq_comm]

theorem mapM_isOk {as : List α} :
    (∃ bs, as.mapM f = .ok bs) ↔ ∀ a ∈ as, ∃ b, f a = .ok b := by
  induction as with
  | nil =>
      refine iff_of_true ⟨[], rfl⟩ ?_
      simp
  | cons a as ih =>
      simp only [mapM_cons_eq_ok, List.forall_mem_cons, ← ih]
      constructor
      · rintro ⟨_, b, rest, head, tail, -⟩
        exact ⟨⟨b, head⟩, rest, tail⟩
      · rintro ⟨⟨b, head⟩, rest, tail⟩
        exact ⟨_, b, rest, head, tail, rfl⟩

theorem mapM_congr {g : α → Except ε β} {as : List α} (same : ∀ a ∈ as, f a = g a) :
    as.mapM f = as.mapM g := by
  induction as with
  | nil => rfl
  | cons a as ih =>
      rw [List.mapM_cons, List.mapM_cons, same a List.mem_cons_self,
        ih fun b there => same b (List.mem_cons_of_mem a there)]

end

/-! ## A walk -/

mutual

theorem mem_walkEntry {file dir : Path} {name : String} : ∀ e : Entry, e.Listed →
    (file ∈ walkEntry dir name e ↔
      ∃ rest content, file = dir ++ name :: rest ∧ Walked (name :: rest) ∧
        e.fileAt rest = some content)
  | .file text, _ => by
      rw [walkEntry]
      constructor
      · intro there
        split at there
        next isSource =>
          exact ⟨[], text, List.mem_singleton.mp there, isSource, rfl⟩
        next => cases there
      · rintro ⟨rest, content, rfl, walked, isFile⟩
        cases rest with
        | nil =>
            have isSource : dir ++ [name] ∈ [dir ++ [name]] := List.mem_singleton_self _
            exact (if_pos walked).symm ▸ isSource
        | cons next rest => cases isFile
  | .dir children, listed => by
      rw [walkEntry]
      constructor
      · intro there
        split at there
        next => cases there
        next kept =>
          obtain ⟨next, e, rest, content, isChild, rfl, walked, isFile⟩ :=
            (mem_walkEntries children fun next e isChild =>
              listed.child (listed.mem_iff.mp isChild)).mp there
          refine ⟨next :: rest, content, by simp, ⟨kept, walked⟩, ?_⟩
          rw [← isFile]
          refine Entry.fileAt_congr ?_
          rw [Entry.lookup_dir_cons, listed.mem_iff.mp isChild, Option.bind_some]
      · rintro ⟨rest, content, rfl, walked, isFile⟩
        cases rest with
        | nil => cases isFile
        | cons next rest =>
            rw [if_neg walked.1]
            have inside := Entry.fileAt_eq_some.mp isFile
            rw [Entry.lookup_dir_cons] at inside
            obtain ⟨e, found, below⟩ := Option.bind_eq_some_iff.mp inside
            refine (mem_walkEntries children fun next e isChild =>
              listed.child (listed.mem_iff.mp isChild)).mpr ⟨next, e, rest, content,
                listed.mem_iff.mpr found, by simp, walked.2, Entry.fileAt_eq_some.mpr below⟩

theorem mem_walkEntries {file dir : Path} : ∀ entries : List (String × Entry),
    (∀ name e, (name, e) ∈ entries → e.Listed) →
    (file ∈ walkEntries dir entries ↔
      ∃ name e rest content, (name, e) ∈ entries ∧ file = dir ++ name :: rest ∧
        Walked (name :: rest) ∧ e.fileAt rest = some content)
  | [], _ => by simp [walkEntries]
  | (name, e) :: entries, listed => by
      rw [walkEntries, List.mem_append, mem_walkEntry e (listed name e List.mem_cons_self),
        mem_walkEntries entries fun name e there => listed name e (List.mem_cons_of_mem _ there)]
      constructor
      · rintro (⟨rest, content, found⟩ | ⟨name', e', rest, content, there, found⟩)
        · exact ⟨name, e, rest, content, List.mem_cons_self, found⟩
        · exact ⟨name', e', rest, content, List.mem_cons_of_mem _ there, found⟩
      · rintro ⟨name', e', rest, content, there, found⟩
        rcases List.mem_cons.mp there with same | there
        · cases same
          exact Or.inl ⟨rest, content, found⟩
        · exact Or.inr ⟨name', e', rest, content, there, found⟩

end

mutual

theorem prefix_of_mem_walkEntry {file dir : Path} {name : String} : ∀ e : Entry,
    file ∈ walkEntry dir name e → dir <+: file
  | .file _, there => by
      rw [walkEntry] at there
      split at there
      · exact List.mem_singleton.mp there ▸ List.prefix_append dir [name]
      · cases there
  | .dir children, there => by
      rw [walkEntry] at there
      split at there
      · cases there
      · exact (List.prefix_append dir [name]).trans (prefix_of_mem_walkEntries children there)

theorem prefix_of_mem_walkEntries {file dir : Path} : ∀ entries : List (String × Entry),
    file ∈ walkEntries dir entries → dir <+: file
  | [], there => nomatch there
  | (_, e) :: entries, there => by
      rw [walkEntries] at there
      exact (List.mem_append.mp there).elim (prefix_of_mem_walkEntry e)
        (prefix_of_mem_walkEntries entries)

end

/-! ## The whole search -/

section

variable {root : Path} {createSourceFile : Path → String → Node} {tree : Entry}

theorem bind_eq_ok {α β ε : Type} {x : Except ε α} {f : α → Except ε β} {b : β} :
    x >>= f = .ok b ↔ ∃ a, x = .ok a ∧ f a = .ok b := by
  cases x with
  | error err => exact ⟨nofun, fun ⟨_, failed, _⟩ => nomatch failed⟩
  | ok a => exact ⟨fun done => ⟨a, rfl, done⟩, fun ⟨_, same, done⟩ => by cases same; exact done⟩

theorem map_eq_ok {α β ε : Type} {x : Except ε α} {f : α → β} {b : β} :
    x.map f = .ok b ↔ ∃ a, x = .ok a ∧ f a = b := by
  cases x with
  | error err => exact ⟨nofun, fun ⟨_, failed, _⟩ => nomatch failed⟩
  | ok a => simp [Except.map]

theorem readDir_eq_ok {dir : Path} {children : List (String × Entry)} :
    tree.readDir dir = .ok children ↔ tree.lookup dir = some (.dir children) := by
  rw [Entry.readDir]
  split
  next found => simp [found]
  next found => simp [found]
  next absent => simp [absent]

theorem readFile_eq_ok {file : Path} {text : String} :
    tree.readFile file = .ok text ↔ tree.fileAt file = some text := by
  rw [Entry.readFile, Entry.fileAt]
  split
  next found => simp [found]
  next found => simp [found]
  next absent => simp [absent]

theorem walk_isOk {dir : Path} : (∃ files, walk tree dir = .ok files) ↔ tree.IsDir dir := by
  simp only [walk, map_eq_ok, readDir_eq_ok]
  exact ⟨fun ⟨_, children, found, _⟩ => ⟨children, found⟩,
    fun ⟨children, found⟩ => ⟨_, children, found, rfl⟩⟩

theorem mem_walk (listed : tree.Listed) {dir : Path} {files : List Path}
    (walked : walk tree dir = .ok files) {file : Path} :
    file ∈ files ↔
      ∃ rest, file = dir ++ rest ∧ Walked rest ∧ ∃ content, tree.fileAt file = some content := by
  obtain ⟨children, read, rfl⟩ := map_eq_ok.mp walked
  have found := readDir_eq_ok.mp read
  have inside := listed.below found
  have at_ : ∀ rest, tree.fileAt (dir ++ rest) = (Entry.dir children).fileAt rest := fun rest =>
    Entry.fileAt_congr (by rw [Entry.lookup_append, found, Option.bind_some])
  rw [mem_walkEntries children fun name e there => inside.child (inside.mem_iff.mp there)]
  constructor
  · rintro ⟨name, e, rest, content, there, rfl, isWalked, isFile⟩
    refine ⟨name :: rest, rfl, isWalked, content, ?_⟩
    rw [at_, ← isFile]
    refine Entry.fileAt_congr ?_
    rw [Entry.lookup_dir_cons, inside.mem_iff.mp there, Option.bind_some]
  · rintro ⟨rest, rfl, isWalked, content, isFile⟩
    rw [at_] at isFile
    obtain ⟨name, rest, rfl⟩ := List.exists_cons_of_ne_nil fun empty : rest = [] => by
      rw [empty] at isWalked
      exact isWalked
    have found := Entry.fileAt_eq_some.mp isFile
    rw [Entry.lookup_dir_cons] at found
    obtain ⟨e, isChild, below⟩ := Option.bind_eq_some_iff.mp found
    exact ⟨name, e, rest, content, inside.mem_iff.mpr isChild, rfl, isWalked,
      Entry.fileAt_eq_some.mpr below⟩

/-- The extension directories that are found are those that exist. -/
theorem listExtensionDirs_spec (listed : tree.Listed)
    (free : tree.fileAt (connectorsDir root) = none) :
    ∃ dirs, listExtensionDirs root tree = .ok dirs ∧ ∀ dir, dir ∈ dirs ↔
      ∃ name, dir = connectorsDir root ++ [name, "extension"] ∧ tree.exists? dir = true := by
  rw [listExtensionDirs]
  split
  next there =>
    obtain ⟨children, found⟩ := (Entry.isSome_lookup.mp there).resolve_left (by simp [free])
    have inside := listed.below found
    refine ⟨_, map_eq_ok.mpr ⟨children, readDir_eq_ok.mpr found, rfl⟩, fun dir => ?_⟩
    rw [List.mem_filterMap]
    constructor
    · rintro ⟨⟨name, _ | below⟩, isChild, isDir⟩
      · cases isDir
      · obtain ⟨there, same⟩ := Option.ite_none_right_eq_some.mp isDir
        cases same
        exact ⟨name, rfl, there⟩
    · rintro ⟨name, rfl, there⟩
      have isSome := there
      rw [Entry.exists?, Entry.lookup_append, found, Option.bind_some] at isSome
      obtain ⟨entry, found⟩ := Option.isSome_iff_exists.mp isSome
      obtain ⟨e, isChild, below⟩ := Option.bind_eq_some_iff.mp found
      cases e with
      | file content => cases below
      | dir grandchildren =>
          exact ⟨(name, .dir grandchildren), inside.mem_iff.mpr isChild, if_pos there⟩
  next absent =>
    refine ⟨[], rfl, fun dir => iff_of_false List.not_mem_nil ?_⟩
    rintro ⟨name, rfl, there⟩
    have nothing : tree.lookup (connectorsDir root) = none :=
      Option.not_isSome_iff_eq_none.mp absent
    rw [Entry.exists?, Entry.lookup_append, nothing] at there
    cases there

theorem exists_of_file_below {dir rest : Path} {content : String}
    (isFile : tree.fileAt (dir ++ rest) = some content) : tree.exists? dir = true := by
  have found := Entry.fileAt_eq_some.mp isFile
  rw [Entry.lookup_append] at found
  obtain ⟨e, here, -⟩ := Option.bind_eq_some_iff.mp found
  rw [Entry.exists?, here]
  rfl

theorem mem_coreDirs {dir : Path} :
    dir ∈ (if tree.exists? (coreOpenclawDir root) then [coreOpenclawDir root] else []) ↔
      dir = coreOpenclawDir root ∧ tree.exists? dir = true := by
  split
  next there => simp +contextual [there]
  next absent =>
    refine iff_of_false List.not_mem_nil ?_
    rintro ⟨rfl, there⟩
    exact absent there

theorem listExtensionDirs_isOk :
    (∃ dirs, listExtensionDirs root tree = .ok dirs) → tree.fileAt (connectorsDir root) = none := by
  rintro ⟨dirs, done⟩
  cases isFile : tree.fileAt (connectorsDir root) with
  | none => rfl
  | some content =>
      have there : tree.exists? (connectorsDir root) = true :=
        Entry.isSome_lookup.mpr (Or.inl ⟨content, isFile⟩)
      rw [listExtensionDirs, if_pos there] at done
      obtain ⟨children, read, -⟩ := map_eq_ok.mp done
      exact absurd ⟨children, readDir_eq_ok.mp read⟩ (Entry.not_isDir_of_file isFile)

/-- The vendored files that are found, from the directories that are walked. -/
theorem vendored_eq_ok {files : List Path} : vendored root tree = .ok files ↔
    ∃ dirs lists, listExtensionDirs root tree = .ok dirs ∧
      (dirs ++ if tree.exists? (coreOpenclawDir root) then [coreOpenclawDir root] else []).mapM
        (walk tree) = .ok lists ∧ files = lists.flatten := by
  rw [vendored, bind_eq_ok]
  refine exists_congr fun dirs => ?_
  rw [exists_and_left]
  refine and_congr_right fun _ => bind_eq_ok.trans (exists_congr fun lists => ?_)
  refine and_congr_right fun _ => ⟨fun same => ?_, fun same => same ▸ rfl⟩
  cases same
  rfl

theorem vendored_isOk (listed : tree.Listed) :
    (∃ files, vendored root tree = .ok files) ↔ Walkable root tree := by
  constructor
  · rintro ⟨files, found⟩
    obtain ⟨dirs, lists, extensions, walked, -⟩ := vendored_eq_ok.mp found
    have free := listExtensionDirs_isOk ⟨dirs, extensions⟩
    have allDirs : ∀ dir ∈ dirs ++ _, tree.IsDir dir := fun dir there =>
      walk_isOk.mp (mapM_isOk.mp ⟨lists, walked⟩ dir there)
    obtain ⟨dirs', same, mem_dirs⟩ := listExtensionDirs_spec listed free
    cases extensions.symm.trans same
    have noFile : ∀ {dir : Path}, (tree.exists? dir = true → tree.IsDir dir) →
        tree.fileAt dir = none := by
      intro dir isDir
      cases isFile : tree.fileAt dir with
      | none => rfl
      | some content =>
          have there : tree.exists? dir = true :=
            Entry.isSome_lookup.mpr (Or.inl ⟨content, isFile⟩)
          exact absurd (isDir there) (Entry.not_isDir_of_file isFile)
    refine ⟨free, fun name => noFile fun there => allDirs _ ?_, noFile fun there => allDirs _ ?_⟩
    · exact List.mem_append_left _ ((mem_dirs _).mpr ⟨name, rfl, there⟩)
    · exact List.mem_append_right _ (mem_coreDirs.mpr ⟨rfl, there⟩)
  · intro walkable
    obtain ⟨dirs, extensions, mem_dirs⟩ := listExtensionDirs_spec listed walkable.connectors
    have isDir : ∀ {dir : Path}, tree.fileAt dir = none → tree.exists? dir = true →
        tree.IsDir dir := fun free there =>
      (Entry.isSome_lookup.mp there).resolve_left (by simp [free])
    obtain ⟨lists, walked⟩ : ∃ lists, (dirs ++ if tree.exists? (coreOpenclawDir root) then
        [coreOpenclawDir root] else []).mapM (walk tree) = .ok lists := by
      refine mapM_isOk.mpr fun dir there => walk_isOk.mpr ?_
      rcases List.mem_append.mp there with there | there
      · obtain ⟨name, rfl, exists_⟩ := (mem_dirs dir).mp there
        exact isDir (walkable.extensions name) exists_
      · obtain ⟨rfl, exists_⟩ := mem_coreDirs.mp there
        exact isDir walkable.core exists_
    exact ⟨_, vendored_eq_ok.mpr ⟨dirs, lists, extensions, walked, rfl⟩⟩

theorem mem_vendored (listed : tree.Listed) {files : List Path}
    (found : vendored root tree = .ok files) {file : Path} :
    file ∈ files ↔ IsVendored root file ∧ ∃ content, tree.fileAt file = some content := by
  obtain ⟨dirs, lists, extensions, walked, rfl⟩ := vendored_eq_ok.mp found
  obtain ⟨dirs', same, mem_dirs⟩ :=
    listExtensionDirs_spec listed (listExtensionDirs_isOk ⟨dirs, extensions⟩)
  cases extensions.symm.trans same
  have inLists : file ∈ lists.flatten ↔
      ∃ dir ∈ dirs ++ (if tree.exists? (coreOpenclawDir root) then [coreOpenclawDir root] else []),
        ∃ rest, file = dir ++ rest ∧ Walked rest ∧ ∃ content, tree.fileAt file = some content := by
    rw [List.mem_flatten]
    constructor
    · rintro ⟨list, isList, there⟩
      obtain ⟨dir, isDir, fromDir⟩ := (mem_of_mapM walked list).mp isList
      exact ⟨dir, isDir, (mem_walk listed fromDir).mp there⟩
    · rintro ⟨dir, isDir, below⟩
      obtain ⟨list, fromDir⟩ := mapM_isOk.mp ⟨lists, walked⟩ dir isDir
      exact ⟨list, (mem_of_mapM walked list).mpr ⟨dir, isDir, fromDir⟩,
        (mem_walk listed fromDir).mpr below⟩
  rw [inLists]
  constructor
  · rintro ⟨dir, isDir, rest, rfl, isWalked, isFile⟩
    refine ⟨?_, isFile⟩
    rcases List.mem_append.mp isDir with isDir | isDir
    · obtain ⟨name, rfl, -⟩ := (mem_dirs dir).mp isDir
      exact Or.inl ⟨name, rest, rfl, isWalked⟩
    · obtain ⟨rfl, -⟩ := mem_coreDirs.mp isDir
      exact Or.inr ⟨rest, rfl, isWalked⟩
  · rintro ⟨⟨name, rest, rfl, isWalked⟩ | ⟨rest, rfl, isWalked⟩, content, isFile⟩
    · exact ⟨_, List.mem_append_left _ ((mem_dirs _).mpr
        ⟨name, rfl, exists_of_file_below isFile⟩), rest, rfl, isWalked, content, isFile⟩
    · exact ⟨_, List.mem_append_right _ (mem_coreDirs.mpr
        ⟨rfl, exists_of_file_below isFile⟩), rest, rfl, isWalked, content, isFile⟩

theorem sources_eq_ok {asts : List Node} :
    sources root createSourceFile tree = .ok asts ↔ ∃ files, vendored root tree = .ok files ∧
      files.mapM (fun file => (tree.readFile file).map (createSourceFile file)) = .ok asts :=
  bind_eq_ok

theorem readSource_eq_ok {file : Path} {ast : Node} :
    (tree.readFile file).map (createSourceFile file) = .ok ast ↔
      ∃ text, tree.fileAt file = some text ∧ createSourceFile file text = ast := by
  simp only [map_eq_ok, readFile_eq_ok]

/-- The run gets the syntax trees of the vendored files, if there is no file in the way. -/
theorem sources_spec (listed : tree.Listed) (createSourceFile : Path → String → Node) :
    (Walkable root tree ↔ ∃ asts, sources root createSourceFile tree = .ok asts) ∧
      ∀ asts, sources root createSourceFile tree = .ok asts → ∀ ast, ast ∈ asts ↔
        ∃ file text, IsVendored root file ∧ tree.fileAt file = some text ∧
          ast = createSourceFile file text := by
  refine ⟨?_, fun asts read ast => ?_⟩
  · rw [← vendored_isOk listed]
    constructor
    · rintro ⟨files, found⟩
      obtain ⟨asts, read⟩ : ∃ asts, files.mapM (fun file =>
          (tree.readFile file).map (createSourceFile file)) = .ok asts := by
        refine mapM_isOk.mpr fun file there => ?_
        obtain ⟨-, text, isFile⟩ := (mem_vendored listed found).mp there
        exact ⟨_, readSource_eq_ok.mpr ⟨text, isFile, rfl⟩⟩
      exact ⟨asts, sources_eq_ok.mpr ⟨files, found, read⟩⟩
    · rintro ⟨asts, read⟩
      obtain ⟨files, found, -⟩ := sources_eq_ok.mp read
      exact ⟨files, found⟩
  · obtain ⟨files, found, read⟩ := sources_eq_ok.mp read
    rw [mem_of_mapM read]
    constructor
    · rintro ⟨file, there, parsed⟩
      obtain ⟨text, isFile, rfl⟩ := readSource_eq_ok.mp parsed
      exact ⟨file, text, ((mem_vendored listed found).mp there).1, isFile, rfl⟩
    · rintro ⟨file, text, isVendored, isFile, rfl⟩
      exact ⟨file, (mem_vendored listed found).mpr ⟨isVendored, text, isFile⟩,
        readSource_eq_ok.mpr ⟨text, isFile, rfl⟩⟩

/-! ## What is read -/

theorem searched_of_mem_listExtensionDirs {dirs : List Path}
    (found : listExtensionDirs root tree = .ok dirs) {dir : Path} (there : dir ∈ dirs) :
    connectorsDir root <+: dir := by
  rw [listExtensionDirs] at found
  split at found
  · obtain ⟨children, -, rfl⟩ := map_eq_ok.mp found
    obtain ⟨⟨name, _ | below⟩, -, isDir⟩ := List.mem_filterMap.mp there
    · cases isDir
    · cases (Option.ite_none_right_eq_some.mp isDir).2
      exact List.prefix_append ..
  · cases found
    cases there

theorem searched_of_mem_dirs {dirs : List Path}
    (found : listExtensionDirs root tree = .ok dirs) {dir : Path} (there : dir ∈ dirs ++
      if tree.exists? (coreOpenclawDir root) then [coreOpenclawDir root] else []) :
    Searched root dir := by
  rcases List.mem_append.mp there with there | there
  · exact Or.inl (searched_of_mem_listExtensionDirs found there)
  · obtain ⟨rfl, -⟩ := mem_coreDirs.mp there
    exact Or.inr List.prefix_rfl

theorem Searched.below {path path' : Path} (searched : Searched root path)
    (along : path <+: path') : Searched root path' :=
  searched.imp (fun here => here.trans along) fun here => here.trans along

theorem prefix_of_mem_walk {dir : Path} {files : List Path} (walked : walk tree dir = .ok files)
    {file : Path} (there : file ∈ files) : dir <+: file := by
  obtain ⟨children, -, rfl⟩ := map_eq_ok.mp walked
  exact prefix_of_mem_walkEntries children there

theorem searched_of_mem_vendored {files : List Path} (found : vendored root tree = .ok files)
    {file : Path} (there : file ∈ files) : Searched root file := by
  obtain ⟨dirs, lists, extensions, walked, rfl⟩ := vendored_eq_ok.mp found
  obtain ⟨list, isList, inList⟩ := List.mem_flatten.mp there
  obtain ⟨dir, isDir, fromDir⟩ := (mem_of_mapM walked list).mp isList
  exact (searched_of_mem_dirs extensions isDir).below (prefix_of_mem_walk fromDir inList)

theorem listExtensionDirs_congr {tree' : Entry}
    (same : ∀ path, Searched root path → tree'.lookup path = tree.lookup path) :
    listExtensionDirs root tree' = listExtensionDirs root tree := by
  have there : ∀ path, Searched root path → tree'.exists? path = tree.exists? path :=
    fun path searched => by rw [Entry.exists?, same path searched, Entry.exists?]
  have base : Searched root (connectorsDir root) := Or.inl List.prefix_rfl
  have extension : ∀ name, Searched root (connectorsDir root ++ [name, "extension"]) :=
    fun name => Or.inl (List.prefix_append ..)
  simp only [listExtensionDirs, Entry.readDir, there _ base, same _ base, there _ (extension _)]

/-- The run reads nothing outside the directories that are searched. -/
theorem sources_congr {tree' : Entry}
    (same : ∀ path, Searched root path → tree'.lookup path = tree.lookup path) :
    sources root createSourceFile tree' = sources root createSourceFile tree := by
  have core : tree'.exists? (coreOpenclawDir root) = tree.exists? (coreOpenclawDir root) := by
    rw [Entry.exists?, same _ (Or.inr List.prefix_rfl), Entry.exists?]
  have sameFiles : vendored root tree' = vendored root tree := by
    rw [vendored, vendored, listExtensionDirs_congr same, core]
    cases extensions : listExtensionDirs root tree with
    | error err => rfl
    | ok dirs =>
        refine congrArg (fun lists : Except FsError (List (List Path)) =>
          lists >>= fun files => pure files.flatten) (mapM_congr fun dir there => ?_)
        rw [walk, walk, Entry.readDir, Entry.readDir,
          same dir (searched_of_mem_dirs extensions there)]
  rw [sources, sources, sameFiles]
  cases found : vendored root tree with
  | error err => rfl
  | ok files =>
      refine mapM_congr fun file there => ?_
      rw [Entry.readFile, Entry.readFile, same file (searched_of_mem_vendored found there)]

end

end NestifyClaw.Adapter
