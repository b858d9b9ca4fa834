import NestifyClaw.Adapter.Generate

/-!
# What the generator leaves

Whether the file system lets the generator through can be told from the initial tree and the
paths of the modules (`Accepted`, `generate_isOk_iff`), and so can what it leaves (`Leaves`,
`leaves_generate`): a hand-written file is as it was, any other module's file is the last stub for
its path, and all other files are as they were.
-/

namespace NestifyClaw.Adapter

/-- A file without the sentinel. -/
def handWritten (tree : Entry) (file : Path) : Bool :=
  match tree.fileAt file with
  | some existing => !includes existing GENERATED_SENTINEL
  | none => false

theorem handWritten_congr {tree tree' : Entry} {file : Path}
    (same : tree.fileAt file = tree'.fileAt file) :
    handWritten tree file = handWritten tree' file := by
  rw [handWritten, same, handWritten]

/-! ## Paths of modules -/

theorem splitOn_append_ne {α : Type} [BEq α] [LawfulBEq α] {sep : α} {suffix : List α}
    (apart : sep ∉ suffix) : ∀ as : List α, ∃ before last,
      (as ++ suffix).splitOn sep = before ++ [last ++ suffix]
  | [] => ⟨[], [], by simpa using List.splitOn_eq_singleton apart⟩
  | a :: as => by
      obtain ⟨before, last, split⟩ := splitOn_append_ne apart as
      rw [List.cons_append, List.splitOn_cons_eq_if_modifyHead, split]
      by_cases isSep : (a == sep) = true
      · exact ⟨[] :: before, last, by simp [isSep]⟩
      · cases before with
        | nil => exact ⟨[], a :: last, by simp [isSep]⟩
        | cons first before => exact ⟨(a :: first) :: before, last, by simp [isSep]⟩

/-- The last part of a module's path is a name of its own. -/
theorem joinPart_ts (path : Path) (last : List Char) :
    joinPart path (String.ofList (last ++ ".ts".toList)) =
      path ++ [String.ofList (last ++ ".ts".toList)] := by
  have ends : ∀ text : String, String.ofList (last ++ ".ts".toList) = text →
      text.toList.getLast? = some 's' := by
    rintro text rfl
    simp
  rw [joinPart, if_neg, if_neg]
  · intro same
    cases ends _ same
  · rintro (same | same) <;> cases ends _ same

theorem adapterPathFor_eq_concat (root : Path) (spec : String) :
    ∃ dir name, adapterPathFor root spec = dir ++ [name] := by
  have last : ∀ rel : String, ∃ dir name,
      join (adapterRoot root) (rel ++ ".ts") = dir ++ [name] := by
    intro rel
    have apart : '/' ∉ ".ts".toList := by decide
    obtain ⟨before, last, split⟩ := splitOn_append_ne apart rel.toList
    refine ⟨(before.map String.ofList).foldl joinPart (adapterRoot root),
      String.ofList (last ++ ".ts".toList), ?_⟩
    rw [join, parts, String.toList_append, split, List.map_append, List.foldl_append]
    exact joinPart_ts _ last
  exact last _

/-! ## One module -/

theorem exists_last {α : Type} {P : α → Prop} {as : List α} (there : ∃ a ∈ as, P a) :
    ∃ before a after, as = before ++ a :: after ∧ P a ∧ ∀ later ∈ after, ¬ P later := by
  induction as using List.reverseRecOn with
  | nil => simp at there
  | append_singleton as last ih =>
      by_cases isLast : P last
      · exact ⟨as, last, [], rfl, isLast, by simp⟩
      · obtain ⟨a, isMember, holds⟩ := there
        have earlier : a ∈ as := (List.mem_append.mp isMember).resolve_right fun same =>
          isLast (List.mem_singleton.mp same ▸ holds)
        obtain ⟨before, a, after, rfl, holds, none⟩ := ih ⟨a, earlier, holds⟩
        refine ⟨before, a, after ++ [last], by simp, holds, fun later inAfter => ?_⟩
        rcases List.mem_append.mp inAfter with inAfter | same
        · exact none later inAfter
        · exact List.mem_singleton.mp same ▸ isLast

theorem preserves_eq (tree : Entry) (file : Path) :
    preserves tree file = .error .EISDIR ∧ tree.IsDir file ∨
      preserves tree file = .ok (handWritten tree file) ∧ ¬ tree.IsDir file := by
  rw [preserves, Entry.exists?, Entry.readFile, handWritten, Entry.fileAt, Entry.IsDir]
  cases found : tree.lookup file with
  | none => simp
  | some entry =>
      cases entry with
      | file existing => simp [Except.map]
      | dir children => simp [Except.map]

/-- The files written for these paths. -/
def writes (tree : Entry) (files : List Path) : List Path :=
  files.filter fun file => !handWritten tree file

/-- The file system lets the generator through at a file, after it wrote these. -/
structure Accepts (tree : Entry) (written : List Path) (file : Path) : Prop where
  noDir : ¬ tree.IsDir file
  noNewDir : ∀ q ∈ written, ¬ file <+: q.dropLast
  dirFree : handWritten tree file = true ∨
    ∀ dir, dir <+: file.dropLast → tree.fileAt dir = none ∧ dir ∉ written

/-- The last stub for a path. -/
def lastStub (root : Path) (modules : List (String × ModuleNeeds)) (file : Path) : Option String :=
  (modules.reverse.find? fun entry => adapterPathFor root entry.1 = file).map
    fun entry => stub root entry.1 entry.2

def paths (root : Path) (modules : List (String × ModuleNeeds)) : List Path :=
  modules.map fun entry => adapterPathFor root entry.1

theorem paths_eq (root : Path) (modules : List (String × ModuleNeeds)) :
    paths root modules = (modules.map Prod.fst).map (adapterPathFor root) := by
  rw [List.map_map]
  rfl

/-- A run that went through the modules leaves this tree. -/
structure Leaves (root : Path) (tree : Entry) (modules : List (String × ModuleNeeds)) (run : Run) :
    Prop where
  written : run.written = writes tree (paths root modules)
  files : ∀ file, run.tree.fileAt file =
    if handWritten tree file then tree.fileAt file
    else (lastStub root modules file).or (tree.fileAt file)
  dirs : ∀ path, run.tree.IsDir path ↔ tree.IsDir path ∨ ∃ q ∈ run.written, path <+: q.dropLast

section

variable {root : Path} {tree : Entry} {modules : List (String × ModuleNeeds)} {run : Run}
  {spec : String} {m : ModuleNeeds} {file : Path}

theorem paths_concat : paths root (modules ++ [(spec, m)]) =
    paths root modules ++ [adapterPathFor root spec] := List.map_append

theorem writes_concat (files : List Path) : writes tree (files ++ [file]) =
    if handWritten tree file then writes tree files else writes tree files ++ [file] := by
  rw [writes, List.filter_append]
  split
  next stays => simp [writes, stays]
  next goes => simp [writes, goes]

theorem lastStub_concat : lastStub root (modules ++ [(spec, m)]) file =
    if adapterPathFor root spec = file then some (stub root spec m)
    else lastStub root modules file := by
  rw [lastStub, List.reverse_concat, List.find?_cons]
  by_cases same : adapterPathFor root spec = file
  · simp [same]
  · simp [same, lastStub]

theorem lastStub_eq_some {text : String} (last : lastStub root modules file = some text) :
    ∃ spec m, (spec, m) ∈ modules ∧ adapterPathFor root spec = file ∧ text = stub root spec m := by
  obtain ⟨⟨spec, m⟩, found, rfl⟩ := Option.map_eq_some_iff.mp last
  have isPath : decide (adapterPathFor root spec = file) = true := by
    simpa using List.find?_some found
  exact ⟨spec, m, List.mem_reverse.mp (List.mem_of_find?_eq_some found),
    of_decide_eq_true isPath, rfl⟩

theorem lastStub_of_split {before after : List (String × ModuleNeeds)}
    (isPath : adapterPathFor root spec = file)
    (last : ∀ later ∈ after, adapterPathFor root later.1 ≠ file) :
    lastStub root (before ++ (spec, m) :: after) file = some (stub root spec m) := by
  have notLater : after.reverse.find? (fun entry => adapterPathFor root entry.1 = file) = none := by
    simpa using fun spec m there => last (spec, m) there
  simp [lastStub, List.find?_append, notLater, isPath]

theorem lastStub_eq_none : lastStub root modules file = none ↔ file ∉ paths root modules := by
  rw [lastStub, Option.map_eq_none_iff, List.find?_eq_none, paths]
  simp

theorem Leaves.handWritten_eq (left : Leaves root tree modules run) (file : Path) :
    handWritten run.tree file = handWritten tree file := by
  cases stays : handWritten tree file with
  | true =>
      rw [← stays]
      exact handWritten_congr ((left.files file).trans (if_pos stays))
  | false =>
      have now := (left.files file).trans (if_neg (by simp [stays]))
      cases last : lastStub root modules file with
      | none =>
          rw [← stays]
          exact handWritten_congr (by rw [now, last, Option.none_or])
      | some text =>
          obtain ⟨spec, m, -, -, rfl⟩ := lastStub_eq_some last
          rw [handWritten, now, last, Option.some_or]
          simp [includes_stub]

theorem Leaves.fileAt_eq_none (left : Leaves root tree modules run) :
    run.tree.fileAt file = none ↔ tree.fileAt file = none ∧ file ∉ run.written := by
  rw [left.files, left.written, writes, List.mem_filter]
  cases stays : handWritten tree file with
  | true => simp
  | false => simp [Option.or_eq_none_iff, lastStub_eq_none, and_comm]

theorem Leaves.start : Leaves root tree [] ⟨tree, []⟩ where
  written := rfl
  files file := by simp [lastStub]
  dirs path := by simp

theorem Leaves.keep (left : Leaves root tree modules run)
    (stays : handWritten tree (adapterPathFor root spec) = true) :
    Leaves root tree (modules ++ [(spec, m)]) run where
  written := by rw [paths_concat, writes_concat, if_pos stays, left.written]
  files file := by
    rw [left.files, lastStub_concat]
    by_cases same : adapterPathFor root spec = file
    · rw [if_pos (same ▸ stays), if_pos (same ▸ stays)]
    · rw [if_neg same]
  dirs := left.dirs

theorem Leaves.write (left : Leaves root tree modules run) {made after : Entry}
    (goes : handWritten tree (adapterPathFor root spec) = false)
    (makes : run.tree.mkdirs (adapterPathFor root spec).dropLast = .ok made)
    (wrote : made.writeFile (adapterPathFor root spec) (stub root spec m) = .ok after) :
    Leaves root tree (modules ++ [(spec, m)])
      ⟨after, run.written ++ [adapterPathFor root spec]⟩ where
  written := by rw [paths_concat, writes_concat, if_neg (by simp [goes]), left.written]
  files file := by
    rw [Entry.fileAt_writeFile wrote, Entry.fileAt_mkdirs makes, left.files, lastStub_concat]
    by_cases same : file = adapterPathFor root spec
    · rw [if_pos same, if_pos same.symm, if_neg (by simp [same, goes]), Option.some_or]
    · rw [if_neg same, if_neg (Ne.symm same)]
  dirs path := by
    rw [Entry.isDir_writeFile wrote, Entry.isDir_mkdirs makes, left.dirs, or_assoc]
    simp only [List.mem_append, List.mem_singleton, or_and_right, exists_or, exists_eq_left]

/-- A module that the file system accepts. -/
theorem Leaves.accepted (left : Leaves root tree modules run)
    (accepts : Accepts tree run.written (adapterPathFor root spec)) :
    ∃ run', generateOne root run spec m = (run', .ok ()) ∧
      Leaves root tree (modules ++ [(spec, m)]) run' := by
  have noDir : ¬ run.tree.IsDir (adapterPathFor root spec) := by
    rw [left.dirs]
    rintro (was | ⟨q, isWritten, along⟩)
    · exact accepts.noDir was
    · exact accepts.noNewDir q isWritten along
  have preserved := ((preserves_eq _ _).resolve_left fun failed => noDir failed.2).1
  rw [left.handWritten_eq] at preserved
  rw [generateOne]
  cases stays : handWritten tree (adapterPathFor root spec) with
  | true =>
      rw [stays] at preserved
      simp only [preserved]
      exact ⟨run, rfl, left.keep stays⟩
  | false =>
      rw [stays] at preserved
      have dirFree := accepts.dirFree.resolve_left (by simp [stays])
      obtain ⟨made, makes⟩ := Entry.mkdirs_isOk.mpr fun dir along =>
        left.fileAt_eq_none.mpr (dirFree dir along)
      obtain ⟨dir, name, isPath⟩ := adapterPathFor_eq_concat root spec
      have isDir : (adapterPathFor root spec).dropLast = dir := by rw [isPath, List.dropLast_concat]
      have writable : made.IsDir dir ∧ ¬ made.IsDir (dir ++ [name]) := by
        rw [← isPath, Entry.isDir_mkdirs makes, Entry.isDir_mkdirs makes, isDir]
        refine ⟨Or.inr List.prefix_rfl, ?_⟩
        rintro (was | along)
        · exact noDir was
        · rw [isPath] at along
          have short := along.length_le
          rw [List.length_append, List.length_singleton] at short
          omega
      obtain ⟨after, wrote⟩ : ∃ after,
          made.writeFile (dir ++ [name]) (stub root spec m) = .ok after :=
        Entry.writeFile_isOk.mpr writable
      rw [← isPath] at wrote
      simp only [preserved, makes, wrote]
      exact ⟨_, rfl, left.write stays makes wrote⟩

/-- A module that the file system refuses. -/
theorem Leaves.refused (left : Leaves root tree modules run)
    (refuses : ¬ Accepts tree run.written (adapterPathFor root spec)) :
    ∃ err, generateOne root run spec m = (run, .error err) := by
  rw [generateOne]
  rcases preserves_eq run.tree (adapterPathFor root spec) with ⟨failed, -⟩ | ⟨preserved, noDir⟩
  · simp only [failed]
    exact ⟨_, rfl⟩
  · rw [left.handWritten_eq] at preserved
    rw [left.dirs] at noDir
    have blocked : ¬ (handWritten tree (adapterPathFor root spec) = true ∨
        ∀ dir, dir <+: (adapterPathFor root spec).dropLast →
          tree.fileAt dir = none ∧ dir ∉ run.written) := fun dirFree =>
      refuses ⟨fun was => noDir (Or.inl was),
        fun q isWritten along => noDir (Or.inr ⟨q, isWritten, along⟩), dirFree⟩
    rw [not_or, Bool.not_eq_true] at blocked
    cases makes : run.tree.mkdirs (adapterPathFor root spec).dropLast with
    | error err =>
        simp only [preserved, blocked.1]
        exact ⟨err, rfl⟩
    | ok made =>
        refine absurd (fun dir along => ?_) blocked.2
        exact left.fileAt_eq_none.mp (Entry.mkdirs_isOk.mp ⟨made, makes⟩ dir along)

/-! ## All modules -/

/-- The file system lets the generator through at these files, one after the other. -/
def Accepted (tree : Entry) (files : List Path) : Prop :=
  ∀ before file, before ++ [file] <+: files → Accepts tree (writes tree before) file

theorem accepted_concat {files : List Path} : Accepted tree (files ++ [file]) ↔
    Accepted tree files ∧ Accepts tree (writes tree files) file := by
  constructor
  · intro accepted
    exact ⟨fun before file' along => accepted before file' (along.trans (List.prefix_append ..)),
      accepted files file List.prefix_rfl⟩
  · rintro ⟨accepted, accepts⟩ before file' along
    rcases List.prefix_concat_iff.mp along with same | along
    · obtain ⟨rfl, isFile⟩ := List.append_inj' same rfl
      exact List.singleton_inj.mp isFile ▸ accepts
    · exact accepted before file' along

theorem accepted_singleton : Accepted tree [file] ↔ Accepts tree [] file := by
  have none : Accepted tree [] := fun before file along => by simp at along
  rw [← List.nil_append [file], accepted_concat]
  exact and_iff_right none

theorem Accepted.of_prefix {files before : List Path} (accepted : Accepted tree files)
    (along : before <+: files) : Accepted tree before :=
  fun earlier file' along' => accepted earlier file' (along'.trans along)

theorem generate_concat (run : Run) : generate root run (modules ++ [(spec, m)]) =
    match generate root run modules with
    | (run', .ok ()) => generateOne root run' spec m
    | (run', .error err) => (run', .error err) := by
  induction modules generalizing run with
  | nil =>
      simp only [List.nil_append, generate]
      rcases generateOne root run spec m with ⟨run', err | ⟨⟩⟩ <;> rfl
  | cons entry modules ih =>
      obtain ⟨spec', m'⟩ := entry
      rw [List.cons_append, generate, generate]
      rcases generateOne root run spec' m' with ⟨run', err | ⟨⟩⟩
      · rfl
      · exact ih run'

/-- The run returns when the file system accepts every file, and then it went through all
modules. -/
theorem generate_accepted (modules : List (String × ModuleNeeds)) :
    (Accepted tree (paths root modules) →
        ∃ run, generate root ⟨tree, []⟩ modules = (run, .ok ()) ∧ Leaves root tree modules run) ∧
      (¬ Accepted tree (paths root modules) →
        ∃ run err, generate root ⟨tree, []⟩ modules = (run, .error err)) := by
  induction modules using List.reverseRecOn with
  | nil =>
      refine ⟨fun _ => ⟨_, rfl, .start⟩, fun refused => absurd ?_ refused⟩
      intro before file' along
      simp [paths] at along
  | append_singleton modules entry ih =>
      obtain ⟨spec, m⟩ := entry
      rw [generate_concat, paths_concat, accepted_concat]
      by_cases accepted : Accepted tree (paths root modules)
      · obtain ⟨run, returned, left⟩ := ih.1 accepted
        rw [returned, ← left.written]
        refine ⟨fun both => left.accepted both.2, fun refused => ?_⟩
        obtain ⟨err, failed⟩ := left.refused (m := m)
          fun accepts => refused ⟨accepted, accepts⟩
        exact ⟨run, err, failed⟩
      · obtain ⟨run, err, failed⟩ := ih.2 accepted
        rw [failed]
        exact ⟨fun both => absurd both.1 accepted, fun _ => ⟨run, err, rfl⟩⟩

theorem generate_isOk_iff {modules : List (String × ModuleNeeds)} :
    (generate root ⟨tree, []⟩ modules).2 = .ok () ↔ Accepted tree (paths root modules) := by
  by_cases accepted : Accepted tree (paths root modules)
  · obtain ⟨run, returned, -⟩ := (generate_accepted modules).1 accepted
    rw [returned]
    exact iff_of_true rfl accepted
  · obtain ⟨run, err, failed⟩ := (generate_accepted modules).2 accepted
    rw [failed]
    exact iff_of_false (fun ok => by cases ok) accepted

/-- Any run is one through the longest accepted part of its modules. -/
theorem generate_longest (root : Path) (tree : Entry) (modules : List (String × ModuleNeeds)) :
    ∃ done, done <+: modules ∧ Accepted tree (paths root done) ∧
      (generate root ⟨tree, []⟩ modules).1 = (generate root ⟨tree, []⟩ done).1 ∧
      ∀ before, before <+: modules → Accepted tree (paths root before) → before <+: done := by
  induction modules using List.reverseRecOn with
  | nil =>
      refine ⟨[], List.prefix_rfl, fun before file' along => ?_, rfl, fun _ along _ => along⟩
      simp [paths] at along
  | append_singleton modules entry ih =>
      obtain ⟨spec, m⟩ := entry
      obtain ⟨done, along, accepted, same, longest⟩ := ih
      by_cases all : Accepted tree (paths root (modules ++ [(spec, m)]))
      · exact ⟨_, List.prefix_rfl, all, rfl, fun _ along _ => along⟩
      · have stops : (generate root ⟨tree, []⟩ (modules ++ [(spec, m)])).1 =
            (generate root ⟨tree, []⟩ modules).1 := by
          rw [generate_concat]
          by_cases allBefore : Accepted tree (paths root modules)
          · obtain ⟨run, returned, left⟩ := (generate_accepted modules).1 allBefore
            obtain ⟨err, failed⟩ := left.refused (m := m) fun accepts => all (by
              rw [paths_concat, accepted_concat]
              exact ⟨allBefore, left.written ▸ accepts⟩)
            simp only [returned, failed]
          · obtain ⟨run, err, failed⟩ := (generate_accepted modules).2 allBefore
            simp only [failed]
        refine ⟨done, along.trans (List.prefix_append ..), accepted, stops.trans same,
          fun before along' ok => ?_⟩
        rcases List.prefix_concat_iff.mp along' with rfl | along'
        · exact absurd ok all
        · exact longest before along' ok

/-- What any run leaves is what the longest accepted part of its modules leaves. -/
theorem leaves_generate (root : Path) (tree : Entry) (modules : List (String × ModuleNeeds)) :
    ∃ done, done <+: modules ∧ Accepted tree (paths root done) ∧
      Leaves root tree done (generate root ⟨tree, []⟩ modules).1 ∧
      ∀ before, before <+: modules → Accepted tree (paths root before) → before <+: done := by
  obtain ⟨done, along, accepted, same, longest⟩ := generate_longest root tree modules
  obtain ⟨run, returned, left⟩ := (generate_accepted done).1 accepted
  refine ⟨done, along, accepted, ?_, longest⟩
  rw [same, returned]
  exact left

/-! ## What is out of the way -/

/-- A module that is gone through is left alone or written. -/
theorem generateOne_eq_ok {run' : Run} (returned : generateOne root run spec m = (run', .ok ())) :
    run' = run ∨ ∃ made,
      run.tree.mkdirs (adapterPathFor root spec).dropLast = .ok made ∧
      made.writeFile (adapterPathFor root spec) (stub root spec m) = .ok run'.tree ∧
      run'.written = run.written ++ [adapterPathFor root spec] := by
  rw [generateOne] at returned
  split at returned
  · cases returned
  · cases returned
    exact Or.inl rfl
  · split at returned
    · cases returned
    next made makes =>
      split at returned
      · cases returned
      next wrote =>
        cases returned
        exact Or.inr ⟨made, makes, wrote, rfl⟩

theorem written_generate : ∀ {modules : List (String × ModuleNeeds)} {run run' : Run},
    generate root run modules = (run', .ok ()) → ∀ q ∈ run.written, q ∈ run'.written := by
  intro modules
  induction modules with
  | nil =>
      intro run run' returned q isWritten
      cases returned
      exact isWritten
  | cons entry modules ih =>
      intro run run' returned q isWritten
      obtain ⟨spec, m⟩ := entry
      rw [generate] at returned
      split at returned
      next next one =>
        refine ih returned q ?_
        rcases generateOne_eq_ok one with rfl | ⟨made, -, -, written⟩
        · exact isWritten
        · rw [written]
          exact List.mem_append_left _ isWritten
      next => cases returned

/-- What does not lie along a path that is written stays the same, listing and all. -/
theorem lookup_generate {path : Path} : ∀ {modules : List (String × ModuleNeeds)} {run run' : Run},
    generate root run modules = (run', .ok ()) → (∀ q ∈ run'.written, ¬ path <+: q) →
    run'.tree.lookup path = run.tree.lookup path := by
  intro modules
  induction modules with
  | nil =>
      intro run run' returned away
      cases returned
      rfl
  | cons entry modules ih =>
      intro run run' returned away
      obtain ⟨spec, m⟩ := entry
      rw [generate] at returned
      split at returned
      next next one =>
        rw [ih returned away]
        rcases generateOne_eq_ok one with rfl | ⟨made, makes, wrote, written⟩
        · rfl
        · have noFile : ¬ path <+: adapterPathFor root spec :=
            away _ (written_generate returned _ (by simp [written]))
          have noDir : ¬ path <+: (adapterPathFor root spec).dropLast := fun along =>
            noFile (along.trans (List.dropLast_prefix _))
          rw [Entry.lookup_writeFile wrote path noFile, Entry.lookup_mkdirs makes path noDir]
      next => cases returned

/-! ## Files in any order -/

/-- The file system lets the generator through at these files, whatever their order. -/
structure Fits (tree : Entry) (files : List Path) : Prop where
  noDir : ∀ file ∈ files, ¬ tree.IsDir file
  dirFree : ∀ file ∈ files, handWritten tree file = true ∨
    ∀ dir, dir <+: file.dropLast → tree.fileAt dir = none
  apart : ∀ file ∈ files, ∀ q ∈ files, ¬ file <+: q.dropLast

theorem isDir_of_fileAt {dir file : Path} {text : String} (isFile : tree.fileAt file = some text)
    (proper : file ≠ []) (along : dir <+: file.dropLast) : tree.IsDir dir := by
  by_contra noDir
  obtain ⟨rest, rfl⟩ := along.trans (List.dropLast_prefix file)
  have below : rest ≠ [] := by
    rintro rfl
    rw [List.append_nil] at along proper
    have short := along.length_le
    have some_ := List.length_pos_iff.mpr proper
    rw [List.length_dropLast] at short
    omega
  rw [Entry.fileAt_append noDir below] at isFile
  cases isFile

theorem handWritten_isFile (stays : handWritten tree file = true) :
    ∃ text, tree.fileAt file = some text := by
  rw [handWritten] at stays
  split at stays
  next text found => exact ⟨text, found⟩
  next => cases stays

theorem Fits.of_concat {files : List Path} (fits : Fits tree (files ++ [file])) :
    Fits tree files ∧ Accepts tree (writes tree files) file := by
  have earlier : ∀ q ∈ files, q ∈ files ++ [file] := fun _ there => List.mem_append_left _ there
  have self : file ∈ files ++ [file] := List.mem_append_right _ (List.mem_singleton_self file)
  have inFiles : ∀ q ∈ writes tree files, q ∈ files := fun _ there => (List.mem_filter.mp there).1
  refine ⟨⟨fun q there => fits.noDir q (earlier q there),
    fun q there => fits.dirFree q (earlier q there),
    fun q there q' there' => fits.apart q (earlier q there) q' (earlier q' there')⟩, ?_⟩
  refine ⟨fits.noDir file self,
    fun q isWritten => fits.apart file self q (earlier q (inFiles q isWritten)),
    (fits.dirFree file self).imp_right fun free dir along => ⟨free dir along, fun isWritten => ?_⟩⟩
  exact fits.apart dir (earlier dir (inFiles dir isWritten)) file self along

theorem Fits.concat {files : List Path} (fits : Fits tree files)
    (proper : ∀ q ∈ files ++ [file], q ≠ []) (accepts : Accepts tree (writes tree files) file) :
    Fits tree (files ++ [file]) := by
  have inDir : ∀ {dir q : Path}, q ∈ files ++ [file] → handWritten tree q = true →
      dir <+: q.dropLast → tree.IsDir dir := by
    intro dir q there stays along
    obtain ⟨text, isFile⟩ := handWritten_isFile stays
    exact isDir_of_fileAt isFile (proper q there) along
  have noDir : ∀ q ∈ files ++ [file], ¬ tree.IsDir q := fun q there =>
    (List.mem_append.mp there).elim (fits.noDir q)
      fun same => List.mem_singleton.mp same ▸ accepts.noDir
  refine ⟨noDir, fun q there => ?_, fun q there q' there' along => ?_⟩
  · rcases List.mem_append.mp there with there | same
    · exact fits.dirFree q there
    · cases List.mem_singleton.mp same
      exact accepts.dirFree.imp_right fun free dir along => (free dir along).1
  · -- the file that comes later keeps clear of the one before it
    cases stays : handWritten tree q' with
    | true => exact noDir q there (inDir there' stays along)
    | false =>
        rcases List.mem_append.mp there with before | same <;>
          rcases List.mem_append.mp there' with before' | same'
        · exact fits.apart q before q' before' along
        · cases List.mem_singleton.mp same'
          obtain ⟨noFile, notWritten⟩ :=
            accepts.dirFree.resolve_left (by simp [stays]) q along
          have goes : handWritten tree q = false := by rw [handWritten, noFile]
          exact notWritten (List.mem_filter.mpr ⟨before, by simp [goes]⟩)
        · cases List.mem_singleton.mp same
          exact accepts.noNewDir q' (List.mem_filter.mpr ⟨before', by simp [stays]⟩) along
        · cases List.mem_singleton.mp same
          cases List.mem_singleton.mp same'
          have short := along.length_le
          have some_ := List.length_pos_iff.mpr (proper file there)
          rw [List.length_dropLast] at short
          omega

/-- Whether the file system lets the generator through does not depend on the order. -/
theorem accepted_iff {files : List Path} (proper : ∀ q ∈ files, q ≠ []) :
    Accepted tree files ↔ Fits tree files := by
  induction files using List.reverseRecOn with
  | nil =>
      refine iff_of_true (fun before file' along => ?_) ⟨by simp, by simp, by simp⟩
      simp at along
  | append_singleton files file ih =>
      rw [accepted_concat, ih fun q there => proper q (List.mem_append_left _ there)]
      exact ⟨fun both => both.1.concat proper both.2, Fits.of_concat⟩

theorem adapterPathFor_ne_nil (root : Path) (spec : String) : adapterPathFor root spec ≠ [] := by
  obtain ⟨dir, name, isPath⟩ := adapterPathFor_eq_concat root spec
  rw [isPath]
  exact List.append_ne_nil_of_right_ne_nil dir (List.cons_ne_nil name [])

theorem accepted_paths_iff : Accepted tree (paths root modules) ↔
    Fits tree (paths root modules) := by
  refine accepted_iff fun q there => ?_
  obtain ⟨entry, -, rfl⟩ := List.mem_map.mp there
  exact adapterPathFor_ne_nil root entry.1

end

end NestifyClaw.Adapter
