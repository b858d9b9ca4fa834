import NestifyClaw.Adapter.Writes

/-!
# Which files the generator overwrites

The generator tells a hand-written file by the missing sentinel, the header that it writes asks
for the marker `@nestify-real`, and the specifiers that it reads may lead anywhere.
`Preserves` is what the header promises of a run; a run keeps it exactly when every module that it
gets to is `Spared`.
-/

namespace NestifyClaw.Adapter

def adapterDir (root : Path) : Path := adapterRoot root ++ ["openclaw"]

/-- A path below `src/common/openclaw`. -/
def Inside (root file : Path) : Prop := adapterDir root <+: file ∧ file ≠ adapterDir root

/-- The text is one that the generator writes at this path. -/
def Unmodified (root file : Path) (text : String) : Prop :=
  ∃ spec m, isOpenclaw spec = true ∧ adapterPathFor root spec = file ∧ text = stub root spec m

/-- The generated header's own line about the marker. -/
def instruction : String :=
  " * Add the marker @nestify-real to a hand-written replacement to preserve it. */"

/-- The marker stands in a line other than the header's. -/
def Marked (text : String) : Prop :=
  ∃ line ∈ text.toList.splitOn '\n',
    line ≠ instruction.toList ∧ "@nestify-real".toList <:+: line

/-- A run on this tree destroys nothing that a developer wrote. -/
structure Preserves (root : Path) (tree : Entry) (run : Run) : Prop where
  inside : ∀ file ∈ run.written, Inside root file
  changed : ∀ file, run.tree.fileAt file ≠ tree.fileAt file →
    Inside root file ∧ ∀ text, tree.fileAt file = some text → Unmodified root file text
  marked : ∀ file text, tree.fileAt file = some text → Marked text →
    ¬ Unmodified root file text → run.tree.fileAt file = some text

/-- The file of a module is left alone, or it is an adapter file that is absent or unmodified. -/
def Spared (root : Path) (tree : Entry) (spec : String) : Prop :=
  handWritten tree (adapterPathFor root spec) = true ∨
    Inside root (adapterPathFor root spec) ∧
      ∀ text, tree.fileAt (adapterPathFor root spec) = some text →
        Unmodified root (adapterPathFor root spec) text

/-- The vendored files reference the module, and the file system accepts all files up to its. -/
def Reached (root : Path) (createSourceFile : Path → String → Node) (tree : Entry)
    (spec : String) : Prop :=
  ∃ files before after, sources root createSourceFile tree = .ok files ∧
    (referenced files).items = before ++ spec :: after ∧
    Accepted tree ((before ++ [spec]).map (adapterPathFor root))

section

variable {root : Path} {tree : Entry} {run : Run} {modules : List (String × ModuleNeeds)}

/-- What is unmodified or not changed suffices for the marked files. -/
theorem Preserves.of_changed (inside : ∀ file ∈ run.written, Inside root file)
    (changed : ∀ file, run.tree.fileAt file ≠ tree.fileAt file →
      Inside root file ∧ ∀ text, tree.fileAt file = some text → Unmodified root file text) :
    Preserves root tree run where
  inside := inside
  changed := changed
  marked file text was _ modified := by
    by_contra lost
    refine modified ((changed file fun same => lost (same.trans was)).2 text was)

theorem mem_written (left : Leaves root tree modules run) {spec : String} {m : ModuleNeeds}
    (there : (spec, m) ∈ modules) (goes : handWritten tree (adapterPathFor root spec) = false) :
    adapterPathFor root spec ∈ run.written := by
  rw [left.written]
  refine List.mem_filter.mpr ⟨List.mem_map.mpr ⟨(spec, m), there, rfl⟩, by simp [goes]⟩

/-- A run keeps the promise when the modules that it went through are spared. -/
theorem Leaves.preserves_iff (left : Leaves root tree modules run)
    (openclaw : ∀ entry ∈ modules, isOpenclaw entry.1 = true) :
    Preserves root tree run ↔ ∀ entry ∈ modules, Spared root tree entry.1 := by
  constructor
  · rintro preserved ⟨spec, m⟩ there
    cases stays : handWritten tree (adapterPathFor root spec) with
    | true => exact Or.inl stays
    | false =>
        have written := mem_written left there stays
        refine Or.inr ⟨preserved.inside _ written, fun text was => ?_⟩
        by_cases same : run.tree.fileAt (adapterPathFor root spec) =
            tree.fileAt (adapterPathFor root spec)
        · -- the old text is the last stub for the path
          rw [left.files, if_neg (by simp [stays]), was] at same
          cases last : lastStub root modules (adapterPathFor root spec) with
          | none =>
              refine absurd ?_ (lastStub_eq_none.mp last)
              exact List.mem_map.mpr ⟨(spec, m), there, rfl⟩
          | some text' =>
              rw [last, Option.some_or, Option.some.injEq] at same
              obtain ⟨spec', m', isEntry, isPath, isStub⟩ := lastStub_eq_some last
              exact ⟨spec', m', openclaw _ isEntry, isPath, same ▸ isStub⟩
        · exact (preserved.changed _ same).2 text was
  · intro spared
    refine .of_changed (fun file written => ?_) fun file differs => ?_
    · rw [left.written] at written
      obtain ⟨isPath, goes⟩ := List.mem_filter.mp written
      obtain ⟨⟨spec, m⟩, there, rfl⟩ := List.mem_map.mp isPath
      refine ((spared _ there).resolve_left fun stays => ?_).1
      simp [stays] at goes
    · rw [left.files] at differs
      cases stays : handWritten tree file with
      | true => exact absurd (if_pos stays) differs
      | false =>
          rw [if_neg (by simp [stays])] at differs
          cases last : lastStub root modules file with
          | none => exact absurd (by rw [last, Option.none_or]) differs
          | some text =>
              obtain ⟨spec, m, there, rfl, -⟩ := lastStub_eq_some last
              exact (spared _ there).resolve_left (by simp [stays])

end

/-! ## The whole script -/

section

variable {root : Path} {createSourceFile : Path → String → Node} {tree : Entry}

/-- The reached modules are those of the longest part that the file system accepts. -/
theorem reached_iff {files : List Node} {done : List (String × ModuleNeeds)}
    (read : sources root createSourceFile tree = .ok files)
    (along : done <+: (collectAll files).entries) (accepted : Accepted tree (paths root done))
    (longest : ∀ before, before <+: (collectAll files).entries →
      Accepted tree (paths root before) → before <+: done) (spec : String) :
    Reached root createSourceFile tree spec ↔ ∃ m, (spec, m) ∈ done := by
  constructor
  · rintro ⟨files', before, after, read', split, accepts⟩
    cases read.symm.trans read'
    rw [← map_fst_collectAll] at split
    obtain ⟨before, rest, entries, rfl, isRest⟩ := List.map_eq_append_iff.mp split
    obtain ⟨⟨spec, m⟩, after, rfl, rfl, rfl⟩ := List.map_eq_cons_iff.mp isRest
    refine ⟨m, (longest (before ++ [(spec, m)]) ⟨after, by simp [entries]⟩ ?_).subset (by simp)⟩
    rw [paths_eq, List.map_append]
    exact accepts
  · rintro ⟨m, there⟩
    obtain ⟨before, after, rfl⟩ := List.append_of_mem there
    obtain ⟨rest, entries⟩ := along
    refine ⟨files, before.map Prod.fst, after.map Prod.fst ++ rest.map Prod.fst, read, ?_, ?_⟩
    · rw [← map_fst_collectAll, ← entries]
      simp
    · refine accepted.of_prefix ⟨(after.map Prod.fst).map (adapterPathFor root), ?_⟩
      rw [paths_eq]
      simp

/-- A run leaves what the modules that it reaches leave. -/
theorem main_leaves {files : List Node} (read : sources root createSourceFile tree = .ok files) :
    ∃ done, Leaves root tree done (main root createSourceFile tree).1 ∧
      (∀ entry ∈ done, isOpenclaw entry.1 = true) ∧
      ∀ spec, Reached root createSourceFile tree spec ↔ ∃ m, (spec, m) ∈ done := by
  obtain ⟨done, along, accepted, left, longest⟩ :=
    leaves_generate root tree (collectAll files).entries
  refine ⟨done, ?_, fun entry there => isOpenclaw_of_mem_collectAll (along.subset there),
    reached_iff read along accepted longest⟩
  rw [main, read]
  exact left

end

/-- A run of the whole script on any tree keeps what developers wrote and stays inside the
adapter exactly when every module that it gets to is spared. -/
theorem main_preserves_iff (root : Path) (createSourceFile : Path → String → Node) (tree : Entry) :
    Preserves root tree (main root createSourceFile tree).1 ↔
      ∀ spec, Reached root createSourceFile tree spec → Spared root tree spec := by
  cases read : sources root createSourceFile tree with
  | error err =>
      rw [main, read]
      refine iff_of_true (.of_changed (by simp) fun _ differs => absurd rfl differs) ?_
      rintro spec ⟨files, -, -, read', -⟩
      cases read.symm.trans read'
  | ok files =>
      obtain ⟨done, left, openclaw, reached⟩ := main_leaves read
      rw [left.preserves_iff openclaw]
      constructor
      · intro spared spec isReached
        obtain ⟨m, there⟩ := (reached spec).mp isReached
        exact spared (spec, m) there
      · rintro spared ⟨spec, m⟩ there
        exact spared spec ((reached spec).mpr ⟨m, there⟩)

/-! ## A marked file -/

/-- A generated module to which a developer added code under the marker. -/
def replacement : String :=
  stub ["repo"] "openclaw/x" .new ++ "// @nestify-real\nexport function answer() \x7b\x7d\n"

/-- One extension that imports `openclaw/x`, and the replacement. -/
def replacedTree : Entry :=
  .dir [("repo", .dir [("src", .dir [
    ("connectors", .dir [("telegram", .dir [("extension", .dir [
      ("index.ts", .file "import 'openclaw/x';")])])]),
    ("common", .dir [("openclaw", .dir [("x.ts", .file replacement)])])])])]

/-- The syntax tree of `import 'openclaw/x';`. -/
def importX : Node := .mk .other [.mk (.importDeclaration (some "openclaw/x") none) []]

theorem fileAt_replacedTree :
    replacedTree.fileAt ["repo", "src", "common", "openclaw", "x.ts"] = some replacement := rfl

theorem adapterPathFor_x :
    adapterPathFor ["repo"] "openclaw/x" = ["repo", "src", "common", "openclaw", "x.ts"] := by
  decide

theorem sources_replacedTree :
    sources ["repo"] (fun _ _ => importX) replacedTree = .ok [importX] := rfl

theorem lines_ends (root file : Path) (spec : String) (m : ModuleNeeds) :
    ∃ before line init, lines root file spec m = before ++ [line] ∧
      line.toList = init ++ [';'] := by
  rw [lines]
  by_cases default : m.needsDefault = true
  · refine ⟨header spec (relativeToStub root file) ++ (stubNames m).flatMap (nameLines spec),
      "export default makeStub('" ++ spec ++ "#default');",
      ("export default makeStub('" ++ spec ++ "#default')").toList, by simp [default], by simp⟩
  · rcases List.eq_nil_or_concat (stubNames m) with none | ⟨names, name, some_⟩
    · exact ⟨header spec (relativeToStub root file), "export \x7b\x7d;", "export \x7b\x7d".toList,
        by simp [default, none], by simp⟩
    · refine ⟨header spec (relativeToStub root file) ++ names.flatMap (nameLines spec) ++
          ["export const " ++ name ++ ": StubAny = makeStub('" ++ spec ++ "#" ++ name ++ "');"],
        "export type " ++ name ++ generics ++ " = any;",
        ("export type " ++ name ++ generics ++ " = any").toList, ?_, by simp⟩
      rw [some_]
      simp [default, nameLines]

/-- Every generated module ends with a semicolon. -/
theorem stub_ends (root : Path) (spec : String) (m : ModuleNeeds) :
    ∃ before, (stub root spec m).toList = before ++ [';', '\n'] := by
  obtain ⟨before, line, init, isLast, ends⟩ := lines_ends root (adapterPathFor root spec) spec m
  rw [toList_stub, isLast]
  exact ⟨(before.flatMap fun line => line.toList ++ ['\n']) ++ init, by simp [ends]⟩

theorem not_unmodified_replacement (root file : Path) : ¬ Unmodified root file replacement := by
  rintro ⟨spec, m, -, -, same⟩
  obtain ⟨before, ends⟩ := stub_ends root spec m
  rw [← same, replacement, String.toList_append] at ends
  have last := congrArg (fun text => text.dropLast.getLast?) ends
  simp at last

theorem marked_replacement : Marked replacement := by
  obtain ⟨before, ends⟩ := stub_ends ["repo"] "openclaw/x" .new
  refine ⟨"// @nestify-real".toList, ?_, by decide, by decide⟩
  rw [replacement, String.toList_append, ends, List.append_cons, List.append_assoc,
    List.singleton_append, List.splitOn_append_cons_self]
  exact List.mem_append_right _ (by decide)

theorem handWritten_replacement :
    handWritten replacedTree (adapterPathFor ["repo"] "openclaw/x") = false := by
  have included : includes replacement GENERATED_SENTINEL = true := by
    have inStub := includes_stub ["repo"] "openclaw/x" .new
    rw [includes, decide_eq_true_eq] at inStub ⊢
    rw [replacement, String.toList_append]
    exact inStub.trans ⟨[], _, by rw [List.nil_append]⟩
  rw [adapterPathFor_x, handWritten, fileAt_replacedTree]
  simp [included]

theorem reached_x : Reached ["repo"] (fun _ _ => importX) replacedTree "openclaw/x" := by
  have noFile : ∀ dir ∈ ["repo", "src", "common", "openclaw"].inits,
      replacedTree.fileAt dir = none := by decide
  refine ⟨[importX], [], [], sources_replacedTree, rfl, accepted_singleton.mpr ?_⟩
  rw [adapterPathFor_x]
  refine ⟨Entry.not_isDir_of_file fileAt_replacedTree, by simp, Or.inr fun dir along => ?_⟩
  exact ⟨noFile dir ((List.mem_inits _ _).mpr along), List.not_mem_nil⟩

/-- The run replaces the code under the marker by a stub. -/
theorem not_main_preserves :
    Marked replacement ∧
      ¬ Preserves ["repo"] replacedTree (main ["repo"] (fun _ _ => importX) replacedTree).1 := by
  refine ⟨marked_replacement, fun preserved => ?_⟩
  obtain ⟨done, left, openclaw, reached⟩ := main_leaves sources_replacedTree
  obtain ⟨m, there⟩ := (reached "openclaw/x").mp reached_x
  have spared := (left.preserves_iff openclaw).mp preserved _ there
  rcases spared with stays | ⟨-, unmodified⟩
  · exact absurd stays (by simp [handWritten_replacement])
  · refine not_unmodified_replacement _ _ (unmodified replacement ?_)
    rw [adapterPathFor_x]
    exact fileAt_replacedTree

end NestifyClaw.Adapter
