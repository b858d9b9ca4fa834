import NestifyClaw.FileTree
import NestifyClaw.Adapter.Collect
import Mathlib.Data.List.Sort

/-!
# Writing the adapter

The functions of the generator that turn the collected needs into files.  `generate` goes through
the modules in order, leaves a file without the sentinel alone and writes a stub module for every
other one; an error of the file system ends the run.  A file's path is the list of the names along
it, from the root of the file system.
-/

namespace NestifyClaw.Adapter

/-! ## Paths -/

/-- `ADAPTER_ROOT` -/
def adapterRoot (root : Path) : Path := root ++ ["src", "common"]

/-- The parts of a text between its slashes. -/
def parts (text : String) : List String := (text.toList.splitOn '/').map String.ofList

/-- One part of a joined path, normalised. -/
def joinPart (path : Path) (part : String) : Path :=
  if part = "" ∨ part = "." then path
  else if part = ".." then path.dropLast
  else path ++ [part]

/-- `path.join` to an absolute path. -/
def join (path : Path) (rel : String) : Path := (parts rel).foldl joinPart path

def adapterPathFor (root : Path) (spec : String) : Path :=
  let rel := if spec = "openclaw" then "openclaw/__root" else spec
  join (adapterRoot root) (rel ++ ".ts")

/-- `path.relative` between two absolute paths. -/
def relative : Path → Path → List String
  | name :: path, name' :: path' =>
      if name = name' then relative path path'
      else List.replicate (path.length + 1) ".." ++ name' :: path'
  | path, path' => List.replicate path.length ".." ++ path'

def relativeToStub (root fromFile : Path) : String :=
  let stub := adapterRoot root ++ ["openclaw", "plugin-sdk", "__stub"]
  let r := String.ofList (("/".intercalate (relative fromFile.dropLast stub)).toList.map
    fun c => if c = '\\' then '/' else c)
  if ".".toList.isPrefixOf r.toList then r else "./" ++ r

/-! ## Stub modules -/

def RESERVED : List String :=
  ["default", "import", "export", "const", "type", "let", "var", "function", "class"]

def GENERATED_SENTINEL : String := "AUTO-GENERATED nestify adapter stub"

/-- The code units by which strings are sorted. -/
def codeUnits (text : String) : List Nat :=
  text.toList.flatMap fun c =>
    if c.toNat < 0x10000 then [c.toNat]
    else [0xD800 + (c.toNat - 0x10000) / 0x400, 0xDC00 + (c.toNat - 0x10000) % 0x400]

/-- The order by code units. -/
def sortsBefore : List Nat → List Nat → Bool
  | [], _ => true
  | _ :: _, [] => false
  | a :: as, b :: bs => a < b || a == b && sortsBefore as bs

/-- `[...m.names].filter((n) => !RESERVED.has(n)).sort()` -/
def stubNames (m : ModuleNeeds) : List String :=
  (m.names.items.filter fun n => n ∉ RESERVED).insertionSort
    fun n n' => sortsBefore (codeUnits n) (codeUnits n') = true

def generics : String := "<A = any, B = any, C = any, D = any, E = any, F = any>"

def header (spec stubImport : String) : List String :=
  ["/* eslint-disable */",
    "/* " ++ GENERATED_SENTINEL ++ " for '" ++ spec ++ "'. Do not edit by hand.",
    " * Regenerate with: npm run gen:adapter",
    " * Add the marker @nestify-real to a hand-written replacement to preserve it. */",
    "import \x7b makeStub, type StubAny \x7d from '" ++ stubImport ++ "';",
    ""]

def nameLines (spec name : String) : List String :=
  ["export const " ++ name ++ ": StubAny = makeStub('" ++ spec ++ "#" ++ name ++ "');",
    "export type " ++ name ++ generics ++ " = any;"]

/-- The lines of the module generated at `file`. -/
def lines (root file : Path) (spec : String) (m : ModuleNeeds) : List String :=
  header spec (relativeToStub root file) ++ (stubNames m).flatMap (nameLines spec) ++
    (if m.needsDefault then ["export default makeStub('" ++ spec ++ "#default');"] else []) ++
    if (stubNames m).length = 0 ∧ ¬ m.needsDefault then ["export \x7b\x7d;"] else []

def stub (root : Path) (spec : String) (m : ModuleNeeds) : String :=
  "\n".intercalate (lines root (adapterPathFor root spec) spec m) ++ "\n"

/-- `text.includes(part)` -/
def includes (text part : String) : Bool := decide (part.toList <:+: text.toList)

/-! ## The run -/

/-- The file system, with the files written so far. -/
structure Run where
  tree : Entry
  written : List Path

/-- Whether a file is a hand-written one that stays. -/
def preserves (tree : Entry) (file : Path) : Except FsError Bool :=
  if tree.exists? file then
    (tree.readFile file).map fun existing => !includes existing GENERATED_SENTINEL
  else .ok false

def generateOne (root : Path) (run : Run) (spec : String) (m : ModuleNeeds) :
    Run × Except FsError Unit :=
  let file := adapterPathFor root spec
  match preserves run.tree file with
  | .error err => (run, .error err)
  | .ok true => (run, .ok ())
  | .ok false =>
      match run.tree.mkdirs file.dropLast with
      | .error err => (run, .error err)
      | .ok made =>
          match made.writeFile file (stub root spec m) with
          | .error err => (⟨made, run.written⟩, .error err)
          | .ok tree => (⟨tree, run.written ++ [file]⟩, .ok ())

def generate (root : Path) (run : Run) : List (String × ModuleNeeds) → Run × Except FsError Unit
  | [] => (run, .ok ())
  | (spec, m) :: modules =>
      match generateOne root run spec m with
      | (run, .ok ()) => generate root run modules
      | (run, .error err) => (run, .error err)

/-! ## The whole script -/

mutual

/-- The source files that a directory's entry holds. -/
def walkEntry (dir : Path) (name : String) : Entry → List Path
  | .file _ =>
      if ".ts".toList.isSuffixOf name.toList ∧ ¬ ".d.ts".toList.isSuffixOf name.toList then
        [dir ++ [name]]
      else []
  | .dir children =>
      if name = "node_modules" ∨ name = "dist" then [] else walkEntries (dir ++ [name]) children

def walkEntries (dir : Path) : List (String × Entry) → List Path
  | [] => []
  | (name, entry) :: entries => walkEntry dir name entry ++ walkEntries dir entries

end

def walk (tree : Entry) (dir : Path) : Except FsError (List Path) :=
  (tree.readDir dir).map (walkEntries dir)

def connectorsDir (root : Path) : Path := root ++ ["src", "connectors"]

def coreOpenclawDir (root : Path) : Path := root ++ ["src", "core", "openclaw"]

def listExtensionDirs (root : Path) (tree : Entry) : Except FsError (List Path) :=
  if tree.exists? (connectorsDir root) then
    (tree.readDir (connectorsDir root)).map fun entries =>
      entries.filterMap fun
        | (name, .dir _) =>
            let extensionDir := connectorsDir root ++ [name, "extension"]
            if tree.exists? extensionDir then some extensionDir else none
        | (_, .file _) => none
  else .ok []

/-- The vendored files, in the order in which `main` collects them. -/
def vendored (root : Path) (tree : Entry) : Except FsError (List Path) := do
  let extensionDirs ← listExtensionDirs root tree
  let coreDirs := if tree.exists? (coreOpenclawDir root) then [coreOpenclawDir root] else []
  let files ← (extensionDirs ++ coreDirs).mapM (walk tree)
  return files.flatten

/-- The vendored files' syntax trees.  `createSourceFile` is the TypeScript parser. -/
def sources (root : Path) (createSourceFile : Path → String → Node) (tree : Entry) :
    Except FsError (List Node) := do
  let files ← vendored root tree
  files.mapM fun file => (tree.readFile file).map (createSourceFile file)

def main (root : Path) (createSourceFile : Path → String → Node) (tree : Entry) :
    Run × Except FsError Unit :=
  match sources root createSourceFile tree with
  | .error err => (⟨tree, []⟩, .error err)
  | .ok files => generate root ⟨tree, []⟩ (collectAll files).entries

/-! ## The text of a stub -/

theorem toList_intercalate_newline {ls : List String} (some_ : ls ≠ []) :
    ("\n".intercalate ls ++ "\n").toList = ls.flatMap fun line => line.toList ++ ['\n'] := by
  induction ls with
  | nil => exact absurd rfl some_
  | cons line ls ih =>
      cases ls with
      | nil => simp [String.intercalate_singleton]
      | cons next ls =>
          have step := ih (List.cons_ne_nil next ls)
          rw [List.flatMap_cons, ← step, String.intercalate_cons_cons]
          simp

theorem lines_ne_nil (root file : Path) (spec : String) (m : ModuleNeeds) :
    lines root file spec m ≠ [] := by
  simp [lines, header]

theorem toList_stub (root : Path) (spec : String) (m : ModuleNeeds) :
    (stub root spec m).toList =
      (lines root (adapterPathFor root spec) spec m).flatMap fun line => line.toList ++ ['\n'] :=
  toList_intercalate_newline (lines_ne_nil _ _ _ _)

theorem infix_flatMap {α β : Type} {f : α → List β} {as : List α} {a : α} {part : List β}
    (there : a ∈ as) (inPart : part <:+: f a) : part <:+: as.flatMap f := by
  obtain ⟨before, after, rfl⟩ := List.append_of_mem there
  rw [List.flatMap_append, List.flatMap_cons]
  exact inPart.trans ⟨before.flatMap f, after.flatMap f, by rw [List.append_assoc]⟩

theorem includes_stub (root : Path) (spec : String) (m : ModuleNeeds) :
    includes (stub root spec m) GENERATED_SENTINEL = true := by
  rw [includes, decide_eq_true_eq, toList_stub]
  refine infix_flatMap (a := "/* " ++ GENERATED_SENTINEL ++ " for '" ++ spec ++
    "'. Do not edit by hand.") (by simp [lines, header]) ?_
  refine ⟨"/* ".toList, (" for '" ++ spec ++ "'. Do not edit by hand.").toList ++ ['\n'], ?_⟩
  simp only [String.toList_append, List.append_assoc]

/-! ## The order of the names -/

/-- The code units of a character. -/
def charUnits (c : Char) : List Nat :=
  if c.toNat < 0x10000 then [c.toNat]
  else [0xD800 + (c.toNat - 0x10000) / 0x400, 0xDC00 + (c.toNat - 0x10000) % 0x400]

theorem codeUnits_eq (text : String) : codeUnits text = text.toList.flatMap charUnits := rfl

theorem toNat_valid (c : Char) : c.toNat < 0xD800 ∨ 0xDFFF < c.toNat ∧ c.toNat < 0x110000 :=
  c.valid

theorem charUnits_append {c c' : Char} {units units' : List Nat}
    (same : charUnits c ++ units = charUnits c' ++ units') : c = c' ∧ units = units' := by
  have valid := toNat_valid c
  have valid' := toNat_valid c'
  rw [charUnits, charUnits] at same
  split at same <;> split at same <;>
    simp only [List.cons_append, List.nil_append, List.cons.injEq] at same
  · exact ⟨Char.toNat_inj.mp same.1, same.2⟩
  · omega
  · omega
  · obtain ⟨high, low, rest⟩ := same
    exact ⟨Char.toNat_inj.mp (by omega), rest⟩

theorem charUnits_ne_nil (c : Char) : charUnits c ≠ [] := by
  rw [charUnits]
  split <;> exact List.cons_ne_nil _ _

theorem flatMap_charUnits_inj : ∀ {cs cs' : List Char},
    cs.flatMap charUnits = cs'.flatMap charUnits → cs = cs'
  | [], [], _ => rfl
  | [], c :: cs, same => absurd same.symm
      (List.append_ne_nil_of_left_ne_nil (charUnits_ne_nil c) _)
  | c :: cs, [], same => absurd same
      (List.append_ne_nil_of_left_ne_nil (charUnits_ne_nil c) _)
  | c :: cs, c' :: cs', same => by
      rw [List.flatMap_cons, List.flatMap_cons] at same
      obtain ⟨rfl, rest⟩ := charUnits_append same
      rw [flatMap_charUnits_inj rest]

theorem codeUnits_injective : Function.Injective codeUnits := by
  intro text text' same
  rw [codeUnits_eq, codeUnits_eq] at same
  exact String.toList_inj.mp (flatMap_charUnits_inj same)

theorem sortsBefore_cons {a b : Nat} {as bs : List Nat} :
    sortsBefore (a :: as) (b :: bs) = true ↔ a < b ∨ a = b ∧ sortsBefore as bs = true := by
  simp [sortsBefore]

theorem sortsBefore_total : ∀ as bs : List Nat,
    sortsBefore as bs = true ∨ sortsBefore bs as = true
  | [], _ => Or.inl rfl
  | _ :: _, [] => Or.inr rfl
  | a :: as, b :: bs => by
      rw [sortsBefore_cons, sortsBefore_cons]
      have rest := sortsBefore_total as bs
      grind

theorem sortsBefore_trans : ∀ {as bs cs : List Nat}, sortsBefore as bs = true →
    sortsBefore bs cs = true → sortsBefore as cs = true
  | [], _, _, _, _ => rfl
  | _ :: _, [], _, first, _ => nomatch first
  | _ :: _, _ :: _, [], _, second => nomatch second
  | a :: as, b :: bs, c :: cs, first, second => by
      rw [sortsBefore_cons] at first second ⊢
      rcases first with less | ⟨rfl, first⟩
      · exact Or.inl (by omega)
      · rcases second with less | ⟨rfl, second⟩
        · exact Or.inl less
        · exact Or.inr ⟨rfl, sortsBefore_trans first second⟩

theorem sortsBefore_antisymm : ∀ {as bs : List Nat}, sortsBefore as bs = true →
    sortsBefore bs as = true → as = bs
  | [], [], _, _ => rfl
  | [], _ :: _, _, second => nomatch second
  | _ :: _, [], first, _ => nomatch first
  | a :: as, b :: bs, first, second => by
      rw [sortsBefore_cons] at first second
      have same : a = b := by omega
      have firstRest := (first.resolve_left (by omega)).2
      have secondRest := (second.resolve_left (by omega)).2
      rw [same, sortsBefore_antisymm firstRest secondRest]

/-- The names are sorted by a linear order, so their order says nothing but which they are. -/
theorem stubNames_congr {m m' : ModuleNeeds} (same : ∀ name, name ∈ m'.names ↔ name ∈ m.names) :
    stubNames m' = stubNames m := by
  have total : Std.Total fun n n' : String => sortsBefore (codeUnits n) (codeUnits n') = true :=
    ⟨fun n n' => sortsBefore_total (codeUnits n) (codeUnits n')⟩
  have trans : IsTrans String fun n n' => sortsBefore (codeUnits n) (codeUnits n') = true :=
    ⟨fun _ _ _ => sortsBefore_trans⟩
  have antisymm : Std.Antisymm fun n n' : String =>
      sortsBefore (codeUnits n) (codeUnits n') = true :=
    ⟨fun _ _ first second => codeUnits_injective (sortsBefore_antisymm first second)⟩
  have perm : (m'.names.items.filter fun n => n ∉ RESERVED).Perm
      (m.names.items.filter fun n => n ∉ RESERVED) := by
    refine (List.perm_ext_iff_of_nodup (m'.names.nodup.filter _) (m.names.nodup.filter _)).mpr ?_
    intro name
    rw [List.mem_filter, List.mem_filter, OrdSet.mem_items, OrdSet.mem_items, same]
  refine List.Perm.eq_of_pairwise' (List.pairwise_insertionSort _ _)
    (List.pairwise_insertionSort _ _) ?_
  exact (List.perm_insertionSort _ _).trans (perm.trans (List.perm_insertionSort _ _).symm)

theorem stub_congr {root : Path} {spec : String} {m m' : ModuleNeeds}
    (names : ∀ name, name ∈ m'.names ↔ name ∈ m.names)
    (default : m'.needsDefault = m.needsDefault) : stub root spec m' = stub root spec m := by
  rw [stub, stub, lines, lines, stubNames_congr names, default]

end NestifyClaw.Adapter
