import NestifyClaw.Adapter.Generate
import NestifyClaw.Agent.Messages

/-!
# File operations

Which files the tool calls of a transcript read and modify.  The lists are stored with each summary
and read back for the next one; what comes out is what one pass over all the messages would have
given (`computeFileLists_resume`).
-/

namespace NestifyClaw.Agent

open Adapter (codeUnits sortsBefore sortsBefore_total sortsBefore_trans sortsBefore_antisymm
  codeUnits_injective)

/-! ## Sets of files -/

/-- `SameValueZero`.  No two of the arrays and objects that JSON texts stand for are one object. -/
def sameFile : Json → Json → Bool
  | .null, .null => true
  | .bool value, .bool value' => value = value'
  | .number token, .number token' => token = token'
  | .string text, .string text' => text = text'
  | _, _ => false

/-- A `Set` has its elements in the order in which they came.  They are names of files and whatever
else a stored list held. -/
def hasFile (files : List Json) (file : Json) : Bool := files.any (sameFile file)

def addFile (files : List Json) (file : Json) : List Json :=
  if hasFile files file then files else files ++ [file]

def addFiles (files more : List Json) : List Json := more.foldl addFile files

structure FileOperations where
  read : List Json
  written : List Json
  edited : List Json

def createFileOps : FileOperations := ⟨[], [], []⟩

/-- `args.path` of a tool call that has one. -/
def AgentToolCall.path (toolCall : AgentToolCall) : Option String :=
  match toolCall.arguments.lookup "path" with
  | some (.string path) => if path = "" then none else some path
  | _ => none

def extractFileOp (fileOps : FileOperations) (toolCall : AgentToolCall) : FileOperations :=
  match toolCall.path with
  | none => fileOps
  | some path =>
      if toolCall.name = "read" then { fileOps with read := addFile fileOps.read (.string path) }
      else if toolCall.name = "write" then
        { fileOps with written := addFile fileOps.written (.string path) }
      else if toolCall.name = "edit" then
        { fileOps with edited := addFile fileOps.edited (.string path) }
      else fileOps

def extractFileOpsFromMessage (fileOps : FileOperations) (message : AgentMessage) :
    FileOperations :=
  match message with
  | .assistant message => message.toolCalls.foldl extractFileOp fileOps
  | _ => fileOps

/-- `CompactionDetails`, `BranchSummaryDetails` -/
structure FileLists where
  readFiles : List Json
  modifiedFiles : List Json

/-- `toSorted`: by the code units of the values' texts. -/
def toSorted (files : List Json) : List Json :=
  files.insertionSort fun file file' =>
    sortsBefore (codeUnits file.toText) (codeUnits file'.toText) = true

def computeFileLists (fileOps : FileOperations) : FileLists :=
  let modified := addFiles [] (fileOps.edited ++ fileOps.written)
  { readFiles := toSorted (fileOps.read.filter fun f => !hasFile modified f)
    modifiedFiles := toSorted modified }

def formatFileOperations (lists : FileLists) : String :=
  let sections :=
    (if lists.readFiles.isEmpty then []
      else ["<read-files>\n" ++ "\n".intercalate (Json.elementTexts lists.readFiles) ++
        "\n</read-files>"]) ++
    if lists.modifiedFiles.isEmpty then []
      else ["<modified-files>\n" ++ "\n".intercalate (Json.elementTexts lists.modifiedFiles) ++
        "\n</modified-files>"]
  if sections = [] then "" else "\n\n" ++ "\n\n".intercalate sections

/-! ## Stored lists -/

def FileLists.toDetails (lists : FileLists) : Json :=
  .object [("readFiles", .array lists.readFiles), ("modifiedFiles", .array lists.modifiedFiles)]

/-- The elements of a property that is an array. -/
def elementsAt (properties : List (String × Json)) (key : String) : List Json :=
  match properties.lookup key with
  | some (.array elements) => elements
  | _ => []

/-- Files that an earlier summary has listed; those that it says were modified count as edited. -/
def addDetails (fileOps : FileOperations) (details : Option Json) : FileOperations :=
  match details with
  | some (.object properties) =>
      { fileOps with
        read := addFiles fileOps.read (elementsAt properties "readFiles")
        edited := addFiles fileOps.edited (elementsAt properties "modifiedFiles") }
  | _ => fileOps

/-! ## Names in sets of files -/

section

variable {files more : List Json} {file : Json} {f : String}

theorem sameFile_string : sameFile (.string f) file = true ↔ file = .string f := by
  cases file with
  | string text => simp [sameFile, eq_comm]
  | _ => simp [sameFile]

@[simp] theorem hasFile_string : hasFile files (.string f) = true ↔ .string f ∈ files := by
  simp only [hasFile, List.any_eq_true, sameFile_string, exists_eq_right]

@[simp] theorem mem_addFile :
    .string f ∈ addFile files file ↔ .string f ∈ files ∨ .string f = file := by
  unfold addFile
  split
  · rename_i there
    refine ⟨Or.inl, fun either => either.elim id fun same => ?_⟩
    subst same
    exact hasFile_string.mp there
  · rw [List.mem_append, List.mem_singleton]

@[simp] theorem mem_addFiles :
    .string f ∈ addFiles files more ↔ .string f ∈ files ∨ .string f ∈ more := by
  induction more generalizing files with
  | nil => simp [addFiles]
  | cons file more ih =>
      rw [addFiles, List.foldl_cons, ← addFiles, ih, mem_addFile, List.mem_cons, or_assoc]

/-- A set of names only. -/
def Names (files : List Json) : Prop := files.Nodup ∧ ∀ file ∈ files, ∃ f, file = .string f

theorem Names.addFile (names : Names files) (f : String) : Names (addFile files (.string f)) := by
  unfold Agent.addFile
  split
  · exact names
  · rename_i notThere
    refine ⟨List.nodup_append.mpr ⟨names.1, List.nodup_singleton _, ?_⟩, fun file there => ?_⟩
    · rintro other there _ isNew rfl
      exact notThere (hasFile_string.mpr (List.mem_singleton.mp isNew ▸ there))
    · rcases List.mem_append.mp there with there | isNew
      · exact names.2 file there
      · exact ⟨f, List.mem_singleton.mp isNew⟩

theorem Names.addFiles (names : Names files) (texts : ∀ file ∈ more, ∃ f, file = .string f) :
    Names (addFiles files more) := by
  induction more generalizing files with
  | nil => exact names
  | cons file more ih =>
      obtain ⟨f, rfl⟩ := texts file List.mem_cons_self
      exact ih (names.addFile f) fun file there => texts file (List.mem_cons_of_mem _ there)

theorem Names.nil : Names [] := ⟨List.nodup_nil, nofun⟩

/-- Sets of the same names differ in their order only. -/
theorem Names.perm {files' : List Json} (names : Names files) (names' : Names files')
    (same : ∀ f : String, .string f ∈ files ↔ .string f ∈ files') : files.Perm files' := by
  refine (List.perm_ext_iff_of_nodup names.1 names'.1).mpr fun file =>
    ⟨fun there => ?_, fun there => ?_⟩
  · obtain ⟨f, rfl⟩ := names.2 file there
    exact (same f).mp there
  · obtain ⟨f, rfl⟩ := names'.2 file there
    exact (same f).mpr there

end

/-! ## One pass over the messages -/

/-- The paths of the message's calls of these tools. -/
def AgentMessage.paths (names : List String) : AgentMessage → List String
  | .assistant message =>
      (message.toolCalls.filter fun toolCall => toolCall.name ∈ names).filterMap AgentToolCall.path
  | _ => []

def extractAll (fileOps : FileOperations) (messages : List AgentMessage) : FileOperations :=
  messages.foldl extractFileOpsFromMessage fileOps

/-- The file was edited or written. -/
def FileOperations.Modified (fileOps : FileOperations) (f : String) : Prop :=
  .string f ∈ fileOps.edited ∨ .string f ∈ fileOps.written

/-- No stored list has brought anything but names. -/
structure FileOperations.Named (fileOps : FileOperations) : Prop where
  read : Names fileOps.read
  written : Names fileOps.written
  edited : Names fileOps.edited

theorem extractFileOp_mem (fileOps : FileOperations) (toolCall : AgentToolCall) (f : String) :
    (Json.string f ∈ (extractFileOp fileOps toolCall).read ↔
        Json.string f ∈ fileOps.read ∨ toolCall.name ∈ ["read"] ∧ toolCall.path = some f) ∧
      ((extractFileOp fileOps toolCall).Modified f ↔
        fileOps.Modified f ∨ toolCall.name ∈ ["write", "edit"] ∧ toolCall.path = some f) := by
  unfold extractFileOp
  cases isPath : toolCall.path with
  | none => simp
  | some path =>
      simp only [FileOperations.Modified, List.mem_cons, List.not_mem_nil, or_false,
        Option.some.injEq]
      split
      · rename_i isRead
        simp [isRead, eq_comm]
      · split
        · rename_i notRead isWrite
          simp [isWrite, eq_comm, or_assoc]
        · split
          · rename_i notRead notWrite isEdit
            simp [isEdit, eq_comm, or_right_comm]
          · rename_i notRead notWrite notEdit
            simp [notRead, notWrite, notEdit]

theorem foldl_extractFileOp_mem (toolCalls : List AgentToolCall) (fileOps : FileOperations)
    (f : String) :
    (Json.string f ∈ (toolCalls.foldl extractFileOp fileOps).read ↔ Json.string f ∈ fileOps.read ∨
        ∃ toolCall ∈ toolCalls, toolCall.name ∈ ["read"] ∧ toolCall.path = some f) ∧
      ((toolCalls.foldl extractFileOp fileOps).Modified f ↔ fileOps.Modified f ∨
        ∃ toolCall ∈ toolCalls, toolCall.name ∈ ["write", "edit"] ∧ toolCall.path = some f) := by
  induction toolCalls generalizing fileOps with
  | nil => simp
  | cons toolCall toolCalls ih =>
      obtain ⟨reads, modifies⟩ := ih (extractFileOp fileOps toolCall)
      obtain ⟨readsOne, modifiesOne⟩ := extractFileOp_mem fileOps toolCall f
      rw [List.foldl_cons, reads, modifies, readsOne, modifiesOne, List.exists_mem_cons_iff,
        List.exists_mem_cons_iff, or_assoc, or_assoc]
      exact ⟨Iff.rfl, Iff.rfl⟩

theorem mem_paths {names : List String} {message : AssistantMessage} {f : String} :
    f ∈ (AgentMessage.assistant message).paths names ↔
      ∃ toolCall ∈ message.toolCalls, toolCall.name ∈ names ∧ toolCall.path = some f := by
  simp only [AgentMessage.paths, List.mem_filterMap, List.mem_filter, decide_eq_true_eq, and_assoc]

/-- What a pass over messages adds. -/
theorem extractAll_mem (messages : List AgentMessage) (fileOps : FileOperations) (f : String) :
    (Json.string f ∈ (extractAll fileOps messages).read ↔
        Json.string f ∈ fileOps.read ∨ ∃ message ∈ messages, f ∈ message.paths ["read"]) ∧
      ((extractAll fileOps messages).Modified f ↔
        fileOps.Modified f ∨ ∃ message ∈ messages, f ∈ message.paths ["write", "edit"]) := by
  induction messages generalizing fileOps with
  | nil => simp [extractAll]
  | cons message messages ih =>
      obtain ⟨reads, modifies⟩ := ih (extractFileOpsFromMessage fileOps message)
      have one : (Json.string f ∈ (extractFileOpsFromMessage fileOps message).read ↔
            Json.string f ∈ fileOps.read ∨ f ∈ message.paths ["read"]) ∧
          ((extractFileOpsFromMessage fileOps message).Modified f ↔
            fileOps.Modified f ∨ f ∈ message.paths ["write", "edit"]) := by
        cases message with
        | assistant message =>
            rw [mem_paths, mem_paths]
            exact foldl_extractFileOp_mem message.toolCalls fileOps f
        | _ => simp [extractFileOpsFromMessage, AgentMessage.paths]
      rw [extractAll, List.foldl_cons, ← extractAll, reads, modifies, one.1, one.2,
        List.exists_mem_cons_iff, List.exists_mem_cons_iff, or_assoc, or_assoc]
      exact ⟨Iff.rfl, Iff.rfl⟩

theorem named_extractFileOp {fileOps : FileOperations} (named : fileOps.Named)
    (toolCall : AgentToolCall) : (extractFileOp fileOps toolCall).Named := by
  unfold extractFileOp
  cases toolCall.path with
  | none => exact named
  | some path =>
      dsimp only
      split
      · exact { named with read := named.read.addFile path }
      · split
        · exact { named with written := named.written.addFile path }
        · split
          · exact { named with edited := named.edited.addFile path }
          · exact named

theorem named_extractAll {fileOps : FileOperations} (named : fileOps.Named)
    (messages : List AgentMessage) : (extractAll fileOps messages).Named := by
  induction messages generalizing fileOps with
  | nil => exact named
  | cons message messages ih =>
      refine ih ?_
      cases message with
      | assistant message =>
          rw [extractFileOpsFromMessage]
          induction message.toolCalls generalizing fileOps with
          | nil => exact named
          | cons toolCall toolCalls ih => exact ih (named_extractFileOp named toolCall)
      | _ => exact named

theorem named_createFileOps : createFileOps.Named := ⟨.nil, .nil, .nil⟩

/-! ## The lists -/

/-- The order of a set of names is forgotten. -/
theorem toSorted_congr {files files' : List Json} (names : Names files) (perm : files.Perm files') :
    toSorted files = toSorted files' := by
  let le : Json → Json → Prop := fun file file' =>
    sortsBefore (codeUnits file.toText) (codeUnits file'.toText) = true
  have total : Std.Total le := ⟨fun file file' => sortsBefore_total _ _⟩
  have trans : IsTrans Json le := ⟨fun _ _ _ => sortsBefore_trans⟩
  have sorted := List.perm_insertionSort le files
  have sorted' := List.perm_insertionSort le files'
  refine List.Perm.eq_of_pairwise ?_ (List.pairwise_insertionSort le files)
    (List.pairwise_insertionSort le files') (sorted.trans (perm.trans sorted'.symm))
  intro file file' there there' before after
  obtain ⟨f, rfl⟩ := names.2 file (sorted.subset there)
  obtain ⟨f', rfl⟩ := names.2 file' (perm.symm.subset (sorted'.subset there'))
  exact congrArg Json.string (codeUnits_injective (sortsBefore_antisymm before after))

theorem mem_toSorted {files : List Json} {file : Json} : file ∈ toSorted files ↔ file ∈ files :=
  List.mem_insertionSort _

theorem names_toSorted {files : List Json} (names : Names files) : Names (toSorted files) :=
  ⟨(List.perm_insertionSort _ files).nodup_iff.mpr names.1,
    fun file there => names.2 file (mem_toSorted.mp there)⟩

theorem mem_modifiedFiles {fileOps : FileOperations} {f : String} :
    .string f ∈ (computeFileLists fileOps).modifiedFiles ↔ fileOps.Modified f := by
  rw [computeFileLists, mem_toSorted, mem_addFiles, List.mem_append, FileOperations.Modified]
  exact or_iff_right List.not_mem_nil

theorem mem_readFiles {fileOps : FileOperations} {f : String} :
    .string f ∈ (computeFileLists fileOps).readFiles ↔
      .string f ∈ fileOps.read ∧ ¬fileOps.Modified f := by
  rw [← mem_modifiedFiles, computeFileLists, mem_toSorted, mem_toSorted, List.mem_filter,
    Bool.not_eq_true', ← Bool.not_eq_true, hasFile_string]

theorem FileOperations.Named.modified {fileOps : FileOperations} (named : fileOps.Named) :
    Names (addFiles [] (fileOps.edited ++ fileOps.written)) := by
  refine Names.nil.addFiles fun file there => ?_
  rcases List.mem_append.mp there with edited | written
  · exact named.edited.2 file edited
  · exact named.written.2 file written

theorem Names.filter {files : List Json} (names : Names files) (p : Json → Bool) :
    Names (files.filter p) :=
  ⟨names.1.filter _, fun file there => names.2 file (List.mem_filter.mp there).1⟩

theorem FileOperations.Named.lists {fileOps : FileOperations} (named : fileOps.Named) :
    Names (computeFileLists fileOps).readFiles ∧ Names (computeFileLists fileOps).modifiedFiles :=
  ⟨names_toSorted (named.read.filter _), names_toSorted named.modified⟩

/-- The lists say no more than which files were modified and which of the others were read. -/
theorem computeFileLists_congr {fileOps fileOps' : FileOperations} (named : fileOps.Named)
    (named' : fileOps'.Named) (modified : ∀ f, fileOps.Modified f ↔ fileOps'.Modified f)
    (read : ∀ f, ¬fileOps'.Modified f → (.string f ∈ fileOps.read ↔ .string f ∈ fileOps'.read)) :
    computeFileLists fileOps = computeFileLists fileOps' := by
  have sameModified : ∀ f : String, .string f ∈ addFiles [] (fileOps.edited ++ fileOps.written) ↔
      .string f ∈ addFiles [] (fileOps'.edited ++ fileOps'.written) := by
    intro f
    exact (mem_toSorted.symm.trans (mem_modifiedFiles.trans (modified f))).trans
      (mem_modifiedFiles.symm.trans mem_toSorted)
  rw [computeFileLists, computeFileLists, FileLists.mk.injEq]
  refine ⟨toSorted_congr (named.read.filter _) ((named.read.filter _).perm (named'.read.filter _)
    fun f => ?_), toSorted_congr named.modified (named.modified.perm named'.modified sameModified)⟩
  refine (mem_toSorted.symm.trans mem_readFiles).trans (Iff.trans ?_
    (mem_readFiles.symm.trans mem_toSorted))
  rw [modified f]
  exact and_congr_left (read f)

theorem addDetails_toDetails (lists : FileLists) (fileOps : FileOperations) :
    addDetails fileOps (some lists.toDetails) =
      { fileOps with
        read := addFiles fileOps.read lists.readFiles
        edited := addFiles fileOps.edited lists.modifiedFiles } := by
  simp only [addDetails, FileLists.toDetails, elementsAt, List.lookup_cons, beq_self_eq_true,
    show ("modifiedFiles" == "readFiles") = false by decide]

/-- From stored lists on, the same files come out as from the operations that the lists were made
from, if these are names only. -/
theorem computeFileLists_resume {fileOps : FileOperations} (named : fileOps.Named)
    (messages : List AgentMessage) :
    computeFileLists (extractAll
        (addDetails createFileOps (some (computeFileLists fileOps).toDetails)) messages) =
      computeFileLists (extractAll fileOps messages) := by
  rw [addDetails_toDetails]
  have listed : (FileOperations.mk (addFiles [] (computeFileLists fileOps).readFiles) []
      (addFiles [] (computeFileLists fileOps).modifiedFiles)).Named :=
    ⟨Names.nil.addFiles named.lists.1.2, Names.nil, Names.nil.addFiles named.lists.2.2⟩
  have modified : ∀ f, (FileOperations.mk (addFiles [] (computeFileLists fileOps).readFiles) []
      (addFiles [] (computeFileLists fileOps).modifiedFiles)).Modified f ↔ fileOps.Modified f := by
    intro f
    rw [FileOperations.Modified, mem_addFiles, mem_modifiedFiles]
    simp
  refine computeFileLists_congr (named_extractAll listed messages) (named_extractAll named messages)
    (fun f => ?_) fun f notModified => ?_
  · rw [(extractAll_mem messages _ f).2, (extractAll_mem messages _ f).2]
    exact or_congr_left (modified f)
  · rw [(extractAll_mem messages _ f).2, not_or] at notModified
    rw [(extractAll_mem messages _ f).1, (extractAll_mem messages _ f).1]
    refine or_congr_left ?_
    simp only [createFileOps, mem_addFiles, List.not_mem_nil, false_or, mem_readFiles]
    exact and_iff_left notModified.1

end NestifyClaw.Agent
