import NestifyClaw.Adapter.Writes
import NestifyClaw.Adapter.ModuleText

/-!
# What vendored files can link against

`Requires` lists the names that vendored files take from an `openclaw` module: by a default or
named import, a named re-export, a member read through a namespace, an import type, or by naming
it in an import from another vendored file that has it from `export * from` the module alone.
`Complete` says that every generated module is valid and exports what is required of it.  The
generator achieves that exactly when the references are `Served`: the last module that is written
to a path has been asked for every name that is required at that path, and the names are neither
filtered out as reserved nor illegal.  On `Regular` references, for which the generator's missing
guards make no difference, what remains is `Provided`: no required name is one that is behind an
`export *` alone, or on the generator's list of reserved words.
-/

namespace NestifyClaw.Adapter

/-! ## Requirements -/

/-- A vendored file. -/
structure Source where
  path : Path
  ast : Node

namespace Source

/-- The statements at the top of a file. -/
def statements (sf : Source) : List Kind := sf.ast.children.map Node.kind

/-- The file exports the name by a statement of its own. -/
inductive Declares (sf : Source) : String → Prop
  | declared {names : List String} {name : String}
      (there : .exportedDeclaration names ∈ sf.statements) (isName : name ∈ names) :
      Declares sf name
  | named {moduleSpecifier : Option String} {elements : List ElementSpecifier}
      {el : ElementSpecifier}
      (there : .exportDeclaration moduleSpecifier (some (.namedExports elements)) ∈ sf.statements)
      (isElement : el ∈ elements) : Declares sf el.name
  | namespace_ {moduleSpecifier : Option String} {name : String}
      (there : .exportDeclaration moduleSpecifier (some (.namespaceExport name)) ∈ sf.statements) :
      Declares sf name

/-- `export * from` the specifier. -/
def Stars (sf : Source) (spec : String) : Prop :=
  .exportDeclaration (some spec) none ∈ sf.statements

end Source

/-- The module resolution among vendored files: the path that a specifier in a file leads to. -/
abbrev Resolution := Path → String → Option Path

/-- A file may export the name: it declares it, or has it from another file or from outside. -/
inductive MayExport (resolve : Resolution) (files : List Source) : Source → String → Prop
  | declares {sf : Source} {name : String} (declared : sf.Declares name) :
      MayExport resolve files sf name
  | outside {sf : Source} {spec name : String} (stars : sf.Stars spec)
      (away : ∀ other ∈ files, resolve sf.path spec ≠ some other.path) :
      MayExport resolve files sf name
  | star {sf other : Source} {spec name : String} (stars : sf.Stars spec) (isFile : other ∈ files)
      (resolved : resolve sf.path spec = some other.path)
      (exported : MayExport resolve files other name) : MayExport resolve files sf name

/-- The only source of the name in a file is `export * from` the specifier. -/
structure OnlyStar (resolve : Resolution) (files : List Source) (sf : Source) (spec name : String) :
    Prop where
  stars : sf.Stars spec
  notDeclared : ¬ sf.Declares name
  noOther : ∀ other, sf.Stars other → other ≠ spec →
    ∃ g ∈ files, resolve sf.path other = some g.path ∧ ¬ MayExport resolve files g name

/-- A vendored file takes the name from the module. -/
inductive Requires (resolve : Resolution) (files : List Source) (spec : String) : String → Prop
  | default {sf : Source} (isFile : sf ∈ files) (imported : DefaultImported sf.ast spec) :
      Requires resolve files spec "default"
  | named {sf : Source} {name : String} (isFile : sf ∈ files) (named : Named sf.ast spec name) :
      Requires resolve files spec name
  | star {sf other : Source} {from_ : String} {default : Option String}
      {elements : List ElementSpecifier} {el : ElementSpecifier} (isFile : sf ∈ files)
      (imported : .importDeclaration (some from_) (some ⟨default, some (.namedImports elements)⟩) ∈
        sf.ast.kinds)
      (isElement : el ∈ elements) (notDefault : el.original ≠ "default") (isOther : other ∈ files)
      (resolved : resolve sf.path from_ = some other.path)
      (only : OnlyStar resolve files other spec el.original) :
      Requires resolve files spec el.original

/-! ## The adapter -/

/-- The modules that the files reference, in the order in which the generator writes them. -/
def needed (files : List Source) : List String := (referenced (files.map Source.ast)).items

/-- The run that collects the files and generates into the tree. -/
def generated (root : Path) (tree : Entry) (files : List Source) : Run × Except FsError Unit :=
  generate root ⟨tree, []⟩ (collectAll (files.map Source.ast)).entries

/-- Every generated module is valid, the module of every reference is there, and it exports what is
required of it. -/
structure Complete (u : IdentifierTable) (resolve : Resolution) (root : Path) (tree : Entry)
    (files : List Source) : Prop where
  returned : (generated root tree files).2 = .ok ()
  valid : ∀ file ∈ (generated root tree files).1.written, ∃ text names,
    (generated root tree files).1.tree.fileAt file = some text ∧
      moduleExports u text = some names
  present : ∀ sf ∈ files, ∀ kind ∈ sf.ast.kinds, ∀ spec, kind.specifier = some spec →
    ∃ text names, (generated root tree files).1.tree.fileAt (adapterPathFor root spec) = some text ∧
      moduleExports u text = some names
  exported : ∀ spec name, isOpenclaw spec = true → Requires resolve files spec name →
    ∃ text names, (generated root tree files).1.tree.fileAt (adapterPathFor root spec) = some text ∧
      moduleExports u text = some names ∧ name ∈ names

/-- The last module that is written to the path of another. -/
def Owns (root : Path) (files : List Source) (owner spec : String) : Prop :=
  ∃ before after, needed files = before ++ owner :: after ∧
    adapterPathFor root owner = adapterPathFor root spec ∧
    ∀ later ∈ after, adapterPathFor root later ≠ adapterPathFor root spec

/-- Some file names the name in a reference to the module itself. -/
def NamedBy (files : List Source) (spec name : String) : Prop :=
  ∃ sf ∈ files, Named sf.ast spec name

/-- The references that the generator serves. -/
structure Served (u : IdentifierTable) (resolve : Resolution) (root : Path) (tree : Entry)
    (files : List Source) : Prop where
  accepted : Accepted tree ((needed files).map (adapterPathFor root))
  legal : ∀ owner, Owns root files owner owner → ∀ name, NamedBy files owner name →
    name ∉ RESERVED → Legal u name
  provided : ∀ spec ∈ needed files, ∀ owner, Owns root files owner spec →
    ∀ name, Requires resolve files spec name →
      NamedBy files owner name ∧ name ∉ RESERVED ∨
        name = "default" ∧ ∃ sf ∈ files, DefaultImported sf.ast owner

/-- None of the references that the generator has no guard against: two modules with one path, a
name that no module can bind, a default that is taken by its name from a module of which no file
imports the default. -/
structure Regular (u : IdentifierTable) (resolve : Resolution) (root : Path) (files : List Source) :
    Prop where
  ownPath : ∀ spec ∈ needed files, ∀ other ∈ needed files,
    adapterPathFor root other = adapterPathFor root spec → other = spec
  legal : ∀ spec ∈ needed files, ∀ name, NamedBy files spec name → name ∉ RESERVED → Legal u name
  default : ∀ spec ∈ needed files, Requires resolve files spec "default" →
    ∃ sf ∈ files, DefaultImported sf.ast spec

/-- Every name that is required of a module, other than its default, is named in a reference to the
module itself, and the generator does not filter it out. -/
def Provided (resolve : Resolution) (files : List Source) : Prop :=
  ∀ spec ∈ needed files, ∀ name, name ≠ "default" → Requires resolve files spec name →
    NamedBy files spec name ∧ name ∉ RESERVED

/-! ## References are collected -/

section

variable {u : IdentifierTable} {resolve : Resolution} {root : Path} {tree : Entry}
  {files : List Source} {spec owner name : String}

theorem mem_needed : spec ∈ needed files ↔
    ∃ sf ∈ files, ∃ kind ∈ sf.ast.kinds, kind.specifier = some spec := by
  rw [needed, mem_referenced]
  simp only [List.mem_map, exists_exists_and_eq_and, mem_mentions]

theorem isOpenclaw_of_needed (there : spec ∈ needed files) : isOpenclaw spec = true :=
  isOpenclaw_of_referenced there

theorem mem_childKinds {node : Node} {nodes : List Node} (there : node ∈ nodes) :
    node.kind ∈ Node.childKinds nodes := by
  induction nodes with
  | nil => cases there
  | cons first nodes ih =>
      rw [Node.childKinds]
      rcases List.mem_cons.mp there with rfl | inRest
      · refine List.mem_append_left _ ?_
        obtain ⟨kind, children⟩ := node
        rw [Node.kinds]
        exact List.mem_cons_self
      · exact List.mem_append_right _ (ih inRest)

theorem Source.statements_subset {sf : Source} {kind : Kind} (there : kind ∈ sf.statements) :
    kind ∈ sf.ast.kinds := by
  obtain ⟨path, kind', children⟩ := sf
  obtain ⟨node, isChild, rfl⟩ := List.mem_map.mp there
  exact List.mem_cons_of_mem kind' (mem_childKinds isChild)

/-- What is required of a module references it. -/
theorem Requires.needed (required : Requires resolve files spec name)
    (openclaw : isOpenclaw spec = true) : spec ∈ needed files := by
  rw [mem_needed]
  cases required with
  | default isFile imported =>
      obtain ⟨clause, -, there⟩ := imported
      exact ⟨_, isFile, _, there, if_pos openclaw⟩
  | named isFile named =>
      refine ⟨_, isFile, ?_⟩
      cases named with
      | imported there isElement => exact ⟨_, there, if_pos openclaw⟩
      | reexported there isElement => exact ⟨_, there, if_pos openclaw⟩
      | importType there => exact ⟨_, there, if_pos openclaw⟩
      | member binds there => exact mem_mentions.mp binds.mem_mentions
  | star isFile imported isElement notDefault isOther resolved only =>
      exact ⟨_, isOther, _, Source.statements_subset only.stars, if_pos openclaw⟩

/-! ## The module at a path -/

theorem exists_owns (root : Path) (there : spec ∈ needed files) :
    ∃ owner, Owns root files owner spec := by
  obtain ⟨before, owner, after, split, samePath, none⟩ :=
    exists_last (P := fun other => adapterPathFor root other = adapterPathFor root spec)
      ⟨spec, there, rfl⟩
  exact ⟨owner, before, after, split, samePath, none⟩

theorem Owns.self (owns : Owns root files owner spec) : Owns root files owner owner := by
  obtain ⟨before, after, split, samePath, none⟩ := owns
  exact ⟨before, after, split, rfl, samePath ▸ none⟩

theorem Owns.mem (owns : Owns root files owner spec) : owner ∈ needed files := by
  obtain ⟨before, after, split, -⟩ := owns
  simp [split]

/-- The module at a path is the stub of the last module written there. -/
theorem lastStub_of_owns (owns : Owns root files owner spec) :
    ∃ m, (collectAll (files.map Source.ast)).get owner = some m ∧
      lastStub root (collectAll (files.map Source.ast)).entries (adapterPathFor root spec) =
        some (stub root owner m) := by
  obtain ⟨before, after, split, samePath, last⟩ := owns
  rw [needed, ← map_fst_collectAll] at split
  obtain ⟨before, rest, entries, rfl, isRest⟩ := List.map_eq_append_iff.mp split
  obtain ⟨⟨owner, m⟩, after, rfl, rfl, rfl⟩ := List.map_eq_cons_iff.mp isRest
  refine ⟨m, OrdMap.get_eq_some.mpr (by simp [entries]), ?_⟩
  rw [entries]
  exact lastStub_of_split samePath fun later there => last _ (List.mem_map_of_mem there)

theorem accepted_needed :
    (generated root tree files).2 = .ok () ↔
      Accepted tree ((needed files).map (adapterPathFor root)) := by
  rw [generated, generate_isOk_iff, paths_eq, map_fst_collectAll]
  rfl

/-- A run that returns leaves the owner's stub at the path of every referenced module. -/
theorem fileAt_generated (accepted : Accepted tree ((needed files).map (adapterPathFor root)))
    (noHandWritten : handWritten tree (adapterPathFor root spec) = false)
    (owns : Owns root files owner spec) :
    ∃ m, (collectAll (files.map Source.ast)).get owner = some m ∧
      (generated root tree files).1.tree.fileAt (adapterPathFor root spec) =
        some (stub root owner m) := by
  obtain ⟨m, found, last⟩ := lastStub_of_owns owns
  rw [needed, ← map_fst_collectAll, ← paths_eq] at accepted
  obtain ⟨run, returned, left⟩ := (generate_accepted _).1 accepted
  refine ⟨m, found, ?_⟩
  rw [generated, returned, left.files, noHandWritten, last]
  rfl

theorem written_generated (accepted : Accepted tree ((needed files).map (adapterPathFor root)))
    {file : Path} (there : file ∈ (generated root tree files).1.written) :
    ∃ spec ∈ needed files, adapterPathFor root spec = file := by
  rw [needed, ← map_fst_collectAll, ← paths_eq] at accepted
  obtain ⟨run, returned, left⟩ := (generate_accepted _).1 accepted
  rw [generated, returned, left.written, paths_eq, map_fst_collectAll] at there
  exact List.mem_map.mp (List.mem_filter.mp there).1

/-! ## The names of a module -/

theorem mem_stubNames_iff {m : ModuleNeeds} (openclaw : isOpenclaw owner = true)
    (found : (collectAll (files.map Source.ast)).get owner = some m) :
    name ∈ stubNames m ↔ NamedBy files owner name ∧ name ∉ RESERVED := by
  rw [mem_stubNames, mem_names_collectAll openclaw found, NamedBy]
  simp

theorem needsDefault_iff {m : ModuleNeeds} (openclaw : isOpenclaw owner = true)
    (found : (collectAll (files.map Source.ast)).get owner = some m) :
    m.needsDefault = true ↔ ∃ sf ∈ files, DefaultImported sf.ast owner := by
  rw [needsDefault_collectAll openclaw found]
  simp

theorem mem_stubExports_iff {m : ModuleNeeds} (openclaw : isOpenclaw owner = true)
    (found : (collectAll (files.map Source.ast)).get owner = some m) :
    name ∈ (stubItems m).flatMap Item.exports ↔
      NamedBy files owner name ∧ name ∉ RESERVED ∨
        name = "default" ∧ ∃ sf ∈ files, DefaultImported sf.ast owner := by
  rw [mem_exports_stubItems, mem_stubNames_iff openclaw found, needsDefault_iff openclaw found]

/-! ## Characters of the import path -/

theorem mem_relative {path path' : Path} {part : String} (there : part ∈ relative path path') :
    part = ".." ∨ part ∈ path' := by
  induction path generalizing path' with
  | nil =>
      cases path' with
      | nil => cases there
      | cons name path' => exact Or.inr there
  | cons first path ih =>
      cases path' with
      | nil =>
          rw [relative, List.append_nil] at there
          · exact Or.inl (List.eq_of_mem_replicate there)
          · simp
      | cons name path' =>
          rw [relative] at there
          split at there
          · exact (ih there).imp_right (List.mem_cons_of_mem name)
          · exact (List.mem_append.mp there).imp_left List.eq_of_mem_replicate

theorem mem_intercalate_slash {parts : List String} {c : Char}
    (there : c ∈ ("/".intercalate parts).toList) : c = '/' ∨ ∃ part ∈ parts, c ∈ part.toList := by
  induction parts with
  | nil => simp [String.intercalate_nil] at there
  | cons part parts ih =>
      cases parts with
      | nil =>
          rw [String.intercalate_singleton] at there
          exact Or.inr ⟨part, List.mem_cons_self, there⟩
      | cons next parts =>
          rw [String.intercalate_cons_cons, String.toList_append, String.toList_append,
            List.mem_append, List.mem_append] at there
          rcases there with (inPart | isSlash) | inRest
          · exact Or.inr ⟨part, List.mem_cons_self, inPart⟩
          · exact Or.inl (List.mem_singleton.mp isSlash)
          · exact (ih inRest).imp_right fun ⟨other, isPart, inPart⟩ =>
              ⟨other, List.mem_cons_of_mem part isPart, inPart⟩

/-- A path whose names a quoted string can hold. -/
def QuotablePath (path : Path) : Prop :=
  ∀ part ∈ path, ∀ c ∈ part.toList, c ≠ '\'' ∧ c ≠ '\n' ∧ c ≠ '\r'

instance (path : Path) : Decidable (QuotablePath path) :=
  have : DecidablePred fun part : String =>
      ∀ c ∈ part.toList, c ≠ '\'' ∧ c ≠ '\n' ∧ c ≠ '\r' :=
    fun part => List.decidableBAll _ part.toList
  List.decidableBAll _ path

theorem mem_relativeToStub {file : Path} {c : Char}
    (there : c ∈ (relativeToStub root file).toList) :
    c = '.' ∨ c = '/' ∨ c ≠ '\\' ∧
      ∃ part ∈ adapterRoot root ++ ["openclaw", "plugin-sdk", "__stub"], c ∈ part.toList := by
  have mapped : ∀ {c : Char}, c ∈ (("/".intercalate (relative file.dropLast
      (adapterRoot root ++ ["openclaw", "plugin-sdk", "__stub"]))).toList.map
        fun c => if c = '\\' then '/' else c) → c = '.' ∨ c = '/' ∨ c ≠ '\\' ∧
      ∃ part ∈ adapterRoot root ++ ["openclaw", "plugin-sdk", "__stub"], c ∈ part.toList := by
    intro c inMap
    obtain ⟨d, inRelative, rfl⟩ := List.mem_map.mp inMap
    split
    · exact Or.inr (Or.inl rfl)
    next noBackslash =>
      rcases mem_intercalate_slash inRelative with isSlash | ⟨part, isPart, inPart⟩
      · exact Or.inr (Or.inl isSlash)
      · rcases mem_relative isPart with rfl | ofStub
        · left
          simpa using inPart
        · exact Or.inr (Or.inr ⟨noBackslash, part, ofStub, inPart⟩)
  rw [relativeToStub] at there
  split at there
  · rw [String.toList_ofList] at there
    exact mapped there
  · rw [String.toList_append, List.mem_append] at there
    rcases there with isPrefix | there
    · simp at isPrefix
      exact isPrefix.imp_right Or.inl
    · rw [String.toList_ofList] at there
      exact mapped there

theorem quotable_relativeToStub (quotable : QuotablePath root) (file : Path) :
    Quotable (relativeToStub root file).toList := by
  intro c there
  rcases mem_relativeToStub there with rfl | rfl | ⟨noBackslash, part, isPart, inPart⟩
  · decide
  · decide
  · have others : QuotablePath ["src", "common", "openclaw", "plugin-sdk", "__stub"] := by
      decide
    have ofRoot : part ∈ root ∨ part ∈ ["src", "common", "openclaw", "plugin-sdk", "__stub"] := by
      rw [adapterRoot, List.append_assoc, List.mem_append] at isPart
      exact isPart
    have noBreak := ofRoot.elim (fun isName => quotable part isName c inPart)
      fun isName => others part isName c inPart
    exact ⟨noBreak.1, noBackslash, noBreak.2⟩

/-- The specifiers and the root can be quoted, and no referenced module is a hand-written one. -/
structure Plain (root : Path) (tree : Entry) (files : List Source) : Prop where
  noHandWritten : ∀ spec ∈ needed files, handWritten tree (adapterPathFor root spec) = false
  clean : ∀ spec ∈ needed files, Clean spec
  quotable : QuotablePath root

theorem Served.complete (plain : Plain root tree files)
    (served : Served u resolve root tree files) : Complete u resolve root tree files := by
  have exports : ∀ spec ∈ needed files, ∃ owner m, Owns root files owner spec ∧
      (collectAll (files.map Source.ast)).get owner = some m ∧
      (generated root tree files).1.tree.fileAt (adapterPathFor root spec) =
        some (stub root owner m) ∧
      moduleExports u (stub root owner m) = some ((stubItems m).flatMap Item.exports) := by
    intro spec there
    obtain ⟨owner, owns⟩ := exists_owns root there
    obtain ⟨m, found, isFile⟩ :=
      fileAt_generated served.accepted (plain.noHandWritten spec there) owns
    refine ⟨owner, m, owns, found, isFile, moduleExports_stub (plain.clean owner owns.mem)
      (quotable_relativeToStub plain.quotable _) fun name isName => ?_⟩
    obtain ⟨named, notReserved⟩ :=
      (mem_stubNames_iff (isOpenclaw_of_needed owns.mem) found).mp isName
    exact served.legal owner owns.self name named notReserved
  refine ⟨accepted_needed.mpr served.accepted, fun file written => ?_,
    fun sf isFile kind isKind spec is => ?_, fun spec name openclaw required => ?_⟩
  · obtain ⟨spec, there, rfl⟩ := written_generated served.accepted written
    obtain ⟨owner, m, -, -, isText, valid⟩ := exports spec there
    exact ⟨_, _, isText, valid⟩
  · obtain ⟨owner, m, -, -, isText, valid⟩ :=
      exports spec (mem_needed.mpr ⟨sf, isFile, kind, isKind, is⟩)
    exact ⟨_, _, isText, valid⟩
  · have there := required.needed openclaw
    obtain ⟨owner, m, owns, found, isText, valid⟩ := exports spec there
    refine ⟨_, _, isText, valid, ?_⟩
    rw [mem_stubExports_iff (isOpenclaw_of_needed owns.mem) found]
    exact served.provided spec there owner owns name required

theorem Complete.served (plain : Plain root tree files)
    (complete : Complete u resolve root tree files) : Served u resolve root tree files := by
  have accepted := accepted_needed.mp complete.returned
  have legal : ∀ owner, Owns root files owner owner → ∀ name, NamedBy files owner name →
      name ∉ RESERVED → Legal u name := by
    rintro owner owns name ⟨sf, isFile, named⟩ notReserved
    obtain ⟨m, found, isText⟩ := fileAt_generated accepted (plain.noHandWritten owner owns.mem) owns
    obtain ⟨text, names, isText', valid, exported⟩ :=
      complete.exported owner name (isOpenclaw_of_needed owns.mem) (.named isFile named)
    cases isText.symm.trans isText'
    refine legal_of_moduleExports (plain.clean owner owns.mem)
      (quotable_relativeToStub plain.quotable _) valid exported ?_
    rintro rfl
    exact notReserved (by decide)
  refine ⟨accepted, legal, fun spec there owner owns name required => ?_⟩
  obtain ⟨m, found, isText⟩ := fileAt_generated accepted (plain.noHandWritten spec there) owns
  obtain ⟨text, names, isText', valid, exported⟩ :=
    complete.exported spec name (isOpenclaw_of_needed there) required
  cases isText.symm.trans isText'
  rw [moduleExports_stub (plain.clean owner owns.mem) (quotable_relativeToStub plain.quotable _)
    fun name isName => by
      obtain ⟨named, notReserved⟩ :=
        (mem_stubNames_iff (isOpenclaw_of_needed owns.mem) found).mp isName
      exact legal owner owns.self name named notReserved] at valid
  cases valid
  exact (mem_stubExports_iff (isOpenclaw_of_needed owns.mem) found).mp exported

/-- On plain input the generated adapter is complete exactly when the references are served. -/
theorem complete_iff_served (plain : Plain root tree files) :
    Complete u resolve root tree files ↔ Served u resolve root tree files :=
  ⟨Complete.served plain, Served.complete plain⟩

/-! ## Regular references -/

theorem Regular.owns_iff (regular : Regular u resolve root files) (there : spec ∈ needed files) :
    Owns root files owner spec ↔ owner = spec := by
  have same : ∀ {other : String}, Owns root files other spec → other = spec := by
    intro other owns
    obtain ⟨before, after, split, samePath, last⟩ := owns
    exact regular.ownPath spec there other (by simp [split]) samePath
  constructor
  · exact same
  · rintro rfl
    obtain ⟨other, owns⟩ := exists_owns root there
    exact same owns ▸ owns

theorem Regular.served_iff (regular : Regular u resolve root files) :
    Served u resolve root tree files ↔
      Accepted tree ((needed files).map (adapterPathFor root)) ∧ Provided resolve files := by
  constructor
  · intro served
    refine ⟨served.accepted, fun spec there name notDefault required => ?_⟩
    have owns := (regular.owns_iff there).mpr rfl
    exact (served.provided spec there spec owns name required).resolve_right fun isDefault =>
      notDefault isDefault.1
  · rintro ⟨accepted, provided⟩
    refine ⟨accepted, fun owner owns name named => regular.legal owner owns.mem name named,
      fun spec there owner owns name required => ?_⟩
    obtain rfl := (regular.owns_iff there).mp owns
    by_cases isDefault : name = "default"
    · subst isDefault
      exact Or.inr ⟨rfl, regular.default owner there required⟩
    · exact Or.inl (provided owner there name isDefault required)

end

/-- Regular references link exactly when the file system lets the generator through and every
required name other than a default is used directly of its module and not reserved. -/
theorem complete_iff_provided {u : IdentifierTable} {resolve : Resolution} {root : Path}
    {tree : Entry} {files : List Source} (plain : Plain root tree files)
    (regular : Regular u resolve root files) :
    Complete u resolve root tree files ↔
      Accepted tree ((needed files).map (adapterPathFor root)) ∧ Provided resolve files :=
  (complete_iff_served plain).trans regular.served_iff

/-! ## One import -/

/-- A vendored file that imports one name. -/
def importing (spec : String) (el : ElementSpecifier) : Source where
  path := ["repo", "src", "connectors", "telegram", "extension", "index.ts"]
  ast := .mk .other
    [.mk (.importDeclaration (some spec) (some ⟨none, some (.namedImports [el])⟩)) []]

/-- A vendored file with `export * from 'openclaw/x'` alone. -/
def starring : Source where
  path := ["repo", "src", "connectors", "telegram", "extension", "api.ts"]
  ast := .mk .other [.mk (.exportDeclaration (some "openclaw/x") none) []]

def ascii : IdentifierTable := ⟨fun _ => false, fun _ => false⟩

section

variable {files : List Source} {el : ElementSpecifier} {spec spec' name : String}

theorem kinds_importing : (importing spec el).ast.kinds =
    [.other, .importDeclaration (some spec) (some ⟨none, some (.namedImports [el])⟩)] := rfl

theorem kinds_starring : starring.ast.kinds =
    [.other, .exportDeclaration (some "openclaw/x") none] := rfl

theorem named_importing : Named (importing spec el).ast spec' name ↔
    spec' = spec ∧ name = el.original := by
  constructor
  · rintro (⟨there, isElement⟩ | ⟨there, isElement⟩ | there | ⟨binds, there⟩)
    · simp only [kinds_importing, List.mem_cons, reduceCtorEq, Kind.importDeclaration.injEq,
        Option.some.injEq, ImportClause.mk.injEq, NamedImportBindings.namedImports.injEq,
        List.not_mem_nil, or_false, false_or] at there
      obtain ⟨rfl, -, rfl⟩ := there
      rw [List.mem_singleton.mp isElement]
      exact ⟨rfl, rfl⟩
    · simp [kinds_importing] at there
    · simp [kinds_importing] at there
    · simp [kinds_importing] at there
  · rintro ⟨rfl, rfl⟩
    have there : .importDeclaration (some spec')
        (some ⟨none, some (.namedImports [el])⟩) ∈ (importing spec' el).ast.kinds := by
      simp [kinds_importing]
    exact .imported there List.mem_cons_self

theorem not_named_starring : ¬ Named starring.ast spec name := by
  rintro (⟨there, -⟩ | ⟨there, -⟩ | there | ⟨-, there⟩) <;> simp [kinds_starring] at there

theorem not_declares_starring : ¬ starring.Declares name := by
  rintro (⟨there, -⟩ | ⟨there, -⟩ | there) <;>
    simp [Source.statements, starring, Node.kind, Node.children] at there

theorem not_defaultImported_importing : ¬ DefaultImported (importing spec el).ast spec' := by
  rintro ⟨clause, hasName, there⟩
  simp only [kinds_importing, List.mem_cons, reduceCtorEq, Kind.importDeclaration.injEq,
    Option.some.injEq, List.not_mem_nil, or_false, false_or] at there
  rw [there.2] at hasName
  cases hasName

theorem plain_of_needed (only : needed files = ["openclaw/x"]) :
    Plain ["repo"] (.dir []) files := by
  have isX : ∀ spec ∈ needed files, spec = "openclaw/x" := by simp [only]
  refine ⟨fun spec there => ?_, fun spec there => ?_, ?_⟩
  · rw [isX spec there]
    decide
  · rw [isX spec there]
    exact ⟨by decide, by decide⟩
  · decide

theorem accepted_of_needed (only : needed files = ["openclaw/x"]) :
    Accepted (.dir []) ((needed files).map (adapterPathFor ["repo"])) := by
  have isPath : adapterPathFor ["repo"] "openclaw/x" =
      ["repo", "src", "common", "openclaw", "x.ts"] := by decide
  have noFile : ∀ dir ∈ ["repo", "src", "common", "openclaw"].inits,
      (Entry.dir []).fileAt dir = none := by decide
  rw [only]
  refine accepted_singleton.mpr ?_
  rw [isPath]
  refine ⟨?_, by simp, Or.inr fun dir along => ?_⟩
  · rintro ⟨children, found⟩
    cases found
  · exact ⟨noFile dir ((List.mem_inits _ _).mpr along), List.not_mem_nil⟩

theorem legal_answer : Legal ascii "answer" where
  identifier := ⟨'a', "nswer".toList, by decide, by decide, List.all_eq_true.mp (by decide)⟩
  notReserved := by decide
  notImported := by decide

end

theorem requires_answer {spec name : String}
    (required : Requires (fun _ _ => none) [importing "openclaw/x" ⟨none, "answer"⟩] spec name) :
    name = "answer" ∧ NamedBy [importing "openclaw/x" ⟨none, "answer"⟩] spec name := by
  have isOnly : ∀ sf ∈ [importing "openclaw/x" ⟨none, "answer"⟩],
      sf = importing "openclaw/x" ⟨none, "answer"⟩ := fun sf => List.mem_singleton.mp
  cases required with
  | default isFile imported =>
      rw [isOnly _ isFile] at imported
      exact absurd imported not_defaultImported_importing
  | named isFile named =>
      have only := named
      rw [isOnly _ isFile] at only
      exact ⟨(named_importing.mp only).2, _, isFile, named⟩
  | star isFile imported isElement notDefault isOther resolved only => cases resolved

/-- `import { answer } from 'openclaw/x'` links. -/
theorem complete_answer :
    Complete ascii (fun _ _ => none) ["repo"] (.dir [])
      [importing "openclaw/x" ⟨none, "answer"⟩] := by
  have only : needed [importing "openclaw/x" ⟨none, "answer"⟩] = ["openclaw/x"] := rfl
  have regular : Regular ascii (fun _ _ => none) ["repo"]
      [importing "openclaw/x" ⟨none, "answer"⟩] := by
    refine ⟨fun spec there other isOther _ => ?_, fun spec there name ⟨sf, isFile, named⟩ _ => ?_,
      fun spec there required => ?_⟩
    · rw [only, List.mem_singleton] at there isOther
      rw [there, isOther]
    · rw [(requires_answer (.named isFile named)).1]
      exact legal_answer
    · exact absurd (requires_answer required).1 (by decide)
  refine (complete_iff_provided (plain_of_needed only) regular).mpr
    ⟨accepted_of_needed only, fun spec there name _ required => ?_⟩
  obtain ⟨rfl, named⟩ := requires_answer required
  exact ⟨named, by decide⟩

/-- A star in one vendored file does not serve the other that imports from it. -/
theorem not_complete_starring :
    ¬ Complete ascii (fun _ _ => some starring.path) ["repo"] (.dir [])
      [importing "./api" ⟨none, "answer"⟩, starring] := by
  intro complete
  have only : needed [importing "./api" ⟨none, "answer"⟩, starring] = ["openclaw/x"] := rfl
  have served := complete.served (plain_of_needed only)
  have owns : Owns ["repo"] [importing "./api" ⟨none, "answer"⟩, starring] "openclaw/x"
      "openclaw/x" := ⟨[], [], rfl, rfl, by simp⟩
  have onlyStar : OnlyStar (fun _ _ => some starring.path)
      [importing "./api" ⟨none, "answer"⟩, starring] starring "openclaw/x" "answer" := by
    refine ⟨List.mem_cons_self, not_declares_starring, fun other stars apart => ?_⟩
    simp only [Source.Stars, Source.statements, starring, Node.children, Node.kind, List.map_cons,
      List.map_nil, List.mem_singleton, Kind.exportDeclaration.injEq, Option.some.injEq,
      and_true] at stars
    exact absurd stars apart
  have imported : .importDeclaration (some "./api")
      (some ⟨none, some (.namedImports [⟨none, "answer"⟩])⟩) ∈
        (importing "./api" ⟨none, "answer"⟩).ast.kinds := by
    simp [kinds_importing]
  have required : Requires (fun _ _ => some starring.path)
      [importing "./api" ⟨none, "answer"⟩, starring] "openclaw/x" "answer" :=
    .star List.mem_cons_self imported List.mem_cons_self (by decide) (by simp) rfl onlyStar
  rcases served.provided _ (only ▸ List.mem_cons_self) _ owns _ required with
    ⟨⟨sf, isFile, named⟩, -⟩ | ⟨isDefault, -⟩
  · rcases List.mem_cons.mp isFile with rfl | isFile
    · exact absurd (named_importing.mp named).1 (by decide)
    · rw [List.mem_singleton] at isFile
      subst isFile
      exact not_named_starring named
  · exact absurd isDefault (by decide)

theorem not_complete_defaultAs :
    ¬ Complete ascii (fun _ _ => none) ["repo"] (.dir [])
      [importing "openclaw/x" ⟨some "default", "X"⟩] := by
  intro complete
  have only : needed [importing "openclaw/x" ⟨some "default", "X"⟩] = ["openclaw/x"] := rfl
  have served := complete.served (plain_of_needed only)
  have owns : Owns ["repo"] [importing "openclaw/x" ⟨some "default", "X"⟩] "openclaw/x"
      "openclaw/x" := ⟨[], [], rfl, rfl, by simp⟩
  have required : Requires (fun _ _ => none) [importing "openclaw/x" ⟨some "default", "X"⟩]
      "openclaw/x" "default" := .named List.mem_cons_self (named_importing.mpr ⟨rfl, rfl⟩)
  rcases served.provided _ (only ▸ List.mem_cons_self) _ owns _ required with
    ⟨-, notReserved⟩ | ⟨-, sf, isFile, imported⟩
  · exact notReserved (by decide)
  · rw [List.mem_singleton] at isFile
    subst isFile
    exact not_defaultImported_importing imported

/-- Neither a name behind `export *` nor the default under another name links. -/
theorem not_complete :
    ¬ Complete ascii (fun _ _ => some starring.path) ["repo"] (.dir [])
        [importing "./api" ⟨none, "answer"⟩, starring] ∧
      ¬ Complete ascii (fun _ _ => none) ["repo"] (.dir [])
        [importing "openclaw/x" ⟨some "default", "X"⟩] :=
  ⟨not_complete_starring, not_complete_defaultAs⟩

end NestifyClaw.Adapter
