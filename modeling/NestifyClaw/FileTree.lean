import NestifyClaw.InsertionOrder
import Mathlib.Data.List.Infix

/-!
# A tree of files and directories

`Entry` is a file with its content or a directory with its entries in the order a listing gives
them.  What the operations do is said by two observations: `fileAt`, the content of the file at a
path, and `IsDir`.  `mkdirs` makes the directories along a path and touches no file; `writeFile`
changes the file at its path and nothing else.
-/

namespace NestifyClaw

/-- The names along the way from the root. -/
abbrev Path := List String

inductive Entry
  | file (content : String)
  | dir (children : List (String × Entry))

inductive FsError
  | ENOENT
  | ENOTDIR
  | EISDIR
  | EEXIST
  deriving DecidableEq, Repr

namespace Entry

def child : Entry → String → Option Entry
  | .file _, _ => none
  | .dir children, name => children.lookup name

/-- Put an entry in the place of the one of that name, or behind the last. -/
def put (name : String) (e : Entry) : List (String × Entry) → List (String × Entry)
  | [] => [(name, e)]
  | (other, e') :: children =>
      if other = name then (name, e) :: children else (other, e') :: put name e children

def setChild : Entry → String → Entry → Entry
  | .file content, _, _ => .file content
  | .dir children, name, e => .dir (put name e children)

def lookup : Entry → Path → Option Entry
  | e, [] => some e
  | e, name :: path => (e.child name).bind fun e => lookup e path

def fileAt (e : Entry) (path : Path) : Option String :=
  match e.lookup path with
  | some (.file content) => some content
  | _ => none

def IsDir (e : Entry) (path : Path) : Prop := ∃ children, e.lookup path = some (.dir children)

def exists? (e : Entry) (path : Path) : Bool := (e.lookup path).isSome

def readFile (e : Entry) (path : Path) : Except FsError String :=
  match e.lookup path with
  | some (.file content) => .ok content
  | some (.dir _) => .error .EISDIR
  | none => .error .ENOENT

def readDir (e : Entry) (path : Path) : Except FsError (List (String × Entry)) :=
  match e.lookup path with
  | some (.dir children) => .ok children
  | some (.file _) => .error .ENOTDIR
  | none => .error .ENOENT

/-- Make the directories along a path. -/
def mkdirs : Entry → Path → Except FsError Entry
  | .file _, [] => .error .EEXIST
  | .file _, _ :: _ => .error .ENOTDIR
  | .dir children, [] => .ok (.dir children)
  | .dir children, name :: path =>
      ((mkdirs ((children.lookup name).getD (.dir [])) path).map fun e =>
        (Entry.dir children).setChild name e)

/-- Write a file into a directory that exists. -/
def writeFile : Entry → Path → String → Except FsError Entry
  | .file _, _, _ => .error .ENOTDIR
  | .dir _, [], _ => .error .EISDIR
  | .dir children, [name], content =>
      match children.lookup name with
      | some (.dir _) => .error .EISDIR
      | _ => .ok ((Entry.dir children).setChild name (.file content))
  | .dir children, name :: next :: path, content =>
      match children.lookup name with
      | none => .error .ENOENT
      | some e =>
          (writeFile e (next :: path) content).map fun e =>
            (Entry.dir children).setChild name e

/-! ## Looking up -/

theorem lookup_put (name other : String) (e : Entry) (children : List (String × Entry)) :
    (put name e children).lookup other =
      if other = name then some e else children.lookup other := by
  induction children with
  | nil =>
      by_cases same : other = name
      · simp [put, same]
      · simp [put, List.lookup_cons, beq_eq_false_iff_ne.mpr same, same]
  | cons entry children ih =>
      obtain ⟨first, e'⟩ := entry
      rw [put]
      by_cases here : first = name
      · subst here
        by_cases same : other = first
        · simp [same]
        · simp [List.lookup_cons, beq_eq_false_iff_ne.mpr same, same]
      · rw [if_neg here, List.lookup_cons, ih, List.lookup_cons]
        by_cases same : other = name
        · subst same
          simp [beq_eq_false_iff_ne.mpr (Ne.symm here)]
        · simp [same]

@[simp] theorem lookup_nil (e : Entry) : e.lookup [] = some e := by
  cases e <;> rfl

theorem lookup_dir_cons (children : List (String × Entry)) (name : String) (path : Path) :
    (Entry.dir children).lookup (name :: path) =
      (children.lookup name).bind fun e => e.lookup path := rfl

theorem lookup_append (e : Entry) (path path' : Path) :
    e.lookup (path ++ path') = (e.lookup path).bind fun e => e.lookup path' := by
  induction path generalizing e with
  | nil => rw [List.nil_append, lookup_nil, Option.bind_some]
  | cons name path ih =>
      rw [List.cons_append, lookup, lookup]
      cases e.child name with
      | none => rfl
      | some below => exact ih below

theorem lookup_setChild (children : List (String × Entry)) (name other : String) (e : Entry)
    (path : Path) :
    ((Entry.dir children).setChild name e).lookup (other :: path) =
      if other = name then e.lookup path
      else (Entry.dir children).lookup (other :: path) := by
  rw [setChild, lookup_dir_cons, lookup_put]
  split
  · rfl
  · rfl

/-- What is found below an entry that a directory lacks is what is found below an empty one,
the empty directory itself apart. -/
theorem lookup_getD (children : List (String × Entry)) (name : String) {path : Path}
    (below : path ≠ []) :
    ((children.lookup name).getD (.dir [])).lookup path =
      (Entry.dir children).lookup (name :: path) := by
  obtain ⟨next, path, rfl⟩ := List.exists_cons_of_ne_nil below
  rw [lookup_dir_cons]
  cases children.lookup name with
  | none => rfl
  | some e => rfl

/-! ## Files and directories -/

theorem fileAt_eq_some {e : Entry} {path : Path} {content : String} :
    e.fileAt path = some content ↔ e.lookup path = some (.file content) := by
  rw [fileAt]
  split
  next found => simp [found]
  next other => simpa using fun found => other _ found

theorem isSome_lookup {e : Entry} {path : Path} :
    (e.lookup path).isSome ↔ (∃ content, e.fileAt path = some content) ∨ e.IsDir path := by
  simp only [fileAt_eq_some, IsDir]
  cases e.lookup path with
  | none => simp
  | some entry => cases entry <;> simp

theorem not_isDir_of_file {e : Entry} {path : Path} {content : String}
    (file : e.fileAt path = some content) : ¬ e.IsDir path := by
  rintro ⟨children, found⟩
  rw [fileAt_eq_some, found] at file
  cases file

theorem fileAt_congr {e e' : Entry} {path path' : Path} (same : e.lookup path = e'.lookup path') :
    e.fileAt path = e'.fileAt path' := by
  rw [fileAt, same, fileAt]

/-- Below a file there is nothing. -/
theorem lookup_append_of_not_isDir {e : Entry} {path path' : Path} (noDir : ¬ e.IsDir path)
    (below : path' ≠ []) : e.lookup (path ++ path') = none := by
  obtain ⟨next, path', rfl⟩ := List.exists_cons_of_ne_nil below
  rw [lookup_append]
  cases found : e.lookup path with
  | none => rfl
  | some entry =>
      cases entry with
      | file content => rfl
      | dir children => exact absurd ⟨children, found⟩ noDir

theorem fileAt_append {e : Entry} {path path' : Path} (noDir : ¬ e.IsDir path)
    (below : path' ≠ []) : e.fileAt (path ++ path') = none := by
  rw [fileAt, lookup_append_of_not_isDir noDir below]

theorem isDir_congr {e e' : Entry} {path path' : Path} (same : e.lookup path = e'.lookup path') :
    e.IsDir path ↔ e'.IsDir path' := by
  rw [IsDir, same, IsDir]

theorem fileAt_dir_nil (children : List (String × Entry)) :
    (Entry.dir children).fileAt [] = none := rfl

theorem isDir_of_append {e : Entry} {path path' : Path} (there : e.IsDir (path ++ path')) :
    e.IsDir path := by
  obtain ⟨children, found⟩ := there
  rw [lookup_append] at found
  obtain ⟨entry, here, below⟩ := Option.bind_eq_some_iff.mp found
  cases entry with
  | dir inside => exact ⟨inside, here⟩
  | file content => cases path' <;> cases below

theorem isDir_of_cons {e : Entry} {name : String} {path : Path} (there : e.IsDir (name :: path)) :
    e.IsDir [name] :=
  isDir_of_append (by rwa [List.singleton_append])

theorem isDir_dir_nil (children : List (String × Entry)) : (Entry.dir children).IsDir [] :=
  ⟨children, rfl⟩

theorem fileAt_setChild (children : List (String × Entry)) (name other : String) (e : Entry)
    (path : Path) :
    ((Entry.dir children).setChild name e).fileAt (other :: path) =
      if other = name then e.fileAt path else (Entry.dir children).fileAt (other :: path) := by
  split
  next same => exact fileAt_congr ((lookup_setChild ..).trans (if_pos same))
  next apart => exact fileAt_congr ((lookup_setChild ..).trans (if_neg apart))

theorem isDir_setChild (children : List (String × Entry)) (name other : String) (e : Entry)
    (path : Path) :
    ((Entry.dir children).setChild name e).IsDir (other :: path) ↔
      if other = name then e.IsDir path else (Entry.dir children).IsDir (other :: path) := by
  split
  next same => exact isDir_congr ((lookup_setChild ..).trans (if_pos same))
  next apart => exact isDir_congr ((lookup_setChild ..).trans (if_neg apart))

theorem fileAt_getD (children : List (String × Entry)) (name : String) (path : Path) :
    ((children.lookup name).getD (.dir [])).fileAt path =
      (Entry.dir children).fileAt (name :: path) := by
  cases path with
  | cons next path => exact fileAt_congr (lookup_getD children name (List.cons_ne_nil _ _))
  | nil =>
      cases found : children.lookup name with
      | none => simp [fileAt, lookup_dir_cons, found]
      | some e => simp [fileAt, lookup_dir_cons, found]

theorem isDir_getD (children : List (String × Entry)) (name : String) (path : Path) :
    ((children.lookup name).getD (.dir [])).IsDir path ↔
      (Entry.dir children).IsDir (name :: path) ∨ children.lookup name = none ∧ path = [] := by
  cases found : children.lookup name with
  | some e =>
      have same : (Entry.dir children).IsDir (name :: path) ↔ e.IsDir path :=
        isDir_congr (by rw [lookup_dir_cons, found]; rfl)
      simp [same]
  | none =>
      cases path with
      | nil => simp [isDir_dir_nil]
      | cons next path =>
          have same : (Entry.dir []).IsDir (next :: path) ↔
              (Entry.dir children).IsDir (name :: next :: path) :=
            isDir_congr (by rw [lookup_dir_cons children, found]; rfl)
          simp [same]

/-! ## Making directories -/

/-- A step of `mkdirs` into a directory. -/
theorem mkdirs_dir_cons {children : List (String × Entry)} {name : String} {path : Path}
    {e' : Entry} (made : (Entry.dir children).mkdirs (name :: path) = .ok e') :
    ∃ below, ((children.lookup name).getD (.dir [])).mkdirs path = .ok below ∧
      e' = (Entry.dir children).setChild name below := by
  rw [mkdirs] at made
  cases deeper : ((children.lookup name).getD (.dir [])).mkdirs path with
  | error err =>
      rw [deeper] at made
      cases made
  | ok below =>
      rw [deeper] at made
      cases made
      exact ⟨below, rfl, rfl⟩

/-- What does not lie along the path stays the same, listing and all. -/
theorem lookup_mkdirs {path : Path} : ∀ {e e' : Entry}, e.mkdirs path = .ok e' →
    ∀ other, ¬ other <+: path → e'.lookup other = e.lookup other := by
  induction path with
  | nil =>
      rintro (content | children) e' made other away <;> cases made
      rfl
  | cons name path ih =>
      rintro (content | children) e' made other away
      · cases made
      · obtain ⟨below, deeper, rfl⟩ := mkdirs_dir_cons made
        cases other with
        | nil => exact absurd List.nil_prefix away
        | cons first other =>
            rw [lookup_setChild]
            split
            next same =>
              subst same
              have further : ¬ other <+: path := fun along =>
                away (List.cons_prefix_cons.mpr ⟨rfl, along⟩)
              have inside : other ≠ [] := fun empty => further (empty ▸ List.nil_prefix)
              rw [ih deeper other further, lookup_getD children first inside]
            next => rfl

/-- Making directories touches no file. -/
theorem fileAt_mkdirs {path : Path} : ∀ {e e' : Entry}, e.mkdirs path = .ok e' →
    ∀ other, e'.fileAt other = e.fileAt other := by
  induction path with
  | nil =>
      rintro (content | children) e' made other <;> cases made
      rfl
  | cons name path ih =>
      rintro (content | children) e' made other
      · cases made
      · obtain ⟨below, deeper, rfl⟩ := mkdirs_dir_cons made
        cases other with
        | nil => rfl
        | cons first other =>
            rw [fileAt_setChild]
            split
            next same => rw [ih deeper, fileAt_getD, same]
            next => rfl

/-- After making directories there are the old ones and those along the path. -/
theorem isDir_mkdirs {path : Path} : ∀ {e e' : Entry}, e.mkdirs path = .ok e' →
    ∀ other, e'.IsDir other ↔ e.IsDir other ∨ other <+: path := by
  induction path with
  | nil =>
      rintro (content | children) e' made other <;> cases made
      rw [List.prefix_nil]
      exact ⟨Or.inl, fun was => was.elim id fun empty => empty ▸ isDir_dir_nil children⟩
  | cons name path ih =>
      rintro (content | children) e' made other
      · cases made
      · obtain ⟨below, deeper, rfl⟩ := mkdirs_dir_cons made
        cases other with
        | nil => exact ⟨fun _ => Or.inl (isDir_dir_nil _), fun _ => isDir_dir_nil _⟩
        | cons first other =>
            rw [isDir_setChild, List.cons_prefix_cons]
            split
            next same =>
              subst same
              rw [ih deeper, isDir_getD]
              constructor
              · rintro ((was | ⟨-, rfl⟩) | along)
                · exact Or.inl was
                · exact Or.inr ⟨rfl, List.nil_prefix⟩
                · exact Or.inr ⟨rfl, along⟩
              · rintro (was | ⟨-, along⟩)
                · exact Or.inl (Or.inl was)
                · exact Or.inr along
            next apart => simp [apart]

/-- The directories along a path can be made when no file stands in the way. -/
theorem mkdirs_isOk {path : Path} : ∀ {e : Entry},
    (∃ e', e.mkdirs path = .ok e') ↔ ∀ before, before <+: path → e.fileAt before = none := by
  induction path with
  | nil =>
      rintro (content | children)
      · refine ⟨?_, fun free => ?_⟩
        · rintro ⟨_, ⟨⟩⟩
        · cases free [] List.nil_prefix
      · refine ⟨fun _ before along => ?_, fun _ => ⟨_, rfl⟩⟩
        rw [List.prefix_nil.mp along]
        rfl
  | cons name path ih =>
      rintro (content | children)
      · refine ⟨?_, fun free => ?_⟩
        · rintro ⟨_, ⟨⟩⟩
        · cases free [] List.nil_prefix
      · constructor
        · rintro ⟨e', made⟩ before along
          obtain ⟨below, deeper, -⟩ := mkdirs_dir_cons made
          rcases List.prefix_cons_iff.mp along with rfl | ⟨before, rfl, further⟩
          · rfl
          · rw [← fileAt_getD]
            exact ih.mp ⟨below, deeper⟩ before further
        · intro free
          have deeper := ih.mpr fun before along => (fileAt_getD children name before).trans
            (free _ (List.cons_prefix_cons.mpr ⟨rfl, along⟩))
          obtain ⟨below, made⟩ := deeper
          exact ⟨(Entry.dir children).setChild name below, by rw [mkdirs, made]; rfl⟩

/-! ## Writing a file -/

/-- A write into a directory, here or further down. -/
theorem writeFile_dir_cons {children : List (String × Entry)} {name : String} {path : Path}
    {content : String} {e' : Entry}
    (wrote : (Entry.dir children).writeFile (name :: path) content = .ok e') :
    ∃ below, e' = (Entry.dir children).setChild name below ∧
      (path = [] ∧ below = .file content ∧ ¬ (Entry.dir children).IsDir [name] ∨
        ∃ e, children.lookup name = some e ∧ e.writeFile path content = .ok below) := by
  cases path with
  | nil =>
      rw [writeFile] at wrote
      split at wrote
      · cases wrote
      next notDir =>
        cases wrote
        refine ⟨_, rfl, Or.inl ⟨rfl, rfl, fun ⟨found, isDir⟩ => ?_⟩⟩
        rw [lookup_dir_cons] at isDir
        obtain ⟨e, isChild, here⟩ := Option.bind_eq_some_iff.mp isDir
        rw [lookup_nil, Option.some.injEq] at here
        exact notDir found (here ▸ isChild)
  | cons next path =>
      rw [writeFile] at wrote
      split at wrote
      · cases wrote
      next e found =>
        cases deeper : e.writeFile (next :: path) content with
        | error err =>
            rw [deeper] at wrote
            cases wrote
        | ok below =>
            rw [deeper] at wrote
            cases wrote
            exact ⟨below, rfl, Or.inr ⟨e, found, deeper⟩⟩

/-- What does not lie along the path stays the same, listing and all. -/
theorem lookup_writeFile {path : Path} {content : String} : ∀ {e e' : Entry},
    e.writeFile path content = .ok e' →
    ∀ other, ¬ other <+: path → e'.lookup other = e.lookup other := by
  induction path with
  | nil => rintro (_ | _) e' wrote <;> cases wrote
  | cons name path ih =>
      rintro (_ | children) e' wrote other away
      · cases wrote
      · obtain ⟨below, rfl, how⟩ := writeFile_dir_cons wrote
        cases other with
        | nil => exact absurd List.nil_prefix away
        | cons first other =>
            rw [lookup_setChild]
            split
            next same =>
              subst same
              have further : ¬ other <+: path := fun along =>
                away (List.cons_prefix_cons.mpr ⟨rfl, along⟩)
              obtain ⟨next, other, rfl⟩ := List.exists_cons_of_ne_nil
                fun empty : other = [] => further (empty ▸ List.nil_prefix)
              rcases how with ⟨rfl, rfl, noDir⟩ | ⟨e, found, deeper⟩
              · have nothing := lookup_append_of_not_isDir noDir (List.cons_ne_nil next other)
                rw [List.singleton_append] at nothing
                rw [nothing]
                rfl
              · rw [ih deeper _ further, lookup_dir_cons, found]
                rfl
            next => rfl

/-- A write changes the file at its path and no other. -/
theorem fileAt_writeFile {path : Path} {content : String} : ∀ {e e' : Entry},
    e.writeFile path content = .ok e' →
    ∀ other, e'.fileAt other = if other = path then some content else e.fileAt other := by
  induction path with
  | nil => rintro (_ | _) e' wrote <;> cases wrote
  | cons name path ih =>
      rintro (_ | children) e' wrote other
      · cases wrote
      · obtain ⟨below, rfl, how⟩ := writeFile_dir_cons wrote
        cases other with
        | nil => simp [setChild, fileAt_dir_nil]
        | cons first other =>
            rw [fileAt_setChild]
            by_cases same : first = name
            · subst same
              rcases how with ⟨rfl, rfl, noDir⟩ | ⟨e, found, deeper⟩
              · cases other with
                | nil => simp [fileAt]
                | cons next other =>
                    have nothing := fileAt_append noDir (List.cons_ne_nil next other)
                    rw [List.singleton_append] at nothing
                    rw [if_pos rfl, nothing, if_neg (by simp)]
                    rfl
              · have below : e.fileAt other = (Entry.dir children).fileAt (first :: other) :=
                  fileAt_congr (by rw [lookup_dir_cons, found]; rfl)
                simp [ih deeper, below]
            · simp [same]

theorem isDir_writeFile {path : Path} {content : String} : ∀ {e e' : Entry},
    e.writeFile path content = .ok e' → ∀ other, e'.IsDir other ↔ e.IsDir other := by
  induction path with
  | nil => rintro (_ | _) e' wrote <;> cases wrote
  | cons name path ih =>
      rintro (_ | children) e' wrote other
      · cases wrote
      · obtain ⟨below, rfl, how⟩ := writeFile_dir_cons wrote
        cases other with
        | nil => exact ⟨fun _ => isDir_dir_nil _, fun _ => isDir_dir_nil _⟩
        | cons first other =>
            rw [isDir_setChild]
            split
            next same =>
              subst same
              rcases how with ⟨rfl, rfl, noDir⟩ | ⟨e, found, deeper⟩
              · refine iff_of_false ?_ fun there => noDir (isDir_of_cons there)
                rintro ⟨children', found⟩
                cases other <;> cases found
              · rw [ih deeper]
                exact isDir_congr (by rw [lookup_dir_cons, found]; rfl)
            next => rfl

theorem map_isOk {α β ε : Type} (f : α → β) (x : Except ε α) :
    (∃ b, x.map f = .ok b) ↔ ∃ a, x = .ok a := by
  cases x with
  | error err => exact ⟨by rintro ⟨_, ⟨⟩⟩, by rintro ⟨_, ⟨⟩⟩⟩
  | ok a => exact ⟨fun _ => ⟨a, rfl⟩, fun _ => ⟨f a, rfl⟩⟩

/-- A write goes through when its directory is there and no directory is in its place. -/
theorem writeFile_isOk {path : Path} {name content : String} : ∀ {e : Entry},
    (∃ e', e.writeFile (path ++ [name]) content = .ok e') ↔
      e.IsDir path ∧ ¬ e.IsDir (path ++ [name]) := by
  induction path with
  | nil =>
      rintro (_ | children)
      · refine iff_of_false ?_ fun ⟨⟨_, found⟩, _⟩ => by cases found
        rintro ⟨_, ⟨⟩⟩
      · rw [List.nil_append, writeFile]
        have isDir_name : (Entry.dir children).IsDir [name] ↔
            ∃ grandchildren, children.lookup name = some (.dir grandchildren) := by
          simp [IsDir, lookup_dir_cons]
        rw [isDir_name]
        split
        next grandchildren found => simp [found]
        next notDir => simpa [isDir_dir_nil] using notDir
  | cons first path ih =>
      rintro (_ | children)
      · refine iff_of_false ?_ fun ⟨⟨_, found⟩, _⟩ => by cases found
        rintro ⟨_, ⟨⟩⟩
      · obtain ⟨next, rest, behind⟩ := List.exists_cons_of_ne_nil
          (List.append_ne_nil_of_right_ne_nil path (List.cons_ne_nil name []))
        cases found : children.lookup first with
        | none =>
            refine iff_of_false ?_ fun ⟨⟨_, there⟩, _⟩ => ?_
            · rw [List.cons_append, behind, writeFile, found]
              rintro ⟨_, ⟨⟩⟩
            · rw [lookup_dir_cons, found] at there
              cases there
        | some e =>
            have below : ∀ path, (Entry.dir children).IsDir (first :: path) ↔ e.IsDir path :=
              fun path => isDir_congr (by rw [lookup_dir_cons, found]; rfl)
            rw [List.cons_append, below, below, ← ih, behind, writeFile, found]
            exact map_isOk _ _

/-! ## Listings -/

/-- Every directory lists each of its entries once. -/
def Listed (e : Entry) : Prop :=
  ∀ path children, e.lookup path = some (.dir children) → (children.map Prod.fst).Nodup

/-- The same files and directories, which the listings may enumerate in different orders. -/
structure Reordered (e e' : Entry) : Prop where
  listed : e.Listed
  listed' : e'.Listed
  files : ∀ path, e'.fileAt path = e.fileAt path
  dirs : ∀ path, e'.IsDir path ↔ e.IsDir path

theorem Reordered.symm {e e' : Entry} (same : Reordered e e') : Reordered e' e :=
  ⟨same.listed', same.listed, fun path => (same.files path).symm, fun path => (same.dirs path).symm⟩

/-- An entry of a listing is what a lookup finds there. -/
theorem Listed.mem_iff {children : List (String × Entry)} (listed : (Entry.dir children).Listed)
    {name : String} {e : Entry} : (name, e) ∈ children ↔ children.lookup name = some e :=
  (OrdMap.lookup_eq_some (listed [] children rfl)).symm

theorem Listed.below {e e' : Entry} (listed : e.Listed) {path : Path}
    (found : e.lookup path = some e') : e'.Listed := by
  intro path' inside there
  refine listed (path ++ path') inside ?_
  rw [lookup_append, found]
  exact there

theorem Listed.child {children : List (String × Entry)} (listed : (Entry.dir children).Listed)
    {name : String} {e : Entry} (found : children.lookup name = some e) : e.Listed := by
  have here : (Entry.dir children).lookup [name] = some e := by
    rw [lookup_dir_cons, found, Option.bind_some, lookup_nil]
  exact listed.below here

theorem listed_file (content : String) : (Entry.file content).Listed := by
  intro path children found
  cases path <;> cases found

theorem Listed.dir {children : List (String × Entry)} (nodup : (children.map Prod.fst).Nodup)
    (listed : ∀ name e, children.lookup name = some e → e.Listed) :
    (Entry.dir children).Listed := by
  intro path inside found
  cases path with
  | nil =>
      cases found
      exact nodup
  | cons name path =>
      rw [lookup_dir_cons] at found
      obtain ⟨e, here, below⟩ := Option.bind_eq_some_iff.mp found
      exact listed name e here path inside below

theorem Reordered.refl {e : Entry} (listed : e.Listed) : Reordered e e :=
  ⟨listed, listed, fun _ => rfl, fun _ => Iff.rfl⟩

/-- Directories whose entries are the same up to the order of listings below them. -/
theorem Reordered.dir {children children' : List (String × Entry)}
    (nodup : (children.map Prod.fst).Nodup) (nodup' : (children'.map Prod.fst).Nodup)
    (same : ∀ name, Option.Rel Reordered (children.lookup name) (children'.lookup name)) :
    Reordered (.dir children) (.dir children') where
  listed := .dir nodup fun name e found => by
    have related := same name
    rw [found] at related
    generalize children'.lookup name = entry at related
    cases related with
    | some reordered => exact reordered.listed
  listed' := .dir nodup' fun name e found => by
    have related := same name
    rw [found] at related
    generalize children.lookup name = entry at related
    cases related with
    | some reordered => exact reordered.listed'
  files path := by
    cases path with
    | nil => rfl
    | cons name path =>
        have related := same name
        rw [fileAt, fileAt, lookup_dir_cons, lookup_dir_cons]
        generalize children.lookup name = entry, children'.lookup name = entry' at related
        cases related with
        | none => rfl
        | some reordered => exact reordered.files path
  dirs path := by
    cases path with
    | nil => exact iff_of_true (isDir_dir_nil children') (isDir_dir_nil children)
    | cons name path =>
        have related := same name
        rw [IsDir, IsDir, lookup_dir_cons, lookup_dir_cons]
        generalize children.lookup name = entry, children'.lookup name = entry' at related
        cases related with
        | none => exact Iff.rfl
        | some reordered => exact reordered.dirs path

theorem Reordered.single {e e' : Entry} (name : String) (same : Reordered e e') :
    Reordered (.dir [(name, e)]) (.dir [(name, e')]) := by
  refine .dir (List.nodup_singleton name) (List.nodup_singleton name) fun other => ?_
  rw [List.lookup_cons, List.lookup_cons]
  cases other == name with
  | true => exact .some same
  | false => exact .none

/-- A directory that lists its entries in another order. -/
theorem Reordered.of_perm {children children' : List (String × Entry)}
    (nodup : (children.map Prod.fst).Nodup) (perm : children.Perm children')
    (listed : ∀ name e, (name, e) ∈ children → e.Listed) :
    Reordered (.dir children) (.dir children') := by
  have nodup' : (children'.map Prod.fst).Nodup := (perm.map Prod.fst).nodup_iff.mp nodup
  have same : ∀ name, children'.lookup name = children.lookup name := by
    intro name
    refine Option.ext fun e => ?_
    rw [OrdMap.lookup_eq_some nodup, OrdMap.lookup_eq_some nodup', perm.mem_iff]
  refine .dir nodup nodup' fun name => ?_
  rw [same]
  cases found : children.lookup name with
  | none => exact .none
  | some e => exact .some (.refl (listed name e ((OrdMap.lookup_eq_some nodup).mp found)))

end Entry

end NestifyClaw
