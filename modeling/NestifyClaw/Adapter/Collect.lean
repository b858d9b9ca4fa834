import NestifyClaw.InsertionOrder
import Mathlib.Data.List.Induction

/-!
# What vendored files ask of the adapter

The syntax tree is what the TypeScript parser yields, each node reduced to what its visitor reads.
`collect` is the generator's function: a first pass over a file records every `openclaw/*`
specifier and what is imported from it, a second one the members read through its namespace
imports.  `asks_collectAll` says what the passes over a list of files leave in `modules`, and
`keys_collectAll` in which order.
-/

namespace NestifyClaw.Adapter

/-! ## Syntax -/

/-- `name` or `propertyName as name` between the braces of an import or export. -/
structure ElementSpecifier where
  propertyName : Option String
  name : String

/-- `(el.propertyName ?? el.name).text` -/
def ElementSpecifier.original (el : ElementSpecifier) : String := el.propertyName.getD el.name

inductive NamedImportBindings
  | namespaceImport (name : String)
  | namedImports (elements : List ElementSpecifier)

structure ImportClause where
  name : Option String
  namedBindings : Option NamedImportBindings

inductive ExportClause
  | namespaceExport (name : String)
  | namedExports (elements : List ElementSpecifier)

inductive EntityName
  | identifier (text : String)
  | qualifiedName (left : EntityName) (right : String)

def EntityName.leftmost : EntityName → String
  | .identifier text => text
  | .qualifiedName left _ => left.leftmost

/-- A node without its children.  A module specifier or an argument is `some` text when it is a
string literal. -/
inductive Kind
  | importDeclaration (moduleSpecifier : Option String) (importClause : Option ImportClause)
  | exportDeclaration (moduleSpecifier : Option String) (exportClause : Option ExportClause)
  | importType (argument : Option String) (qualifier : Option EntityName)
  | callExpression (importKeyword : Bool) (arguments : List (Option String))
  /-- the object is `some` text when it is an identifier -/
  | propertyAccessExpression (object : Option String) (name : String)
  /-- a statement that declares exported names -/
  | exportedDeclaration (names : List String)
  | other

inductive Node
  | mk (kind : Kind) (children : List Node)

namespace Node

def children : Node → List Node
  | .mk _ children => children

def kind : Node → Kind
  | .mk kind _ => kind

/-! A node before its children, and these in their order. -/

variable {σ : Type}

mutual

def forEach (f : σ → Kind → σ) : σ → Node → σ
  | s, .mk kind children => forEachChild f (f s kind) children

def forEachChild (f : σ → Kind → σ) : σ → List Node → σ
  | s, [] => s
  | s, child :: children => forEachChild f (forEach f s child) children

end

mutual

def kinds : Node → List Kind
  | .mk kind children => kind :: childKinds children

def childKinds : List Node → List Kind
  | [] => []
  | child :: children => child.kinds ++ childKinds children

end

mutual

theorem forEach_eq_foldl (f : σ → Kind → σ) :
    ∀ (s : σ) (node : Node), node.forEach f s = node.kinds.foldl f s
  | s, .mk kind children => by
      rw [forEach, kinds, List.foldl_cons]
      exact forEachChild_eq_foldl f (f s kind) children

theorem forEachChild_eq_foldl (f : σ → Kind → σ) :
    ∀ (s : σ) (children : List Node), forEachChild f s children = (childKinds children).foldl f s
  | _, [] => rfl
  | s, child :: children => by
      rw [forEachChild, childKinds, List.foldl_append, ← forEach_eq_foldl f s child]
      exact forEachChild_eq_foldl f _ children

end

end Node

/-! ## Needs -/

structure ModuleNeeds where
  names : OrdSet String
  needsDefault : Bool
  star : Bool

def ModuleNeeds.new : ModuleNeeds := ⟨.empty, false, false⟩

/-- What a reference to a module sets in its needs. -/
inductive Use
  | reference
  | name (text : String)
  | needsDefault
  | star

def Use.apply : Use → ModuleNeeds → ModuleNeeds
  | .reference, m => m
  | .name text, m => { m with names := m.names.add text }
  | .needsDefault, m => { m with needsDefault := true }
  | .star, m => { m with star := true }

abbrev Modules := OrdMap String ModuleNeeds

/-- The needs of a module, new ones if it has none, with a use recorded in them. -/
def need (modules : Modules) (spec : String) (use : Use) : Modules :=
  modules.upsert spec .new use.apply

def isOpenclaw (spec : String) : Bool :=
  spec == "openclaw" || "openclaw/".toList.isPrefixOf spec.toList

/-- The specifier for which a node is looked at further. -/
def Kind.specifier : Kind → Option String
  | .importDeclaration (some spec) _
  | .exportDeclaration (some spec) _
  | .importType (some spec) _
  | .callExpression true (some spec :: _) => if isOpenclaw spec then some spec else none
  | _ => none

def ImportClause.uses (clause : ImportClause) : List Use :=
  (if clause.name.isSome then [.needsDefault] else []) ++
    match clause.namedBindings with
    | none => []
    | some (.namespaceImport _) => [.star]
    | some (.namedImports elements) => elements.map fun el => .name el.original

/-- What a node records about its specifier. -/
def Kind.uses : Kind → List Use
  | .importDeclaration _ (some clause) => clause.uses
  | .exportDeclaration _ none => [.star]
  | .exportDeclaration _ (some (.namedExports elements)) =>
      elements.map fun el => .name el.original
  | .importType _ (some qualifier) => [.name qualifier.leftmost]
  | _ => []

/-- The local name that a namespace import binds. -/
def Kind.namespaceLocal : Kind → Option String
  | .importDeclaration _ (some ⟨_, some (.namespaceImport name)⟩) => some name
  | _ => none

structure Collecting where
  modules : Modules
  namespaceLocals : OrdMap String String

def visit (st : Collecting) (kind : Kind) : Collecting :=
  match kind.specifier with
  | none => st
  | some spec =>
      { modules := kind.uses.foldl (fun modules use => need modules spec use)
          (need st.modules spec .reference)
        namespaceLocals :=
          match kind.namespaceLocal with
          | none => st.namespaceLocals
          | some name => st.namespaceLocals.upsert name spec fun _ => spec }

def visitNs (namespaceLocals : OrdMap String String) (modules : Modules) : Kind → Modules
  | .propertyAccessExpression (some object) name =>
      match namespaceLocals.get object with
      | some spec => need modules spec (.name name)
      | none => modules
  | _ => modules

/-- Collect the needs of one file, given as its syntax tree. -/
def collect (modules : Modules) (sf : Node) : Modules :=
  let st := sf.forEach visit ⟨modules, .empty⟩
  if st.namespaceLocals.entries.length > 0 then
    sf.forEach (visitNs st.namespaceLocals) st.modules
  else st.modules

def collectAll (files : List Node) : Modules := files.foldl collect .empty

/-! ## What the collected needs say -/

/-- A use is recorded in the needs. -/
def ModuleNeeds.Has (m : ModuleNeeds) : Use → Prop
  | .reference => True
  | .name text => text ∈ m.names
  | .needsDefault => m.needsDefault = true
  | .star => m.star = true

theorem ModuleNeeds.has_new {use : Use} : ModuleNeeds.new.Has use ↔ use = .reference := by
  cases use <;> simp [Has, new, OrdSet.notMem_empty]

theorem Use.has_apply (m : ModuleNeeds) (use other : Use) :
    (use.apply m).Has other ↔ m.Has other ∨ other = use := by
  cases use <;> cases other <;> simp [ModuleNeeds.Has, Use.apply]

/-- A module is there, with a use recorded in its needs. -/
def Asks (modules : Modules) (spec : String) (use : Use) : Prop :=
  ∃ m, modules.get spec = some m ∧ m.Has use

theorem asks_need {modules : Modules} {spec : String} {use : Use} {spec' : String} {use' : Use} :
    Asks (need modules spec use) spec' use' ↔
      Asks modules spec' use' ∨ spec' = spec ∧ (use' = use ∨ use' = .reference) := by
  rw [Asks, Asks, need, OrdMap.get_upsert]
  by_cases same : spec' = spec
  · subst same
    cases found : modules.get spec' with
    | none => simp [Use.has_apply, ModuleNeeds.has_new, or_comm]
    | some m =>
        have always : m.Has .reference := trivial
        simp only [if_true, Option.getD_some, Option.some.injEq, exists_eq_left', true_and,
          Use.has_apply]
        constructor
        · rintro (had | rfl)
          · exact Or.inl had
          · exact Or.inr (Or.inl rfl)
        · rintro (had | rfl | rfl)
          · exact Or.inl had
          · exact Or.inr rfl
          · exact Or.inl always
  · simp [same]

def needAll (modules : Modules) (uses : List (String × Use)) : Modules :=
  uses.foldl (fun modules use => need modules use.1 use.2) modules

theorem asks_needAll {uses : List (String × Use)} :
    ∀ {modules : Modules} {spec : String} {use : Use}, Asks (needAll modules uses) spec use ↔
      Asks modules spec use ∨ ∃ u ∈ uses, spec = u.1 ∧ (use = u.2 ∨ use = .reference) := by
  induction uses with
  | nil => simp [needAll]
  | cons u uses ih =>
      intro modules spec use
      rw [needAll, List.foldl_cons, ← needAll, ih, asks_need]
      simp only [List.mem_cons, exists_eq_or_imp, or_assoc]

theorem keys_needAll {uses : List (String × Use)} : ∀ {modules : Modules},
    (needAll modules uses).keys = modules.keys.addAll (uses.map Prod.fst) := by
  induction uses with
  | nil => exact fun {_} => rfl
  | cons u uses ih =>
      intro modules
      rw [needAll, List.foldl_cons, ← needAll, ih, need, OrdMap.keys_upsert]
      rfl

theorem needAll_append (modules : Modules) (uses uses' : List (String × Use)) :
    needAll modules (uses ++ uses') = needAll (needAll modules uses) uses' := List.foldl_append

/-! ## One file -/

/-- What the first pass records at a node. -/
def Kind.needs (kind : Kind) : List (String × Use) :=
  match kind.specifier with
  | none => []
  | some spec => (spec, .reference) :: kind.uses.map (Prod.mk spec)

/-- The local name and the specifier of a namespace import. -/
def Kind.binding (kind : Kind) : Option (String × String) :=
  kind.specifier.bind fun spec => kind.namespaceLocal.map fun name => (name, spec)

def bind (namespaceLocals : OrdMap String String) (kind : Kind) : OrdMap String String :=
  match kind.binding with
  | none => namespaceLocals
  | some (name, spec) => namespaceLocals.upsert name spec fun _ => spec

theorem visit_eq (st : Collecting) (kind : Kind) :
    visit st kind = ⟨needAll st.modules kind.needs, bind st.namespaceLocals kind⟩ := by
  rw [visit, Kind.needs, bind, Kind.binding]
  cases kind.specifier with
  | none => rfl
  | some spec =>
      cases kind.namespaceLocal <;> simp [needAll, List.foldl_map]

theorem foldl_visit (kinds : List Kind) : ∀ st : Collecting,
    kinds.foldl visit st =
      ⟨needAll st.modules (kinds.flatMap Kind.needs), kinds.foldl bind st.namespaceLocals⟩ := by
  induction kinds with
  | nil => exact fun _ => rfl
  | cons kind kinds ih =>
      intro st
      rw [List.foldl_cons, ih, visit_eq, List.flatMap_cons, needAll_append, List.foldl_cons]

/-- What the second pass records at a node. -/
def Kind.memberNeed (namespaceLocals : OrdMap String String) : Kind → Option (String × Use)
  | .propertyAccessExpression (some object) name =>
      (namespaceLocals.get object).map fun spec => (spec, .name name)
  | _ => none

theorem visitNs_eq (namespaceLocals : OrdMap String String) (modules : Modules) (kind : Kind) :
    visitNs namespaceLocals modules kind =
      needAll modules (kind.memberNeed namespaceLocals).toList := by
  rw [visitNs.eq_def, Kind.memberNeed.eq_def]
  split
  next object name =>
    cases namespaceLocals.get object <;> rfl
  next => rfl

theorem foldl_visitNs (namespaceLocals : OrdMap String String) (kinds : List Kind) :
    ∀ modules : Modules, kinds.foldl (visitNs namespaceLocals) modules =
      needAll modules (kinds.filterMap (Kind.memberNeed namespaceLocals)) := by
  induction kinds with
  | nil => exact fun _ => rfl
  | cons kind kinds ih =>
      intro modules
      rw [List.foldl_cons, ih, visitNs_eq, ← needAll_append]
      congr 1
      cases found : kind.memberNeed namespaceLocals with
      | none => simp [found]
      | some need => simp [found]

/-- The namespace imports of a file, by the local name that they bind. -/
def namespaceLocals (sf : Node) : OrdMap String String := sf.kinds.foldl bind .empty

/-- What the two passes over a file record, in order. -/
def fileNeeds (sf : Node) : List (String × Use) :=
  sf.kinds.flatMap Kind.needs ++ sf.kinds.filterMap (Kind.memberNeed (namespaceLocals sf))

theorem collect_eq (modules : Modules) (sf : Node) :
    collect modules sf = needAll modules (fileNeeds sf) := by
  rw [collect, Node.forEach_eq_foldl, foldl_visit, fileNeeds, needAll_append]
  dsimp only
  rw [← namespaceLocals]
  split
  next => rw [Node.forEach_eq_foldl, foldl_visitNs]
  next noLocal =>
    -- without a namespace import the second pass has nothing to record
    have empty : (namespaceLocals sf).entries = [] :=
      List.length_eq_zero_iff.mp (Nat.le_zero.mp (Nat.le_of_not_lt noLocal))
    have nothing : ∀ kind, Kind.memberNeed (namespaceLocals sf) kind = none := by
      intro kind
      rw [Kind.memberNeed.eq_def]
      split
      next object name => rw [OrdMap.get, empty]; rfl
      next => rfl
    rw [List.filterMap_eq_nil_iff.mpr fun kind _ => nothing kind]
    rfl

theorem collectAll_eq (files : List Node) :
    collectAll files = needAll .empty (files.flatMap fileNeeds) := by
  have fold : ∀ modules, files.foldl collect modules =
      needAll modules (files.flatMap fileNeeds) := by
    induction files with
    | nil => exact fun _ => rfl
    | cons sf files ih =>
        intro modules
        rw [List.foldl_cons, ih, collect_eq, List.flatMap_cons, needAll_append]
  exact fold .empty

/-! ## Namespace imports -/

/-- The last namespace import of a file that binds the local name is one of this specifier. -/
def BindsLast (kinds : List Kind) (name spec : String) : Prop :=
  ∃ before kind after, kinds = before ++ kind :: after ∧ kind.binding = some (name, spec) ∧
    ∀ later ∈ after, ∀ other, later.binding ≠ some (name, other)

theorem get_bind {locals : OrdMap String String} {kind : Kind} {name spec : String} :
    (bind locals kind).get name = some spec ↔
      kind.binding = some (name, spec) ∨
        locals.get name = some spec ∧ ∀ other, kind.binding ≠ some (name, other) := by
  rw [bind]
  split
  next none => simp [none]
  next name' spec' found =>
    rw [OrdMap.get_upsert]
    by_cases same : name = name'
    · subst same
      simp [found]
    · simp [found, same, Ne.symm same]

theorem bindsLast_concat {kinds : List Kind} {kind : Kind} {name spec : String} :
    BindsLast (kinds ++ [kind]) name spec ↔
      kind.binding = some (name, spec) ∨
        BindsLast kinds name spec ∧ ∀ other, kind.binding ≠ some (name, other) := by
  constructor
  · rintro ⟨before, last, after, split, binds, noLater⟩
    rcases List.eq_nil_or_concat after with rfl | ⟨after, final, rfl⟩
    · obtain ⟨-, same⟩ := List.append_inj' split rfl
      exact Or.inl (List.singleton_inj.mp same ▸ binds)
    · rw [List.concat_eq_append] at split noLater
      rw [← List.cons_append, ← List.append_assoc] at split
      obtain ⟨rfl, same⟩ := List.append_inj' split rfl
      obtain rfl := List.singleton_inj.mp same
      refine Or.inr ⟨⟨before, last, after, rfl, binds, fun later inAfter => ?_⟩, ?_⟩
      · exact noLater later (List.mem_append_left _ inAfter)
      · exact noLater kind (List.mem_append_right _ List.mem_cons_self)
  · rintro (binds | ⟨⟨before, last, after, rfl, binds, noLater⟩, notLast⟩)
    · exact ⟨kinds, kind, [], rfl, binds, by simp⟩
    · refine ⟨before, last, after ++ [kind], by simp, binds, fun later inAfter => ?_⟩
      rcases List.mem_append.mp inAfter with inAfter | isLast
      · exact noLater later inAfter
      · exact List.mem_singleton.mp isLast ▸ notLast

theorem get_foldl_bind {kinds : List Kind} {name spec : String} : ∀ {locals : OrdMap String String},
    (kinds.foldl bind locals).get name = some spec ↔
      BindsLast kinds name spec ∨
        locals.get name = some spec ∧
          ∀ kind ∈ kinds, ∀ other, kind.binding ≠ some (name, other) := by
  induction kinds using List.reverseRecOn with
  | nil => simp [BindsLast]
  | append_singleton kinds kind ih =>
      intro locals
      rw [List.foldl_append, List.foldl_cons, List.foldl_nil, get_bind, ih, bindsLast_concat]
      simp only [List.mem_append, List.mem_singleton]
      constructor
      · rintro (binds | ⟨last | ⟨was, noneBefore⟩, notHere⟩)
        · exact Or.inl (Or.inl binds)
        · exact Or.inl (Or.inr ⟨last, notHere⟩)
        · exact Or.inr ⟨was, fun k there => there.elim (noneBefore k) fun same => same ▸ notHere⟩
      · rintro ((binds | ⟨last, notHere⟩) | ⟨was, nowhere⟩)
        · exact Or.inl binds
        · exact Or.inr ⟨Or.inl last, notHere⟩
        · exact Or.inr ⟨Or.inr ⟨was, fun k there => nowhere k (Or.inl there)⟩,
            nowhere kind (Or.inr rfl)⟩

theorem get_namespaceLocals {sf : Node} {name spec : String} :
    (namespaceLocals sf).get name = some spec ↔ BindsLast sf.kinds name spec := by
  rw [namespaceLocals, get_foldl_bind]
  refine or_iff_left fun ⟨found, _⟩ => ?_
  cases found

/-! ## The modules referenced -/

/-- The `openclaw` specifiers of a file, in order of their references. -/
def mentions (sf : Node) : List String := sf.kinds.filterMap Kind.specifier

/-- The specifiers that the files reference, in order of their first references. -/
def referenced (files : List Node) : OrdSet String := OrdSet.empty.addAll (files.flatMap mentions)

theorem addAll_needs (kinds : List Kind) : ∀ s : OrdSet String,
    s.addAll ((kinds.flatMap Kind.needs).map Prod.fst) =
      s.addAll (kinds.filterMap Kind.specifier) := by
  induction kinds with
  | nil => exact fun _ => rfl
  | cons kind kinds ih =>
      intro s
      rw [List.flatMap_cons, List.map_append, OrdSet.addAll_append, ih, Kind.needs]
      cases found : kind.specifier with
      | none => simp [found]
      | some spec =>
          rw [List.filterMap_cons_some found, OrdSet.addAll_cons, List.map_cons, OrdSet.addAll_cons]
          congr 1
          refine OrdSet.addAll_of_subset fun other isSpec => ?_
          rw [List.map_map, List.mem_map] at isSpec
          obtain ⟨-, -, rfl⟩ := isSpec
          exact OrdSet.mem_add.mpr (Or.inr rfl)

theorem specifier_of_binding {kind : Kind} {name spec : String}
    (binds : kind.binding = some (name, spec)) : kind.specifier = some spec := by
  obtain ⟨found, isSpec, bound⟩ := Option.bind_eq_some_iff.mp binds
  obtain ⟨_, _, same⟩ := Option.map_eq_some_iff.mp bound
  exact (Prod.mk.inj same).2 ▸ isSpec

theorem mem_mentions {sf : Node} {spec : String} :
    spec ∈ mentions sf ↔ ∃ kind ∈ sf.kinds, kind.specifier = some spec := List.mem_filterMap

theorem BindsLast.mem_mentions {sf : Node} {name spec : String}
    (last : BindsLast sf.kinds name spec) : spec ∈ mentions sf := by
  obtain ⟨before, kind, after, split, binds, -⟩ := last
  exact List.mem_filterMap.mpr ⟨kind, by simp [split], specifier_of_binding binds⟩

theorem memberNeed_eq_some {sf : Node} {kind : Kind} {u : String × Use} :
    kind.memberNeed (namespaceLocals sf) = some u ↔
      ∃ object name, kind = .propertyAccessExpression (some object) name ∧
        BindsLast sf.kinds object u.1 ∧ u.2 = .name name := by
  rw [Kind.memberNeed.eq_def]
  split
  next object name =>
    obtain ⟨spec, use⟩ := u
    simp only [Option.map_eq_some_iff, get_namespaceLocals, Prod.mk.injEq,
      Kind.propertyAccessExpression.injEq, Option.some.injEq]
    constructor
    · rintro ⟨_, last, rfl, rfl⟩
      exact ⟨object, name, ⟨rfl, rfl⟩, last, rfl⟩
    · rintro ⟨_, _, ⟨rfl, rfl⟩, last, rfl⟩
      exact ⟨spec, last, rfl, rfl⟩
  next other =>
    refine iff_of_false (by simp) ?_
    rintro ⟨object, name, rfl, -⟩
    exact other object name rfl

theorem addAll_fileNeeds (sf : Node) (s : OrdSet String) :
    s.addAll ((fileNeeds sf).map Prod.fst) = s.addAll (mentions sf) := by
  rw [fileNeeds, List.map_append, OrdSet.addAll_append, addAll_needs]
  refine OrdSet.addAll_of_subset fun spec isMember => OrdSet.mem_addAll.mpr (Or.inr ?_)
  obtain ⟨u, isNeed, rfl⟩ := List.mem_map.mp isMember
  obtain ⟨kind, -, recorded⟩ := List.mem_filterMap.mp isNeed
  obtain ⟨_, _, _, last, _⟩ := memberNeed_eq_some.mp recorded
  exact last.mem_mentions

theorem keys_collectAll (files : List Node) : (collectAll files).keys = referenced files := by
  have fold : ∀ s : OrdSet String,
      s.addAll ((files.flatMap fileNeeds).map Prod.fst) = s.addAll (files.flatMap mentions) := by
    induction files with
    | nil => exact fun _ => rfl
    | cons sf files ih =>
        intro s
        rw [List.flatMap_cons, List.map_append, OrdSet.addAll_append, addAll_fileNeeds, ih,
          List.flatMap_cons, OrdSet.addAll_append]
  rw [collectAll_eq, keys_needAll, fold]
  rfl

/-- The forms of a reference to a module. -/
theorem specifier_eq_some {kind : Kind} {spec : String} (is : kind.specifier = some spec) :
    isOpenclaw spec = true ∧
      ((∃ clause, kind = .importDeclaration (some spec) clause) ∨
        (∃ clause, kind = .exportDeclaration (some spec) clause) ∨
        (∃ qualifier, kind = .importType (some spec) qualifier) ∨
        ∃ arguments, kind = .callExpression true (some spec :: arguments)) := by
  rw [Kind.specifier.eq_def] at is
  split at is
  case h_5 => cases is
  all_goals
    obtain ⟨openclaw, same⟩ := Option.ite_none_right_eq_some.mp is
    cases same
    exact ⟨openclaw, by simp⟩

theorem mem_referenced {files : List Node} {spec : String} :
    spec ∈ (referenced files).items ↔ ∃ sf ∈ files, spec ∈ mentions sf := by
  rw [OrdSet.mem_items, referenced, OrdSet.mem_addAll, List.mem_flatMap]
  exact or_iff_right (OrdSet.notMem_empty spec)

theorem isOpenclaw_of_referenced {files : List Node} {spec : String}
    (there : spec ∈ referenced files) : isOpenclaw spec = true := by
  obtain ⟨sf, -, inFile⟩ := mem_referenced.mp there
  obtain ⟨kind, -, is⟩ := mem_mentions.mp inFile
  exact (specifier_eq_some is).1

theorem map_fst_collectAll (files : List Node) :
    (collectAll files).entries.map Prod.fst = (referenced files).items :=
  congrArg OrdSet.items (keys_collectAll files)

theorem exists_needs {files : List Node} {spec : String} (there : spec ∈ (referenced files).items) :
    ∃ m, (collectAll files).get spec = some m := by
  rw [← map_fst_collectAll] at there
  obtain ⟨⟨spec, m⟩, isEntry, rfl⟩ := List.mem_map.mp there
  exact ⟨m, OrdMap.get_eq_some.mpr isEntry⟩

theorem referenced_of_get {files : List Node} {spec : String} {m : ModuleNeeds}
    (found : (collectAll files).get spec = some m) : spec ∈ (referenced files).items := by
  rw [← map_fst_collectAll]
  exact List.mem_map_of_mem (OrdMap.get_eq_some.mp found)

theorem isOpenclaw_of_mem_collectAll {files : List Node} {entry : String × ModuleNeeds}
    (there : entry ∈ (collectAll files).entries) : isOpenclaw entry.1 = true := by
  have isKey : entry.1 ∈ (referenced files).items :=
    map_fst_collectAll files ▸ List.mem_map_of_mem there
  exact isOpenclaw_of_referenced isKey

/-! ## The names imported -/

/-- A file uses a name of a module: it imports or re-exports it under any local name, takes it
from an import type, or reads it from the module's namespace. -/
inductive Named (sf : Node) : String → String → Prop
  | imported {spec : String} {name : Option String} {elements : List ElementSpecifier}
      {el : ElementSpecifier}
      (there : .importDeclaration (some spec) (some ⟨name, some (.namedImports elements)⟩) ∈
        sf.kinds)
      (isElement : el ∈ elements) : Named sf spec el.original
  | reexported {spec : String} {elements : List ElementSpecifier} {el : ElementSpecifier}
      (there : .exportDeclaration (some spec) (some (.namedExports elements)) ∈ sf.kinds)
      (isElement : el ∈ elements) : Named sf spec el.original
  | importType {spec : String} {qualifier : EntityName}
      (there : .importType (some spec) (some qualifier) ∈ sf.kinds) :
      Named sf spec qualifier.leftmost
  | member {spec object name : String} (binds : BindsLast sf.kinds object spec)
      (there : .propertyAccessExpression (some object) name ∈ sf.kinds) : Named sf spec name

def DefaultImported (sf : Node) (spec : String) : Prop :=
  ∃ clause : ImportClause,
    clause.name.isSome ∧ .importDeclaration (some spec) (some clause) ∈ sf.kinds

theorem name_mem_uses {clause : ImportClause} {name : String} :
    .name name ∈ clause.uses ↔
      ∃ elements, clause.namedBindings = some (.namedImports elements) ∧
        ∃ el ∈ elements, el.original = name := by
  obtain ⟨default, bindings⟩ := clause
  rw [ImportClause.uses]
  rcases bindings with _ | (local_ | elements) <;> cases default <;> simp

theorem needsDefault_mem_uses {clause : ImportClause} :
    .needsDefault ∈ clause.uses ↔ clause.name.isSome := by
  obtain ⟨default, bindings⟩ := clause
  rw [ImportClause.uses]
  rcases bindings with _ | (local_ | elements) <;> cases default <;> simp

theorem mem_fileNeeds {sf : Node} {spec : String} {use : Use} (isUse : use ≠ .reference) :
    (∃ u ∈ fileNeeds sf, spec = u.1 ∧ (use = u.2 ∨ use = .reference)) ↔
      (∃ kind ∈ sf.kinds, kind.specifier = some spec ∧ use ∈ kind.uses) ∨
        ∃ object name, use = .name name ∧ BindsLast sf.kinds object spec ∧
          .propertyAccessExpression (some object) name ∈ sf.kinds := by
  constructor
  · rintro ⟨u, there, rfl, rfl | same⟩
    · rcases List.mem_append.mp there with first | second
      · obtain ⟨kind, isKind, recorded⟩ := List.mem_flatMap.mp first
        rw [Kind.needs] at recorded
        cases found : kind.specifier with
        | none => simp [found] at recorded
        | some spec =>
            rw [found] at recorded
            rcases List.mem_cons.mp recorded with rfl | recorded
            · exact absurd rfl isUse
            · obtain ⟨use, inUses, rfl⟩ := List.mem_map.mp recorded
              exact Or.inl ⟨kind, isKind, found, inUses⟩
      · obtain ⟨kind, isKind, recorded⟩ := List.mem_filterMap.mp second
        obtain ⟨object, name, rfl, last, same⟩ := memberNeed_eq_some.mp recorded
        exact Or.inr ⟨object, name, same, last, isKind⟩
    · exact absurd same isUse
  · rintro (⟨kind, isKind, found, isUse⟩ | ⟨object, name, rfl, last, isKind⟩)
    · refine ⟨(spec, use), List.mem_append_left _ (List.mem_flatMap.mpr ⟨kind, isKind, ?_⟩), rfl,
        Or.inl rfl⟩
      rw [Kind.needs, found]
      exact List.mem_cons_of_mem _ (List.mem_map.mpr ⟨use, isUse, rfl⟩)
    · refine ⟨(spec, .name name), List.mem_append_right _ (List.mem_filterMap.mpr ⟨_, isKind, ?_⟩),
        rfl, Or.inl rfl⟩
      exact memberNeed_eq_some.mpr ⟨object, name, rfl, last, rfl⟩

theorem name_mem_kind_uses {sf : Node} {spec name : String} (openclaw : isOpenclaw spec = true) :
    (∃ kind ∈ sf.kinds, kind.specifier = some spec ∧ .name name ∈ kind.uses) ∨
        (∃ object, BindsLast sf.kinds object spec ∧
          .propertyAccessExpression (some object) name ∈ sf.kinds) ↔ Named sf spec name := by
  constructor
  · rintro (⟨kind, isKind, found, isUse⟩ | ⟨object, last, isKind⟩)
    · obtain ⟨-, ⟨clause, rfl⟩ | ⟨clause, rfl⟩ | ⟨qualifier, rfl⟩ | ⟨arguments, rfl⟩⟩ :=
        specifier_eq_some found
      · obtain _ | clause := clause
        · cases isUse
        · obtain ⟨elements, isNamed, el, isElement, rfl⟩ := name_mem_uses.mp isUse
          obtain ⟨default, bindings⟩ := clause
          cases isNamed
          exact .imported isKind isElement
      · obtain _ | (aliased | elements) := clause
        · simp [Kind.uses] at isUse
        · cases isUse
        · obtain ⟨el, isElement, same⟩ := List.mem_map.mp isUse
          cases same
          exact .reexported isKind isElement
      · obtain _ | qualifier := qualifier
        · cases isUse
        · cases List.mem_singleton.mp isUse
          exact .importType isKind
      · cases isUse
    · exact .member last isKind
  · rintro (⟨there, isElement⟩ | ⟨there, isElement⟩ | there | ⟨binds, there⟩)
    · refine Or.inl ⟨_, there, if_pos openclaw, ?_⟩
      exact name_mem_uses.mpr ⟨_, rfl, _, isElement, rfl⟩
    · exact Or.inl ⟨_, there, if_pos openclaw, List.mem_map.mpr ⟨_, isElement, rfl⟩⟩
    · exact Or.inl ⟨_, there, if_pos openclaw, List.mem_singleton.mpr rfl⟩
    · exact Or.inr ⟨_, binds, there⟩

theorem needsDefault_mem_kind_uses {sf : Node} {spec : String} (openclaw : isOpenclaw spec = true) :
    (∃ kind ∈ sf.kinds, kind.specifier = some spec ∧ .needsDefault ∈ kind.uses) ↔
      DefaultImported sf spec := by
  constructor
  · rintro ⟨kind, isKind, found, isUse⟩
    obtain ⟨-, ⟨clause, rfl⟩ | ⟨clause, rfl⟩ | ⟨qualifier, rfl⟩ | ⟨arguments, rfl⟩⟩ :=
      specifier_eq_some found
    · obtain _ | clause := clause
      · cases isUse
      · exact ⟨clause, needsDefault_mem_uses.mp isUse, isKind⟩
    · obtain _ | (aliased | elements) := clause <;> simp [Kind.uses] at isUse
    · obtain _ | qualifier := qualifier <;> simp [Kind.uses] at isUse
    · cases isUse
  · rintro ⟨clause, named, there⟩
    exact ⟨_, there, if_pos openclaw, needsDefault_mem_uses.mpr named⟩

theorem asks_collectAll {files : List Node} {spec : String} {use : Use} (isUse : use ≠ .reference) :
    Asks (collectAll files) spec use ↔
      ∃ sf ∈ files, (∃ kind ∈ sf.kinds, kind.specifier = some spec ∧ use ∈ kind.uses) ∨
        ∃ object name, use = .name name ∧ BindsLast sf.kinds object spec ∧
          .propertyAccessExpression (some object) name ∈ sf.kinds := by
  have notBefore : ¬ Asks .empty spec use := by
    rintro ⟨m, found, -⟩
    cases found
  rw [collectAll_eq, asks_needAll, or_iff_right notBefore]
  simp only [← mem_fileNeeds isUse, List.mem_flatMap]
  constructor
  · rintro ⟨u, ⟨sf, isFile, there⟩, isNeed⟩
    exact ⟨sf, isFile, u, there, isNeed⟩
  · rintro ⟨sf, isFile, u, there, isNeed⟩
    exact ⟨u, ⟨sf, isFile, there⟩, isNeed⟩

/-- The needs of a referenced module hold the names that some file uses of it. -/
theorem mem_names_collectAll {files : List Node} {spec : String} {m : ModuleNeeds}
    (openclaw : isOpenclaw spec = true) (found : (collectAll files).get spec = some m)
    {name : String} : name ∈ m.names ↔ ∃ sf ∈ files, Named sf spec name := by
  have asks : Asks (collectAll files) spec (.name name) ↔ name ∈ m.names := by
    simp [Asks, found, ModuleNeeds.Has]
  rw [← asks, asks_collectAll (by simp)]
  refine exists_congr fun sf => and_congr_right fun _ => ?_
  rw [← name_mem_kind_uses openclaw]
  simp

/-- The default is needed of a referenced module when some file imports it. -/
theorem needsDefault_collectAll {files : List Node} {spec : String} {m : ModuleNeeds}
    (openclaw : isOpenclaw spec = true) (found : (collectAll files).get spec = some m) :
    m.needsDefault = true ↔ ∃ sf ∈ files, DefaultImported sf spec := by
  have asks : Asks (collectAll files) spec .needsDefault ↔ m.needsDefault = true := by
    simp [Asks, found, ModuleNeeds.Has]
  rw [← asks, asks_collectAll (by simp)]
  refine exists_congr fun sf => and_congr_right fun _ => ?_
  rw [← needsDefault_mem_kind_uses openclaw]
  simp

end NestifyClaw.Adapter
