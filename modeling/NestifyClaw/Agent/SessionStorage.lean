import NestifyClaw.Agent.Messages
import NestifyClaw.Lineage
import Mathlib.Logic.Function.Basic

/-!
# The storage of a session

A session is kept as the list of its entries, which only grows.  Each entry names its parent, and
the storage keeps indexes beside the list: the entries by their names, the labels, and the leaf of
the branch that is shown.

`Kept` says that the entries form a tree kept as a log and that the indexes are those of the
entries.  A storage that is kept stays so when an entry is added that may be (`Kept.recordEntry`),
is what opening its entries gives (`Kept.construct`), and finds the path to every entry
(`Kept.getPathToRoot`).
-/

namespace NestifyClaw.Agent

/-- The fields of an entry that belong to its type. -/
inductive EntryBody
  | message (message : AgentMessage)
  | thinkingLevelChange (thinkingLevel : String)
  | modelChange (provider modelId : String)
  | compaction (summary firstKeptEntryId : String) (tokensBefore : Nat) (details : Option Json)
      (fromHook : Option Bool)
  | branchSummary (fromId summary : String) (details : Option Json) (fromHook : Option Bool)
  | custom (customType : String) (data : Option Json)
  | customMessage (customType : String) (content : Content) (display : Bool) (details : Option Json)
  | label (targetId : String) (label : Option String)
  | sessionInfo (name : Option String)
  | leaf (targetId : Option String)

structure SessionTreeEntry where
  id : String
  parentId : Option String
  timestamp : Timestamp
  body : EntryBody

inductive SessionErrorCode
  | notFound
  | invalidSession
  | invalidEntry
  | invalidForkTarget
  | storage
  | unknown
  deriving DecidableEq

structure SessionError where
  code : SessionErrorCode
  message : String

def SessionError.entryNotFound (code : SessionErrorCode) (id : String) : SessionError where
  code := code
  message := "Entry " ++ id ++ " not found"

/-- White space and line terminators. -/
def isWhiteSpace (c : Char) : Bool :=
  (9 ≤ c.toNat && c.toNat ≤ 13) || c.toNat == 0x20 || c.toNat == 0xa0 || c.toNat == 0x1680 ||
    (0x2000 ≤ c.toNat && c.toNat ≤ 0x200a) || c.toNat == 0x2028 || c.toNat == 0x2029 ||
    c.toNat == 0x202f || c.toNat == 0x205f || c.toNat == 0x3000 || c.toNat == 0xfeff

def trim (s : String) : String :=
  String.ofList ((s.toList.dropWhile isWhiteSpace).reverse.dropWhile isWhiteSpace).reverse

/-! ## The functions of the storage -/

structure SessionStorage where
  entries : List SessionTreeEntry
  byId : String → Option SessionTreeEntry
  labelsById : String → Option String
  leafId : Option String

/-- A label of nothing but white space clears the label. -/
def updateLabelCache (labelsById : String → Option String) (entry : SessionTreeEntry) :
    String → Option String :=
  match entry.body with
  | .label targetId label =>
      let trimmed := label.map trim
      Function.update labelsById targetId (if trimmed = some "" then none else trimmed)
  | _ => labelsById

def buildLabelsById (entries : List SessionTreeEntry) : String → Option String :=
  entries.foldl updateLabelCache fun _ => none

/-- `new Map(entries.map((entry) => [entry.id, entry]))` -/
def buildById (entries : List SessionTreeEntry) : String → Option SessionTreeEntry :=
  entries.foldl (fun byId entry => Function.update byId entry.id (some entry)) fun _ => none

def leafIdAfterEntry (entry : SessionTreeEntry) : Option String :=
  match entry.body with
  | .leaf targetId => targetId
  | _ => some entry.id

def resolveLeafId (entries : List SessionTreeEntry) : Option String :=
  entries.foldl (fun _ entry => leafIdAfterEntry entry) none

/-- A name that is given is the name of an entry. -/
def checkEntryId (byId : String → Option SessionTreeEntry) (code : SessionErrorCode)
    (id : Option String) : Except SessionError (Option String) :=
  match id with
  | none => .ok none
  | some id =>
      if (byId id).isSome then .ok (some id) else .error (SessionError.entryNotFound code id)

namespace SessionStorage

/-- The constructor of `BaseSessionStorage`. -/
def construct (entries : List SessionTreeEntry) (leafId : Option String) :
    Except SessionError SessionStorage :=
  let storage : SessionStorage :=
    { entries, byId := buildById entries, labelsById := buildLabelsById entries, leafId }
  (checkEntryId storage.byId .invalidSession leafId).map fun _ => storage

def empty : SessionStorage where
  entries := []
  byId := buildById []
  labelsById := buildLabelsById []
  leafId := none

def getLeafId (storage : SessionStorage) : Except SessionError (Option String) :=
  checkEntryId storage.byId .invalidSession storage.leafId

/-- The entry for a new leaf, but for its identifier and time. -/
def createLeafEntry (storage : SessionStorage) (leafId : Option String) (id : String)
    (timestamp : Timestamp) : Except SessionError SessionTreeEntry :=
  (checkEntryId storage.byId .notFound leafId).map fun targetId =>
    { id, parentId := storage.leafId, timestamp, body := .leaf targetId }

def recordEntry (storage : SessionStorage) (entry : SessionTreeEntry) : SessionStorage where
  entries := storage.entries ++ [entry]
  byId := Function.update storage.byId entry.id (some entry)
  labelsById := updateLabelCache storage.labelsById entry
  leafId := leafIdAfterEntry entry

def getEntry (storage : SessionStorage) (id : String) : Option SessionTreeEntry := storage.byId id

def getLabel (storage : SessionStorage) (id : String) : Option String := storage.labelsById id

/-- The loop from an entry up to a root; `path` is what lies below.  `none` is a walk that has not
ended within the fuel. -/
def climb (byId : String → Option SessionTreeEntry) :
    Nat → SessionTreeEntry → List SessionTreeEntry →
      Option (Except SessionError (List SessionTreeEntry))
  | 0, _, _ => none
  | fuel + 1, current, path =>
      match current.parentId with
      | none => some (.ok (current :: path))
      | some parentId =>
          -- an empty name counts as none
          if parentId = "" then some (.ok (current :: path))
          else
            match byId parentId with
            | none => some (.error (SessionError.entryNotFound .invalidSession parentId))
            | some parent => climb byId fuel parent (current :: path)

/-- A walk of more steps than there are entries has come back to one and never ends: `none`. -/
def getPathToRoot (storage : SessionStorage) (leafId : Option String) :
    Option (Except SessionError (List SessionTreeEntry)) :=
  match leafId with
  | none => some (.ok [])
  | some leafId =>
      match storage.byId leafId with
      | none => some (.error (SessionError.entryNotFound .notFound leafId))
      | some current => climb storage.byId storage.entries.length current []

end SessionStorage

/-- `entryId` and `position` of `getEntriesToFork`. -/
inductive ForkPosition
  | before
  | at
  deriving DecidableEq

def isUserMessage (entry : SessionTreeEntry) : Bool :=
  match entry.body with
  | .message (.user _) => true
  | _ => false

def getEntriesToFork (storage : SessionStorage) (entryId : Option String)
    (position : Option ForkPosition) : Option (Except SessionError (List SessionTreeEntry)) :=
  match entryId with
  | none => some (.ok storage.entries)
  | some entryId =>
      if entryId = "" then some (.ok storage.entries)
      else
        match storage.getEntry entryId with
        | none => some (.error (SessionError.entryNotFound .invalidForkTarget entryId))
        | some target =>
            if position.getD .before = .at then storage.getPathToRoot (some target.id)
            else if isUserMessage target then storage.getPathToRoot target.parentId
            else some (.error
              { code := .invalidForkTarget
                message := "Entry " ++ entryId ++ " is not a user message" })

/-! ## Kept storages -/

/-- How entries are linked. -/
def entryLinks : Links SessionTreeEntry String := ⟨SessionTreeEntry.id, SessionTreeEntry.parentId⟩

abbrev entryIds (entries : List SessionTreeEntry) : List String := entryLinks.ids entries

/-- The path to an entry, as the tree has it. -/
abbrev pathTo (entries : List SessionTreeEntry) (id : Option String) : List SessionTreeEntry :=
  entryLinks.above entries id

theorem entryIds_concat (entries : List SessionTreeEntry) (entry : SessionTreeEntry) :
    entryIds (entries ++ [entry]) = entryIds entries ++ [entry.id] := Links.ids_append

theorem mem_entryIds {entries : List SessionTreeEntry} {id : String} :
    id ∈ entryIds entries ↔ ∃ entry ∈ entries, entry.id = id := Links.mem_ids

/-- The entry may be added to these. -/
structure Addable (entries : List SessionTreeEntry) (entry : SessionTreeEntry) : Prop where
  named : entry.id ≠ ""
  fresh : entry.id ∉ entryIds entries
  parent : ∀ p, entry.parentId = some p → p ∈ entryIds entries
  target : ∀ t, entry.body = .leaf (some t) → t ∈ entryIds entries

/-- The entries of a tree that grew by entries that might be added. -/
inductive Grown : List SessionTreeEntry → Prop
  | nil : Grown []
  | snoc {entries : List SessionTreeEntry} {entry : SessionTreeEntry} (grown : Grown entries)
      (addable : Addable entries entry) : Grown (entries ++ [entry])

theorem Grown.rooted {entries : List SessionTreeEntry} (grown : Grown entries) :
    entryLinks.Rooted entries := by
  induction grown with
  | nil => exact .nil
  | snoc _ addable ih => exact .snoc ih addable.fresh addable.parent

theorem Grown.named {entries : List SessionTreeEntry} (grown : Grown entries) :
    "" ∉ entryIds entries := by
  induction grown with
  | nil => simp [Links.ids]
  | snoc _ addable ih =>
      rw [entryIds_concat, List.mem_append, not_or]
      exact ⟨ih, fun same => addable.named (List.mem_singleton.mp same).symm⟩

/-- Entries were added, each behind a path to which it may be added. -/
inductive GrownBy (P : List SessionTreeEntry → SessionTreeEntry → Prop)
    (entries : List SessionTreeEntry) : List SessionTreeEntry → Prop
  | refl : GrownBy P entries entries
  | add {entries' : List SessionTreeEntry} {entry : SessionTreeEntry}
      (grown : GrownBy P entries entries') (may : P (pathTo entries' entry.parentId) entry) :
      GrownBy P entries (entries' ++ [entry])

namespace GrownBy

variable {P P' : List SessionTreeEntry → SessionTreeEntry → Prop}
  {entries entries' entries'' : List SessionTreeEntry}

theorem mono (grown : GrownBy P entries entries')
    (weaker : ∀ path entry, P path entry → P' path entry) : GrownBy P' entries entries' := by
  induction grown with
  | refl => exact .refl
  | add _ may ih => exact .add ih (weaker _ _ may)

theorem trans (first : GrownBy P entries entries') (rest : GrownBy P entries' entries'') :
    GrownBy P entries entries'' := by
  induction rest with
  | refl => exact first
  | add _ may ih => exact .add ih may

end GrownBy

/-- Something that holds of the path to every entry, and of the empty path. -/
structure AllPaths (Q : List SessionTreeEntry → Prop) (entries : List SessionTreeEntry) : Prop where
  nil : Q []
  path : ∀ id ∈ entryIds entries, Q (pathTo entries (some id))

theorem AllPaths.pathTo {Q : List SessionTreeEntry → Prop} {entries : List SessionTreeEntry}
    (all : AllPaths Q entries) (id : Option String) : Q (pathTo entries id) := by
  cases id with
  | none => exact all.nil
  | some id =>
      by_cases there : id ∈ entryIds entries
      · exact all.path id there
      · rw [Agent.pathTo, Links.above, Links.lineage_eq_nil_of_notMem there]
        exact all.nil

/-- The indexes are those of the entries, and these grew as they may. -/
structure Kept (storage : SessionStorage) : Prop where
  grown : Grown storage.entries
  byId : storage.byId = buildById storage.entries
  labelsById : storage.labelsById = buildLabelsById storage.entries
  leafId : storage.leafId = resolveLeafId storage.entries

theorem resolveLeafId_concat (entries : List SessionTreeEntry) (entry : SessionTreeEntry) :
    resolveLeafId (entries ++ [entry]) = leafIdAfterEntry entry :=
  List.foldl_concat ..

theorem buildById_concat (entries : List SessionTreeEntry) (entry : SessionTreeEntry) :
    buildById (entries ++ [entry]) = Function.update (buildById entries) entry.id (some entry) :=
  List.foldl_concat ..

theorem buildLabelsById_concat (entries : List SessionTreeEntry) (entry : SessionTreeEntry) :
    buildLabelsById (entries ++ [entry]) = updateLabelCache (buildLabelsById entries) entry :=
  List.foldl_concat ..

theorem isSome_buildById {entries : List SessionTreeEntry} {id : String} :
    (buildById entries id).isSome = true ↔ id ∈ entryIds entries := by
  induction entries using List.reverseRecOn with
  | nil => simp [buildById, Links.ids]
  | append_singleton entries entry ih =>
      rw [buildById_concat, entryIds_concat, List.mem_append, ← ih, List.mem_singleton]
      by_cases same : id = entry.id
      · simp [same]
      · simp [same]

/-- An entry is found under its name. -/
theorem buildById_of_mem {entries : List SessionTreeEntry} (grown : Grown entries)
    {entry : SessionTreeEntry} (there : entry ∈ entries) :
    buildById entries entry.id = some entry := by
  induction grown with
  | nil => cases there
  | @snoc entries new grown addable ih =>
      rw [buildById_concat]
      rcases List.mem_append.mp there with inOld | isNew
      · rw [Function.update_of_ne, ih inOld]
        intro same
        exact addable.fresh (same ▸ mem_entryIds.mpr ⟨entry, inOld, rfl⟩)
      · rw [List.mem_singleton.mp isNew, Function.update_self]

theorem mem_of_buildById {entries : List SessionTreeEntry} {id : String} {entry : SessionTreeEntry}
    (found : buildById entries id = some entry) : entry ∈ entries ∧ entry.id = id := by
  induction entries using List.reverseRecOn with
  | nil => cases found
  | append_singleton entries new ih =>
      rw [buildById_concat] at found
      by_cases same : id = new.id
      · subst same
        rw [Function.update_self] at found
        cases found
        exact ⟨List.mem_append_right _ List.mem_cons_self, rfl⟩
      · rw [Function.update_of_ne same] at found
        exact (ih found).imp_left (List.mem_append_left _)

/-- The leaf is an entry. -/
theorem Grown.leafId {entries : List SessionTreeEntry} (grown : Grown entries) {id : String}
    (isLeaf : resolveLeafId entries = some id) : id ∈ entryIds entries := by
  cases grown with
  | nil => cases isLeaf
  | @snoc entries entry _ addable =>
      rw [resolveLeafId_concat, leafIdAfterEntry] at isLeaf
      rw [entryIds_concat, List.mem_append]
      split at isLeaf
      · rename_i targetId isBody
        exact Or.inl (addable.target id (isLeaf ▸ isBody))
      · cases isLeaf
        exact Or.inr (List.mem_singleton.mpr rfl)

namespace Kept

variable {storage : SessionStorage}

theorem empty : Kept SessionStorage.empty := ⟨.nil, rfl, rfl, rfl⟩

theorem recordEntry (kept : Kept storage) {entry : SessionTreeEntry}
    (addable : Addable storage.entries entry) : Kept (storage.recordEntry entry) where
  grown := .snoc kept.grown addable
  byId := by
    rw [SessionStorage.recordEntry, buildById_concat, kept.byId]
  labelsById := by
    rw [SessionStorage.recordEntry, buildLabelsById_concat, kept.labelsById]
  leafId := (resolveLeafId_concat ..).symm

theorem isSome_byId (kept : Kept storage) {id : String} :
    (storage.byId id).isSome = true ↔ id ∈ entryIds storage.entries := by
  rw [kept.byId, isSome_buildById]

/-- The names that stand for an entry. -/
theorem checkEntryId (kept : Kept storage) {code : SessionErrorCode} {id : Option String}
    (known : ∀ k, id = some k → k ∈ entryIds storage.entries) :
    Agent.checkEntryId storage.byId code id = .ok id := by
  cases id with
  | none => rfl
  | some id => rw [Agent.checkEntryId, if_pos (kept.isSome_byId.mpr (known id rfl))]

theorem known_of_checkEntryId (kept : Kept storage) {code : SessionErrorCode}
    {id id' : Option String} (checked : Agent.checkEntryId storage.byId code id = .ok id') :
    id' = id ∧ ∀ k, id = some k → k ∈ entryIds storage.entries := by
  cases id with
  | none =>
      cases checked
      exact ⟨rfl, fun k same => by cases same⟩
  | some id =>
      rw [Agent.checkEntryId] at checked
      split at checked
      · rename_i there
        cases checked
        refine ⟨rfl, fun k same => ?_⟩
        cases same
        exact kept.isSome_byId.mp there
      · cases checked

theorem unknown_of_checkEntryId (kept : Kept storage) {code : SessionErrorCode}
    {id : Option String} {error : SessionError}
    (checked : Agent.checkEntryId storage.byId code id = .error error) :
    ∃ k, id = some k ∧ k ∉ entryIds storage.entries ∧ error = SessionError.entryNotFound code k := by
  cases id with
  | none => cases checked
  | some id =>
      rw [Agent.checkEntryId] at checked
      split at checked
      · cases checked
      · rename_i unknown
        cases checked
        exact ⟨id, rfl, fun there => unknown (kept.isSome_byId.mpr there), rfl⟩

theorem knownLeaf (kept : Kept storage) :
    ∀ k, storage.leafId = some k → k ∈ entryIds storage.entries :=
  fun _ isLeaf => kept.grown.leafId (kept.leafId ▸ isLeaf)

theorem getLeafId (kept : Kept storage) : storage.getLeafId = .ok storage.leafId :=
  kept.checkEntryId kept.knownLeaf

/-- Opening the entries gives the storage back. -/
theorem construct (kept : Kept storage) :
    SessionStorage.construct storage.entries (resolveLeafId storage.entries) = .ok storage := by
  have leaf : Agent.checkEntryId (buildById storage.entries) .invalidSession storage.leafId =
      .ok storage.leafId := kept.byId ▸ kept.getLeafId
  have same : storage = ⟨storage.entries, buildById storage.entries,
      buildLabelsById storage.entries, storage.leafId⟩ := by
    rw [← kept.byId, ← kept.labelsById]
  rw [SessionStorage.construct, ← kept.leafId]
  simp only [leaf, Except.map]
  rw [← same]

theorem climb (kept : Kept storage) {fuel : Nat} {entry : SessionTreeEntry}
    {below : List SessionTreeEntry} (there : entry ∈ storage.entries)
    (enough : (entryLinks.lineage storage.entries entry.id).length ≤ fuel) :
    SessionStorage.climb storage.byId fuel entry below =
      some (.ok (entryLinks.lineage storage.entries entry.id ++ below)) := by
  have rooted := kept.grown.rooted
  induction fuel generalizing entry below with
  | zero =>
      have own := rooted.lineage_eq there
      rw [show entryLinks.id entry = entry.id from rfl] at own
      simp [own] at enough
  | succ fuel ih =>
      have own := rooted.lineage_eq there
      rw [show entryLinks.id entry = entry.id from rfl] at own
      rw [own, List.length_append] at enough
      rw [SessionStorage.climb, own]
      cases parent : entry.parentId with
      | none =>
          rw [show entryLinks.parent entry = none from parent]
          rfl
      | some p =>
          rw [show entryLinks.parent entry = some p from parent] at enough ⊢
          have known : p ∈ entryIds storage.entries := rooted.parent_known there parent
          obtain ⟨above, isEntry, rfl⟩ := mem_entryIds.mp known
          have notEmpty : above.id ≠ "" := fun isEmpty => kept.grown.named (isEmpty ▸ known)
          have found : storage.byId above.id = some above :=
            kept.byId ▸ buildById_of_mem kept.grown isEntry
          simp only at enough ⊢
          rw [if_neg notEmpty, found]
          rw [show entryLinks.above storage.entries (some above.id) =
            entryLinks.lineage storage.entries above.id from rfl] at enough ⊢
          rw [List.append_assoc]
          exact ih isEntry (Nat.le_of_succ_le_succ enough)

/-- The path to an entry is the one of the tree. -/
theorem getPathToRoot (kept : Kept storage) {id : Option String}
    (known : ∀ k, id = some k → k ∈ entryIds storage.entries) :
    storage.getPathToRoot id = some (.ok (pathTo storage.entries id)) := by
  cases id with
  | none => rfl
  | some id =>
      obtain ⟨entry, isEntry, rfl⟩ := mem_entryIds.mp (known id rfl)
      have found : storage.byId entry.id = some entry :=
        kept.byId ▸ buildById_of_mem kept.grown isEntry
      rw [SessionStorage.getPathToRoot]
      simp only [found]
      rw [kept.climb isEntry Links.lineage_sublist.length_le, List.append_nil]
      rfl

end Kept

/-! ## Paths -/

def SessionTreeEntry.isLeaf (entry : SessionTreeEntry) : Bool :=
  match entry.body with
  | .leaf _ => true
  | _ => false

theorem leafIdAfterEntry_of_not_leaf {entry : SessionTreeEntry} (noLeaf : entry.isLeaf = false) :
    leafIdAfterEntry entry = some entry.id := by
  rw [SessionTreeEntry.isLeaf] at noLeaf
  rw [leafIdAfterEntry]
  split at noLeaf
  · cases noLeaf
  · rfl

/-- A way down from a root: each entry's parent is the one before it. -/
structure IsPath (path : List SessionTreeEntry) : Prop where
  root : ∀ entry, path.head? = some entry → entry.parentId = none
  chain : path.IsChain fun entry entry' => entry'.parentId = some entry.id
  nodup : (entryIds path).Nodup

theorem isPath_pathTo {entries : List SessionTreeEntry} (grown : Grown entries)
    (id : Option String) : IsPath (pathTo entries id) := by
  cases id with
  | none =>
      refine ⟨fun entry first => ?_, List.IsChain.nil, List.nodup_nil⟩
      cases first
  | some id =>
      have rooted := grown.rooted
      exact ⟨fun entry first => rooted.parent_head?_lineage first, rooted.isChain_lineage,
        rooted.nodup_lineage⟩

theorem pathTo_concat (entries : List SessionTreeEntry) (entry : SessionTreeEntry) :
    pathTo (entries ++ [entry]) (some entry.id) = pathTo entries entry.parentId ++ [entry] := by
  rw [pathTo, Links.above, Links.lineage_concat, if_pos (by rfl)]
  rfl

/-- What holds of all paths goes on to do so where each entry that is added keeps it. -/
theorem AllPaths.grown {P : List SessionTreeEntry → SessionTreeEntry → Prop}
    {Q : List SessionTreeEntry → Prop} {entries entries' : List SessionTreeEntry}
    (all : AllPaths Q entries) (grown : Grown entries') (grownBy : GrownBy P entries entries')
    (keeps : ∀ path entry, Q path → P path entry → Q (path ++ [entry])) : AllPaths Q entries' := by
  induction grownBy with
  | refl => exact all
  | @add entries' entry _ may ih =>
      obtain ⟨before, addable⟩ : Grown entries' ∧ Addable entries' entry := by
        generalize isAll : entries' ++ [entry] = all' at grown
        cases grown with
        | nil => simp at isAll
        | snoc before addable =>
            obtain ⟨rfl, same⟩ := List.append_inj' isAll rfl
            cases same
            exact ⟨before, addable⟩
      have paths := ih before
      refine ⟨paths.nil, fun id there => ?_⟩
      rw [entryIds_concat, List.mem_append, List.mem_singleton] at there
      rcases there with old | rfl
      · rw [Agent.pathTo, Links.above, grown.rooted.lineage_append old]
        exact paths.path id old
      · rw [pathTo_concat]
        exact keeps _ _ (paths.pathTo _) may

/-- A path can be kept by itself: its entries grew one after the other, and it is the path to the
last of them. -/
theorem IsPath.grown {path : List SessionTreeEntry} (isPath : IsPath path)
    (named : ∀ entry ∈ path, entry.id ≠ "") (noLeaf : ∀ entry ∈ path, entry.isLeaf = false) :
    Grown path ∧ pathTo path (path.getLast?.map SessionTreeEntry.id) = path := by
  induction path using List.reverseRecOn with
  | nil => exact ⟨.nil, rfl⟩
  | append_singleton before entry ih =>
      obtain ⟨root, chain, nodup⟩ := isPath
      rw [List.isChain_append] at chain
      rw [entryIds_concat, List.nodup_append] at nodup
      obtain ⟨namedBefore, namedLast⟩ := List.forall_mem_append.mp named
      obtain ⟨noLeafBefore, noLeafLast⟩ := List.forall_mem_append.mp noLeaf
      have beforeRoot : ∀ first, before.head? = some first → first.parentId = none := by
        intro first isFirst
        refine root first ?_
        rw [List.head?_append, isFirst]
        rfl
      obtain ⟨grown, own⟩ := ih ⟨beforeRoot, chain.1, nodup.1⟩ namedBefore noLeafBefore
      -- the parent is the last entry before this one
      have parent : entry.parentId = before.getLast?.map SessionTreeEntry.id := by
        cases last : before.getLast? with
        | none =>
            rw [List.getLast?_eq_none_iff] at last
            subst last
            exact root entry rfl
        | some last' => exact chain.2.2 last' last entry rfl
      refine ⟨.snoc grown ⟨namedLast entry List.mem_cons_self, fun there => ?_, fun p isParent => ?_,
        fun t isTarget => ?_⟩, ?_⟩
      · exact nodup.2.2 _ there _ List.mem_cons_self rfl
      · rw [parent, Option.map_eq_some_iff] at isParent
        obtain ⟨last, isLast, rfl⟩ := isParent
        exact mem_entryIds.mpr ⟨last, List.mem_of_getLast? isLast, rfl⟩
      · have notLeaf := noLeafLast entry List.mem_cons_self
        rw [SessionTreeEntry.isLeaf, isTarget] at notLeaf
        cases notLeaf
      · rw [List.getLast?_concat, Option.map_some, pathTo_concat, parent, own]

theorem resolveLeafId_of_not_leaf {path : List SessionTreeEntry}
    (noLeaf : ∀ entry ∈ path, entry.isLeaf = false) :
    resolveLeafId path = path.getLast?.map SessionTreeEntry.id := by
  induction path using List.reverseRecOn with
  | nil => rfl
  | append_singleton before entry _ =>
      rw [resolveLeafId_concat, List.getLast?_concat]
      exact leafIdAfterEntry_of_not_leaf (noLeaf entry (by simp))

theorem IsPath.left {path before after : List SessionTreeEntry} (isPath : IsPath path)
    (split : path = before ++ after) : IsPath before := by
  subst split
  refine ⟨fun entry first => isPath.root entry ?_, (List.isChain_append.mp isPath.chain).1, ?_⟩
  · rw [List.head?_append, first]
    rfl
  · have nodup := isPath.nodup
    rw [entryIds, Links.ids_append] at nodup
    exact (List.nodup_append.mp nodup).1

/-- Adding entries to an empty storage is opening them. -/
theorem foldl_recordEntry (entries : List SessionTreeEntry) :
    entries.foldl SessionStorage.recordEntry SessionStorage.empty =
      ⟨entries, buildById entries, buildLabelsById entries, resolveLeafId entries⟩ := by
  induction entries using List.reverseRecOn with
  | nil => rfl
  | append_singleton entries entry ih =>
      rw [List.foldl_concat, ih, buildById_concat, buildLabelsById_concat, resolveLeafId_concat]
      rfl

/-- The path to an entry, kept by itself: every entry of it keeps its path. -/
theorem Kept.of_pathTo {storage : SessionStorage} (kept : Kept storage) {id : Option String}
    (noLeaf : ∀ entry ∈ pathTo storage.entries id, entry.isLeaf = false) :
    ∃ fork, SessionStorage.construct (pathTo storage.entries id)
        (resolveLeafId (pathTo storage.entries id)) = .ok fork ∧
      (pathTo storage.entries id).foldl SessionStorage.recordEntry SessionStorage.empty = fork ∧
      Kept fork ∧ fork.getPathToRoot fork.leafId = some (.ok (pathTo storage.entries id)) ∧
      ∀ entry ∈ pathTo storage.entries id,
        fork.getPathToRoot (some entry.id) = storage.getPathToRoot (some entry.id) := by
  have isPath := isPath_pathTo kept.grown id
  have isEntry : ∀ entry ∈ pathTo storage.entries id, entry ∈ storage.entries := by
    intro entry there
    cases id with
    | none => cases there
    | some id => exact Links.lineage_sublist.subset there
  have named : ∀ entry ∈ pathTo storage.entries id, entry.id ≠ "" := fun entry there isEmpty =>
    kept.grown.named (mem_entryIds.mpr ⟨entry, isEntry entry there, isEmpty⟩)
  obtain ⟨grown, own⟩ := isPath.grown named noLeaf
  have forkKept : Kept ⟨pathTo storage.entries id, buildById (pathTo storage.entries id),
      buildLabelsById (pathTo storage.entries id), resolveLeafId (pathTo storage.entries id)⟩ :=
    ⟨grown, rfl, rfl, rfl⟩
  refine ⟨_, forkKept.construct, foldl_recordEntry _, forkKept, ?_, fun entry there => ?_⟩
  · rw [forkKept.getPathToRoot forkKept.knownLeaf]
    simp only [resolveLeafId_of_not_leaf noLeaf, own]
  · rw [forkKept.getPathToRoot fun k same => by
        cases same
        exact mem_entryIds.mpr ⟨entry, there, rfl⟩,
      kept.getPathToRoot fun k same => by
        cases same
        exact mem_entryIds.mpr ⟨entry, isEntry entry there, rfl⟩]
    simp only [Option.some.injEq, Except.ok.injEq]
    obtain ⟨before, after, split⟩ := List.append_of_mem there
    rw [List.append_cons] at split
    -- both are the path up to the entry
    have inSource : pathTo storage.entries (some entry.id) = before ++ [entry] := by
      cases id with
      | none => cases there
      | some id =>
          rw [← List.append_cons] at split
          exact kept.grown.rooted.lineage_of_split split
    have upTo : ∀ e ∈ before ++ [entry], e ∈ pathTo storage.entries id :=
      fun e inPart => split ▸ List.mem_append_left _ inPart
    obtain ⟨-, ownPart⟩ := (isPath.left split).grown (fun e inPart => named e (upTo e inPart))
      fun e inPart => noLeaf e (upTo e inPart)
    rw [List.getLast?_concat, Option.map_some] at ownPart
    rw [split] at grown
    have kept' : pathTo (before ++ [entry] ++ after) (some entry.id) =
        pathTo (before ++ [entry]) (some entry.id) :=
      grown.rooted.lineage_append (mem_entryIds.mpr ⟨entry, by simp, rfl⟩)
    rw [inSource, split, kept', ownPart]

/-- What is taken is the path to the entry, or the one to the parent of a user message. -/
theorem Kept.getEntriesToFork {storage : SessionStorage} (kept : Kept storage) {entryId : String}
    (given : entryId ≠ "") {position : Option ForkPosition} {entries : List SessionTreeEntry}
    (taken : Agent.getEntriesToFork storage (some entryId) position = some (.ok entries)) :
    ∃ target ∈ storage.entries, target.id = entryId ∧ entries = pathTo storage.entries
      (if position.getD .before = .at then some entryId else target.parentId) := by
  rw [Agent.getEntriesToFork, if_neg given, SessionStorage.getEntry] at taken
  split at taken
  · cases taken
  · rename_i target found
    rw [kept.byId] at found
    obtain ⟨isEntry, rfl⟩ := mem_of_buildById found
    refine ⟨target, isEntry, rfl, ?_⟩
    split at taken
    · rename_i atEntry
      rw [kept.getPathToRoot fun k same => by
        cases same
        exact mem_entryIds.mpr ⟨target, isEntry, rfl⟩] at taken
      cases taken
      rw [if_pos atEntry]
    · rename_i beforeEntry
      split at taken
      · have known : ∀ k, target.parentId = some k → k ∈ entryIds storage.entries :=
          fun k same => kept.grown.rooted.parent_known isEntry same
        rw [kept.getPathToRoot known] at taken
        cases taken
        rw [if_neg beforeEntry]
      · cases taken

end NestifyClaw.Agent
