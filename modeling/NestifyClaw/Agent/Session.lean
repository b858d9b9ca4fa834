import NestifyClaw.Agent.SessionStorage
import NestifyClaw.Agent.Uuid

/-!
# Sessions

What may be asked of a session, one request after the other, each when the one before has been
answered, in one process.  A session shows a branch, the path to its leaf.  A request that is not
refused puts its entries behind the branch, or behind the path to the entry that it moves to, and
nothing else changes (`reached_handle`, `reached_history`).
-/

namespace NestifyClaw.Agent

structure BranchSummary where
  summary : String
  details : Option Json
  fromHook : Option Bool

/-- The storage, and how often the process has made an identifier. -/
structure Session where
  storage : SessionStorage
  calls : Nat

inductive SessionRequest
  | appendMessage (message : AgentMessage)
  | appendThinkingLevelChange (thinkingLevel : String)
  | appendModelChange (provider modelId : String)
  | appendCompaction (summary firstKeptEntryId : String) (tokensBefore : Nat)
      (details : Option Json) (fromHook : Option Bool)
  | appendCustomEntry (customType : String) (data : Option Json)
  | appendCustomMessageEntry (customType : String) (content : Content) (display : Bool)
      (details : Option Json)
  | appendLabel (targetId : String) (label : Option String)
  | appendSessionName (name : String)
  | moveTo (entryId : Option String) (summary : Option BranchSummary)

namespace Session

variable (draws : Nat → Draw)

def empty : Session := ⟨SessionStorage.empty, 0⟩

def createEntryId (s : Session) : String × Session :=
  let made := generateEntryId draws (fun id => (s.storage.byId id).isSome) s.calls
  (made.1, { s with calls := made.2 })

/-- `storage.appendEntry` -/
def appendEntry (s : Session) (entry : SessionTreeEntry) : Session :=
  { s with storage := s.storage.recordEntry entry }

/-- What the append functions have in common: a new name, the leaf as the parent, and the body. -/
def appendTypedEntry (s : Session) (timestamp : Timestamp) (body : EntryBody) :
    Except SessionError (Option String) × Session :=
  let (id, s) := s.createEntryId draws
  match s.storage.getLeafId with
  | .error error => (.error error, s)
  | .ok parentId => (.ok (some id), s.appendEntry { id, parentId, timestamp, body })

/-- `storage.setLeafId` -/
def setLeafId (s : Session) (timestamp : Timestamp) (leafId : Option String) :
    Except SessionError Unit × Session :=
  let (id, s') := s.createEntryId draws
  match s.storage.createLeafEntry leafId id timestamp with
  | .error error => (.error error, s)
  | .ok entry => (.ok (), s'.appendEntry entry)

def appendMessage (s : Session) (timestamp : Timestamp) (message : AgentMessage) :=
  s.appendTypedEntry draws timestamp (.message message)

def appendThinkingLevelChange (s : Session) (timestamp : Timestamp) (thinkingLevel : String) :=
  s.appendTypedEntry draws timestamp (.thinkingLevelChange thinkingLevel)

def appendModelChange (s : Session) (timestamp : Timestamp) (provider modelId : String) :=
  s.appendTypedEntry draws timestamp (.modelChange provider modelId)

def appendCompaction (s : Session) (timestamp : Timestamp) (summary firstKeptEntryId : String)
    (tokensBefore : Nat) (details : Option Json) (fromHook : Option Bool) :=
  s.appendTypedEntry draws timestamp
    (.compaction summary firstKeptEntryId tokensBefore details fromHook)

def appendCustomEntry (s : Session) (timestamp : Timestamp) (customType : String)
    (data : Option Json) :=
  s.appendTypedEntry draws timestamp (.custom customType data)

def appendCustomMessageEntry (s : Session) (timestamp : Timestamp) (customType : String)
    (content : Content) (display : Bool) (details : Option Json) :=
  s.appendTypedEntry draws timestamp (.customMessage customType content display details)

def appendLabel (s : Session) (timestamp : Timestamp) (targetId : String)
    (label : Option String) : Except SessionError (Option String) × Session :=
  match s.storage.getEntry targetId with
  | none => (.error (SessionError.entryNotFound .notFound targetId), s)
  | some _ => s.appendTypedEntry draws timestamp (.label targetId label)

def appendSessionName (s : Session) (timestamp : Timestamp) (name : String) :=
  s.appendTypedEntry draws timestamp (.sessionInfo (some (trim name)))

/-- The entry for a summary is put behind the entry that the session moved to. -/
def appendBranchSummary (s : Session) (timestamp : Timestamp) (entryId : Option String)
    (summary : BranchSummary) : Except SessionError (Option String) × Session :=
  let (id, s) := s.createEntryId draws
  (.ok (some id), s.appendEntry
    { id
      parentId := entryId
      timestamp
      body := .branchSummary (entryId.getD "root") summary.summary summary.details
        summary.fromHook })

def moveTo (s : Session) (timestamp : Timestamp) (entryId : Option String)
    (summary : Option BranchSummary) : Except SessionError (Option String) × Session :=
  match checkEntryId s.storage.byId .notFound entryId with
  | .error error => (.error error, s)
  | .ok _ =>
      match s.setLeafId draws timestamp entryId with
      | (.error error, s) => (.error error, s)
      | (.ok (), s) =>
          match summary with
          | none => (.ok none, s)
          | some summary => s.appendBranchSummary draws timestamp entryId summary

def handle (s : Session) (timestamp : Timestamp) :
    SessionRequest → Except SessionError (Option String) × Session
  | .appendMessage message => s.appendMessage draws timestamp message
  | .appendThinkingLevelChange level => s.appendThinkingLevelChange draws timestamp level
  | .appendModelChange provider modelId => s.appendModelChange draws timestamp provider modelId
  | .appendCompaction summary firstKeptEntryId tokensBefore details fromHook =>
      s.appendCompaction draws timestamp summary firstKeptEntryId tokensBefore details fromHook
  | .appendCustomEntry customType data => s.appendCustomEntry draws timestamp customType data
  | .appendCustomMessageEntry customType content display details =>
      s.appendCustomMessageEntry draws timestamp customType content display details
  | .appendLabel targetId label => s.appendLabel draws timestamp targetId label
  | .appendSessionName name => s.appendSessionName draws timestamp name
  | .moveTo entryId summary => s.moveTo draws timestamp entryId summary

/-- Requests with their times, one after the other. -/
def run (s : Session) (requests : List (Timestamp × SessionRequest)) : Session :=
  requests.foldl (fun s request => (s.handle draws request.1 request.2).2) s

def getBranch (s : Session) (fromId : Option String) :
    Option (Except SessionError (List SessionTreeEntry)) :=
  match fromId with
  | some id => s.storage.getPathToRoot (some id)
  | none =>
      match s.storage.getLeafId with
      | .error error => some (.error error)
      | .ok leafId => s.storage.getPathToRoot leafId

/-- The last name that was given; one of white space only counts as none. -/
def getSessionName (s : Session) : Option String :=
  let names := s.storage.entries.filterMap fun entry => match entry.body with
    | .sessionInfo name => some name
    | _ => none
  match names.getLast? with
  | some (some name) => if trim name = "" then none else some (trim name)
  | _ => none

/-! ## Invariant -/

/-- The indexes are right, and no new entry will be named like one that is there. -/
structure Sound (limit : Nat) (s : Session) : Prop where
  kept : Kept s.storage
  past : ∀ id ∈ entryIds s.storage.entries, Past draws limit s.calls id

/-- The branch that the session shows. -/
def branch (s : Session) : List SessionTreeEntry := pathTo s.storage.entries s.storage.leafId

variable {draws} {limit : Nat} {s : Session}

theorem Sound.empty : Sound draws limit Session.empty :=
  ⟨Kept.empty, fun _ there => by cases there⟩

/-- A new name, and nothing else that could be seen. -/
theorem Sound.createEntryId (fits : Fits draws limit) (sound : Sound draws limit s)
    (room : s.calls + 100 < limit) :
    Sound draws limit (s.createEntryId draws).2 ∧
      (s.createEntryId draws).2.calls ≤ s.calls + 101 ∧ (s.createEntryId draws).1 ≠ "" ∧
      (s.createEntryId draws).1 ∉ entryIds s.storage.entries ∧
      Past draws limit (s.createEntryId draws).2.calls (s.createEntryId draws).1 := by
  have taken : ∀ id, (s.storage.byId id).isSome = true → Past draws limit s.calls id :=
    fun id there => sound.past id (sound.kept.isSome_byId.mp there)
  obtain ⟨fresh, more, few, past⟩ :=
    generateEntryId_fresh fits (fun id => (s.storage.byId id).isSome) room taken
  refine ⟨⟨sound.kept, fun id there => ?_⟩, few, tryEntryIds_ne_empty _ _ _ _, ?_, past⟩
  · exact (sound.past id there).mono (Nat.le_of_lt more)
  · intro there
    have used := sound.kept.isSome_byId.mpr there
    exact Bool.false_ne_true (fresh.symm.trans used)

theorem Sound.appendEntry (sound : Sound draws limit s) {entry : SessionTreeEntry}
    (addable : Addable s.storage.entries entry) (past : Past draws limit s.calls entry.id) :
    Sound draws limit (s.appendEntry entry) where
  kept := sound.kept.recordEntry addable
  past := by
    intro id there
    rw [Session.appendEntry, SessionStorage.recordEntry, entryIds_concat, List.mem_append] at there
    rcases there with old | new
    · exact sound.past id old
    · exact List.mem_singleton.mp new ▸ past

/-- The other paths stay as they are. -/
theorem pathTo_append {entries later : List SessionTreeEntry} (grown : Grown (entries ++ later))
    {id : Option String} (known : ∀ k, id = some k → k ∈ entryIds entries) :
    pathTo (entries ++ later) id = pathTo entries id := by
  cases id with
  | none => rfl
  | some id => exact grown.rooted.lineage_append (known id rfl)

end Session

/-! ## One request -/

/-- The bodies of the entries that a request puts on the branch. -/
def SessionRequest.bodies : SessionRequest → List EntryBody
  | appendMessage message => [.message message]
  | appendThinkingLevelChange thinkingLevel => [.thinkingLevelChange thinkingLevel]
  | appendModelChange provider modelId => [.modelChange provider modelId]
  | appendCompaction summary firstKeptEntryId tokensBefore details fromHook =>
      [.compaction summary firstKeptEntryId tokensBefore details fromHook]
  | appendCustomEntry customType data => [.custom customType data]
  | appendCustomMessageEntry customType content display details =>
      [.customMessage customType content display details]
  | appendLabel targetId label => [.label targetId label]
  | appendSessionName name => [.sessionInfo (some (trim name))]
  | moveTo _ none => []
  | moveTo entryId (some summary) =>
      [.branchSummary (entryId.getD "root") summary.summary summary.details summary.fromHook]

/-- The entry that the request is about. -/
def SessionRequest.target : SessionRequest → Option String
  | appendLabel targetId _ => some targetId
  | moveTo entryId _ => entryId
  | _ => none

/-- What the entries are put behind. -/
def SessionRequest.base (s : Session) : SessionRequest → List SessionTreeEntry
  | moveTo entryId _ => pathTo s.storage.entries entryId
  | _ => s.branch

namespace Session

variable {draws : Nat → Draw} {limit : Nat} {s : Session} (timestamp : Timestamp)

/-- From one session to another in which entries with these bodies follow a path; at most so many
identifiers were made. -/
structure Follows (draws : Nat → Draw) (limit made : Nat) (s : Session)
    (base : List SessionTreeEntry) (timestamp : Timestamp) (bodies : List EntryBody)
    (s' : Session) : Prop where
  sound : Sound draws limit s'
  few : s'.calls ≤ s.calls + made
  grows : s.storage.entries <+: s'.storage.entries
  branch : ∃ added, s'.branch = base ++ added ∧ added.map SessionTreeEntry.body = bodies ∧
    ∀ entry ∈ added, entry.timestamp = timestamp
  /-- Besides its entries there is at most the one that moves the leaf. -/
  adds : GrownBy (fun path entry => entry.isLeaf = true ∨ path = base ∧ entry.body ∈ bodies)
    s.storage.entries s'.storage.entries

/-- A new entry behind an entry of the session. -/
theorem Sound.follows (fits : Fits draws limit) (sound : Sound draws limit s)
    (room : s.calls + 100 < limit) {parentId : Option String}
    (known : ∀ k, parentId = some k → k ∈ entryIds s.storage.entries) {body : EntryBody}
    (noLeaf : ∀ targetId, body ≠ .leaf targetId) :
    Follows draws limit 101 s (pathTo s.storage.entries parentId) timestamp [body]
      ((s.createEntryId draws).2.appendEntry
        ⟨(s.createEntryId draws).1, parentId, timestamp, body⟩) := by
  obtain ⟨sound', few, named, fresh, past⟩ := sound.createEntryId fits room
  refine ⟨sound'.appendEntry ⟨named, fresh, known, fun t isLeaf => absurd isLeaf (noLeaf _)⟩ past,
    few, List.prefix_append _ _, ⟨[⟨(s.createEntryId draws).1, parentId, timestamp, body⟩], ?_, rfl,
    by simp⟩, .add .refl (Or.inr ⟨rfl, List.mem_cons_self⟩)⟩
  have leaf : leafIdAfterEntry ⟨(s.createEntryId draws).1, parentId, timestamp, body⟩ =
      some (s.createEntryId draws).1 := by
    cases body with
    | leaf targetId => exact absurd rfl (noLeaf targetId)
    | _ => rfl
  rw [Session.branch, Session.appendEntry, SessionStorage.recordEntry, leaf]
  exact pathTo_concat s.storage.entries ⟨(s.createEntryId draws).1, parentId, timestamp, body⟩

theorem appendTypedEntry_law (fits : Fits draws limit) (sound : Sound draws limit s)
    (room : s.calls + 100 < limit) {body : EntryBody} (noLeaf : ∀ targetId, body ≠ .leaf targetId) :
    ∃ id s', s.appendTypedEntry draws timestamp body = (.ok id, s') ∧
      Follows draws limit 101 s s.branch timestamp [body] s' := by
  refine ⟨some (s.createEntryId draws).1, _, ?_,
    sound.follows timestamp fits room sound.kept.knownLeaf noLeaf⟩
  have leaf : (s.createEntryId draws).2.storage.getLeafId = .ok s.storage.leafId :=
    sound.kept.getLeafId
  simp only [appendTypedEntry, leaf]

theorem setLeafId_law (fits : Fits draws limit) (sound : Sound draws limit s)
    (room : s.calls + 100 < limit) {leafId : Option String}
    (known : ∀ k, leafId = some k → k ∈ entryIds s.storage.entries) :
    ∃ s', s.setLeafId draws timestamp leafId = (.ok (), s') ∧
      Follows draws limit 101 s (pathTo s.storage.entries leafId) timestamp [] s' := by
  obtain ⟨sound', few, named, fresh, past⟩ := sound.createEntryId fits room
  have addable : Addable s.storage.entries
      ⟨(s.createEntryId draws).1, s.storage.leafId, timestamp, .leaf leafId⟩ :=
    ⟨named, fresh, sound.kept.knownLeaf, fun t isLeaf => known t (EntryBody.leaf.inj isLeaf)⟩
  have after : Sound draws limit ((s.createEntryId draws).2.appendEntry
      ⟨(s.createEntryId draws).1, s.storage.leafId, timestamp, .leaf leafId⟩) :=
    sound'.appendEntry addable past
  refine ⟨_, ?_, after, few, List.prefix_append _ _, ⟨[], ?_, rfl, by simp⟩,
    .add .refl (Or.inl rfl)⟩
  · simp only [setLeafId, SessionStorage.createLeafEntry, sound.kept.checkEntryId known, Except.map]
  · rw [List.append_nil]
    exact pathTo_append after.kept.grown known

theorem appendBranchSummary_law (fits : Fits draws limit) (sound : Sound draws limit s)
    (room : s.calls + 100 < limit) {entryId : Option String}
    (known : ∀ k, entryId = some k → k ∈ entryIds s.storage.entries) (summary : BranchSummary) :
    ∃ id s', s.appendBranchSummary draws timestamp entryId summary = (.ok id, s') ∧
      Follows draws limit 101 s (pathTo s.storage.entries entryId) timestamp
        (SessionRequest.moveTo entryId (some summary)).bodies s' :=
  ⟨_, _, rfl, sound.follows timestamp fits room known (by simp)⟩

theorem mem_entryIds_grown {entries entries' : List SessionTreeEntry}
    (grows : entries <+: entries') {id : String} (there : id ∈ entryIds entries) :
    id ∈ entryIds entries' :=
  (grows.map SessionTreeEntry.id).subset there

theorem pathTo_grown {entries entries' : List SessionTreeEntry} (grown : Grown entries')
    (grows : entries <+: entries') {id : Option String}
    (known : ∀ k, id = some k → k ∈ entryIds entries) : pathTo entries' id = pathTo entries id := by
  obtain ⟨later, rfl⟩ := grows
  exact pathTo_append grown known

theorem moveTo_law (fits : Fits draws limit) (sound : Sound draws limit s)
    (room : s.calls + 201 < limit) {entryId : Option String}
    (known : ∀ k, entryId = some k → k ∈ entryIds s.storage.entries)
    (summary : Option BranchSummary) :
    ∃ id s', s.moveTo draws timestamp entryId summary = (.ok id, s') ∧
      Follows draws limit 202 s (pathTo s.storage.entries entryId) timestamp
        (SessionRequest.moveTo entryId summary).bodies s' := by
  obtain ⟨s', moved, follows⟩ := setLeafId_law timestamp fits sound (by omega) known
  have few := follows.few
  simp only [moveTo, sound.kept.checkEntryId known, moved]
  cases summary with
  | none =>
      exact ⟨none, s', rfl, follows.sound, by omega, follows.grows, follows.branch, follows.adds⟩
  | some summary =>
      have known' : ∀ k, entryId = some k → k ∈ entryIds s'.storage.entries :=
        fun k same => mem_entryIds_grown follows.grows (known k same)
      obtain ⟨id, s'', added, second⟩ :=
        appendBranchSummary_law timestamp fits follows.sound (by omega) known' summary
      have few' := second.few
      have branch := second.branch
      have adds := second.adds
      rw [pathTo_grown follows.sound.kept.grown follows.grows known] at branch adds
      refine ⟨id, s'', added, second.sound, by omega, follows.grows.trans second.grows, branch, ?_⟩
      exact (follows.adds.mono fun path entry => Or.imp_right fun isBody => by cases isBody.2).trans
        adds

variable {timestamp} in
theorem Follows.mono {made made' : Nat} {base : List SessionTreeEntry} {bodies : List EntryBody}
    {s' : Session} (follows : Follows draws limit made s base timestamp bodies s')
    (fewer : made ≤ made') : Follows draws limit made' s base timestamp bodies s' :=
  ⟨follows.sound, Nat.le_trans follows.few (Nat.add_le_add_left fewer _), follows.grows,
    follows.branch, follows.adds⟩

/-- A request about an unknown entry is refused and changes nothing; any other is carried out. -/
theorem handle_law (fits : Fits draws limit) (sound : Sound draws limit s)
    (room : s.calls + 202 ≤ limit) (request : SessionRequest) :
    (∃ id, request.target = some id ∧ id ∉ entryIds s.storage.entries ∧
      s.handle draws timestamp request = (.error (SessionError.entryNotFound .notFound id), s)) ∨
    (∀ id, request.target = some id → id ∈ entryIds s.storage.entries) ∧
      ∃ id s', s.handle draws timestamp request = (.ok id, s') ∧
        Follows draws limit 202 s (request.base s) timestamp request.bodies s' := by
  have append {body : EntryBody} (noLeaf : ∀ targetId, body ≠ .leaf targetId) :
      ∃ id s', s.appendTypedEntry draws timestamp body = (.ok id, s') ∧
        Follows draws limit 202 s s.branch timestamp [body] s' := by
    obtain ⟨id, s', appended, follows⟩ :=
      appendTypedEntry_law timestamp fits sound (by omega) noLeaf
    exact ⟨id, s', appended, follows.mono (by omega)⟩
  cases request with
  | appendLabel targetId label =>
      rw [handle, appendLabel, SessionStorage.getEntry]
      cases found : s.storage.byId targetId with
      | none =>
          refine Or.inl ⟨targetId, rfl, fun there => ?_, rfl⟩
          have isSome := sound.kept.isSome_byId.mpr there
          rw [found] at isSome
          cases isSome
      | some entry =>
          refine Or.inr ⟨fun id same => ?_, append (by simp)⟩
          cases same
          exact sound.kept.isSome_byId.mp (by rw [found]; rfl)
  | moveTo entryId summary =>
      cases checked : checkEntryId s.storage.byId .notFound entryId with
      | error error =>
          obtain ⟨id, rfl, unknown, rfl⟩ := sound.kept.unknown_of_checkEntryId checked
          refine Or.inl ⟨id, rfl, unknown, ?_⟩
          rw [handle, moveTo, checked]
      | ok id =>
          have known := (sound.kept.known_of_checkEntryId checked).2
          exact Or.inr ⟨known, moveTo_law timestamp fits sound (by omega) known summary⟩
  | _ => exact Or.inr ⟨fun id isTarget => (by cases isTarget), append (by simp)⟩

theorem handle_keeps (fits : Fits draws limit) (sound : Sound draws limit s)
    (room : s.calls + 202 ≤ limit) (request : SessionRequest) :
    Sound draws limit (s.handle draws timestamp request).2 ∧
      (s.handle draws timestamp request).2.calls ≤ s.calls + 202 ∧
        s.storage.entries <+: (s.handle draws timestamp request).2.storage.entries := by
  rcases handle_law timestamp fits sound room request with
    ⟨_, _, _, refused⟩ | ⟨_, id, s', carried, follows⟩
  · rw [refused]
    exact ⟨sound, Nat.le_add_right _ _, List.prefix_refl _⟩
  · rw [carried]
    exact ⟨follows.sound, follows.few, follows.grows⟩

theorem run_keeps (fits : Fits draws limit) (sound : Sound draws limit s)
    {requests : List (Timestamp × SessionRequest)}
    (room : s.calls + 202 * requests.length ≤ limit) :
    Sound draws limit (s.run draws requests) ∧
      (s.run draws requests).calls ≤ s.calls + 202 * requests.length ∧
        s.storage.entries <+: (s.run draws requests).storage.entries := by
  induction requests generalizing s with
  | nil => exact ⟨sound, Nat.le_add_right _ _, List.prefix_refl _⟩
  | cons request requests ih =>
      rw [List.length_cons] at room ⊢
      obtain ⟨sound', few, grows⟩ := handle_keeps request.1 fits sound (by omega) request.2
      obtain ⟨atEnd, few', grows'⟩ := ih sound' (by omega)
      refine ⟨atEnd, ?_, grows.trans grows'⟩
      rw [run, List.foldl_cons]
      exact Nat.le_trans few' (by omega)

theorem Sound.getBranch (sound : Sound draws limit s) :
    s.getBranch none = some (.ok s.branch) := by
  simp only [Session.getBranch, sound.kept.getLeafId]
  exact sound.kept.getPathToRoot sound.kept.knownLeaf

/-! ## Main results -/

section Main

variable {requests : List (Timestamp × SessionRequest)}

/-- What the requests lead to from an empty session. -/
def reached (draws : Nat → Draw) (requests : List (Timestamp × SessionRequest)) : Session :=
  Session.empty.run draws requests

theorem reached_sound (fits : Fits draws limit) (room : 202 * requests.length ≤ limit) :
    Sound draws limit (reached draws requests) ∧
      (reached draws requests).calls ≤ 202 * requests.length := by
  obtain ⟨sound, few, -⟩ := run_keeps fits Sound.empty (by simpa [Session.empty] using room)
  exact ⟨sound, by simpa [reached, Session.empty] using few⟩

/-- Two messages, and back to the first. -/
def backAndForth : List (Timestamp × SessionRequest) :=
  let question : SessionRequest := .appendMessage (.user ⟨.text "What is there?", 0⟩)
  [(0, question), (1, question), (2, .moveTo (some "00000000") none)]

/-- After any requests, opening the entries again gives the storage as it is. -/
theorem reached_reopens (fits : Fits draws limit) (room : 202 * requests.length ≤ limit) :
    SessionStorage.construct (reached draws requests).storage.entries
        (resolveLeafId (reached draws requests).storage.entries) =
      .ok (reached draws requests).storage :=
  (reached_sound fits room).1.kept.construct

theorem reached_reopens_backAndForth :
    SessionStorage.construct (reached ticking backAndForth).storage.entries
        (resolveLeafId (reached ticking backAndForth).storage.entries) =
      .ok (reached ticking backAndForth).storage :=
  reached_reopens (fits_ticking (by decide : 606 ≤ 0x100000000)) (Nat.le_refl _)

/-- After any requests, the path to an entry is found, and it is a way down from a root. -/
theorem reached_path (fits : Fits draws limit) (room : 202 * requests.length ≤ limit)
    {entry : SessionTreeEntry} (there : entry ∈ (reached draws requests).storage.entries) :
    ∃ path, (reached draws requests).storage.getPathToRoot (some entry.id) = some (.ok path) ∧
      path.getLast? = some entry ∧ IsPath path := by
  have kept := (reached_sound fits room).1.kept
  refine ⟨pathTo (reached draws requests).storage.entries (some entry.id),
    kept.getPathToRoot fun k same => ?_, kept.grown.rooted.getLast?_lineage there,
    isPath_pathTo kept.grown _⟩
  cases same
  exact mem_entryIds.mpr ⟨entry, there, rfl⟩

theorem reached_path_backAndForth : ∃ entry path,
    (reached ticking backAndForth).storage.getPathToRoot (some entry.id) = some (.ok path) ∧
      path.getLast? = some entry ∧ IsPath path := by
  have some : (reached ticking backAndForth).storage.entries ≠ [] := by
    have long : (reached ticking backAndForth).storage.entries.length = 3 := by decide +kernel
    exact List.ne_nil_of_length_pos (long ▸ by decide)
  exact ⟨_, reached_path (fits_ticking (by decide : 606 ≤ 0x100000000)) (Nat.le_refl _)
    (List.head_mem some)⟩

/-- History is not rewritten: whatever is asked later, the entries stay, and so does the path to
each of them. -/
theorem reached_history {later : List (Timestamp × SessionRequest)} (fits : Fits draws limit)
    (room : 202 * (requests ++ later).length ≤ limit) {id : String}
    (there : id ∈ entryIds (reached draws requests).storage.entries) :
    (reached draws requests).storage.entries <+:
        (reached draws (requests ++ later)).storage.entries ∧
      (reached draws (requests ++ later)).storage.getPathToRoot (some id) =
        (reached draws requests).storage.getPathToRoot (some id) := by
  rw [List.length_append] at room
  have room₁ : 202 * requests.length ≤ limit := by omega
  obtain ⟨sound, few⟩ := reached_sound fits room₁
  have room₂ : (reached draws requests).calls + 202 * later.length ≤ limit := by omega
  obtain ⟨sound', -, grows⟩ := run_keeps fits sound room₂
  have whole : reached draws (requests ++ later) = (reached draws requests).run draws later :=
    List.foldl_append
  rw [whole]
  have known : ∀ k, some id = some k → k ∈ entryIds (reached draws requests).storage.entries :=
    fun k same => Option.some.inj same ▸ there
  refine ⟨grows, ?_⟩
  rw [sound'.kept.getPathToRoot fun k same => mem_entryIds_grown grows (known k same),
    sound.kept.getPathToRoot known, pathTo_grown sound'.kept.grown grows known]

theorem reached_history_backAndForth :
    (reached ticking backAndForth).storage.entries <+:
        (reached ticking (backAndForth ++ backAndForth)).storage.entries ∧
      (reached ticking (backAndForth ++ backAndForth)).storage.getPathToRoot (some "00000000") =
        (reached ticking backAndForth).storage.getPathToRoot (some "00000000") :=
  reached_history (fits_ticking (by decide : 1212 ≤ 0x100000000)) (Nat.le_refl _)
    (by decide +kernel)

/-- The path that the entries of a request are put behind, as the session gives it. -/
def basePath (s : Session) : SessionRequest →
    Option (Except SessionError (List SessionTreeEntry))
  | .moveTo entryId _ => s.storage.getPathToRoot entryId
  | _ => s.getBranch none

/-- What a request does to the branch that is shown, after any requests: one about an unknown entry,
and no other, is refused and changes nothing; any other puts its entries behind the branch or, if it
moves, behind the path to the entry that it moves to. -/
theorem reached_handle (fits : Fits draws limit) (room : 202 * (requests.length + 1) ≤ limit)
    (request : SessionRequest) :
    match (reached draws requests).handle draws timestamp request with
    | (.error error, s') => s' = reached draws requests ∧
        ∃ id, request.target = some id ∧ (reached draws requests).storage.getEntry id = none ∧
          error = SessionError.entryNotFound .notFound id
    | (.ok _, s') =>
        (∀ id, request.target = some id →
          ((reached draws requests).storage.getEntry id).isSome = true) ∧
        ∃ base added, (reached draws requests).basePath request = some (.ok base) ∧
          s'.getBranch none = some (.ok (base ++ added)) ∧
            added.map SessionTreeEntry.body = request.bodies := by
  have room₁ : 202 * requests.length ≤ limit := by omega
  obtain ⟨sound, few⟩ := reached_sound fits room₁
  rcases handle_law timestamp fits sound (by omega) request with
    ⟨id, isTarget, unknown, refused⟩ | ⟨known, id, s', carried, follows⟩
  · rw [refused]
    refine ⟨rfl, id, isTarget, ?_, rfl⟩
    cases found : (reached draws requests).storage.getEntry id with
    | none => rfl
    | some entry =>
        refine absurd (sound.kept.isSome_byId.mp ?_) unknown
        rw [show (reached draws requests).storage.byId id = some entry from found]
        rfl
  · rw [carried]
    obtain ⟨added, shows, bodies, -⟩ := follows.branch
    refine ⟨fun id isTarget => sound.kept.isSome_byId.mpr (known id isTarget),
      request.base (reached draws requests), added, ?_, ?_, bodies⟩
    · cases request with
      | moveTo entryId summary =>
          exact sound.kept.getPathToRoot fun k same => known k (by rw [← same]; rfl)
      | _ => exact sound.getBranch
    · rw [follows.sound.getBranch, shows]

theorem reached_handle_backAndForth :
    match (reached ticking backAndForth).handle ticking 3 (.appendLabel "00000000" none) with
    | (.error error, s') => s' = reached ticking backAndForth ∧
        ∃ id, some "00000000" = some id ∧
          (reached ticking backAndForth).storage.getEntry id = none ∧
            error = SessionError.entryNotFound .notFound id
    | (.ok _, s') =>
        (∀ id, some "00000000" = some id →
          ((reached ticking backAndForth).storage.getEntry id).isSome = true) ∧
        ∃ base added,
          (reached ticking backAndForth).basePath (.appendLabel "00000000" none) =
              some (.ok base) ∧
            s'.getBranch none = some (.ok (base ++ added)) ∧
              added.map SessionTreeEntry.body = [.label "00000000" none] :=
  @reached_handle ticking 808 3 backAndForth (fits_ticking (by decide)) (Nat.le_refl _)
    (.appendLabel "00000000" none)

/-- A fork that is opened from the path to an entry, or filled with it, shows that path, and every
entry on it has the path that it had. -/
theorem reached_fork (fits : Fits draws limit) (room : 202 * requests.length ≤ limit)
    {entryId : String} (given : entryId ≠ "") {position : Option ForkPosition}
    {entries : List SessionTreeEntry} (noLeaf : ∀ entry ∈ entries, entry.isLeaf = false)
    (taken : getEntriesToFork (reached draws requests).storage (some entryId) position =
      some (.ok entries)) :
    ∃ fork, SessionStorage.construct entries (resolveLeafId entries) = .ok fork ∧
      entries.foldl SessionStorage.recordEntry SessionStorage.empty = fork ∧
      fork.getPathToRoot fork.leafId = some (.ok entries) ∧
      ∀ entry ∈ entries, fork.getPathToRoot (some entry.id) =
        (reached draws requests).storage.getPathToRoot (some entry.id) := by
  have kept := (reached_sound fits room).1.kept
  obtain ⟨target, -, -, rfl⟩ := kept.getEntriesToFork given taken
  obtain ⟨fork, opened, filled, -, shows, same⟩ := kept.of_pathTo noLeaf
  exact ⟨fork, opened, filled, shows, same⟩

theorem reached_fork_backAndForth : ∃ entries fork,
    SessionStorage.construct entries (resolveLeafId entries) = .ok fork ∧
      fork.getPathToRoot fork.leafId = some (.ok entries) := by
  have isOk : ((getEntriesToFork (reached ticking backAndForth).storage (some "00000001")
      (some .at)).bind Except.toOption).any
        (fun entries => entries.all fun entry => !entry.isLeaf) = true := by decide +kernel
  obtain ⟨entries, isOk, noLeaf⟩ := (Option.any_eq_true _ _).mp isOk
  obtain ⟨error | entries', taken, same⟩ := Option.bind_eq_some_iff.mp isOk
  · cases same
  · cases same
    obtain ⟨fork, opened, -, shows, -⟩ :=
      reached_fork (fits_ticking (by decide : 606 ≤ 0x100000000)) (Nat.le_refl _) (by decide)
        (by simpa using noLeaf) taken
    exact ⟨entries, fork, opened, shows⟩

end Main

end Session

end NestifyClaw.Agent
