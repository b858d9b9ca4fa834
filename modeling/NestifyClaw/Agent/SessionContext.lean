import NestifyClaw.Agent.SessionStorage

/-!
# The context of a session

What a model is given of the branch that a session shows.  Without a compaction this is all of the
branch; behind a compaction it is a summary, the entries from the first kept one up to the
compaction, and what came after it (`messages_of_compacted`).
-/

namespace NestifyClaw.Agent

structure ModelReference where
  provider : String
  modelId : String

structure SessionContext where
  messages : List AgentMessage
  thinkingLevel : String
  model : Option ModelReference

structure CompactionEntry where
  id : String
  timestamp : Timestamp
  summary : String
  firstKeptEntryId : String
  tokensBefore : Nat
  details : Option Json
  fromHook : Option Bool

def SessionTreeEntry.toCompaction (entry : SessionTreeEntry) : Option CompactionEntry :=
  match entry.body with
  | .compaction summary firstKeptEntryId tokensBefore details fromHook =>
      some ⟨entry.id, entry.timestamp, summary, firstKeptEntryId, tokensBefore, details, fromHook⟩
  | _ => none

/-- `createCompactionSummaryMessage` -/
def CompactionEntry.toMessage (compaction : CompactionEntry) : AgentMessage :=
  .compactionSummary ⟨compaction.summary, compaction.tokensBefore, compaction.timestamp⟩

/-- `appendMessage` of `buildSessionContext`: what an entry adds. -/
def SessionTreeEntry.contextMessage (entry : SessionTreeEntry) : Option AgentMessage :=
  match entry.body with
  | .message message => some message
  | .customMessage customType content display details =>
      some (.custom ⟨customType, content, display, details, entry.timestamp⟩)
  | .branchSummary fromId summary _ _ =>
      if summary = "" then none else some (.branchSummary ⟨summary, fromId, entry.timestamp⟩)
  | _ => none

/-- The state markers that `buildSessionContext` collects. -/
structure SessionState where
  thinkingLevel : String
  model : Option ModelReference
  compaction : Option CompactionEntry

def SessionState.read (state : SessionState) (entry : SessionTreeEntry) : SessionState :=
  match entry.body with
  | .thinkingLevelChange thinkingLevel => { state with thinkingLevel }
  | .modelChange provider modelId => { state with model := some ⟨provider, modelId⟩ }
  | .message (.assistant message) =>
      { state with model := some ⟨message.provider, message.model⟩ }
  | .compaction .. => { state with compaction := entry.toCompaction }
  | _ => state

def readState (pathEntries : List SessionTreeEntry) : SessionState :=
  pathEntries.foldl SessionState.read ⟨"off", none, none⟩

def buildSessionContext (pathEntries : List SessionTreeEntry) : SessionContext :=
  let state := readState pathEntries
  let messages :=
    match state.compaction with
    | none => pathEntries.filterMap SessionTreeEntry.contextMessage
    | some compaction =>
        let compactionIdx := pathEntries.findIdx fun e =>
          e.toCompaction.isSome && e.id == compaction.id
        -- from the first kept entry on, up to the compaction
        let kept := (pathEntries.take compactionIdx).dropWhile fun entry =>
          entry.id ≠ compaction.firstKeptEntryId
        let newer := pathEntries.drop (compactionIdx + 1)
        compaction.toMessage :: (kept.filterMap SessionTreeEntry.contextMessage ++
          newer.filterMap SessionTreeEntry.contextMessage)
  { messages, thinkingLevel := state.thinkingLevel, model := state.model }

/-! ## The last compaction -/

/-- The last compaction of a path, with what lies before it and behind it. -/
structure Compacted (path before : List SessionTreeEntry) (entry : SessionTreeEntry)
    (compaction : CompactionEntry) (after : List SessionTreeEntry) : Prop where
  split : path = before ++ entry :: after
  isCompaction : entry.toCompaction = some compaction
  newest : ∀ e ∈ after, e.toCompaction = none

theorem toCompaction_id {entry : SessionTreeEntry} {compaction : CompactionEntry}
    (isCompaction : entry.toCompaction = some compaction) : compaction.id = entry.id := by
  unfold SessionTreeEntry.toCompaction at isCompaction
  split at isCompaction
  · cases isCompaction
    rfl
  · cases isCompaction

theorem contextMessage_of_compaction {entry : SessionTreeEntry} {compaction : CompactionEntry}
    (isCompaction : entry.toCompaction = some compaction) : entry.contextMessage = none := by
  unfold SessionTreeEntry.toCompaction at isCompaction
  unfold SessionTreeEntry.contextMessage
  split at isCompaction
  · rename_i isBody
    rw [isBody]
  · cases isCompaction

theorem compacted_or (path : List SessionTreeEntry) :
    (∀ e ∈ path, e.toCompaction = none) ∨
      ∃ before entry compaction after, Compacted path before entry compaction after := by
  induction path using List.reverseRecOn with
  | nil => exact Or.inl (by simp)
  | append_singleton path last ih =>
      cases isCompaction : last.toCompaction with
      | some compaction => exact Or.inr ⟨path, last, compaction, [], rfl, isCompaction, by simp⟩
      | none =>
          rcases ih with none | ⟨before, entry, compaction, after, found⟩
          · refine Or.inl fun e there => ?_
            rcases List.mem_append.mp there with old | new
            · exact none e old
            · rwa [List.mem_singleton.mp new]
          · refine Or.inr ⟨before, entry, compaction, after ++ [last], ?_, found.isCompaction, ?_⟩
            · rw [found.split, List.append_assoc]
              rfl
            · intro e there
              rcases List.mem_append.mp there with old | new
              · exact found.newest e old
              · rwa [List.mem_singleton.mp new]

theorem read_compaction (state : SessionState) (entry : SessionTreeEntry) :
    (state.read entry).compaction = entry.toCompaction.or state.compaction := by
  unfold SessionState.read SessionTreeEntry.toCompaction
  cases isBody : entry.body with
  | message message => cases message <;> rfl
  | _ => rfl

theorem readState_of_none {path : List SessionTreeEntry}
    (none : ∀ e ∈ path, e.toCompaction = none) (state : SessionState) :
    (path.foldl SessionState.read state).compaction = state.compaction := by
  induction path generalizing state with
  | nil => rfl
  | cons entry path ih =>
      rw [List.forall_mem_cons] at none
      rw [List.foldl_cons, ih none.2, read_compaction, none.1, Option.none_or]

theorem readState_of_compacted {path before after : List SessionTreeEntry}
    {entry : SessionTreeEntry} {compaction : CompactionEntry}
    (found : Compacted path before entry compaction after) :
    (readState path).compaction = some compaction := by
  rw [readState, found.split, List.foldl_append, List.foldl_cons, readState_of_none found.newest,
    read_compaction, found.isCompaction, Option.some_or]

/-- In a path an entry is found by its name. -/
theorem findIdx_of_split {path before after : List SessionTreeEntry} {entry : SessionTreeEntry}
    {p : SessionTreeEntry → Bool} (nodup : (entryIds path).Nodup)
    (split : path = before ++ entry :: after) (holds : p entry = true)
    (names : ∀ e, p e = true → e.id = entry.id) : path.findIdx p = before.length := by
  subst split
  rw [entryIds, Links.ids_append, List.nodup_append] at nodup
  have none : ∀ e ∈ before, p e = false := by
    intro e there
    by_contra holds'
    have same := names e (by simpa using holds')
    exact nodup.2.2 _ (mem_entryIds.mpr ⟨e, there, rfl⟩) _
      (mem_entryIds.mpr ⟨entry, List.mem_cons_self, rfl⟩) same
  rw [List.findIdx_append, if_neg]
  · rw [List.findIdx_cons, holds]
    simp
  · rw [List.findIdx_lt_length]
    simpa using none

/-! ## The context around a compaction -/

theorem messages_of_none {path : List SessionTreeEntry}
    (none : ∀ e ∈ path, e.toCompaction = none) :
    (buildSessionContext path).messages = path.filterMap SessionTreeEntry.contextMessage := by
  have noCompaction : (readState path).compaction = Option.none := readState_of_none none _
  simp only [buildSessionContext, noCompaction]

/-- A context behind a compaction: the summary, what the compaction kept, and what came later. -/
theorem messages_of_compacted {path before after : List SessionTreeEntry}
    {entry : SessionTreeEntry} {compaction : CompactionEntry} (nodup : (entryIds path).Nodup)
    (found : Compacted path before entry compaction after) :
    (buildSessionContext path).messages = compaction.toMessage ::
      ((before.dropWhile fun e => e.id ≠ compaction.firstKeptEntryId) ++ entry :: after).filterMap
        SessionTreeEntry.contextMessage := by
  have index : (path.findIdx fun e => e.toCompaction.isSome && e.id == compaction.id) =
      before.length := by
    refine findIdx_of_split nodup found.split ?_ fun e holds => ?_
    · simp [found.isCompaction, toCompaction_id found.isCompaction]
    · simp only [Bool.and_eq_true, beq_iff_eq] at holds
      rw [holds.2, toCompaction_id found.isCompaction]
  simp only [buildSessionContext, readState_of_compacted found, index]
  have older : path.take before.length = before := by
    rw [found.split, List.take_left']
    rfl
  have newer : path.drop (before.length + 1) = after := by
    rw [found.split, ← List.drop_drop, List.drop_left']
    · rfl
    · rfl
  rw [older, newer, List.filterMap_append,
    List.filterMap_cons_none (contextMessage_of_compaction found.isCompaction)]

/-- An entry behind the branch adds its own message to the context. -/
theorem messages_concat {path : List SessionTreeEntry} {last : SessionTreeEntry}
    (nodup : (entryIds (path ++ [last])).Nodup) (plain : last.toCompaction = none) :
    (buildSessionContext (path ++ [last])).messages =
      (buildSessionContext path).messages ++ last.contextMessage.toList := by
  have added : [last].filterMap SessionTreeEntry.contextMessage = last.contextMessage.toList := by
    cases shown : last.contextMessage <;> simp [shown]
  rcases compacted_or path with none | ⟨before, entry, compaction, after, found⟩
  · rw [messages_of_none none, messages_of_none, List.filterMap_append, added]
    intro e there
    rcases List.mem_append.mp there with old | new
    · exact none e old
    · rwa [List.mem_singleton.mp new]
  · have found' : Compacted (path ++ [last]) before entry compaction (after ++ [last]) := by
      refine ⟨?_, found.isCompaction, fun e there => ?_⟩
      · rw [found.split, List.append_assoc]
        rfl
      · rcases List.mem_append.mp there with old | new
        · exact found.newest e old
        · rwa [List.mem_singleton.mp new]
    have nodupPath : (entryIds path).Nodup := by
      rw [entryIds_concat, List.nodup_append] at nodup
      exact nodup.1
    rw [messages_of_compacted nodup found', messages_of_compacted nodupPath found,
      ← List.cons_append, ← List.append_assoc, List.filterMap_append, added, List.cons_append]

/-- A compaction leaves its summary and the entries from the first kept one on. -/
theorem messages_compaction {path : List SessionTreeEntry} {last : SessionTreeEntry}
    {compaction : CompactionEntry} (nodup : (entryIds (path ++ [last])).Nodup)
    (isCompaction : last.toCompaction = some compaction) :
    (buildSessionContext (path ++ [last])).messages = compaction.toMessage ::
      (path.dropWhile fun e => e.id ≠ compaction.firstKeptEntryId).filterMap
        SessionTreeEntry.contextMessage := by
  have found : Compacted (path ++ [last]) path last compaction [] :=
    ⟨rfl, isCompaction, fun e there => by cases there⟩
  rw [messages_of_compacted nodup found, List.filterMap_append,
    List.filterMap_cons_none (contextMessage_of_compaction isCompaction), List.filterMap_nil,
    List.append_nil]

end NestifyClaw.Agent
