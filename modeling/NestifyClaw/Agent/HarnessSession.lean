import NestifyClaw.Agent.Harness

/-!
# What a harness does to its session

A harness puts entries behind the branch that it shows, or goes on from another path of the
session; either way, all paths stay conversations: their compactions were prepared on what was
there, and their tool results stand behind their calls (`Extends.conversations`).
-/

namespace NestifyClaw.Agent

open Concurrent

/-! ## Identifiers that were made -/

namespace Session

variable {draws : Nat → Draw} {clock : Nat → Timestamp} {limit : Nat} {s : Session}

theorem calls_createEntryId : s.calls ≤ (s.createEntryId draws).2.calls :=
  le_tryEntryIds draws _ 100 s.calls

theorem calls_appendTypedEntry (timestamp : Timestamp) (body : EntryBody) :
    s.calls ≤ (s.appendTypedEntry draws timestamp body).2.calls := by
  have made := @calls_createEntryId draws s
  unfold appendTypedEntry
  dsimp only
  split <;> exact made

theorem calls_setLeafId (timestamp : Timestamp) (leafId : Option String) :
    s.calls ≤ (s.setLeafId draws timestamp leafId).2.calls := by
  unfold setLeafId
  dsimp only
  split
  · exact Nat.le_refl _
  · exact calls_createEntryId

theorem calls_moveTo (timestamp : Timestamp) (entryId : Option String)
    (summary : Option BranchSummary) :
    s.calls ≤ (s.moveTo draws timestamp entryId summary).2.calls := by
  unfold moveTo
  split
  · exact Nat.le_refl _
  · have moved := @calls_setLeafId draws s timestamp entryId
    generalize s.setLeafId draws timestamp entryId = result at moved
    obtain ⟨error | _, s'⟩ := result
    · exact moved
    · cases summary with
      | none => exact moved
      | some summary => exact Nat.le_trans moved (@calls_createEntryId draws s')

theorem calls_write (body : PendingSessionWrite) :
    s.calls ≤ (s.write draws clock body).2.calls := by
  cases body with
  | label targetId label =>
      show _ ≤ (s.appendLabel draws _ targetId label).2.calls
      unfold appendLabel
      split
      · exact Nat.le_refl _
      · exact calls_appendTypedEntry _ _
  | leaf targetId => exact calls_setLeafId _ _
  | compaction => exact Nat.le_refl _
  | branchSummary => exact Nat.le_refl _
  | _ => exact calls_appendTypedEntry _ _

theorem calls_flush (writes : List PendingSessionWrite) :
    s.calls ≤ (s.flush draws clock writes).2.1.calls := by
  induction writes generalizing s with
  | nil => exact Nat.le_refl _
  | cons write writes ih =>
      have written := @calls_write draws clock s write
      rw [flush]
      generalize s.write draws clock write = result at written
      obtain ⟨error | _, s'⟩ := result
      · exact written
      · exact Nat.le_trans written ih

end Session

namespace AgentHarness

variable {draws : Nat → Draw} {clock : Nat → Timestamp} {h : AgentHarness}

/-! ### Calls that write what waits, or have it wait, and nothing else -/

theorem session_agentEnd (messages : List AgentMessage) :
    (h.handleAgentEvent draws clock (.agentEnd messages)).2.session =
      (h.flushPendingSessionWrites draws clock).2.session := by
  rw [handleAgentEvent]
  generalize h.flushPendingSessionWrites draws clock = result
  obtain ⟨error | _, h'⟩ := result <;> rfl

theorem session_settle (returned : Bool) : (h.settle draws clock returned).session =
    (h.flushPendingSessionWrites draws clock).2.session := by
  rw [settle]
  generalize h.flushPendingSessionWrites draws clock = result
  obtain ⟨error | _, h'⟩ := result <;> rfl

theorem session_prepareNextTurn (outfit : Outfit) :
    (h.prepareNextTurn draws clock outfit).2.session =
      (h.flushPendingSessionWrites draws clock).2.session := by
  rw [prepareNextTurn]
  generalize h.flushPendingSessionWrites draws clock = result
  obtain ⟨error | _, h'⟩ := result <;> rfl

theorem session_setModel (heard : Except AgentHarnessError Unit) (model : Model) :
    (h.handle draws clock heard (.setModel model)).2.session =
      (h.writeOrWait draws clock (.modelChange model.provider model.id)).2.session := by
  rw [handle]
  generalize h.writeOrWait draws clock _ = result
  obtain ⟨error | _, h'⟩ := result <;> rfl

theorem session_setThinkingLevel (heard : Except AgentHarnessError Unit) (level : ThinkingLevel) :
    (h.handle draws clock heard (.setThinkingLevel level)).2.session =
      (h.writeOrWait draws clock (.thinkingLevelChange level.toString)).2.session := by
  rw [handle]
  generalize h.writeOrWait draws clock _ = result
  obtain ⟨error | _, h'⟩ := result <;> rfl

theorem calls_flushPendingSessionWrites :
    h.session.calls ≤ (h.flushPendingSessionWrites draws clock).2.session.calls :=
  Session.calls_flush _

theorem calls_handleAgentEvent (event : AgentEvent) :
    h.session.calls ≤ (h.handleAgentEvent draws clock event).2.session.calls := by
  have flushed := @calls_flushPendingSessionWrites draws clock h
  cases event with
  | messageEnd message => exact Session.calls_appendTypedEntry _ _
  | turnEnd message toolResults => exact flushed
  | agentEnd messages =>
      rw [session_agentEnd]
      exact flushed
  | _ => exact Nat.le_refl _

theorem calls_handleAgentEvents (events : List AgentEvent) :
    h.session.calls ≤ (h.handleAgentEvents draws clock events).2.session.calls := by
  induction events generalizing h with
  | nil => exact Nat.le_refl _
  | cons event events ih =>
      have first := @calls_handleAgentEvent draws clock h event
      rw [handleAgentEvents]
      generalize h.handleAgentEvent draws clock event = result at first
      obtain ⟨error | _, h'⟩ := result
      · exact first
      · exact Nat.le_trans first ih

theorem calls_settle (returned : Bool) :
    h.session.calls ≤ (h.settle draws clock returned).session.calls := by
  have flushed := @calls_flushPendingSessionWrites draws clock h
  rw [session_settle]
  exact flushed

theorem calls_prepareNextTurn (outfit : Outfit) :
    h.session.calls ≤ (h.prepareNextTurn draws clock outfit).2.session.calls := by
  have flushed := @calls_flushPendingSessionWrites draws clock h
  rw [session_prepareNextTurn]
  exact flushed

theorem calls_writeOrWait (body : PendingSessionWrite) :
    h.session.calls ≤ (h.writeOrWait draws clock body).2.session.calls := by
  rw [writeOrWait]
  split
  · have written := @Session.calls_write draws clock h.session body
    generalize h.session.write draws clock body = result at written
    obtain ⟨error | _, s⟩ := result <;> exact written
  · exact Nat.le_refl _

theorem calls_handle (heard : Except AgentHarnessError Unit) (request : HarnessRequest) :
    h.session.calls ≤ (h.handle draws clock heard request).2.session.calls := by
  cases request with
  | steer message =>
      rw [handle]
      split <;> exact Nat.le_refl _
  | followUp message =>
      rw [handle]
      split <;> exact Nat.le_refl _
  | appendMessage message => exact calls_writeOrWait _
  | setModel model =>
      rw [session_setModel]
      exact calls_writeOrWait _
  | setThinkingLevel level =>
      rw [session_setThinkingLevel]
      exact calls_writeOrWait _
  | _ => exact Nat.le_refl _

end AgentHarness

/-! ## What a call of the harness can do -/

namespace AgentHarness

variable {draws : Nat → Draw} {clock : Nat → Timestamp} {h h' : AgentHarness}

theorem beginPrompt_ok (begins : h.beginPrompt = .ok h') :
    h.phase = .idle ∧ h' = { h with phase := .turn } := by
  unfold beginPrompt at begins
  split at begins
  · cases begins
  · rename_i notBusy
    cases begins
    exact ⟨Decidable.not_not.mp notBusy, rfl⟩

theorem beginTurn_ok {outfit : Outfit} {message : UserMessage}
    {heard : Except AgentHarnessError Unit} {starting : Starting}
    (begins : h.beginTurn outfit message heard = some (.ok starting, h')) :
    h.createTurnState outfit = some (.ok starting.turnState) ∧
      starting.messages = h.nextTurnQueue ++ [.user message] ∧
        h' = { h with nextTurnQueue := [] } := by
  unfold beginTurn at begins
  obtain ⟨turnState, created, same⟩ := Option.map_eq_some_iff.mp begins
  rcases turnState with error | turnState
  · cases same
  · dsimp only at same
    split at same
    · cases same
    · cases same
      exact ⟨created, rfl, rfl⟩

theorem beginTurn_error {outfit : Outfit} {message : UserMessage}
    {heard : Except AgentHarnessError Unit} {error : AgentHarnessError}
    (fails : h.beginTurn outfit message heard = some (.error error, h')) :
    h' = { h with phase := .idle } := by
  unfold beginTurn at fails
  obtain ⟨turnState, -, same⟩ := Option.map_eq_some_iff.mp fails
  rcases turnState with error' | turnState
  · cases same
    rfl
  · dsimp only at same
    split at same
    · cases same
      rfl
    · cases same

theorem endCompact_cases (preparation : CompactionPreparation)
    {hook : Except AgentHarnessError (Option SessionBeforeCompactResult)}
    (text : Except CompactionError String) (heard : Except AgentHarnessError Unit)
    (noneGiven : ∀ result, hook = .ok (some result) → result.compaction = none) :
    (h.endCompact draws clock preparation hook text heard).2 = { h with phase := .idle } ∨
      ∃ summary, (h.endCompact draws clock preparation hook text heard).2 =
        { h with
          phase := .idle
          session := (h.session.appendCompaction draws (h.session.time clock) summary
            preparation.firstKeptEntryId preparation.tokensBefore
            (some (computeFileLists preparation.fileOps).toDetails) (some false)).2 } := by
  unfold endCompact
  rcases hook with error | hookResult
  · exact Or.inl rfl
  · dsimp only
    split
    · exact Or.inl rfl
    · have none : hookResult.bind SessionBeforeCompactResult.compaction = Option.none := by
        cases hookResult with
        | none => rfl
        | some result => exact noneGiven result rfl
      rw [none]
      dsimp only [Option.elim]
      unfold compact
      split
      · rename_i failed
        exact Or.inl rfl
      · rename_i result compacted
        split at compacted
        · cases compacted
        · rcases text with error | summary
          · cases compacted
          · cases compacted
            refine Or.inr ⟨summary ++ formatFileOperations (computeFileLists preparation.fileOps), ?_⟩
            split
            · rename_i session appended
              have same : _ = session := congrArg Prod.snd appended
              subst same
              rfl
            · rename_i session appended
              have same : _ = session := congrArg Prod.snd appended
              subst same
              rfl

theorem endNavigateTree_cases (navigation : Navigation) (summarize auth : Bool)
    (hook : Except AgentHarnessError (Option SessionBeforeTreeResult))
    (generated : Except BranchSummaryError BranchSummaryResult)
    (heard : Except AgentHarnessError Unit) :
    (h.endNavigateTree draws clock navigation summarize auth hook generated heard).2 =
        { h with phase := .idle } ∨
      ∃ summary, (h.endNavigateTree draws clock navigation summarize auth hook generated heard).2 =
        { h with
          phase := .idle
          session := (h.session.moveTo draws (h.session.time clock)
            navigation.targetEntry.newLeaf.1 summary).2 } := by
  unfold endNavigateTree
  rcases hook with error | hookResult
  · exact Or.inl rfl
  · dsimp only
    split
    · exact Or.inl rfl
    · split
      · exact Or.inl rfl
      · exact Or.inl rfl
      · split
        · rename_i session moved
          have same : _ = session := congrArg Prod.snd moved
          subst same
          exact Or.inr ⟨_, rfl⟩
        · rename_i session moved
          have same : _ = session := congrArg Prod.snd moved
          subst same
          exact Or.inr ⟨_, rfl⟩

end AgentHarness

/-! ## Entries behind the branch -/

/-- An entry with this body is no compaction and no tool result. -/
def EntryBody.isPlain : EntryBody → Bool
  | compaction .. => false
  | message m => !m.isToolResult
  | _ => true

/-- The harness has such a body wait for the end of a turn. -/
def EntryBody.mayWait : EntryBody → Bool
  | message m => !m.isToolResult
  | modelChange .. => true
  | thinkingLevelChange _ => true
  | _ => false

/-- From one session to another in which entries with these bodies follow the branch. -/
structure Extends (draws : Nat → Draw) (limit : Nat) (s : Session) (bodies : List EntryBody)
    (s' : Session) : Prop where
  sound : Session.Sound draws limit s'
  grows : s.storage.entries <+: s'.storage.entries
  branch : ∃ added, s'.branch = s.branch ++ added ∧ added.map SessionTreeEntry.body = bodies
  adds : GrownBy (fun _ entry => entry.isLeaf = true ∨ entry.body ∈ bodies) s.storage.entries
    s'.storage.entries

section Extends

variable {draws : Nat → Draw} {clock : Nat → Timestamp} {limit : Nat} {s s' s'' : Session}
  {bodies bodies' : List EntryBody} {body : EntryBody}

theorem isPlain_of_mayWait (mayWait : body.mayWait = true) : body.isPlain = true := by
  cases body with
  | compaction => cases mayWait
  | message message => exact mayWait
  | _ => rfl

theorem Extends.refl (sound : Session.Sound draws limit s) : Extends draws limit s [] s :=
  ⟨sound, List.prefix_refl _, ⟨[], (List.append_nil _).symm, rfl⟩, .refl⟩

theorem Extends.trans (first : Extends draws limit s bodies s')
    (rest : Extends draws limit s' bodies' s'') :
    Extends draws limit s (bodies ++ bodies') s'' := by
  obtain ⟨added, branch, here⟩ := first.branch
  obtain ⟨added', branch', there⟩ := rest.branch
  refine ⟨rest.sound, first.grows.trans rest.grows, ⟨added ++ added', ?_, ?_⟩, ?_⟩
  · rw [branch', branch, List.append_assoc]
  · rw [List.map_append, here, there]
  · refine (first.adds.mono fun _ entry may => ?_).trans (rest.adds.mono fun _ entry may => ?_)
    · exact may.imp_right (List.mem_append_left _)
    · exact may.imp_right (List.mem_append_right _)

theorem extends_of_follows {made : Nat} {timestamp : Timestamp}
    (follows : Session.Follows draws limit made s s.branch timestamp bodies s') :
    Extends draws limit s bodies s' := by
  obtain ⟨added, branch, isBodies, -⟩ := follows.branch
  exact ⟨follows.sound, follows.grows, ⟨added, branch, isBodies⟩,
    follows.adds.mono fun _ entry may => may.imp_right And.right⟩

theorem appendTypedEntry_extends (fits : Fits draws limit) (sound : Session.Sound draws limit s)
    (room : s.calls + 202 ≤ limit) (timestamp : Timestamp)
    (noLeaf : ∀ targetId, body ≠ .leaf targetId) :
    ∃ id s', s.appendTypedEntry draws timestamp body = (.ok id, s') ∧
      Extends draws limit s [body] s' := by
  obtain ⟨id, s', appended, follows⟩ :=
    Session.appendTypedEntry_law timestamp fits sound (by omega) noLeaf
  exact ⟨id, s', appended, extends_of_follows follows⟩

theorem write_extends (fits : Fits draws limit) (sound : Session.Sound draws limit s)
    (room : s.calls + 202 ≤ limit) (mayWait : body.mayWait = true) :
    ∃ s', s.write draws clock body = (.ok (), s') ∧ Extends draws limit s [body] s' := by
  have noLeaf : ∀ targetId, body ≠ .leaf targetId := by
    intro targetId same
    subst same
    cases mayWait
  obtain ⟨id, s', appended, more⟩ :=
    appendTypedEntry_extends fits sound room (s.time clock) noLeaf
  refine ⟨s', ?_, more⟩
  cases body with
  | message message =>
      rw [Session.write, Session.appendMessage, appended]
      rfl
  | modelChange provider modelId =>
      rw [Session.write, Session.appendModelChange, appended]
      rfl
  | thinkingLevelChange level =>
      rw [Session.write, Session.appendThinkingLevelChange, appended]
      rfl
  | _ => cases mayWait

/-- All that waits is written, in its order. -/
theorem flush_extends (fits : Fits draws limit) (sound : Session.Sound draws limit s)
    {writes : List PendingSessionWrite} (mayWait : ∀ body ∈ writes, body.mayWait = true)
    (room : (s.flush draws clock writes).2.1.calls + 202 ≤ limit) :
    ∃ s', s.flush draws clock writes = (.ok (), s', []) ∧ Extends draws limit s writes s' := by
  induction writes generalizing s with
  | nil => exact ⟨s, rfl, .refl sound⟩
  | cons body writes ih =>
      obtain ⟨here, there⟩ := List.forall_mem_cons.mp mayWait
      have few : s.calls + 202 ≤ limit := by
        have made := @Session.calls_flush draws clock s (body :: writes)
        omega
      obtain ⟨s', written, more⟩ := write_extends fits sound few here
      rw [Session.flush, written] at room ⊢
      obtain ⟨s'', flushed, rest⟩ := ih more.sound there room
      exact ⟨s'', flushed, more.trans rest⟩

theorem Extends.branch_single (more : Extends draws limit s [body] s') :
    ∃ entry, s'.branch = s.branch ++ [entry] ∧ entry.body = body := by
  obtain ⟨added, branch, isBodies⟩ := more.branch
  match added, isBodies with
  | [entry], isBodies => exact ⟨entry, branch, List.head_eq_of_cons_eq isBodies⟩

end Extends

/-! ## Conversations -/

/-- A path that came about by what is published and written, and by compactions. -/
structure Conversation (path : List SessionTreeEntry) : Prop where
  summarized : ∃ ps, Summarized path ps
  paired : Paired (entryMessages path)

section Conversation

variable {draws : Nat → Draw} {limit : Nat} {s s' : Session} {path : List SessionTreeEntry}
  {entry : SessionTreeEntry}

theorem Conversation.nil : Conversation [] := ⟨⟨[], .nil⟩, .nil⟩

theorem toCompaction_of_isPlain (isPlain : entry.body.isPlain = true) :
    entry.toCompaction = none := by
  unfold SessionTreeEntry.toCompaction
  cases isBody : entry.body with
  | compaction =>
      rw [isBody] at isPlain
      cases isPlain
  | _ => rfl

theorem entryMessages_of_isPlain (isPlain : entry.body.isPlain = true) :
    NoResults (entryMessages [entry]) := by
  intro message there
  obtain ⟨entry', isEntry, given⟩ := List.mem_filterMap.mp there
  obtain rfl := List.mem_singleton.mp isEntry
  unfold getMessageFromEntryForCompaction at given
  rw [toCompaction_of_isPlain isPlain] at given
  unfold getMessageFromEntry at given
  cases isBody : entry'.body with
  | message message' =>
      rw [isBody] at given isPlain
      cases given
      simpa [EntryBody.isPlain] using isPlain
  | customMessage =>
      rw [isBody] at given
      cases given
      rfl
  | branchSummary =>
      rw [isBody] at given
      cases given
      rfl
  | compaction =>
      rw [isBody] at isPlain
      cases isPlain
  | _ =>
      rw [isBody] at given
      cases given

theorem Conversation.plain (conversation : Conversation path)
    (isPlain : entry.body.isPlain = true) : Conversation (path ++ [entry]) := by
  obtain ⟨ps, summarized⟩ := conversation.summarized
  refine ⟨⟨ps, .entry summarized (toCompaction_of_isPlain isPlain)⟩, ?_⟩
  rw [entryMessages_append]
  exact conversation.paired.append (paired_of_noResults (entryMessages_of_isPlain isPlain))

/-- Every path of the session is a conversation. -/
abbrev Conversations (s : Session) : Prop := AllPaths Conversation s.storage.entries

theorem conversations_empty : Conversations Session.empty :=
  ⟨.nil, fun id there => by cases there⟩

theorem isPlain_of_isLeaf (isLeaf : entry.isLeaf = true) : entry.body.isPlain = true := by
  unfold SessionTreeEntry.isLeaf at isLeaf
  cases isBody : entry.body with
  | leaf => rfl
  | _ =>
      rw [isBody] at isLeaf
      cases isLeaf

theorem Extends.conversations {bodies : List EntryBody} (more : Extends draws limit s bodies s')
    (conversations : Conversations s) (plain : ∀ body ∈ bodies, body.isPlain = true) :
    Conversations s' := by
  refine conversations.grown more.sound.kept.grown more.adds fun path entry isPath may => ?_
  rcases may with isLeaf | isBody
  · exact isPath.plain (isPlain_of_isLeaf isLeaf)
  · exact isPath.plain (plain _ isBody)

/-- A move in the tree leaves conversations. -/
theorem Session.Follows.conversations {made : Nat} {base : List SessionTreeEntry}
    {timestamp : Timestamp} {bodies : List EntryBody}
    (follows : Session.Follows draws limit made s base timestamp bodies s')
    (conversations : Conversations s)
    (adds : ∀ entry : SessionTreeEntry, entry.body ∈ bodies → Conversation base →
      Conversation (base ++ [entry])) : Conversations s' := by
  refine conversations.grown follows.sound.kept.grown follows.adds fun path entry isPath may => ?_
  rcases may with isLeaf | ⟨rfl, isBody⟩
  · exact isPath.plain (isPlain_of_isLeaf isLeaf)
  · exact adds entry isBody isPath

end Conversation

end NestifyClaw.Agent
