import NestifyClaw.Agent.HarnessInvariant

/-!
# Any order of calls

The invariant of a harness survives every move, so that it holds of all that can be reached, in the
middle of runs, compactions and moves in the tree as well (`reached_inv`).
-/

namespace NestifyClaw.Agent

open Concurrent Concurrent.Protocol

section Steps

variable {draws : Nat → Draw} {clock : Nat → Timestamp} {limit : Nat} {h h' : AgentHarness}
  {activity : Activity}

/-! ## Requests -/

theorem Activity.Holds.same (holds : activity.Holds h) (session : h'.session = h.session)
    (phase : h'.phase = h.phase) : activity.Holds h' := by
  cases activity with
  | none => exact phase.trans holds
  | prompt message => exact phase.trans holds
  | starting starting =>
      refine ⟨phase.trans holds.1, ?_, holds.2.2⟩
      rw [session]
      exact holds.2.1
  | run run es =>
      obtain ⟨hooks, paired, noResults, pairs, gives, asked, q, exchanges, lives, awaits, stands,
        closed⟩ := holds
      refine ⟨hooks, paired, noResults, pairs, gives, asked, q, exchanges, lives, ?_,
        stands.same session phase, closed⟩
      rw [session]
      exact awaits
  | compaction preparation =>
      refine ⟨phase.trans holds.1, ?_⟩
      rw [session]
      exact holds.2
  | branchSummary navigation =>
      refine ⟨phase.trans holds.1, ?_⟩
      rw [session]
      exact holds.2

/-- An idle harness is in the middle of nothing that depends on its session. -/
theorem Activity.Holds.idle (holds : activity.Holds h) (idle : h.phase = .idle)
    (idle' : h'.phase = .idle) : activity.Holds h' := by
  cases activity with
  | none => exact idle'
  | prompt message => cases idle.symm.trans holds
  | starting starting => cases idle.symm.trans holds.1
  | run run es =>
      obtain ⟨hooks, paired, noResults, pairs, gives, asked, q, exchanges, lives, -, stands,
        closed⟩ := holds
      cases q with
      | inTurn asking =>
          cases idle.symm.trans stands.2.1
      | turned =>
          cases idle.symm.trans stands
      | finished =>
          exact ⟨hooks, paired, noResults, pairs, gives, asked, .finished, exchanges, lives,
            Or.inl (closed rfl), idle', closed⟩
  | compaction preparation => cases idle.symm.trans holds.1
  | branchSummary navigation => cases idle.symm.trans holds.1

theorem writeOrWait_law (fits : Fits draws limit) (inv : Inv draws limit ⟨h, activity⟩)
    {body : PendingSessionWrite} (mayWait : body.mayWait = true)
    (room : (h.writeOrWait draws clock body).2.session.calls + 202 ≤ limit) :
    ∃ h', h.writeOrWait draws clock body = (.ok (), h') ∧ Inv draws limit ⟨h', activity⟩ := by
  have few := @AgentHarness.calls_writeOrWait draws clock h body
  unfold AgentHarness.writeOrWait
  split
  · rename_i idle
    obtain ⟨s', written, more⟩ := @write_extends draws clock limit h.session body fits inv.sane.sound
      (by omega) mayWait
    rw [written]
    refine ⟨_, rfl, inv.sane.extends more (fun body' there => ?_) inv.sane.mayWait inv.sane.nextTurn,
      inv.holds.idle idle idle⟩
    rw [List.mem_singleton.mp there]
    exact isPlain_of_mayWait mayWait
  · refine ⟨_, rfl, ⟨inv.sane.sound, inv.sane.conversations, ?_, inv.sane.nextTurn⟩,
      inv.holds.same rfl rfl⟩
    refine List.forall_mem_append.mpr ⟨inv.sane.mayWait, fun body' there => ?_⟩
    rw [List.mem_singleton.mp there]
    exact mayWait

/-- Whatever else a request changes, the session is left alone. -/
theorem Inv.quiet (inv : Inv draws limit ⟨h, activity⟩) (session : h'.session = h.session)
    (phase : h'.phase = h.phase) (pending : h'.pendingSessionWrites = h.pendingSessionWrites)
    (nextTurn : NoResults h'.nextTurnQueue) : Inv draws limit ⟨h', activity⟩ := by
  refine ⟨⟨?_, ?_, ?_, nextTurn⟩, inv.holds.same session phase⟩
  · exact session ▸ inv.sane.sound
  · exact session ▸ inv.sane.conversations
  · exact pending ▸ inv.sane.mayWait

theorem Inv.request (fits : Fits draws limit) (inv : Inv draws limit ⟨h, activity⟩)
    {request : HarnessRequest} (noResult : request.NoResult) (heard : Except AgentHarnessError Unit)
    (room : (h.handle draws clock heard request).2.session.calls + 202 ≤ limit) :
    Inv draws limit ⟨(h.handle draws clock heard request).2, activity⟩ := by
  cases request with
  | steer message =>
      rw [AgentHarness.handle]
      split
      · exact inv
      · exact inv.quiet rfl rfl rfl inv.sane.nextTurn
  | followUp message =>
      rw [AgentHarness.handle]
      split
      · exact inv
      · exact inv.quiet rfl rfl rfl inv.sane.nextTurn
  | nextTurn message =>
      refine inv.quiet rfl rfl rfl (List.forall_mem_append.mpr ⟨inv.sane.nextTurn, ?_⟩)
      intro message' there
      rw [List.mem_singleton.mp there]
      rfl
  | appendMessage message =>
      have mayWait : (EntryBody.message message).mayWait = true := by
        rw [EntryBody.mayWait, show message.isToolResult = false from noResult]
        rfl
      obtain ⟨h', written, inv'⟩ := writeOrWait_law fits inv mayWait room
      rw [AgentHarness.handle, written]
      exact inv'
  | setModel model =>
      rw [AgentHarness.session_setModel] at room
      rw [AgentHarness.handle]
      obtain ⟨h', written, inv'⟩ := writeOrWait_law fits inv (by rfl) room
      rw [written]
      exact inv'.quiet rfl rfl rfl inv'.sane.nextTurn
  | setThinkingLevel level =>
      rw [AgentHarness.session_setThinkingLevel] at room
      rw [AgentHarness.handle]
      obtain ⟨h', written, inv'⟩ := writeOrWait_law fits inv (by rfl) room
      rw [written]
      exact inv'.quiet rfl rfl rfl inv'.sane.nextTurn
  | _ => exact inv.quiet rfl rfl rfl inv.sane.nextTurn

/-! ## The beginning and the end of a run -/

theorem Inv.prompt {message : UserMessage} (inv : Inv draws limit ⟨h, .none⟩)
    (begins : h.beginPrompt = .ok h') : Inv draws limit ⟨h', .prompt message⟩ := by
  obtain ⟨-, rfl⟩ := AgentHarness.beginPrompt_ok begins
  exact ⟨inv.sane.phase .turn _, rfl⟩

theorem Inv.beginTurn {message : UserMessage} (inv : Inv draws limit ⟨h, .prompt message⟩)
    {outfit : Outfit} {heard : Except AgentHarnessError Unit} {starting : Starting}
    (begins : h.beginTurn outfit message heard = some (.ok starting, h')) :
    Inv draws limit ⟨h', .starting starting⟩ := by
  obtain ⟨created, messages, rfl⟩ := AgentHarness.beginTurn_ok begins
  have sane : h.Sane draws limit := inv.sane
  refine ⟨⟨sane.sound, sane.conversations, sane.mayWait, fun m there => by cases there⟩, inv.holds,
    createTurnState_law sane created, ?_⟩
  rw [messages]
  refine List.forall_mem_append.mpr ⟨sane.nextTurn, fun m there => ?_⟩
  rw [List.mem_singleton.mp there]
  rfl

theorem Inv.startTurn {starting : Starting} (inv : Inv draws limit ⟨h, .starting starting⟩)
    {beforeResult : Option BeforeAgentStartResult} {run : Started}
    (starts : h.startTurn starting (.ok beforeResult) = (.ok run, h'))
    (noResults : ∀ messages, beforeResult.bind BeforeAgentStartResult.messages = some messages →
      NoResults messages) : Inv draws limit ⟨h', .run run []⟩ := by
  cases starts
  have sane : h.Sane draws limit := inv.sane
  obtain ⟨phase, transcript, prompts⟩ := inv.holds
  refine ⟨sane.phase _ _, ⟨⟨rfl, rfl⟩, ?_, ?_, fun e there => (by cases there),
    fun e there => (by cases there), none, .inTurn (.start starting.turnState.messages), .nil,
    .nil, Or.inl rfl, ⟨transcript, phase, fun llmMessages none => by cases none⟩, fun _ => rfl⟩⟩
  · show Paired starting.turnState.messages
    rw [transcript]
    exact transcript_paired sane.sound sane.conversations
  · refine List.forall_mem_append.mpr ⟨prompts, ?_⟩
    cases given : beforeResult.bind BeforeAgentStartResult.messages with
    | none => exact fun m there => by cases there
    | some messages => exact noResults messages given

theorem settle_law (fits : Fits draws limit) (sane : h.Sane draws limit) {returned : Bool}
    (room : (h.settle draws clock returned).session.calls + 202 ≤ limit)
    (idle : returned = true → h.phase = .idle) :
    Inv draws limit ⟨h.settle draws clock returned, .none⟩ := by
  rw [AgentHarness.session_settle] at room
  obtain ⟨s', flushed, more⟩ := flushPendingSessionWrites_law fits sane room
  rw [AgentHarness.settle, flushed]
  refine ⟨(sane.flushed more).phase _ _, ?_⟩
  show (if returned then h.phase else .idle) = AgentHarnessPhase.idle
  split
  · rename_i isReturned
    exact idle isReturned
  · rfl

/-- An event that completes no tool result leaves a sane harness. -/
theorem handleAgentEvent_sane (fits : Fits draws limit) (sane : h.Sane draws limit)
    {event : AgentEvent}
    (plain : ∀ message, event = .messageEnd message → message.isToolResult = false)
    (room : (h.handleAgentEvent draws clock event).2.session.calls + 202 ≤ limit) :
    ∃ h', h.handleAgentEvent draws clock event = (.ok (), h') ∧ h'.Sane draws limit := by
  have few := @AgentHarness.calls_handleAgentEvent draws clock h event
  cases event with
  | messageEnd message =>
      have mayWait : (EntryBody.message message).mayWait = true := by
        rw [EntryBody.mayWait, plain message rfl]
        rfl
      obtain ⟨id, s', appended, more⟩ := @appendTypedEntry_extends draws limit h.session
        (.message message) fits sane.sound (by omega) (h.session.time clock) (by simp)
      refine ⟨{ h with session := s' }, ?_, sane.extends more (fun body there => ?_) sane.mayWait
        sane.nextTurn⟩
      · rw [AgentHarness.handleAgentEvent, Session.appendMessage, appended]
        rfl
      · rw [List.mem_singleton.mp there]
        exact isPlain_of_mayWait mayWait
  | turnEnd message toolResults =>
      obtain ⟨s', flushed, more⟩ := flushPendingSessionWrites_law fits sane room
      exact ⟨_, flushed, sane.flushed more⟩
  | agentEnd messages =>
      rw [AgentHarness.session_agentEnd] at room
      obtain ⟨s', flushed, more⟩ := flushPendingSessionWrites_law fits sane room
      rw [AgentHarness.handleAgentEvent, flushed]
      exact ⟨_, rfl, (sane.flushed more).phase .idle _⟩
  | _ => exact ⟨h, rfl, sane⟩

theorem handleAgentEvents_sane (fits : Fits draws limit) {events : List AgentEvent}
    (plain : ∀ message, .messageEnd message ∈ events → message.isToolResult = false)
    (sane : h.Sane draws limit)
    (room : (h.handleAgentEvents draws clock events).2.session.calls + 202 ≤ limit) :
    (h.handleAgentEvents draws clock events).2.Sane draws limit := by
  induction events generalizing h with
  | nil => exact sane
  | cons event events ih =>
      have few : (h.handleAgentEvent draws clock event).2.session.calls + 202 ≤ limit := by
        rw [AgentHarness.handleAgentEvents] at room
        generalize h.handleAgentEvent draws clock event = result at room
        obtain ⟨error | _, h'⟩ := result
        · exact room
        · have later := @AgentHarness.calls_handleAgentEvents draws clock h' events
          dsimp only at room ⊢
          omega
      obtain ⟨h', handled, sane'⟩ := handleAgentEvent_sane fits sane
        (fun message same => plain message (same ▸ List.mem_cons_self)) few
      rw [AgentHarness.handleAgentEvents, handled] at room ⊢
      exact ih (fun message there => plain message (List.mem_cons_of_mem _ there)) sane' room

theorem emitRunFailure_sane (fits : Fits draws limit) (sane : h.Sane draws limit)
    {failureMessage : AssistantMessage} {handled : Nat}
    (room : (h.emitRunFailure draws clock failureMessage handled).2.session.calls + 202 ≤ limit) :
    (h.emitRunFailure draws clock failureMessage handled).2.Sane draws limit := by
  refine handleAgentEvents_sane fits (fun message there => ?_) sane room
  have isFailure := List.mem_of_mem_take there
  simp only [AgentHarness.failureEvents, List.mem_cons, List.not_mem_nil, or_false, reduceCtorEq, false_or,
    AgentEvent.messageEnd.injEq] at isFailure
  rw [isFailure]
  rfl

/-! ## Compaction -/

theorem beginCompact_law (sound : Session.Sound draws limit h.session)
    {preparation : CompactionPreparation}
    (begins : h.beginCompact true = some (.ok preparation)) :
    h.phase = .idle ∧
      prepareCompaction h.session.branch DEFAULT_COMPACTION_SETTINGS = .ok (some preparation) := by
  unfold AgentHarness.beginCompact at begins
  split at begins
  · cases begins
  · rename_i notBusy
    refine ⟨Decidable.not_not.mp notBusy, ?_⟩
    rw [sound.getBranch] at begins
    simp only [Bool.not_true, Bool.false_eq_true, if_false, Option.map_some] at begins
    split at begins
    · cases begins
    · cases begins
    · rename_i prepared
      cases begins
      exact prepared

/-- A compaction that is put behind the branch it was prepared on. -/
theorem Conversation.compaction {path : List SessionTreeEntry} {entry : SessionTreeEntry}
    (conversation : Conversation path) {p : CompactionPreparation} {summary : String}
    {settings : CompactionSettings} (prepared : prepareCompaction path settings = .ok (some p))
    (isBody : entry.body = .compaction summary p.firstKeptEntryId p.tokensBefore
      (some (computeFileLists p.fileOps).toDetails) (some false)) :
    Conversation (path ++ [entry]) := by
  obtain ⟨ps, summarized⟩ := conversation.summarized
  have isCompaction : entry.toCompaction = some ⟨entry.id, entry.timestamp, summary,
      p.firstKeptEntryId, p.tokensBefore, some (computeFileLists p.fileOps).toDetails,
      some false⟩ := by
    unfold SessionTreeEntry.toCompaction
    rw [isBody]
  refine ⟨⟨ps ++ [p], .compaction summarized prepared isCompaction rfl rfl rfl⟩, ?_⟩
  have silent : entryMessages [entry] = [] := by
    refine List.filterMap_cons_none ?_
    rw [getMessageFromEntryForCompaction, isCompaction]
    rfl
  rw [entryMessages_append, silent, List.append_nil]
  exact conversation.paired

theorem Inv.compacted (fits : Fits draws limit) {preparation : CompactionPreparation}
    (inv : Inv draws limit ⟨h, .compaction preparation⟩)
    {hook : Except AgentHarnessError (Option SessionBeforeCompactResult)}
    (text : Except CompactionError String) (heard : Except AgentHarnessError Unit)
    (noneGiven : ∀ result, hook = .ok (some result) → result.compaction = none)
    (room : h.session.calls + 202 ≤ limit) :
    Inv draws limit ⟨(h.endCompact draws clock preparation hook text heard).2, .none⟩ := by
  obtain ⟨-, prepared⟩ := inv.holds
  have sane : h.Sane draws limit := inv.sane
  rcases @AgentHarness.endCompact_cases draws clock h preparation hook text heard noneGiven with
    ended | ⟨summary, ended⟩
  · rw [ended]
    exact ⟨sane.phase .idle _, rfl⟩
  · have noLeaf (targetId : Option String) : EntryBody.compaction summary
        preparation.firstKeptEntryId preparation.tokensBefore
        (some (computeFileLists preparation.fileOps).toDetails) (some false) ≠ .leaf targetId := by
      simp
    obtain ⟨id, s', appended, follows⟩ :=
      Session.appendTypedEntry_law (h.session.time clock) fits sane.sound (by omega) noLeaf
    rw [ended, Session.appendCompaction, appended]
    refine ⟨⟨follows.sound, ?_, sane.mayWait, sane.nextTurn⟩, rfl⟩
    refine follows.conversations sane.conversations fun entry isBody conversation => ?_
    exact conversation.compaction prepared (List.mem_singleton.mp isBody)

/-! ## Moves in the tree -/

theorem newLeaf_known {entries : List SessionTreeEntry} (grown : Grown entries)
    {entry : SessionTreeEntry} (there : entry ∈ entries) :
    ∀ k, entry.newLeaf.1 = some k → k ∈ entryIds entries := by
  intro k isLeaf
  have parent (same : entry.parentId = some k) : k ∈ entryIds entries :=
    grown.rooted.parent_known there same
  have self (same : some entry.id = some k) : k ∈ entryIds entries := by
    cases same
    exact mem_entryIds.mpr ⟨entry, there, rfl⟩
  unfold SessionTreeEntry.newLeaf at isLeaf
  cases isBody : entry.body with
  | message message =>
      rw [isBody] at isLeaf
      cases message with
      | user message => exact parent isLeaf
      | _ => exact self isLeaf
  | customMessage customType content display details =>
      rw [isBody] at isLeaf
      exact parent isLeaf
  | _ =>
      rw [isBody] at isLeaf
      exact self isLeaf

theorem beginNavigateTree_law (sound : Session.Sound draws limit h.session) {targetId : String}
    {navigation : Navigation}
    (begins : h.beginNavigateTree targetId = some (.ok (some navigation))) :
    h.phase = .idle ∧ navigation.targetEntry ∈ h.session.storage.entries ∧
      navigation.targetEntry.id = targetId := by
  unfold AgentHarness.beginNavigateTree at begins
  split at begins
  · cases begins
  · rename_i notBusy
    rw [sound.kept.getLeafId] at begins
    dsimp only at begins
    split at begins
    · cases begins
    · split at begins
      · cases begins
      · rename_i targetEntry found
        obtain ⟨collected, -, same⟩ := Option.map_eq_some_iff.mp begins
        rcases collected with error | collected
        · cases same
        · cases same
          rw [SessionStorage.getEntry, sound.kept.byId] at found
          obtain ⟨there, named⟩ := mem_of_buildById found
          exact ⟨Decidable.not_not.mp notBusy, there, named⟩

theorem Inv.navigated (fits : Fits draws limit) {navigation : Navigation}
    (inv : Inv draws limit ⟨h, .branchSummary navigation⟩) (summarize auth : Bool)
    (hook : Except AgentHarnessError (Option SessionBeforeTreeResult))
    (generated : Except BranchSummaryError BranchSummaryResult)
    (heard : Except AgentHarnessError Unit) (room : h.session.calls + 202 ≤ limit) :
    Inv draws limit
      ⟨(h.endNavigateTree draws clock navigation summarize auth hook generated heard).2, .none⟩ := by
  obtain ⟨-, known⟩ := inv.holds
  have sane : h.Sane draws limit := inv.sane
  rcases @AgentHarness.endNavigateTree_cases draws clock h navigation summarize auth hook generated
    heard with ended | ⟨summary, ended⟩
  · rw [ended]
    exact ⟨sane.phase .idle _, rfl⟩
  · obtain ⟨id, s', moved, follows⟩ :=
      Session.moveTo_law (h.session.time clock) fits sane.sound (by omega) known summary
    rw [ended, moved]
    refine ⟨⟨follows.sound, ?_, sane.mayWait, sane.nextTurn⟩, rfl⟩
    refine follows.conversations sane.conversations fun entry isBody conversation => ?_
    cases summary with
    | none => cases isBody
    | some summary =>
        refine conversation.plain ?_
        rw [List.mem_singleton.mp isBody]
        rfl

/-! ## Any moves -/

theorem AgentHarness.calls_emitRunFailure (failureMessage : AssistantMessage) (handled : Nat) :
    h.session.calls ≤ (h.emitRunFailure draws clock failureMessage handled).2.session.calls :=
  calls_handleAgentEvents _

theorem AgentHarness.calls_serves {e : LoopEvent} (serves : h.Serves draws clock e h') :
    h.session.calls ≤ h'.session.calls := by
  cases serves with
  | emit => exact calls_handleAgentEvent _
  | prepareNextTurn outfit => exact calls_prepareNextTurn outfit
  | _ => exact Nat.le_refl _

variable {s s' : HarnessState} {m : Move}

/-- Identifiers are only ever made. -/
theorem calls_moves (moves : Moves draws clock s m s') :
    s.harness.session.calls ≤ s'.harness.session.calls := by
  cases moves with
  | request heard => exact AgentHarness.calls_handle heard _
  | prompt begins =>
      obtain ⟨-, rfl⟩ := AgentHarness.beginPrompt_ok begins
      exact Nat.le_refl _
  | beginTurn begins =>
      obtain ⟨-, -, rfl⟩ := AgentHarness.beginTurn_ok begins
      exact Nat.le_refl _
  | noTurn fails =>
      rw [AgentHarness.beginTurn_error fails]
  | startTurn starts =>
      cases starts
      exact Nat.le_refl _
  | noStart => exact Nat.le_refl _
  | loop _ serves => exact AgentHarness.calls_serves serves
  | returned => exact AgentHarness.calls_settle true
  | failed =>
      exact Nat.le_trans (AgentHarness.calls_emitRunFailure _ _) (AgentHarness.calls_settle false)
  | compact => exact Nat.le_refl _
  | @compacted h preparation hook text heard noneGiven =>
      rcases @AgentHarness.endCompact_cases draws clock h preparation hook text heard noneGiven with
        ended | ⟨summary, ended⟩
      · rw [ended]
      · rw [ended]
        exact Session.calls_appendTypedEntry _ _
  | navigateTree => exact Nat.le_refl _
  | @navigated h navigation summarize auth hook generated heard =>
      rcases @AgentHarness.endNavigateTree_cases draws clock h navigation summarize auth hook
        generated heard with ended | ⟨summary, ended⟩
      · rw [ended]
      · rw [ended]
        exact Session.calls_moveTo _ _ _

theorem Inv.moves (fits : Fits draws limit) (inv : Inv draws limit s)
    (moves : Moves draws clock s m s') (room : s'.harness.session.calls + 202 ≤ limit) :
    Inv draws limit s' := by
  have more := calls_moves moves
  cases moves with
  | request heard noResult => exact inv.request fits noResult heard room
  | prompt begins => exact inv.prompt begins
  | beginTurn begins => exact inv.beginTurn begins
  | noTurn fails =>
      rw [AgentHarness.beginTurn_error fails]
      exact ⟨inv.sane.phase .idle _, rfl⟩
  | startTurn starts noResults => exact inv.startTurn starts noResults
  | noStart error => exact ⟨inv.sane.phase .idle _, rfl⟩
  | loop goesOn serves once transforms => exact inv.loop fits room goesOn serves once transforms
  | returned returns => exact settle_law fits inv.sane room fun _ => Runs.idle inv.holds returns
  | failed throws model aborted timestamp handled =>
      refine settle_law fits (emitRunFailure_sane fits inv.sane ?_) room (fun never => by cases never)
      exact Nat.le_trans (Nat.add_le_add_right (AgentHarness.calls_settle false) 202) room
  | compact begins =>
      obtain ⟨-, prepared⟩ := beginCompact_law inv.sane.sound begins
      exact ⟨inv.sane.phase .compaction _, rfl, prepared⟩
  | compacted text heard noneGiven =>
      exact inv.compacted fits text heard noneGiven (Nat.le_trans (Nat.add_le_add_right more 202) room)
  | navigateTree begins =>
      obtain ⟨-, there, -⟩ := beginNavigateTree_law inv.sane.sound begins
      exact ⟨inv.sane.phase .branchSummary _, rfl,
        newLeaf_known inv.sane.sound.kept.grown there⟩
  | navigated summarize auth hook generated heard =>
      exact inv.navigated fits summarize auth hook generated heard
        (Nat.le_trans (Nat.add_le_add_right more 202) room)

theorem inv_create (model : Model) (thinkingLevel : Option ThinkingLevel)
    (steeringMode followUpMode : Option QueueMode) :
    Inv draws limit ⟨AgentHarness.create model thinkingLevel steeringMode followUpMode, .none⟩ :=
  ⟨⟨.empty, conversations_empty, fun body there => (by cases there),
    fun message there => (by cases there)⟩, rfl⟩

/-- The invariant holds of whatever can be reached, as long as identifiers can be told apart. -/
theorem reached_inv (fits : Fits draws limit) (reached : Reached draws clock s)
    (room : s.harness.session.calls + 202 ≤ limit) : Inv draws limit s := by
  induction reached with
  | created => exact inv_create _ _ _ _
  | moved reached moves ih =>
      exact (ih (Nat.le_trans (Nat.add_le_add_right (calls_moves moves) 202) room)).moves fits moves
        room

end Steps

end NestifyClaw.Agent
