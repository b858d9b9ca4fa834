import NestifyClaw.Agent.Branch
import NestifyClaw.Agent.Compactions
import NestifyClaw.Agent.LiveTranscript
import NestifyClaw.Agent.LoopExchange

/-!
# The agent harness

A harness runs the agent loop over a session.  Others may call it while a run goes on, while the
model writes a summary, or while hooks are asked: what they would write to the session waits then,
and goes there when a run ends a turn.  `Moves` lets the calls of a run and those of others come in
any order; a prompt, a compaction and a move in the tree are taken to be asked for when the one
before has returned, what is written to the session is written at once, and those who listen to a
queue are told in the step that takes messages off it.
-/

namespace NestifyClaw.Agent

open Concurrent

inductive AgentHarnessErrorCode
  | busy
  | invalidState
  | invalidArgument
  | session
  | hook
  | auth
  | compaction
  | branchSummary
  | unknown
  deriving DecidableEq

structure AgentHarnessError where
  code : AgentHarnessErrorCode
  message : String

inductive AgentHarnessPhase
  | idle
  | turn
  | compaction
  | branchSummary
  | retry
  deriving DecidableEq

inductive QueueMode
  | all
  | oneAtATime
  deriving DecidableEq

/-- An entry without its name, its parent and its time. -/
abbrev PendingSessionWrite := EntryBody

/-- What the options of a harness give a turn. -/
structure Outfit where
  systemPrompt : String
  activeTools : List AgentTool

structure AgentHarnessTurnState where
  messages : List AgentMessage
  systemPrompt : String
  model : Model
  thinkingLevel : ThinkingLevel
  activeTools : List AgentTool

structure AgentHarness where
  session : Session
  phase : AgentHarnessPhase
  /-- Of the abort controller of a run, whether it was used. -/
  runAborted : Option Bool
  pendingSessionWrites : List PendingSessionWrite
  model : Model
  thinkingLevel : ThinkingLevel
  steerQueue : List UserMessage
  steeringQueueMode : QueueMode
  followUpQueue : List UserMessage
  followUpQueueMode : QueueMode
  nextTurnQueue : List AgentMessage

def createUserMessage (text : String) (images : List ContentBlock) (timestamp : Timestamp) :
    UserMessage where
  content := .blocks (.text text :: images)
  timestamp := timestamp

def createFailureMessage (model : Model) (error : String) (aborted : Bool)
    (timestamp : Timestamp) : AssistantMessage where
  content := [.text ""]
  api := model.api
  provider := model.provider
  model := model.id
  usage := some EMPTY_USAGE
  stopReason := if aborted then .aborted else .error
  errorMessage := some error
  timestamp := timestamp

/-- `normalizeHarnessError` of an error of the session. -/
def SessionError.normalize (error : SessionError) : AgentHarnessError := ⟨.session, error.message⟩

/-- `normalizeHarnessError` of an error of a compaction. -/
def CompactionError.normalize (error : CompactionError) : AgentHarnessError :=
  ⟨.compaction, error.message⟩

/-! ## Writing to the session -/

section Session

variable (draws : Nat → Draw) (clock : Nat → Timestamp)

namespace Session

/-- The time of the next entry. -/
def time (s : Session) : Timestamp := clock s.storage.entries.length

def buildContext (s : Session) : Option (Except SessionError SessionContext) :=
  (s.getBranch none).map fun branch => branch.map buildSessionContext

/-- The result without the name of the new entry. -/
def discard (result : Except SessionError (Option String) × Session) :
    Except SessionError Unit × Session :=
  (result.1.map fun _ => (), result.2)

/-- A write of `flushPendingSessionWrites`; one for a summary would only be taken off. -/
def write (s : Session) : PendingSessionWrite → Except SessionError Unit × Session
  | .message message => discard (s.appendMessage draws (s.time clock) message)
  | .modelChange provider modelId =>
      discard (s.appendModelChange draws (s.time clock) provider modelId)
  | .thinkingLevelChange thinkingLevel =>
      discard (s.appendThinkingLevelChange draws (s.time clock) thinkingLevel)
  | .custom customType data => discard (s.appendCustomEntry draws (s.time clock) customType data)
  | .customMessage customType content display details =>
      discard (s.appendCustomMessageEntry draws (s.time clock) customType content display details)
  | .label targetId label => discard (s.appendLabel draws (s.time clock) targetId label)
  | .sessionInfo name => discard (s.appendSessionName draws (s.time clock) (name.getD ""))
  | .leaf targetId => s.setLeafId draws (s.time clock) targetId
  | .compaction .. => (.ok (), s)
  | .branchSummary .. => (.ok (), s)

/-- A write that fails stays the first one. -/
def flush (s : Session) : List PendingSessionWrite →
    Except SessionError Unit × Session × List PendingSessionWrite
  | [] => (.ok (), s, [])
  | write :: writes =>
      match s.write draws clock write with
      | (.error error, s) => (.error error, s, write :: writes)
      | (.ok _, s) => s.flush writes

end Session

end Session

namespace AgentHarness

/-- A harness over a new session. -/
def create (model : Model) (thinkingLevel : Option ThinkingLevel)
    (steeringMode followUpMode : Option QueueMode) : AgentHarness where
  session := Session.empty
  phase := .idle
  runAborted := none
  pendingSessionWrites := []
  model := model
  thinkingLevel := thinkingLevel.getD .off
  steerQueue := []
  steeringQueueMode := steeringMode.getD .oneAtATime
  followUpQueue := []
  followUpQueueMode := followUpMode.getD .oneAtATime
  nextTurnQueue := []

variable (draws : Nat → Draw) (clock : Nat → Timestamp)

def flushPendingSessionWrites (h : AgentHarness) : Except SessionError Unit × AgentHarness :=
  let flushed := h.session.flush draws clock h.pendingSessionWrites
  (flushed.1, { h with session := flushed.2.1, pendingSessionWrites := flushed.2.2 })

/-! ## Runs -/

/-- What the harness does about an event before, or behind, those who listen to it. -/
def handleAgentEvent (h : AgentHarness) : AgentEvent → Except SessionError Unit × AgentHarness
  | .messageEnd message =>
      let appended := h.session.appendMessage draws (h.session.time clock) message
      (appended.1.map fun _ => (), { h with session := appended.2 })
  | .turnEnd _ _ => h.flushPendingSessionWrites draws clock
  | .agentEnd _ =>
      match h.flushPendingSessionWrites draws clock with
      | (.error error, h) => (.error error, h)
      | (.ok _, h) => (.ok (), { h with phase := .idle })
  | _ => (.ok (), h)

/-- Takes what waits off a queue; where a listener throws, it is put back. -/
def drainQueuedMessages (queue : List UserMessage) (mode : QueueMode)
    (heard : Except AgentHarnessError Unit) :
    Except AgentHarnessError (List UserMessage) × List UserMessage :=
  let messages := if mode = .all then queue else queue.take 1
  let rest := if mode = .all then [] else queue.drop 1
  if messages.isEmpty then (.ok messages, rest)
  else match heard with
    | .ok _ => (.ok messages, rest)
    | .error error => (.error error, messages ++ rest)

def createTurnState (h : AgentHarness) (outfit : Outfit) :
    Option (Except SessionError AgentHarnessTurnState) :=
  h.session.buildContext.map fun context => context.map fun context =>
    { messages := context.messages
      systemPrompt := outfit.systemPrompt
      model := h.model
      thinkingLevel := h.thinkingLevel
      activeTools := outfit.activeTools }

end AgentHarness

def createContext (turnState : AgentHarnessTurnState) (systemPrompt : Option String) :
    AgentContext where
  systemPrompt := systemPrompt.getD turnState.systemPrompt
  messages := turnState.messages
  tools := some turnState.activeTools

def createLoopConfig (turnState : AgentHarnessTurnState) : AgentLoopConfig where
  model := turnState.model
  reasoning := if turnState.thinkingLevel = .off then none else some turnState.thinkingLevel
  apiKey := none
  toolExecution := none
  transformContext := true
  getApiKey := false
  shouldStopAfterTurn := false
  prepareNextTurn := true
  getSteeringMessages := true
  getFollowUpMessages := true
  beforeToolCall := true
  afterToolCall := true

/-- What `runAgentLoop` is called with. -/
structure Started where
  messages : List AgentMessage
  context : AgentContext
  config : AgentLoopConfig

def Started.Traces (run : Started) (es : List LoopEvent)
    (o : Option (Except String (List AgentMessage))) : Prop :=
  ∃ fuel, (runAgentLoop fuel run.messages run.context run.config).Traces es o

/-- What a run will be started with, as long as the hook is asked. -/
structure Starting where
  turnState : AgentHarnessTurnState
  messages : List AgentMessage

structure BeforeAgentStartResult where
  messages : Option (List AgentMessage)
  systemPrompt : Option String

namespace AgentHarness

variable (draws : Nat → Draw) (clock : Nat → Timestamp)

/-- The hook of the loop: what waits is written, and the next turn begins with what the session
shows then. -/
def prepareNextTurn (h : AgentHarness) (outfit : Outfit) :
    Option (Except SessionError AgentLoopTurnUpdate) × AgentHarness :=
  match h.flushPendingSessionWrites draws clock with
  | (.error error, h) => (some (.error error), h)
  | (.ok _, h) =>
      ((h.createTurnState outfit).map fun turnState => turnState.map fun turnState =>
        { context := some (createContext turnState none)
          model := some turnState.model
          thinkingLevel := some turnState.thinkingLevel }, h)

/-- The beginning of `prompt`.  `skill` and `promptFromTemplate` differ in where the text is from. -/
def beginPrompt (h : AgentHarness) : Except AgentHarnessError AgentHarness :=
  if h.phase ≠ .idle then .error ⟨.busy, "AgentHarness is busy"⟩ else .ok { h with phase := .turn }

/-- `prompt` and `executeTurn` up to the hook; what throws leaves an idle harness. -/
def beginTurn (h : AgentHarness) (outfit : Outfit) (message : UserMessage)
    (heard : Except AgentHarnessError Unit) :
    Option (Except AgentHarnessError Starting × AgentHarness) :=
  (h.createTurnState outfit).map fun
    | .error error => (.error error.normalize, { h with phase := .idle })
    | .ok turnState =>
        match (if h.nextTurnQueue.isEmpty then .ok () else heard) with
        | .error error => (.error error, { h with phase := .idle })
        | .ok _ =>
            (.ok ⟨turnState, h.nextTurnQueue ++ [.user message]⟩, { h with nextTurnQueue := [] })

/-- `executeTurn` from the hook to the run.  What waited for the turn is gone where the hook
throws. -/
def startTurn (h : AgentHarness) (starting : Starting)
    (hook : Except AgentHarnessError (Option BeforeAgentStartResult)) :
    Except AgentHarnessError Started × AgentHarness :=
  match hook with
  | .error error => (.error error, { h with phase := .idle })
  | .ok beforeResult =>
      (.ok
        { messages :=
            starting.messages ++ (beforeResult.bind BeforeAgentStartResult.messages).getD []
          context := createContext starting.turnState
            (beforeResult.bind BeforeAgentStartResult.systemPrompt)
          config := createLoopConfig starting.turnState },
        { h with runAborted := some false })

def failureEvents (failureMessage : AssistantMessage) : List AgentEvent :=
  [.messageStart (.assistant failureMessage), .messageEnd (.assistant failureMessage),
    .turnEnd failureMessage [], .agentEnd [.assistant failureMessage]]

def handleAgentEvents (h : AgentHarness) : List AgentEvent → Except SessionError Unit × AgentHarness
  | [] => (.ok (), h)
  | event :: events =>
      match h.handleAgentEvent draws clock event with
      | (.error error, h) => (.error error, h)
      | (.ok _, h) => h.handleAgentEvents events

/-- A listener may throw at each of the events, so that only `handled` of them are seen to. -/
def emitRunFailure (h : AgentHarness) (failureMessage : AssistantMessage) (handled : Nat) :
    Except SessionError Unit × AgentHarness :=
  h.handleAgentEvents draws clock ((failureEvents failureMessage).take handled)

/-- The end of `executeTurn` and `prompt`; what throws leaves an idle harness. -/
def settle (h : AgentHarness) (returned : Bool) : AgentHarness :=
  match h.flushPendingSessionWrites draws clock with
  | (.error _, h) => { h with phase := .idle, runAborted := none }
  | (.ok _, h) => { h with phase := if returned then h.phase else .idle, runAborted := none }

end AgentHarness

/-! ## Compaction -/

structure CompactResult where
  summary : String
  firstKeptEntryId : String
  tokensBefore : Nat
  details : Option Json

structure SessionBeforeCompactResult where
  cancel : Bool
  compaction : Option CompactResult

/-- `compact` around the texts that the model writes. -/
def compact (preparation : CompactionPreparation) (text : Except CompactionError String) :
    Except CompactionError CompactResult :=
  if preparation.firstKeptEntryId = "" then .error noUuid
  else text.map fun summary =>
    let lists := computeFileLists preparation.fileOps
    { summary := summary ++ formatFileOperations lists
      firstKeptEntryId := preparation.firstKeptEntryId
      tokensBefore := preparation.tokensBefore
      details := some lists.toDetails }

namespace AgentHarness

variable (draws : Nat → Draw) (clock : Nat → Timestamp)

/-- `compact` of the harness up to its hook. -/
def beginCompact (h : AgentHarness) (auth : Bool) :
    Option (Except AgentHarnessError CompactionPreparation) :=
  if h.phase ≠ .idle then some (.error ⟨.busy, "compact() requires idle harness"⟩)
  else if !auth then some (.error ⟨.auth, "No auth available for compaction"⟩)
  else (h.session.getBranch none).map fun
    | .error error => .error error.normalize
    | .ok branchEntries =>
        match prepareCompaction branchEntries DEFAULT_COMPACTION_SETTINGS with
        | .error error => .error error.normalize
        | .ok none => .error ⟨.compaction, "Nothing to compact"⟩
        | .ok (some preparation) => .ok preparation

/-- The rest of `compact`, which leaves an idle harness however it ends. -/
def endCompact (h : AgentHarness) (preparation : CompactionPreparation)
    (hook : Except AgentHarnessError (Option SessionBeforeCompactResult))
    (text : Except CompactionError String) (heard : Except AgentHarnessError Unit) :
    Except AgentHarnessError CompactResult × AgentHarness :=
  let h := { h with phase := .idle }
  match hook with
  | .error error => (.error error, h)
  | .ok hookResult =>
      if hookResult.any SessionBeforeCompactResult.cancel then
        (.error ⟨.compaction, "Compaction cancelled"⟩, h)
      else
        let provided := hookResult.bind SessionBeforeCompactResult.compaction
        match provided.elim (compact preparation text) .ok with
        | .error error => (.error error.normalize, h)
        | .ok result =>
            let appended := h.session.appendCompaction draws (h.session.time clock) result.summary
              result.firstKeptEntryId result.tokensBefore result.details (some provided.isSome)
            match appended with
            | (.error error, session) => (.error error.normalize, { h with session })
            | (.ok _, session) => (heard.map fun _ => result, { h with session })

end AgentHarness

/-! ## Moves in the tree -/

inductive BranchSummaryErrorCode
  | aborted
  | summarizationFailed
  | invalidSession
  deriving DecidableEq

structure BranchSummaryError where
  code : BranchSummaryErrorCode
  message : String

structure BranchSummaryResult where
  summary : String
  lists : FileLists

structure ProvidedSummary where
  summary : String
  details : Option Json

structure SessionBeforeTreeResult where
  cancel : Bool
  summary : Option ProvidedSummary

structure NavigateTreeResult where
  cancelled : Bool
  editorText : Option String
  summaryEntryId : Option String

/-- What `navigateTree` has found out when its hook is asked. -/
structure Navigation where
  targetEntry : SessionTreeEntry
  oldLeafId : Option String
  collected : CollectEntriesResult

/-- The texts of a content. -/
def Content.texts : Content → String
  | .text t => t
  | .blocks bs => String.join (bs.filterMap fun
      | .text t => some t
      | .image .. => none)

/-- `newLeafId` and `editorText`: what a user has written goes back to the editor. -/
def SessionTreeEntry.newLeaf (entry : SessionTreeEntry) : Option String × Option String :=
  match entry.body with
  | .message (.user message) => (entry.parentId, some message.content.texts)
  | .customMessage _ content _ _ => (entry.parentId, some content.texts)
  | _ => (some entry.id, none)

/-- The summary for the branch that is left: that of the hook or, where it is wanted and there is
something to summarise, that of the model.  It is `none` where the model was aborted. -/
def branchSummaryFor (navigation : Navigation) (summarize auth : Bool)
    (provided : Option ProvidedSummary) (generated : Except BranchSummaryError BranchSummaryResult) :
    Except AgentHarnessError (Option (Option ProvidedSummary)) :=
  if provided.all (fun summary => summary.summary = "") ∧ summarize = true ∧
      navigation.collected.entries ≠ [] then
    if !auth then .error ⟨.auth, "No auth available for branch summary"⟩
    else match generated with
      | .error error =>
          if error.code = .aborted then .ok none else .error ⟨.branchSummary, error.message⟩
      | .ok result => .ok (some (some ⟨result.summary, some result.lists.toDetails⟩))
  else .ok (some provided)

namespace AgentHarness

variable (draws : Nat → Draw) (clock : Nat → Timestamp)

/-- `navigateTree` up to its hook; `none` inside where the target is the leaf already. -/
def beginNavigateTree (h : AgentHarness) (targetId : String) :
    Option (Except AgentHarnessError (Option Navigation)) :=
  if h.phase ≠ .idle then some (.error ⟨.busy, "navigateTree() requires idle harness"⟩)
  else match h.session.storage.getLeafId with
    | .error error => some (.error error.normalize)
    | .ok oldLeafId =>
        if oldLeafId = some targetId then some (.ok none)
        else match h.session.storage.getEntry targetId with
          | none => some (.error ⟨.invalidArgument, "Entry " ++ targetId ++ " not found"⟩)
          | some targetEntry =>
              (collectEntriesForBranchSummary h.session oldLeafId targetId).map fun
                | .error error => .error error.normalize
                | .ok collected => .ok (some ⟨targetEntry, oldLeafId, collected⟩)

/-- The rest of `navigateTree`, which leaves an idle harness however it ends. -/
def endNavigateTree (h : AgentHarness) (navigation : Navigation) (summarize auth : Bool)
    (hook : Except AgentHarnessError (Option SessionBeforeTreeResult))
    (generated : Except BranchSummaryError BranchSummaryResult)
    (heard : Except AgentHarnessError Unit) :
    Except AgentHarnessError NavigateTreeResult × AgentHarness :=
  let h := { h with phase := .idle }
  match hook with
  | .error error => (.error error, h)
  | .ok hookResult =>
      if hookResult.any SessionBeforeTreeResult.cancel then (.ok ⟨true, none, none⟩, h)
      else
        let provided := hookResult.bind SessionBeforeTreeResult.summary
        match branchSummaryFor navigation summarize auth provided generated with
        | .error error => (.error error, h)
        | .ok none => (.ok ⟨true, none, none⟩, h)
        | .ok (some summary) =>
            let (newLeafId, editorText) := navigation.targetEntry.newLeaf
            let summary := (summary.filter fun summary => summary.summary ≠ "").map fun summary =>
              { summary := summary.summary, details := summary.details,
                fromHook := some provided.isSome }
            match h.session.moveTo draws (h.session.time clock) newLeafId summary with
            | (.error error, session) => (.error error.normalize, { h with session })
            | (.ok summaryId, session) =>
                (heard.map fun _ => ⟨false, editorText, summaryId⟩, { h with session })

end AgentHarness

/-! ## What others may ask -/

inductive HarnessRequest
  | steer (message : UserMessage)
  | followUp (message : UserMessage)
  | nextTurn (message : UserMessage)
  | appendMessage (message : AgentMessage)
  | setModel (model : Model)
  | setThinkingLevel (level : ThinkingLevel)
  | setSteeringMode (mode : QueueMode)
  | setFollowUpMode (mode : QueueMode)
  | abort

def ThinkingLevel.toString : ThinkingLevel → String
  | off => "off"
  | minimal => "minimal"
  | low => "low"
  | medium => "medium"
  | high => "high"
  | xhigh => "xhigh"
  | max => "max"

namespace AgentHarness

variable (draws : Nat → Draw) (clock : Nat → Timestamp)

/-- Written at once by an idle harness, else when a run ends a turn. -/
def writeOrWait (h : AgentHarness) (body : PendingSessionWrite) :
    Except AgentHarnessError Unit × AgentHarness :=
  if h.phase = .idle then
    match h.session.write draws clock body with
    | (.error error, session) => (.error error.normalize, { h with session })
    | (.ok _, session) => (.ok (), { h with session })
  else (.ok (), { h with pendingSessionWrites := h.pendingSessionWrites ++ [body] })

/-- A request, and what the listeners say to it. -/
def handle (h : AgentHarness) (heard : Except AgentHarnessError Unit) :
    HarnessRequest → Except AgentHarnessError Unit × AgentHarness
  | .steer message =>
      if h.phase = .idle then (.error ⟨.invalidState, "Cannot steer while idle"⟩, h)
      else (heard, { h with steerQueue := h.steerQueue ++ [message] })
  | .followUp message =>
      if h.phase = .idle then (.error ⟨.invalidState, "Cannot follow up while idle"⟩, h)
      else (heard, { h with followUpQueue := h.followUpQueue ++ [message] })
  | .nextTurn message => (heard, { h with nextTurnQueue := h.nextTurnQueue ++ [.user message] })
  | .appendMessage message => h.writeOrWait draws clock (.message message)
  | .setModel model =>
      match h.writeOrWait draws clock (.modelChange model.provider model.id) with
      | (.error error, h) => (.error error, h)
      | (.ok _, h) => (heard, { h with model })
  | .setThinkingLevel level =>
      match h.writeOrWait draws clock (.thinkingLevelChange level.toString) with
      | (.error error, h) => (.error error, h)
      | (.ok _, h) => (heard, { h with thinkingLevel := level })
  | .setSteeringMode mode => (.ok (), { h with steeringQueueMode := mode })
  | .setFollowUpMode mode => (.ok (), { h with followUpQueueMode := mode })
  | .abort =>
      (heard, { h with
        steerQueue := []
        followUpQueue := []
        runAborted := h.runAborted.map fun _ => true })

/-- How the calls of the loop are answered, and what becomes of the harness.  What hooks, tools and
the model answer is left open. -/
inductive Serves (h : AgentHarness) : LoopEvent → AgentHarness → Prop
  /-- Those who listen may throw behind the harness. -/
  | emit {event : AgentEvent} {answer : Except String Unit}
      (heard : answer = .ok () → (h.handleAgentEvent draws clock event).1 = .ok ()) :
      Serves h ⟨.emit event, some answer⟩ (h.handleAgentEvent draws clock event).2
  | aborted : Serves h ⟨.aborted, some (.ok (h.runAborted.getD false))⟩ h
  | steering (heard : Except AgentHarnessError Unit) :
      Serves h
        ⟨.getSteeringMessages,
          some (((drainQueuedMessages h.steerQueue h.steeringQueueMode heard).1.map
            (List.map AgentMessage.user)).mapError AgentHarnessError.message)⟩
        { h with steerQueue := (drainQueuedMessages h.steerQueue h.steeringQueueMode heard).2 }
  | followUp (heard : Except AgentHarnessError Unit) :
      Serves h
        ⟨.getFollowUpMessages,
          some (((drainQueuedMessages h.followUpQueue h.followUpQueueMode heard).1.map
            (List.map AgentMessage.user)).mapError AgentHarnessError.message)⟩
        { h with
          followUpQueue := (drainQueuedMessages h.followUpQueue h.followUpQueueMode heard).2 }
  | convertToLlm (messages : List AgentMessage) :
      Serves h ⟨.convertToLlm messages, some (.ok (Agent.convertToLlm messages))⟩ h
  | prepareNextTurn (outfit : Outfit) {turn : TurnContext}
      {answer : Except SessionError AgentLoopTurnUpdate}
      (given : (h.prepareNextTurn draws clock outfit).1 = some answer) :
      Serves h ⟨.prepareNextTurn turn, some ((answer.map some).mapError SessionError.message)⟩
        (h.prepareNextTurn draws clock outfit).2
  | outside {c : LoopCall} (answer : Except String c.Result) (isOutside : c.isTurnCall = false)
      (noEvent : ∀ event, c ≠ .emit event) (notAborted : c ≠ .aborted) :
      Serves h ⟨c, some answer⟩ h
  | transformContext {messages : List AgentMessage} (answer : Except String (List AgentMessage)) :
      Serves h ⟨.transformContext messages, some answer⟩ h
  | streamFunction {request : StreamRequest} (answer : Except String Response) :
      Serves h ⟨.streamFunction request, some answer⟩ h

end AgentHarness

/-! ## Moves -/

/-- What a harness is in the middle of. -/
inductive Activity
  | none
  | prompt (message : UserMessage)
  | starting (starting : Starting)
  | run (run : Started) (es : List LoopEvent)
  | compaction (preparation : CompactionPreparation)
  | branchSummary (navigation : Navigation)

structure HarnessState where
  harness : AgentHarness
  activity : Activity

/-- What may happen next. -/
inductive Move
  | request (request : HarnessRequest)
  | prompt (message : UserMessage)
  | beginTurn
  | startTurn
  | loop (e : LoopEvent)
  | settled
  | compact
  | compacted
  | navigateTree (targetId : String)
  | navigated

/-- Only the loop writes tool results. -/
def HarnessRequest.NoResult : HarnessRequest → Prop
  | appendMessage message => message.isToolResult = false
  | _ => True

section Moves

variable (draws : Nat → Draw) (clock : Nat → Timestamp)

inductive Moves : HarnessState → Move → HarnessState → Prop
  | request {h : AgentHarness} {activity : Activity} {request : HarnessRequest}
      (heard : Except AgentHarnessError Unit) (noResult : request.NoResult) :
      Moves ⟨h, activity⟩ (.request request) ⟨(h.handle draws clock heard request).2, activity⟩
  | prompt {h h' : AgentHarness} {message : UserMessage} (begins : h.beginPrompt = .ok h') :
      Moves ⟨h, .none⟩ (.prompt message) ⟨h', .prompt message⟩
  | beginTurn {h h' : AgentHarness} {message : UserMessage} {outfit : Outfit}
      {heard : Except AgentHarnessError Unit} {starting : Starting}
      (begins : h.beginTurn outfit message heard = some (.ok starting, h')) :
      Moves ⟨h, .prompt message⟩ .beginTurn ⟨h', .starting starting⟩
  | noTurn {h h' : AgentHarness} {message : UserMessage} {outfit : Outfit}
      {heard : Except AgentHarnessError Unit} {error : AgentHarnessError}
      (fails : h.beginTurn outfit message heard = some (.error error, h')) :
      Moves ⟨h, .prompt message⟩ .beginTurn ⟨h', .none⟩
  | startTurn {h h' : AgentHarness} {starting : Starting} {run : Started}
      {beforeResult : Option BeforeAgentStartResult}
      (starts : h.startTurn starting (.ok beforeResult) = (.ok run, h'))
      (noResults : ∀ messages, beforeResult.bind BeforeAgentStartResult.messages = some messages →
        NoResults messages) :
      Moves ⟨h, .starting starting⟩ .startTurn ⟨h', .run run []⟩
  | noStart {h : AgentHarness} {starting : Starting} (error : AgentHarnessError) :
      Moves ⟨h, .starting starting⟩ .startTurn ⟨(h.startTurn starting (.error error)).2, .none⟩
  /-- The hook for the context keeps tool results behind their calls, and a response of the model
  starts once. -/
  | loop {h h' : AgentHarness} {run : Started} {es : List LoopEvent} {e : LoopEvent}
      {o : Option (Except String (List AgentMessage))} (goesOn : run.Traces (es ++ [e]) o)
      (serves : h.Serves draws clock e h') (once : startsOnce e = true)
      (transforms : ∀ messages messages', e = ⟨.transformContext messages, some (.ok messages')⟩ →
        Paired messages → Paired messages') :
      Moves ⟨h, .run run es⟩ (.loop e) ⟨h', .run run (es ++ [e])⟩
  | returned {h : AgentHarness} {run : Started} {es : List LoopEvent}
      {messages : List AgentMessage} (returns : run.Traces es (some (.ok messages))) :
      Moves ⟨h, .run run es⟩ .settled ⟨h.settle draws clock true, .none⟩
  | failed {h : AgentHarness} {run : Started} {es : List LoopEvent} {error : String}
      (throws : run.Traces es (some (.error error))) (model : Model) (aborted : Bool)
      (timestamp : Timestamp) (handled : Nat) :
      Moves ⟨h, .run run es⟩ .settled
        ⟨(h.emitRunFailure draws clock
          (createFailureMessage model error aborted timestamp) handled).2.settle draws clock false,
          .none⟩
  | compact {h : AgentHarness} {preparation : CompactionPreparation}
      (begins : h.beginCompact true = some (.ok preparation)) :
      Moves ⟨h, .none⟩ .compact ⟨{ h with phase := .compaction }, .compaction preparation⟩
  /-- The hook may cancel a compaction, but gives none of its own. -/
  | compacted {h : AgentHarness} {preparation : CompactionPreparation}
      {hook : Except AgentHarnessError (Option SessionBeforeCompactResult)}
      (text : Except CompactionError String) (heard : Except AgentHarnessError Unit)
      (noneGiven : ∀ result, hook = .ok (some result) → result.compaction = none) :
      Moves ⟨h, .compaction preparation⟩ .compacted
        ⟨(h.endCompact draws clock preparation hook text heard).2, .none⟩
  | navigateTree {h : AgentHarness} {targetId : String} {navigation : Navigation}
      (begins : h.beginNavigateTree targetId = some (.ok (some navigation))) :
      Moves ⟨h, .none⟩ (.navigateTree targetId)
        ⟨{ h with phase := .branchSummary }, .branchSummary navigation⟩
  | navigated {h : AgentHarness} {navigation : Navigation} (summarize auth : Bool)
      (hook : Except AgentHarnessError (Option SessionBeforeTreeResult))
      (generated : Except BranchSummaryError BranchSummaryResult)
      (heard : Except AgentHarnessError Unit) :
      Moves ⟨h, .branchSummary navigation⟩ .navigated
        ⟨(h.endNavigateTree draws clock navigation summarize auth hook generated heard).2, .none⟩

/-- What can become of a new harness. -/
inductive Reached : HarnessState → Prop
  | created (model : Model) (thinkingLevel : Option ThinkingLevel)
      (steeringMode followUpMode : Option QueueMode) :
      Reached ⟨AgentHarness.create model thinkingLevel steeringMode followUpMode, .none⟩
  | moved {s s' : HarnessState} {m : Move} (reached : Reached s) (moves : Moves draws clock s m s') :
      Reached s'

end Moves

end NestifyClaw.Agent
