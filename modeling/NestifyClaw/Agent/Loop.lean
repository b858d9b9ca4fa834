import NestifyClaw.Agent.ToolCalls

/-!
# The agent loop

A run asks the model, executes the tool calls of its answer, and asks again, until no call is left
and no message is waiting.  `runAgentLoop` begins one with prompts, and `runAgentLoopContinue` goes
on behind a transcript; `agentLoop` and `agentLoopContinue` publish through a stream, and report what
a run throws as a message of the model.

`streamAssistantResponse` asks the model, and `readResponse` keeps the answer in the context while it
grows.  `runTurn` is one turn and `turns` both loops of `runLoop`, which takes fuel for its turns: a
run that needs more of them is one that has not ended yet.
-/

namespace NestifyClaw.Agent

open Concurrent

/-! ## The model's response -/

/-- `partialMessage` and the context that it stands in while the response is read. -/
structure Streaming where
  partialMessage : Option AssistantMessage
  context : AgentContext

/-- `context.messages[context.messages.length - 1] = message` -/
def AgentContext.replaceLast (context : AgentContext) (message : AgentMessage) : AgentContext :=
  { context with messages := context.messages.dropLast ++ [message] }

def finishResponse (st : Streaming) : LoopM (AssistantMessage × AgentContext) := do
  let finalMessage ← Prog.await LoopCall.result
  match st.partialMessage with
  | some _ => do
      emit (.messageEnd (.assistant finalMessage))
      pure (finalMessage, st.context.replaceLast (.assistant finalMessage))
  | none => do
      emit (.messageStart (.assistant finalMessage))
      emit (.messageEnd (.assistant finalMessage))
      pure (finalMessage, st.context.push [.assistant finalMessage])

def readResponse (interrupted : Option String) :
    List AssistantMessageEvent → Streaming → LoopM (AssistantMessage × AgentContext)
  | [], st =>
      match interrupted with
      | some error => Prog.fail error
      | none => finishResponse st
  | .start message :: events, st => do
      emit (.messageStart (.assistant message))
      readResponse interrupted events
        { partialMessage := some message, context := st.context.push [.assistant message] }
  | .update kind message :: events, st =>
      match st.partialMessage with
      | some _ => do
          emit (.messageUpdate (.assistant message) (.update kind message))
          readResponse interrupted events
            { partialMessage := some message
              context := st.context.replaceLast (.assistant message) }
      | none => readResponse interrupted events st
  | .done :: _, st => finishResponse st
  | .error :: _, st => finishResponse st

def transformMessages (config : AgentLoopConfig) (messages : List AgentMessage) :
    LoopM (List AgentMessage) :=
  if config.transformContext then Prog.await (LoopCall.transformContext messages)
  else pure messages

/-- An empty key counts as none. -/
def resolveApiKey (config : AgentLoopConfig) : LoopM (Option String) :=
  if config.getApiKey then do
    let key ← Prog.await (LoopCall.getApiKey config.model.provider)
    pure (match key with
      | some key => if key ≠ "" then some key else config.apiKey
      | none => config.apiKey)
  else pure config.apiKey

def streamAssistantResponse (context : AgentContext) (config : AgentLoopConfig) :
    LoopM (AssistantMessage × AgentContext) := do
  let messages ← transformMessages config context.messages
  let llmMessages ← Prog.await (LoopCall.convertToLlm messages)
  let apiKey ← resolveApiKey config
  let response ← Prog.await (LoopCall.streamFunction
    { model := config.model, systemPrompt := context.systemPrompt, messages := llmMessages,
      tools := context.tools, apiKey, reasoning := config.reasoning })
  readResponse response.interrupted response.events { partialMessage := none, context }

/-! ## Turns -/

structure LoopState where
  currentContext : AgentContext
  newMessages : List AgentMessage
  config : AgentLoopConfig
  firstTurn : Bool
  hasMoreToolCalls : Bool
  pendingMessages : List AgentMessage

def LoopState.push (s : LoopState) (messages : List AgentMessage) : LoopState :=
  { s with
    currentContext := s.currentContext.push messages
    newMessages := s.newMessages ++ messages }

def emitMessages : List AgentMessage → LoopM Unit
  | [] => pure ()
  | message :: messages => do
      emit (.messageStart message)
      emit (.messageEnd message)
      emitMessages messages

def beginTurn (s : LoopState) : LoopM Unit :=
  if !s.firstTurn then emit .turnStart else pure ()

def executeTools (context : AgentContext) (message : AssistantMessage) (config : AgentLoopConfig) :
    LoopM ExecutedToolCallBatch :=
  if message.toolCalls.isEmpty then pure { messages := [], terminate := true }
  else executeToolCalls context message config

def AgentLoopConfig.update (config : AgentLoopConfig) (update : AgentLoopTurnUpdate) :
    AgentLoopConfig :=
  { config with
    model := update.model.getD config.model
    reasoning := match update.thinkingLevel with
      | none => config.reasoning
      | some .off => none
      | some level => some level }

def LoopState.update (s : LoopState) : Option AgentLoopTurnUpdate → LoopState
  | none => s
  | some update =>
      { s with
        currentContext := update.context.getD s.currentContext
        config := s.config.update update }

def LoopState.turnContext (s : LoopState) (message : AssistantMessage)
    (toolResults : List ToolResultMessage) : TurnContext where
  message := message
  toolResults := toolResults
  context := s.currentContext
  newMessages := s.newMessages

def askPrepareNextTurn (s : LoopState) (message : AssistantMessage)
    (toolResults : List ToolResultMessage) : LoopM (Option AgentLoopTurnUpdate) :=
  if s.config.prepareNextTurn then
    Prog.await (LoopCall.prepareNextTurn (s.turnContext message toolResults))
  else pure none

def askShouldStop (s : LoopState) (message : AssistantMessage)
    (toolResults : List ToolResultMessage) : LoopM Bool :=
  if s.config.shouldStopAfterTurn then
    Prog.await (LoopCall.shouldStopAfterTurn (s.turnContext message toolResults))
  else pure false

def getSteeringMessages (config : AgentLoopConfig) : LoopM (List AgentMessage) :=
  if config.getSteeringMessages then Prog.await LoopCall.getSteeringMessages else pure []

def getFollowUpMessages (config : AgentLoopConfig) : LoopM (List AgentMessage) :=
  if config.getFollowUpMessages then Prog.await LoopCall.getFollowUpMessages else pure []

/-- How a turn leaves the loop: with its result, or in the state for the next turn. -/
inductive TurnEnd
  | finished (newMessages : List AgentMessage)
  | goesOn (s : LoopState)

def endRun (newMessages : List AgentMessage) : LoopM TurnEnd := do
  emit (.agentEnd newMessages)
  pure (.finished newMessages)

/-- What follows the tool results: the turn's end, the hooks, and the messages that wait. -/
def endTurn (s : LoopState) (message : AssistantMessage) (toolResults : List ToolResultMessage) :
    LoopM TurnEnd := do
  emit (.turnEnd message toolResults)
  let update ← askPrepareNextTurn s message toolResults
  let s := s.update update
  let stop ← askShouldStop s message toolResults
  if stop then endRun s.newMessages
  else do
    let pendingMessages ← getSteeringMessages s.config
    pure (.goesOn { s with pendingMessages })

/-- What follows the model's answer. -/
def answerTools (s : LoopState) (message : AssistantMessage) : LoopM TurnEnd :=
  if message.stopReason = .error ∨ message.stopReason = .aborted then do
    emit (.turnEnd message [])
    endRun s.newMessages
  else do
    let batch ← executeTools s.currentContext message s.config
    endTurn { s.push (batch.messages.map .toolResult) with hasMoreToolCalls := !batch.terminate }
      message batch.messages

/-- The body of the inner loop. -/
def runTurn (s : LoopState) : LoopM TurnEnd := do
  beginTurn s
  emitMessages s.pendingMessages
  let s := s.push s.pendingMessages
  let answer ← streamAssistantResponse s.currentContext s.config
  answerTools
    { s with
      currentContext := answer.2
      newMessages := s.newMessages ++ [.assistant answer.1]
      firstTurn := false }
    answer.1

/-- Both loops: a turn while there are tool calls or messages waiting, else the follow-ups. -/
def turns : Nat → LoopState → LoopM (List AgentMessage)
  | 0, _ => Prog.halt
  | fuel + 1, s =>
      if s.hasMoreToolCalls || !s.pendingMessages.isEmpty then do
        let turnEnd ← runTurn s
        match turnEnd with
        | .finished newMessages => pure newMessages
        | .goesOn s => turns fuel s
      else do
        let followUpMessages ← getFollowUpMessages s.config
        if followUpMessages.isEmpty then do
          emit (.agentEnd s.newMessages)
          pure s.newMessages
        else
          turns fuel { s with pendingMessages := followUpMessages, hasMoreToolCalls := true }

def runLoop (fuel : Nat) (currentContext : AgentContext) (newMessages : List AgentMessage)
    (config : AgentLoopConfig) : LoopM (List AgentMessage) := do
  let pendingMessages ← getSteeringMessages config
  turns fuel
    { currentContext, newMessages, config, firstTurn := true, hasMoreToolCalls := true,
      pendingMessages }

def runAgentLoop (fuel : Nat) (prompts : List AgentMessage) (context : AgentContext)
    (config : AgentLoopConfig) : LoopM (List AgentMessage) := do
  emit .agentStart
  emit .turnStart
  emitMessages prompts
  runLoop fuel (context.push prompts) prompts config

/-- It throws where there is nothing that the model could answer. -/
def runAgentLoopContinue (fuel : Nat) (context : AgentContext) (config : AgentLoopConfig) :
    LoopM (List AgentMessage) :=
  match context.messages.getLast? with
  | none => Prog.fail "Cannot continue: no messages in context"
  | some (.assistant _) => Prog.fail "Cannot continue from message role: assistant"
  | some _ => do
      emit .agentStart
      emit .turnStart
      runLoop fuel context [] config

/-! ## Runs as event streams -/

def createLoopFailureMessage (config : AgentLoopConfig) (error : String) (aborted : Bool)
    (timestamp : Timestamp) : AssistantMessage where
  content := [.text ""]
  api := config.model.api
  provider := config.model.provider
  model := config.model.id
  usage := some EMPTY_USAGE
  stopReason := if aborted then .aborted else .error
  errorMessage := some error
  timestamp := timestamp

/-- A run that failed is ended for its listeners by a message that says so. -/
def pushLoopFailure (config : AgentLoopConfig) (error : String) : LoopM (List AgentMessage) := do
  let aborted ← isAborted
  let timestamp ← Prog.get LoopCall.now
  let failureMessage := createLoopFailureMessage config error aborted timestamp
  emit (.messageStart (.assistant failureMessage))
  emit (.messageEnd (.assistant failureMessage))
  emit (.turnEnd failureMessage [])
  emit (.agentEnd [.assistant failureMessage])
  pure [.assistant failureMessage]

def streamRun (config : AgentLoopConfig) (run : LoopM (List AgentMessage)) :
    LoopM (List AgentMessage) :=
  run.tryCatch (pushLoopFailure config)

def agentLoop (fuel : Nat) (prompts : List AgentMessage) (context : AgentContext)
    (config : AgentLoopConfig) : LoopM (List AgentMessage) :=
  streamRun config (runAgentLoop fuel prompts context config)

/-- What cannot be continued is refused before there is a stream. -/
def agentLoopContinue (fuel : Nat) (context : AgentContext) (config : AgentLoopConfig) :
    LoopM (List AgentMessage) :=
  match context.messages.getLast? with
  | none => Prog.fail "Cannot continue: no messages in context"
  | some (.assistant _) => Prog.fail "Cannot continue from message role: assistant"
  | some _ => streamRun config (runAgentLoopContinue fuel context config)

end NestifyClaw.Agent
