import NestifyClaw.Agent.Messages
import NestifyClaw.Concurrent

/-!
# What the agent loop works with

The context of a run, the tools, the events that a run publishes, and the calls it makes
(`LoopCall`): to the sink of its events, to the model, to the tools and to the hooks of its
configuration.  A run is a program over these calls (`LoopM`) and leaves `LoopEvent`s, each with the
answer that its call was given.  What callees answer is left open; a tool reports partial results
only before its promise settles, so that they come with its answer (`Execution`).

What others see of a run is its `steps`.  `polled` and `converted` are what it took from the queues
and what it had converted for the model.  A call that `IsAside` is neither about these nor about the
end of a turn, one that `IsSilent` shows nothing either (`steps_of_makes`, `polled_of_makes`,
`converted_of_makes`).
-/

namespace NestifyClaw.Agent

open Concurrent

inductive ToolExecutionMode
  | sequential
  | parallel
  deriving DecidableEq

inductive ThinkingLevel
  | off
  | minimal
  | low
  | medium
  | high
  | xhigh
  | max
  deriving DecidableEq

structure Model where
  api : String
  provider : String
  id : String

structure AgentTool where
  name : String
  executionMode : Option ToolExecutionMode
  /-- `prepareArguments` is defined. -/
  prepareArguments : Bool

structure AgentToolResult where
  content : List ContentBlock
  details : Option Json
  terminate : Option Bool

structure BeforeToolCallResult where
  block : Bool
  reason : Option String

structure AfterToolCallResult where
  content : Option (List ContentBlock)
  details : Option Json
  isError : Option Bool
  terminate : Option Bool

structure AgentContext where
  systemPrompt : String
  messages : List AgentMessage
  tools : Option (List AgentTool)

def AgentContext.push (context : AgentContext) (messages : List AgentMessage) : AgentContext :=
  { context with messages := context.messages ++ messages }

/-- `context.tools?.find((t) => t.name === name)` -/
def AgentContext.findTool (context : AgentContext) (name : String) : Option AgentTool :=
  context.tools.bind fun tools => tools.find? fun t => t.name = name

structure AgentLoopTurnUpdate where
  context : Option AgentContext
  model : Option Model
  thinkingLevel : Option ThinkingLevel

/-- Of a hook, whether it is defined. -/
structure AgentLoopConfig where
  model : Model
  reasoning : Option ThinkingLevel
  apiKey : Option String
  toolExecution : Option ToolExecutionMode
  transformContext : Bool
  getApiKey : Bool
  shouldStopAfterTurn : Bool
  prepareNextTurn : Bool
  getSteeringMessages : Bool
  getFollowUpMessages : Bool
  beforeToolCall : Bool
  afterToolCall : Bool

/-! ## Events -/

inductive UpdateKind
  | textStart
  | textDelta
  | textEnd
  | thinkingStart
  | thinkingDelta
  | thinkingEnd
  | toolcallStart
  | toolcallDelta
  | toolcallEnd

/-- What the model's response yields while it is read. -/
inductive AssistantMessageEvent
  | start (message : AssistantMessage)
  | update (kind : UpdateKind) (message : AssistantMessage)
  | done
  | error

inductive AgentEvent
  | agentStart
  | agentEnd (messages : List AgentMessage)
  | turnStart
  | turnEnd (message : AssistantMessage) (toolResults : List ToolResultMessage)
  | messageStart (message : AgentMessage)
  | messageUpdate (message : AgentMessage) (assistantMessageEvent : AssistantMessageEvent)
  | messageEnd (message : AgentMessage)
  | toolExecutionStart (toolCall : AgentToolCall)
  | toolExecutionUpdate (toolCall : AgentToolCall) (partialResult : AgentToolResult)
  | toolExecutionEnd (toolCallId toolName : String) (result : AgentToolResult) (isError : Bool)

/-! ## Calls -/

/-- `BeforeToolCallContext`; with what is known afterwards, `AfterToolCallContext`. -/
structure ToolCallContext where
  assistantMessage : AssistantMessage
  toolCall : AgentToolCall
  args : Json
  context : AgentContext

/-- `ShouldStopAfterTurnContext`, `PrepareNextTurnContext` -/
structure TurnContext where
  message : AssistantMessage
  toolResults : List ToolResultMessage
  context : AgentContext
  newMessages : List AgentMessage

/-- The request to the model. -/
structure StreamRequest where
  model : Model
  systemPrompt : String
  messages : List Message
  tools : Option (List AgentTool)
  apiKey : Option String
  reasoning : Option ThinkingLevel

inductive LoopCall
  | emit (event : AgentEvent)
  /-- `signal?.aborted` -/
  | aborted
  | now
  | getSteeringMessages
  | getFollowUpMessages
  | transformContext (messages : List AgentMessage)
  | convertToLlm (messages : List AgentMessage)
  | getApiKey (provider : String)
  | streamFunction (request : StreamRequest)
  /-- `response.result()` -/
  | result
  | prepareArguments (tool : AgentTool) (arguments : List (String × Json))
  | validateToolArguments (tool : AgentTool) (toolCall : AgentToolCall)
  | beforeToolCall (context : ToolCallContext)
  | execute (tool : AgentTool) (toolCallId : String) (args : Json)
  | afterToolCall (context : ToolCallContext) (result : AgentToolResult) (isError : Bool)
  | prepareNextTurn (context : TurnContext)
  | shouldStopAfterTurn (context : TurnContext)

/-- What reading a response yields, and the error that ends it early. -/
structure Response where
  events : List AssistantMessageEvent
  interrupted : Option String

/-- The partial results that a tool reports while it runs, and what it returns or throws.  None is
reported later. -/
structure Execution where
  updates : List AgentToolResult
  outcome : Except String AgentToolResult

def LoopCall.Result : LoopCall → Type
  | emit _ => Unit
  | aborted => Bool
  | now => Timestamp
  | getSteeringMessages => List AgentMessage
  | getFollowUpMessages => List AgentMessage
  | transformContext _ => List AgentMessage
  | convertToLlm _ => List Message
  | getApiKey _ => Option String
  | streamFunction _ => Response
  | result => AssistantMessage
  | prepareArguments _ _ => List (String × Json)
  | validateToolArguments _ _ => Json
  | beforeToolCall _ => Option BeforeToolCallResult
  | execute _ _ _ => Execution
  | afterToolCall _ _ _ => Option AfterToolCallResult
  | prepareNextTurn _ => Option AgentLoopTurnUpdate
  | shouldStopAfterTurn _ => Bool

/-- An error is given by its message. -/
abbrev LoopM := Prog LoopCall LoopCall.Result String

abbrev LoopEvent := Event LoopCall LoopCall.Result String

def emit (event : AgentEvent) : LoopM Unit := Prog.await (LoopCall.emit event)

/-- `signal?.aborted` -/
def isAborted : LoopM Bool := Prog.get LoopCall.aborted

/-! ## What shows -/

/-- What a run does that others see: it publishes an event, or runs a tool. -/
inductive Step
  | event (event : AgentEvent)
  | execute (tool : AgentTool) (toolCallId : String) (args : Json)

def LoopCall.step : LoopCall → Option Step
  | emit event => some (.event event)
  | execute tool toolCallId args => some (.execute tool toolCallId args)
  | _ => none

def steps (es : List LoopEvent) : List Step := es.filterMap fun e => e.call.step

def Step.toEvent : Step → Option AgentEvent
  | .event published => some published
  | .execute .. => none

/-- The events that a run published. -/
def emitted (es : List LoopEvent) : List AgentEvent := (steps es).filterMap Step.toEvent

@[simp] theorem steps_nil : steps [] = [] := rfl

@[simp] theorem steps_append (es es' : List LoopEvent) : steps (es ++ es') = steps es ++ steps es' :=
  List.filterMap_append

/-- The call takes messages that wait, is about what the model is asked with, or ends a turn. -/
def LoopCall.isTurnCall : LoopCall → Bool
  | emit (.turnEnd ..) => true
  | emit (.agentEnd _) => true
  | getSteeringMessages => true
  | getFollowUpMessages => true
  | transformContext _ => true
  | convertToLlm _ => true
  | streamFunction _ => true
  | prepareNextTurn _ => true
  | _ => false

/-- The messages that were taken from the queues. -/
def polled (es : List LoopEvent) : List AgentMessage :=
  es.flatMap fun
    | ⟨.getSteeringMessages, some (.ok messages)⟩ => messages
    | ⟨.getFollowUpMessages, some (.ok messages)⟩ => messages
    | _ => []

@[simp] theorem polled_nil : polled [] = [] := rfl

@[simp] theorem polled_append (es es' : List LoopEvent) :
    polled (es ++ es') = polled es ++ polled es' := List.flatMap_append

/-- The transcripts that were converted for the model. -/
def converted (es : List LoopEvent) : List (List AgentMessage) :=
  es.filterMap fun e => match e.call with
    | .convertToLlm messages => some messages
    | _ => none

@[simp] theorem converted_nil : converted [] = [] := rfl

@[simp] theorem converted_append (es es' : List LoopEvent) :
    converted (es ++ es') = converted es ++ converted es' := List.filterMap_append

def LoopCall.IsAside (c : LoopCall) : Prop := c.isTurnCall = false

/-- The call does not show and is none of those that make the turns. -/
def LoopCall.IsSilent (c : LoopCall) : Prop := c.step = none ∧ c.IsAside

section Makes

variable {α : Type} {p : LoopM α} {es : List LoopEvent} {o : Option (Except String α)}

theorem steps_of_makes (silent : Prog.Makes LoopCall.IsSilent p) (traces : p.Traces es o) :
    steps es = [] :=
  List.filterMap_eq_nil_iff.mpr fun e there => (silent es o traces e there).1

theorem polled_of_makes (aside : Prog.Makes LoopCall.IsAside p) (traces : p.Traces es o) :
    polled es = [] := by
  refine List.flatMap_eq_nil_iff.mpr fun e there => ?_
  have isAside := aside es o traces e there
  obtain ⟨call, answer⟩ := e
  cases call with
  | getSteeringMessages => cases isAside
  | getFollowUpMessages => cases isAside
  | _ => rfl

theorem converted_of_makes (aside : Prog.Makes LoopCall.IsAside p) (traces : p.Traces es o) :
    converted es = [] := by
  refine List.filterMap_eq_nil_iff.mpr fun e there => ?_
  have isAside := aside es o traces e there
  obtain ⟨call, answer⟩ := e
  cases call with
  | convertToLlm messages => cases isAside
  | _ => rfl

theorem aside_of_silent (silent : Prog.Makes LoopCall.IsSilent p) :
    Prog.Makes LoopCall.IsAside p :=
  silent.mono fun _ isSilent => isSilent.2

theorem makes_pure {P : LoopCall → Prop} (a : α) : Prog.Makes P (pure a : LoopM α) :=
  Prog.makes_done a

theorem makes_await {P : LoopCall → Prop} {c : LoopCall} (isKind : P c) :
    Prog.Makes P (Prog.await c : LoopM c.Result) :=
  Prog.makes_await isKind

theorem isAborted_silent : Prog.Makes LoopCall.IsSilent isAborted :=
  Prog.makes_get (by exact ⟨rfl, rfl⟩)

theorem emit_aside {event : AgentEvent} (aside : (LoopCall.emit event).IsAside) :
    Prog.Makes LoopCall.IsAside (emit event) :=
  makes_await aside

end Makes

/-- Callees that give the model's answers one after the other, and nothing goes wrong in them. -/
def scripted (answers : List AssistantMessage) :
    Prog.Callees Nat LoopCall LoopCall.Result String
  | n, .emit _ => (.ok (), n)
  | n, .aborted => (.ok false, n)
  | n, .now => (.ok n, n)
  | n, .getSteeringMessages => (.ok [], n)
  | n, .getFollowUpMessages => (.ok [], n)
  | n, .transformContext messages => (.ok messages, n)
  | n, .convertToLlm messages => (.ok (convertToLlm messages), n)
  | n, .getApiKey _ => (.ok none, n)
  | n, .streamFunction _ => (.ok ⟨[.done], none⟩, n)
  | n, .result => (answers[n]?.elim (.error "No answer") .ok, n + 1)
  | n, .prepareArguments _ arguments => (.ok arguments, n)
  | n, .validateToolArguments _ toolCall => (.ok (.object toolCall.arguments), n)
  | n, .beforeToolCall _ => (.ok none, n)
  | n, .execute .. => (.ok ⟨[], .ok ⟨[], none, none⟩⟩, n)
  | n, .afterToolCall .. => (.ok none, n)
  | n, .prepareNextTurn _ => (.ok none, n)
  | n, .shouldStopAfterTurn _ => (.ok false, n)

/-- No hooks but the two queues. -/
def plainConfig : AgentLoopConfig :=
  { model := ⟨"api", "provider", "model"⟩, reasoning := none, apiKey := none, toolExecution := none,
    transformContext := false, getApiKey := false, shouldStopAfterTurn := false,
    prepareNextTurn := false, getSteeringMessages := true, getFollowUpMessages := true,
    beforeToolCall := false, afterToolCall := false }

def oneTool : AgentContext :=
  { systemPrompt := "", messages := [], tools := some [⟨"list", none, false⟩] }

def answerOf (content : List AssistantBlock) : AssistantMessage :=
  { content, api := "api", provider := "provider", model := "model", usage := none,
    stopReason := .stop, errorMessage := none, timestamp := 0 }

def listCall : AgentToolCall := ⟨"call", "list", []⟩

/-- An answer that calls the tool, and one that ends the run. -/
def oneCall : List AssistantMessage := [answerOf [.toolCall listCall], answerOf [.text "Done."]]

theorem steps_emit {event : AgentEvent} {es : List LoopEvent} {r : Except String Unit}
    (traces : (emit event).Traces es (some r)) : steps es = [.event event] := by
  rw [Prog.traces_await traces]
  rfl

theorem polled_emit {event : AgentEvent} {es : List LoopEvent} {r : Except String Unit}
    (traces : (emit event).Traces es (some r)) : polled es = [] := by
  rw [Prog.traces_await traces]
  rfl

theorem converted_emit {event : AgentEvent} {es : List LoopEvent} {r : Except String Unit}
    (traces : (emit event).Traces es (some r)) : converted es = [] := by
  rw [Prog.traces_await traces]
  rfl

end NestifyClaw.Agent
