import NestifyClaw.Agent.Types

/-!
# Tool calls

How the loop executes the tool calls of one assistant message, one after the other or with the
tools running at the same time, and what holds in both cases whatever the order in which the tools
finish (`executeToolCalls_law`).
-/

namespace NestifyClaw.Agent

open Concurrent

/-! ## The loop's functions -/

/-- `FinalizedToolCallOutcome` -/
structure FinalizedToolCall where
  toolCall : AgentToolCall
  result : AgentToolResult
  isError : Bool

structure PreparedToolCall where
  toolCall : AgentToolCall
  tool : AgentTool
  args : Json

inductive Preparation
  | prepared (prepared : PreparedToolCall)
  | immediate (result : AgentToolResult) (isError : Bool)

structure ExecutedToolCallBatch where
  messages : List ToolResultMessage
  terminate : Bool

def createErrorToolResult (message : String) : AgentToolResult where
  content := [.text message]
  details := some (.object [])
  terminate := none

def shouldTerminateToolBatch (finalizedCalls : List FinalizedToolCall) : Bool :=
  finalizedCalls.length > 0 &&
    finalizedCalls.all fun finalized => finalized.result.terminate == some true

def prepareToolCallArguments (tool : AgentTool) (toolCall : AgentToolCall) : LoopM AgentToolCall :=
  if !tool.prepareArguments then pure toolCall
  else do
    let arguments ← Prog.await (LoopCall.prepareArguments tool toolCall.arguments)
    pure { toolCall with arguments }

/-- `Tool execution was blocked` stands where no reason is given or an empty one. -/
def blockReason (reason : Option String) : String :=
  match reason with
  | some reason => if reason ≠ "" then reason else "Tool execution was blocked"
  | none => "Tool execution was blocked"

/-- The hook, and whether the signal is aborted behind it. -/
def askBeforeToolCall (context : ToolCallContext) (config : AgentLoopConfig) :
    LoopM (Option BeforeToolCallResult × Bool) :=
  if config.beforeToolCall then do
    let beforeResult ← Prog.await (LoopCall.beforeToolCall context)
    let aborted ← isAborted
    pure (beforeResult, aborted)
  else pure (none, false)

/-- What `prepareToolCall` does with a tool that it found, without its `catch`. -/
def tryPrepareToolCall (currentContext : AgentContext) (assistantMessage : AssistantMessage)
    (toolCall : AgentToolCall) (config : AgentLoopConfig) (tool : AgentTool) :
    LoopM Preparation := do
  let preparedToolCall ← prepareToolCallArguments tool toolCall
  let args ← Prog.await (LoopCall.validateToolArguments tool preparedToolCall)
  let asked ← askBeforeToolCall
    { assistantMessage, toolCall, args, context := currentContext } config
  match asked with
  | (_, true) => pure (.immediate (createErrorToolResult "Operation aborted") true)
  | (some ⟨true, reason⟩, false) =>
      pure (.immediate (createErrorToolResult (blockReason reason)) true)
  | _ => do
      let aborted ← isAborted
      if aborted then pure (.immediate (createErrorToolResult "Operation aborted") true)
      else pure (.prepared { toolCall, tool, args })

def prepareToolCall (currentContext : AgentContext) (assistantMessage : AssistantMessage)
    (toolCall : AgentToolCall) (config : AgentLoopConfig) : LoopM Preparation :=
  match currentContext.findTool toolCall.name with
  | none =>
      pure (.immediate (createErrorToolResult ("Tool " ++ toolCall.name ++ " not found")) true)
  | some tool =>
      (tryPrepareToolCall currentContext assistantMessage toolCall config tool).tryCatch fun error =>
        pure (.immediate (createErrorToolResult error) true)

/-- All updates are published; the first rejection among them is thrown afterwards. -/
def emitUpdates (toolCall : AgentToolCall) : List AgentToolResult → LoopM Unit
  | [] => pure ()
  | partialResult :: updates =>
      Prog.call (LoopCall.emit (.toolExecutionUpdate toolCall partialResult)) fun answer =>
        (emitUpdates toolCall updates).andThen fun rest =>
          Prog.ofExcept (answer.bind fun _ => rest)

/-- What a tool returned, or the error that it threw as a result. -/
def executed (outcome : Except String AgentToolResult) : AgentToolResult × Bool :=
  match outcome with
  | .ok result => (result, false)
  | .error error => (createErrorToolResult error, true)

/-- A tool that throws leaves an error result; an update that cannot be published is thrown on. -/
def executePreparedToolCall (prepared : PreparedToolCall) : LoopM (AgentToolResult × Bool) :=
  Prog.call (LoopCall.execute prepared.tool prepared.toolCall.id prepared.args) fun
    | .ok execution => do
        emitUpdates prepared.toolCall execution.updates
        pure (executed execution.outcome)
    | .error error => pure (executed (.error error))

/-- `afterResult.details ?? result.details` -/
def orDetails (details : Option Json) (result : Option Json) : Option Json :=
  match details with
  | none => result
  | some .null => result
  | some details => some details

def override (result : AgentToolResult) (isError : Bool) :
    Option AfterToolCallResult → AgentToolResult × Bool
  | none => (result, isError)
  | some afterResult =>
      ({ content := afterResult.content.getD result.content
         details := orDetails afterResult.details result.details
         terminate := afterResult.terminate.or result.terminate },
        afterResult.isError.getD isError)

def finalizeExecutedToolCall (currentContext : AgentContext) (assistantMessage : AssistantMessage)
    (prepared : PreparedToolCall) (result : AgentToolResult) (isError : Bool)
    (config : AgentLoopConfig) : LoopM FinalizedToolCall :=
  if config.afterToolCall then
    Prog.call (LoopCall.afterToolCall
        { assistantMessage, toolCall := prepared.toolCall, args := prepared.args,
          context := currentContext } result isError) fun
      | .ok afterResult =>
          let (result, isError) := override result isError afterResult
          pure { toolCall := prepared.toolCall, result, isError }
      | .error error =>
          pure { toolCall := prepared.toolCall, result := createErrorToolResult error,
                 isError := true }
  else pure { toolCall := prepared.toolCall, result, isError }

def emitToolExecutionEnd (finalized : FinalizedToolCall) : LoopM Unit :=
  emit (.toolExecutionEnd finalized.toolCall.id finalized.toolCall.name finalized.result
    finalized.isError)

/-- The message for a result at a time. -/
def toolResultMessage (finalized : FinalizedToolCall) (timestamp : Timestamp) :
    ToolResultMessage where
  toolCallId := finalized.toolCall.id
  toolName := finalized.toolCall.name
  content := finalized.result.content
  details := finalized.result.details
  isError := finalized.isError
  timestamp := timestamp

def createToolResultMessage (finalized : FinalizedToolCall) : LoopM ToolResultMessage := do
  let timestamp ← Prog.get LoopCall.now
  pure (toolResultMessage finalized timestamp)

def emitToolResultMessage (message : ToolResultMessage) : LoopM Unit := do
  emit (.messageStart (.toolResult message))
  emit (.messageEnd (.toolResult message))

def executeAndFinalize (currentContext : AgentContext) (assistantMessage : AssistantMessage)
    (config : AgentLoopConfig) (prepared : PreparedToolCall) : LoopM FinalizedToolCall := do
  let executed ← executePreparedToolCall prepared
  finalizeExecutedToolCall currentContext assistantMessage prepared executed.1 executed.2 config

/-- The outcome of a call behind its preparation. -/
def finalizeToolCall (currentContext : AgentContext) (assistantMessage : AssistantMessage)
    (config : AgentLoopConfig) (toolCall : AgentToolCall) : Preparation → LoopM FinalizedToolCall
  | .immediate result isError => pure { toolCall, result, isError }
  | .prepared prepared => executeAndFinalize currentContext assistantMessage config prepared

/-- The loop over the tool calls that are left, each one finished before the next. -/
def executeToolCallsSequential (currentContext : AgentContext)
    (assistantMessage : AssistantMessage) (config : AgentLoopConfig) :
    List AgentToolCall → LoopM (List (FinalizedToolCall × ToolResultMessage))
  | [] => pure []
  | toolCall :: toolCalls => do
      emit (.toolExecutionStart toolCall)
      let preparation ← prepareToolCall currentContext assistantMessage toolCall config
      let finalized ←
        finalizeToolCall currentContext assistantMessage config toolCall preparation
      emitToolExecutionEnd finalized
      let message ← createToolResultMessage finalized
      emitToolResultMessage message
      let aborted ← isAborted
      if aborted then pure [(finalized, message)]
      else do
        let rest ← executeToolCallsSequential currentContext assistantMessage config toolCalls
        pure ((finalized, message) :: rest)

/-- A call that has its outcome, or one whose tool is still to run. -/
inductive FinalizedToolCallEntry
  | settled (finalized : FinalizedToolCall)
  | deferred (prepared : PreparedToolCall)

/-- An outcome that is there already ends the call's events at once. -/
def enterToolCall (toolCall : AgentToolCall) : Preparation → LoopM FinalizedToolCallEntry
  | .immediate result isError => do
      emitToolExecutionEnd { toolCall, result, isError }
      pure (.settled { toolCall, result, isError })
  | .prepared prepared => pure (.deferred prepared)

/-- The loop that prepares the tool calls that are left. -/
def startToolCalls (currentContext : AgentContext) (assistantMessage : AssistantMessage)
    (config : AgentLoopConfig) : List AgentToolCall → LoopM (List FinalizedToolCallEntry)
  | [] => pure []
  | toolCall :: toolCalls => do
      emit (.toolExecutionStart toolCall)
      let preparation ← prepareToolCall currentContext assistantMessage toolCall config
      let entry ← enterToolCall toolCall preparation
      let aborted ← isAborted
      if aborted then pure [entry]
      else do
        let rest ← startToolCalls currentContext assistantMessage config toolCalls
        pure (entry :: rest)

/-- What `Promise.all` waits for. -/
def finishToolCall (currentContext : AgentContext) (assistantMessage : AssistantMessage)
    (config : AgentLoopConfig) : FinalizedToolCallEntry → LoopM FinalizedToolCall
  | .settled finalized => pure finalized
  | .deferred prepared => do
      let finalized ← executeAndFinalize currentContext assistantMessage config prepared
      emitToolExecutionEnd finalized
      pure finalized

def emitToolResults : List FinalizedToolCall →
    LoopM (List (FinalizedToolCall × ToolResultMessage))
  | [] => pure []
  | finalized :: rest => do
      let message ← createToolResultMessage finalized
      emitToolResultMessage message
      let more ← emitToolResults rest
      pure ((finalized, message) :: more)

def executeToolCallsParallel (currentContext : AgentContext)
    (assistantMessage : AssistantMessage) (config : AgentLoopConfig)
    (toolCalls : List AgentToolCall) : LoopM (List (FinalizedToolCall × ToolResultMessage)) := do
  let finalizedCalls ← startToolCalls currentContext assistantMessage config toolCalls
  let orderedFinalizedCalls ←
    Prog.awaitAll finalizedCalls (finishToolCall currentContext assistantMessage config)
  emitToolResults orderedFinalizedCalls

/-- Some called tool must not run beside others. -/
def hasSequentialToolCall (currentContext : AgentContext) (toolCalls : List AgentToolCall) : Bool :=
  toolCalls.any fun toolCall =>
    (currentContext.findTool toolCall.name).any fun tool =>
      tool.executionMode == some .sequential

/-- The calls that were finished, with the messages for them. -/
def finishToolCalls (currentContext : AgentContext) (assistantMessage : AssistantMessage)
    (config : AgentLoopConfig) : LoopM (List (FinalizedToolCall × ToolResultMessage)) :=
  let toolCalls := assistantMessage.toolCalls
  if config.toolExecution == some .sequential || hasSequentialToolCall currentContext toolCalls
  then executeToolCallsSequential currentContext assistantMessage config toolCalls
  else executeToolCallsParallel currentContext assistantMessage config toolCalls

def executeToolCalls (currentContext : AgentContext) (assistantMessage : AssistantMessage)
    (config : AgentLoopConfig) : LoopM ExecutedToolCallBatch := do
  let finished ← finishToolCalls currentContext assistantMessage config
  pure
    { messages := finished.map Prod.snd
      terminate := shouldTerminateToolBatch (finished.map Prod.fst) }

/-! ## What shows of a tool call -/

/-- A tool at work: what it was given and the partial results that it reported. -/
structure ToolRun where
  tool : AgentTool
  args : Json
  updates : List AgentToolResult

/-- A call that came to an end, with its tool's run, if there was one. -/
structure ExecutedToolCall where
  finalized : FinalizedToolCall
  run : Option ToolRun
  timestamp : Timestamp

namespace ExecutedToolCall

def toolCall (x : ExecutedToolCall) : AgentToolCall := x.finalized.toolCall

def message (x : ExecutedToolCall) : ToolResultMessage := toolResultMessage x.finalized x.timestamp

end ExecutedToolCall

def messageSteps (message : AgentMessage) : List Step :=
  [.event (.messageStart message), .event (.messageEnd message)]

def runSteps (toolCall : AgentToolCall) : Option ToolRun → List Step
  | none => []
  | some run =>
      .execute run.tool toolCall.id run.args ::
        run.updates.map fun partialResult => .event (.toolExecutionUpdate toolCall partialResult)

def startStep (toolCall : AgentToolCall) : Step := .event (.toolExecutionStart toolCall)

def endStep (finalized : FinalizedToolCall) : Step :=
  .event (.toolExecutionEnd finalized.toolCall.id finalized.toolCall.name finalized.result
    finalized.isError)

/-- A call starts, runs its tool at most once, reports while it runs, and ends. -/
def callSteps (finalized : FinalizedToolCall) (run : Option ToolRun) : List Step :=
  startStep finalized.toolCall :: runSteps finalized.toolCall run ++ [endStep finalized]

def ExecutedToolCall.callSteps (x : ExecutedToolCall) : List Step :=
  Agent.callSteps x.finalized x.run

def FinalizedToolCallEntry.toolCall : FinalizedToolCallEntry → AgentToolCall
  | .settled finalized => finalized.toolCall
  | .deferred prepared => prepared.toolCall

def FinalizedToolCallEntry.steps : FinalizedToolCallEntry → List Step
  | .settled finalized => [startStep finalized.toolCall, endStep finalized]
  | .deferred prepared => [startStep prepared.toolCall]

def ExecutedToolCall.resultSteps (x : ExecutedToolCall) : List Step :=
  messageSteps (.toolResult x.message)

/-- The signal was found aborted. -/
def Aborted (es : List LoopEvent) : Prop := ⟨.aborted, some (.ok true)⟩ ∈ es

section Laws

variable {context : AgentContext} {assistantMessage : AssistantMessage} {config : AgentLoopConfig}
  {toolCall : AgentToolCall} {es : List LoopEvent}

theorem prepareToolCallArguments_silent (tool : AgentTool) :
    Prog.Makes LoopCall.IsSilent (prepareToolCallArguments tool toolCall) := by
  rw [prepareToolCallArguments]
  split
  · exact makes_pure _
  · exact (makes_await (by exact ⟨rfl, rfl⟩)).bind fun _ => makes_pure _

theorem askBeforeToolCall_silent (call : ToolCallContext) :
    Prog.Makes LoopCall.IsSilent (askBeforeToolCall call config) := by
  rw [askBeforeToolCall]
  split
  · exact (makes_await (by exact ⟨rfl, rfl⟩)).bind fun _ => isAborted_silent.bind fun _ => makes_pure _
  · exact makes_pure _

theorem prepareToolCall_silent :
    Prog.Makes LoopCall.IsSilent (prepareToolCall context assistantMessage toolCall config) := by
  rw [prepareToolCall]
  split
  · exact makes_pure _
  · refine Prog.Makes.tryCatch ?_ fun _ => makes_pure _
    refine (prepareToolCallArguments_silent _).bind fun _ => (makes_await (by exact ⟨rfl, rfl⟩)).bind fun args => ?_
    refine (askBeforeToolCall_silent _).bind fun asked => ?_
    split
    · exact makes_pure _
    · exact makes_pure _
    · refine isAborted_silent.bind fun aborted => ?_
      split <;> exact makes_pure _

theorem toolCall_of_prepared {prepared : PreparedToolCall}
    (traces : (prepareToolCall context assistantMessage toolCall config).Traces es
      (some (.ok (.prepared prepared)))) : prepared.toolCall = toolCall := by
  rw [prepareToolCall] at traces
  split at traces
  · cases (Prog.traces_done_ok traces).2
  · rcases Prog.traces_tryCatch_ok traces with traces | ⟨_, _, _, _, _, traces⟩
    · obtain ⟨_, _, _, _, _, traces⟩ := Prog.traces_bind_ok traces
      obtain ⟨_, _, _, _, _, traces⟩ := Prog.traces_bind_ok traces
      obtain ⟨_, _, _, _, _, traces⟩ := Prog.traces_bind_ok traces
      split at traces
      · cases (Prog.traces_done_ok traces).2
      · cases (Prog.traces_done_ok traces).2
      · obtain ⟨_, _, _, _, _, traces⟩ := Prog.traces_bind_ok traces
        split at traces <;> cases (Prog.traces_done_ok traces).2
        rfl
    · cases (Prog.traces_done_ok traces).2

theorem emitUpdates_steps {updates : List AgentToolResult}
    {r : Except String Unit} (traces : (emitUpdates toolCall updates).Traces es (some r)) :
    steps es =
      updates.map fun partialResult => .event (.toolExecutionUpdate toolCall partialResult) := by
  induction updates generalizing es r with
  | nil =>
      rw [traces.1]
      rfl
  | cons partialResult updates ih =>
      rcases traces with ⟨-, none⟩ | ⟨answer, rest, rfl, traces⟩
      · cases none
      · rcases Prog.traces_andThen traces with ⟨r', first, last, rfl, here, there⟩ | ⟨-, none⟩
        · rw [(Prog.traces_ofExcept there).1, List.append_nil, List.map_cons, ← ih here]
          rfl
        · cases none

theorem executePreparedToolCall_steps {prepared : PreparedToolCall}
    {executed : AgentToolResult × Bool}
    (traces : (executePreparedToolCall prepared).Traces es (some (.ok executed))) :
    ∃ updates, steps es =
      runSteps prepared.toolCall (some ⟨prepared.tool, prepared.args, updates⟩) := by
  rcases traces with ⟨-, none⟩ | ⟨answer, rest, rfl, traces⟩
  · cases none
  · cases answer with
    | error error =>
        rw [(Prog.traces_done_ok traces).1]
        exact ⟨[], rfl⟩
    | ok execution =>
        obtain ⟨_, first, last, rfl, here, there⟩ := Prog.traces_bind_ok traces
        rw [(Prog.traces_done_ok there).1, List.append_nil]
        exact ⟨execution.updates, congrArg (_ :: ·) (emitUpdates_steps here)⟩

theorem finalizeExecutedToolCall_silent {prepared : PreparedToolCall} {result : AgentToolResult}
    {isError : Bool} : Prog.Makes LoopCall.IsSilent
      (finalizeExecutedToolCall context assistantMessage prepared result isError config) := by
  rw [finalizeExecutedToolCall]
  split
  · refine Prog.makes_call (by exact ⟨rfl, rfl⟩) fun answer => ?_
    cases answer <;> exact makes_pure _
  · exact makes_pure _

theorem toolCall_of_finalizeExecuted {prepared : PreparedToolCall} {result : AgentToolResult}
    {isError : Bool} {finalized : FinalizedToolCall}
    (traces : (finalizeExecutedToolCall context assistantMessage prepared result isError
      config).Traces es (some (.ok finalized))) : finalized.toolCall = prepared.toolCall := by
  rw [finalizeExecutedToolCall] at traces
  split at traces
  · rcases traces with ⟨-, none⟩ | ⟨answer, rest, rfl, traces⟩
    · cases none
    · cases answer <;> rw [(Prog.traces_done_ok traces).2]
  · rw [(Prog.traces_done_ok traces).2]

theorem executeAndFinalize_law {prepared : PreparedToolCall} {finalized : FinalizedToolCall}
    (traces : (executeAndFinalize context assistantMessage config prepared).Traces es
      (some (.ok finalized))) :
    finalized.toolCall = prepared.toolCall ∧
      ∃ run, steps es = runSteps prepared.toolCall (some run) := by
  obtain ⟨executed, first, rest, rfl, here, there⟩ := Prog.traces_bind_ok traces
  obtain ⟨updates, ran⟩ := executePreparedToolCall_steps here
  rw [steps_append, ran, steps_of_makes finalizeExecutedToolCall_silent there, List.append_nil]
  exact ⟨toolCall_of_finalizeExecuted there, _, rfl⟩

theorem finalizeToolCall_law {es' : List LoopEvent} {preparation : Preparation}
    {finalized : FinalizedToolCall}
    (isPreparation : (prepareToolCall context assistantMessage toolCall config).Traces es'
      (some (.ok preparation)))
    (traces : (finalizeToolCall context assistantMessage config toolCall preparation).Traces es
      (some (.ok finalized))) :
    finalized.toolCall = toolCall ∧ ∃ run, steps es = runSteps toolCall run := by
  cases preparation with
  | immediate result isError =>
      obtain ⟨rfl, rfl⟩ := Prog.traces_done_ok traces
      exact ⟨rfl, none, rfl⟩
  | prepared prepared =>
      obtain ⟨sameCall, run, ran⟩ := executeAndFinalize_law traces
      rw [toolCall_of_prepared isPreparation] at sameCall ran
      exact ⟨sameCall, some run, ran⟩

theorem createToolResultMessage_law {finalized : FinalizedToolCall} {message : ToolResultMessage}
    (traces : (createToolResultMessage finalized).Traces es (some (.ok message))) :
    steps es = [] ∧ ∃ timestamp, message = toolResultMessage finalized timestamp := by
  obtain ⟨timestamp, first, rest, rfl, here, there⟩ := Prog.traces_bind_ok traces
  obtain ⟨_, _, rfl⟩ := Prog.traces_get here
  obtain ⟨rfl, rfl⟩ := Prog.traces_done_ok there
  exact ⟨rfl, timestamp, rfl⟩

theorem emitToolResultMessage_steps {message : ToolResultMessage} {r : Unit}
    (traces : (emitToolResultMessage message).Traces es (some (.ok r))) :
    steps es = messageSteps (.toolResult message) := by
  obtain ⟨_, first, rest, rfl, here, there⟩ := Prog.traces_bind_ok traces
  rw [steps_append, steps_emit here, steps_emit there]
  rfl

/-- The end of a loop over tool calls: it breaks off when the signal is aborted. -/
theorem traces_breaks {α : Type} {last : α} {rest : LoopM α} {result : α}
    (traces : (do
      let aborted ← isAborted
      if aborted then pure last else rest : LoopM α).Traces es (some (.ok result))) :
    (Aborted es ∧ result = last ∧ steps es = []) ∨
      ∃ es', rest.Traces es' (some (.ok result)) ∧ steps es = steps es' ∧
        (Aborted es' → Aborted es) := by
  obtain ⟨aborted, first, es', rfl, here, there⟩ := Prog.traces_bind_ok traces
  obtain ⟨_, same, rfl⟩ := Prog.traces_get here
  cases same
  cases aborted with
  | true =>
      obtain ⟨rfl, rfl⟩ := Prog.traces_done_ok there
      exact Or.inl ⟨List.mem_cons_self, rfl, rfl⟩
  | false => exact Or.inr ⟨es', there, rfl, List.mem_cons_of_mem _⟩

/-- All calls were executed, or the first ones and then the signal was found aborted. -/
def Covers (toolCalls executed : List AgentToolCall) (es : List LoopEvent) : Prop :=
  executed = toolCalls ∨ Aborted es ∧ executed <+: toolCalls

theorem Covers.cons {toolCall : AgentToolCall} {toolCalls executed : List AgentToolCall}
    {es es' : List LoopEvent} (covers : Covers toolCalls executed es')
    (later : Aborted es' → Aborted es) :
    Covers (toolCall :: toolCalls) (toolCall :: executed) es := by
  rcases covers with rfl | ⟨aborted, some⟩
  · exact Or.inl rfl
  · exact Or.inr ⟨later aborted, List.cons_prefix_cons.mpr ⟨rfl, some⟩⟩

def ExecutedToolCall.outcome (x : ExecutedToolCall) : FinalizedToolCall × ToolResultMessage :=
  (x.finalized, x.message)

theorem executeToolCallsSequential_law {toolCalls : List AgentToolCall}
    {finished : List (FinalizedToolCall × ToolResultMessage)}
    (traces : (executeToolCallsSequential context assistantMessage config toolCalls).Traces es
      (some (.ok finished))) :
    ∃ executed : List ExecutedToolCall, finished = executed.map ExecutedToolCall.outcome ∧
      Covers toolCalls (executed.map ExecutedToolCall.toolCall) es ∧
        steps es = executed.flatMap fun x => x.callSteps ++ x.resultSteps := by
  induction toolCalls generalizing es finished with
  | nil =>
      obtain ⟨rfl, rfl⟩ := Prog.traces_done_ok traces
      exact ⟨[], rfl, Or.inl rfl, rfl⟩
  | cons toolCall toolCalls ih =>
      obtain ⟨_, atStart, _, rfl, started, traces⟩ := Prog.traces_bind_ok traces
      obtain ⟨preparation, atPreparation, _, rfl, prepared, traces⟩ := Prog.traces_bind_ok traces
      obtain ⟨finalized, atRun, _, rfl, ran, traces⟩ := Prog.traces_bind_ok traces
      obtain ⟨_, atEnd, _, rfl, ended, traces⟩ := Prog.traces_bind_ok traces
      obtain ⟨message, atMessage, _, rfl, made, traces⟩ := Prog.traces_bind_ok traces
      obtain ⟨_, atResult, others, rfl, published, traces⟩ := Prog.traces_bind_ok traces
      obtain ⟨rfl, run, isRun⟩ := finalizeToolCall_law prepared ran
      obtain ⟨silent, timestamp, rfl⟩ := createToolResultMessage_law made
      let x : ExecutedToolCall := { finalized, run, timestamp }
      have shown : steps (atStart ++ (atPreparation ++ (atRun ++ (atEnd ++ (atMessage ++
          (atResult ++ others)))))) = x.callSteps ++ x.resultSteps ++ steps others := by
        simp only [steps_append, steps_emit started, steps_of_makes prepareToolCall_silent prepared,
          isRun, steps_emit ended, silent, emitToolResultMessage_steps published,
          ExecutedToolCall.callSteps, callSteps, ExecutedToolCall.resultSteps,
          List.append_assoc, List.nil_append, List.cons_append]
        rfl
      rw [shown]
      rcases traces_breaks traces with ⟨aborted, rfl, none⟩ | ⟨es', traces, same, later⟩
      · refine ⟨[x], rfl, Or.inr ⟨?_, ?_⟩, by simp [none]⟩
        · simp only [Aborted, List.mem_append]
          exact Or.inr (Or.inr (Or.inr (Or.inr (Or.inr (Or.inr aborted)))))
        · exact List.cons_prefix_cons.mpr ⟨rfl, List.nil_prefix⟩
      · obtain ⟨rest, first, last, rfl, here, there⟩ := Prog.traces_bind_ok traces
        obtain ⟨rfl, rfl⟩ := Prog.traces_done_ok there
        rw [List.append_nil] at same later
        obtain ⟨executed, rfl, covers, order⟩ := ih here
        refine ⟨x :: executed, rfl, ?_, by rw [same, order, List.flatMap_cons]⟩
        refine covers.cons fun aborted => ?_
        simp only [Aborted, List.mem_append]
        exact Or.inr (Or.inr (Or.inr (Or.inr (Or.inr (Or.inr (later aborted))))))

/-! ## Tools at the same time -/

theorem enterToolCall_law {es' : List LoopEvent} {preparation : Preparation}
    {entry : FinalizedToolCallEntry}
    (isPreparation : (prepareToolCall context assistantMessage toolCall config).Traces es'
      (some (.ok preparation)))
    (traces : (enterToolCall toolCall preparation).Traces es (some (.ok entry))) :
    entry.toolCall = toolCall ∧ startStep toolCall :: steps es = entry.steps := by
  cases preparation with
  | immediate result isError =>
      obtain ⟨_, first, rest, rfl, here, there⟩ := Prog.traces_bind_ok traces
      obtain ⟨rfl, rfl⟩ := Prog.traces_done_ok there
      rw [List.append_nil, steps_emit here]
      exact ⟨rfl, rfl⟩
  | prepared prepared =>
      obtain ⟨rfl, rfl⟩ := Prog.traces_done_ok traces
      rw [← toolCall_of_prepared isPreparation]
      exact ⟨rfl, rfl⟩

theorem startToolCalls_law {toolCalls : List AgentToolCall} {entries : List FinalizedToolCallEntry}
    (traces : (startToolCalls context assistantMessage config toolCalls).Traces es
      (some (.ok entries))) :
    Covers toolCalls (entries.map FinalizedToolCallEntry.toolCall) es ∧
      steps es = (entries.map FinalizedToolCallEntry.steps).flatten := by
  induction toolCalls generalizing es entries with
  | nil =>
      obtain ⟨rfl, rfl⟩ := Prog.traces_done_ok traces
      exact ⟨Or.inl rfl, rfl⟩
  | cons toolCall toolCalls ih =>
      obtain ⟨_, atStart, _, rfl, started, traces⟩ := Prog.traces_bind_ok traces
      obtain ⟨preparation, atPreparation, _, rfl, prepared, traces⟩ := Prog.traces_bind_ok traces
      obtain ⟨entry, atEntry, others, rfl, entered, traces⟩ := Prog.traces_bind_ok traces
      obtain ⟨isCall, isEntry⟩ := enterToolCall_law prepared entered
      have shown : steps (atStart ++ (atPreparation ++ (atEntry ++ others))) =
          entry.steps ++ steps others := by
        simp only [steps_append, steps_emit started, steps_of_makes prepareToolCall_silent prepared,
          ← isEntry]
        rfl
      rw [shown]
      rcases traces_breaks traces with ⟨aborted, rfl, none⟩ | ⟨es', traces, same, later⟩
      · refine ⟨Or.inr ⟨?_, List.cons_prefix_cons.mpr ⟨isCall, List.nil_prefix⟩⟩, by simp [none]⟩
        simp only [Aborted, List.mem_append]
        exact Or.inr (Or.inr (Or.inr aborted))
      · obtain ⟨rest, first, last, rfl, here, there⟩ := Prog.traces_bind_ok traces
        obtain ⟨rfl, rfl⟩ := Prog.traces_done_ok there
        rw [List.append_nil] at same later
        obtain ⟨covers, order⟩ := ih here
        rw [List.map_cons, List.map_cons, isCall, List.flatten_cons, same, order]
        refine ⟨covers.cons fun aborted => ?_, rfl⟩
        simp only [Aborted, List.mem_append]
        exact Or.inr (Or.inr (Or.inr (later aborted)))

theorem finishToolCall_law {entry : FinalizedToolCallEntry} {finalized : FinalizedToolCall}
    (traces : (finishToolCall context assistantMessage config entry).Traces es
      (some (.ok finalized))) :
    finalized.toolCall = entry.toolCall ∧ ∃ run, entry.steps ++ steps es = callSteps finalized run := by
  cases entry with
  | settled finalized =>
      obtain ⟨rfl, rfl⟩ := Prog.traces_done_ok traces
      exact ⟨rfl, none, rfl⟩
  | deferred prepared =>
      obtain ⟨finalized', atRun, _, rfl, ran, traces⟩ := Prog.traces_bind_ok traces
      obtain ⟨_, atEnd, _, rfl, ended, traces⟩ := Prog.traces_bind_ok traces
      obtain ⟨rfl, rfl⟩ := Prog.traces_done_ok traces
      obtain ⟨sameCall, run, isRun⟩ := executeAndFinalize_law ran
      refine ⟨sameCall, some run, ?_⟩
      simp only [steps_append, isRun, steps_emit ended, List.append_nil, callSteps,
        FinalizedToolCallEntry.steps, ← sameCall]
      rfl

/-- The entries with what became of them. -/
theorem finishToolCalls_law {entries : List FinalizedToolCallEntry}
    {runs : List (List LoopEvent × FinalizedToolCall)}
    (each : List.Forall₂ (fun entry run =>
      (finishToolCall context assistantMessage config entry).Traces run.1 (some (.ok run.2)))
      entries runs) :
    ∃ ran : List (FinalizedToolCall × Option ToolRun), ran.map Prod.fst = runs.map Prod.snd ∧
      ran.map (fun x => x.1.toolCall) = entries.map FinalizedToolCallEntry.toolCall ∧
        List.zipWith (· ++ ·) (entries.map FinalizedToolCallEntry.steps)
          (runs.map fun run => steps run.1) = ran.map fun x => callSteps x.1 x.2 := by
  induction each with
  | nil => exact ⟨[], rfl, rfl, rfl⟩
  | @cons entry out _ _ here _ ih =>
      obtain ⟨ran, sameResults, sameCalls, sameSteps⟩ := ih
      obtain ⟨sameCall, run, isRun⟩ := finishToolCall_law here
      refine ⟨(out.2, run) :: ran, ?_, ?_, ?_⟩
      · rw [List.map_cons, List.map_cons, sameResults]
      · rw [List.map_cons, List.map_cons, sameCalls, sameCall]
      · rw [List.map_cons, List.map_cons, List.zipWith_cons_cons, sameSteps, isRun, List.map_cons]

theorem emitToolResults_law {ran : List (FinalizedToolCall × Option ToolRun)}
    {finished : List (FinalizedToolCall × ToolResultMessage)}
    (traces : (emitToolResults (ran.map Prod.fst)).Traces es (some (.ok finished))) :
    ∃ executed : List ExecutedToolCall, executed.map (fun x => (x.finalized, x.run)) = ran ∧
      finished = executed.map ExecutedToolCall.outcome ∧
        steps es = (executed.map ExecutedToolCall.resultSteps).flatten := by
  induction ran generalizing es finished with
  | nil =>
      obtain ⟨rfl, rfl⟩ := Prog.traces_done_ok traces
      exact ⟨[], rfl, rfl, rfl⟩
  | cons out ran ih =>
      obtain ⟨message, atMessage, _, rfl, made, traces⟩ := Prog.traces_bind_ok traces
      obtain ⟨_, atResult, _, rfl, published, traces⟩ := Prog.traces_bind_ok traces
      obtain ⟨rest, others, last, rfl, here, there⟩ := Prog.traces_bind_ok traces
      obtain ⟨rfl, rfl⟩ := Prog.traces_done_ok there
      obtain ⟨silent, timestamp, rfl⟩ := createToolResultMessage_law made
      obtain ⟨executed, rfl, rfl, order⟩ := ih here
      refine ⟨{ finalized := out.1, run := out.2, timestamp } :: executed, rfl, rfl, ?_⟩
      simp only [steps_append, silent, emitToolResultMessage_steps published, order,
        List.append_nil, List.nil_append, List.map_cons, List.flatten_cons]
      rfl

/-! ## Both ways -/

def Step.isMessage : Step → Bool
  | .event (.messageStart _) => true
  | .event (.messageEnd _) => true
  | _ => false

theorem filter_runSteps (toolCall : AgentToolCall) (run : Option ToolRun) :
    (runSteps toolCall run).filter Step.isMessage = [] := by
  rw [List.filter_eq_nil_iff]
  intro step there
  cases run with
  | none => cases there
  | some run =>
      rcases List.mem_cons.mp there with rfl | there
      · exact Bool.false_ne_true
      · obtain ⟨_, _, rfl⟩ := List.mem_map.mp there
        exact Bool.false_ne_true

theorem filter_callSteps (finalized : FinalizedToolCall) (run : Option ToolRun) :
    (callSteps finalized run).filter Step.isMessage = [] := by
  rw [callSteps, List.filter_append, List.filter_cons_of_neg (by exact Bool.false_ne_true),
    filter_runSteps]
  rfl

theorem filter_resultSteps (x : ExecutedToolCall) :
    x.resultSteps.filter Step.isMessage = x.resultSteps := rfl

/-- What a batch shows: each call's own steps in their order, those of different calls mixed in
any way, but the messages in the order of the calls. -/
structure BatchLaw (toolCalls : List AgentToolCall) (executed : List ExecutedToolCall)
    (es : List LoopEvent) : Prop where
  covers : Covers toolCalls (executed.map ExecutedToolCall.toolCall) es
  shuffled : Shuffle (executed.map fun x => x.callSteps ++ x.resultSteps) (steps es)
  ordered : (steps es).filter Step.isMessage = executed.flatMap ExecutedToolCall.resultSteps

theorem batchLaw_sequential {toolCalls : List AgentToolCall}
    {finished : List (FinalizedToolCall × ToolResultMessage)}
    (traces : (executeToolCallsSequential context assistantMessage config toolCalls).Traces es
      (some (.ok finished))) :
    ∃ executed, finished = executed.map ExecutedToolCall.outcome ∧
      BatchLaw toolCalls executed es := by
  obtain ⟨executed, rfl, covers, order⟩ := executeToolCallsSequential_law traces
  refine ⟨executed, rfl, covers, ?_, ?_⟩
  · rw [order, List.flatMap_def]
    exact Shuffle.flatten _
  · rw [order, List.filter_flatMap]
    congr 1
    funext x
    rw [List.filter_append, ExecutedToolCall.callSteps, filter_callSteps, filter_resultSteps,
      List.nil_append]

theorem batchLaw_parallel {toolCalls : List AgentToolCall}
    {finished : List (FinalizedToolCall × ToolResultMessage)}
    (traces : (executeToolCallsParallel context assistantMessage config toolCalls).Traces es
      (some (.ok finished))) :
    ∃ executed, finished = executed.map ExecutedToolCall.outcome ∧
      BatchLaw toolCalls executed es := by
  obtain ⟨entries, atStart, _, rfl, started, traces⟩ := Prog.traces_bind_ok traces
  obtain ⟨ordered, atRun, atResults, rfl, together, traces⟩ := Prog.traces_bind_ok traces
  obtain ⟨covers, startOrder⟩ := startToolCalls_law started
  obtain ⟨runs, rfl, each, mixed⟩ := Prog.traces_awaitAll_ok together
  obtain ⟨ran, sameResults, sameCalls, sameSteps⟩ := finishToolCalls_law each
  rw [← sameResults] at traces
  obtain ⟨executed, rfl, rfl, resultOrder⟩ := emitToolResults_law traces
  rw [List.map_map] at sameCalls sameSteps
  -- the calls' steps: first the preparations one by one, then the tools mixed
  have running : Shuffle (runs.map fun run => steps run.1) (steps atRun) := by
    have visible := mixed.filterMap fun e : LoopEvent => e.call.step
    rwa [List.map_map] at visible
  have starting := Shuffle.flatten (entries.map FinalizedToolCallEntry.steps)
  rw [← startOrder] at starting
  have calls := starting.zipWith_append running (by simp [each.length_eq])
  rw [sameSteps] at calls
  have resulting := Shuffle.flatten (executed.map ExecutedToolCall.resultSteps)
  rw [← resultOrder] at resulting
  have whole := calls.zipWith_append resulting (by simp)
  rw [List.zipWith_map, List.zipWith_self] at whole
  have callsOnly : (steps atStart ++ steps atRun).filter Step.isMessage = [] := by
    have order := calls.perm.filter Step.isMessage
    rw [List.filter_flatten, List.map_map] at order
    rw [← List.perm_nil]
    refine order.trans (List.Perm.of_eq (List.flatten_eq_nil_iff.mpr fun l there => ?_))
    obtain ⟨x, -, rfl⟩ := List.mem_map.mp there
    exact filter_callSteps x.finalized x.run
  refine ⟨executed, rfl, ?_, ?_, ?_⟩
  · rw [show executed.map ExecutedToolCall.toolCall = entries.map FinalizedToolCallEntry.toolCall
      from sameCalls]
    exact covers.imp_right fun aborted => ⟨List.mem_append_left _ aborted.1, aborted.2⟩
  · rw [steps_append, steps_append, ← List.append_assoc]
    exact whole
  · rw [steps_append, steps_append, ← List.append_assoc, List.filter_append, callsOnly,
      List.nil_append, resultOrder, List.filter_flatten, List.flatMap_def, List.map_map]
    rfl

theorem finishToolCalls_batchLaw {finished : List (FinalizedToolCall × ToolResultMessage)}
    (traces : (finishToolCalls context assistantMessage config).Traces es (some (.ok finished))) :
    ∃ executed, finished = executed.map ExecutedToolCall.outcome ∧
      BatchLaw assistantMessage.toolCalls executed es := by
  rw [finishToolCalls] at traces
  split at traces
  · exact batchLaw_sequential traces
  · exact batchLaw_parallel traces

theorem emitUpdates_aside (updates : List AgentToolResult) :
    Prog.Makes LoopCall.IsAside (emitUpdates toolCall updates) := by
  induction updates with
  | nil => exact makes_pure _
  | cons partialResult updates ih =>
      exact Prog.makes_call (by rfl) fun answer => ih.andThen fun rest => Prog.makes_ofExcept _

theorem executeAndFinalize_aside (prepared : PreparedToolCall) :
    Prog.Makes LoopCall.IsAside (executeAndFinalize context assistantMessage config prepared) := by
  refine Prog.Makes.bind ?_ fun executed => aside_of_silent finalizeExecutedToolCall_silent
  refine Prog.makes_call (by rfl) fun answer => ?_
  cases answer with
  | error error => exact makes_pure _
  | ok execution => exact (emitUpdates_aside _).bind fun _ => makes_pure _

theorem finalizeToolCall_aside (preparation : Preparation) : Prog.Makes LoopCall.IsAside
    (finalizeToolCall context assistantMessage config toolCall preparation) := by
  cases preparation with
  | immediate result isError => exact makes_pure _
  | prepared prepared => exact executeAndFinalize_aside prepared

theorem createToolResultMessage_aside (finalized : FinalizedToolCall) :
    Prog.Makes LoopCall.IsAside (createToolResultMessage finalized) :=
  (Prog.makes_get (by rfl)).bind fun _ => makes_pure _

theorem emitToolResultMessage_aside (message : ToolResultMessage) :
    Prog.Makes LoopCall.IsAside (emitToolResultMessage message) :=
  (emit_aside (by rfl)).bind fun _ => emit_aside (by rfl)

theorem ite_aside {α : Type} {aborted : Bool} {p q : LoopM α} (yes : Prog.Makes LoopCall.IsAside p)
    (no : Prog.Makes LoopCall.IsAside q) :
    Prog.Makes LoopCall.IsAside (if aborted then p else q) := by
  cases aborted
  · exact no
  · exact yes

theorem executeToolCallsSequential_aside (toolCalls : List AgentToolCall) :
    Prog.Makes LoopCall.IsAside
      (executeToolCallsSequential context assistantMessage config toolCalls) := by
  induction toolCalls with
  | nil => exact makes_pure _
  | cons toolCall toolCalls ih =>
      refine (emit_aside (by rfl)).bind fun _ => ?_
      refine (aside_of_silent prepareToolCall_silent).bind fun preparation => ?_
      refine (finalizeToolCall_aside preparation).bind fun finalized => ?_
      refine (emit_aside (by rfl)).bind fun _ => ?_
      refine (createToolResultMessage_aside finalized).bind fun message => ?_
      refine (emitToolResultMessage_aside message).bind fun _ => ?_
      refine (aside_of_silent isAborted_silent).bind fun aborted => ?_
      exact ite_aside (makes_pure _) (ih.bind fun _ => makes_pure _)

theorem startToolCalls_aside (toolCalls : List AgentToolCall) :
    Prog.Makes LoopCall.IsAside (startToolCalls context assistantMessage config toolCalls) := by
  induction toolCalls with
  | nil => exact makes_pure _
  | cons toolCall toolCalls ih =>
      refine (emit_aside (by rfl)).bind fun _ => ?_
      refine (aside_of_silent prepareToolCall_silent).bind fun preparation => ?_
      refine Prog.Makes.bind ?_ fun entry => ?_
      · cases preparation with
        | immediate result isError => exact (emit_aside (by rfl)).bind fun _ => makes_pure _
        | prepared prepared => exact makes_pure _
      · refine (aside_of_silent isAborted_silent).bind fun aborted => ?_
        exact ite_aside (makes_pure _) (ih.bind fun _ => makes_pure _)

theorem finishToolCall_aside (entry : FinalizedToolCallEntry) :
    Prog.Makes LoopCall.IsAside (finishToolCall context assistantMessage config entry) := by
  cases entry with
  | settled finalized => exact makes_pure _
  | deferred prepared =>
      exact (executeAndFinalize_aside prepared).bind fun _ =>
        (emit_aside (by rfl)).bind fun _ => makes_pure _

theorem emitToolResults_aside (finalizedCalls : List FinalizedToolCall) :
    Prog.Makes LoopCall.IsAside (emitToolResults finalizedCalls) := by
  induction finalizedCalls with
  | nil => exact makes_pure _
  | cons finalized rest ih =>
      exact (createToolResultMessage_aside finalized).bind fun message =>
        (emitToolResultMessage_aside message).bind fun _ => ih.bind fun _ => makes_pure _

theorem executeToolCalls_aside :
    Prog.Makes LoopCall.IsAside (executeToolCalls context assistantMessage config) := by
  refine Prog.Makes.bind ?_ fun finished => makes_pure _
  rw [finishToolCalls]
  split
  · exact executeToolCallsSequential_aside _
  · exact (startToolCalls_aside _).bind fun entries =>
      (Prog.makes_awaitAll finishToolCall_aside).bind fun ordered => emitToolResults_aside _

end Laws

end NestifyClaw.Agent
