import NestifyClaw.Agent.Lifecycle
import NestifyClaw.Agent.Pairing

/-!
# Tool results in a run

Where a run begins with a transcript that pairs and its hooks and queues bring none that does not
(`Pairs`), the messages that it has published pair at every point, and so does every transcript that
is converted for the model (`runAgentLoop_paired`): a run that fails in the middle of a batch of
tools leaves no result without its call.
-/

namespace NestifyClaw.Agent

open Concurrent Concurrent.Protocol

/-- What is watched of a run. -/
inductive Exchanged
  | completed (message : AgentMessage)
  | closed
  | asked (messages : List AgentMessage)

def LoopCall.exchanged : LoopCall → Option Exchanged
  | .emit (.messageEnd message) => some (.completed message)
  | .emit (.turnEnd _ _) => some .closed
  | .emit (.agentEnd _) => some .closed
  | .prepareNextTurn _ => some .closed
  | .convertToLlm messages => some (.asked messages)
  | _ => none

/-- Behind a turn no call is open, so that others may put messages there. -/
inductive Exchanges : Option AssistantMessage → Exchanged → Option AssistantMessage → Prop
  | completed {asked asked' : Option AssistantMessage} {message : AgentMessage}
      (exchange : Exchange asked message asked') : Exchanges asked (.completed message) asked'
  | closed {asked : Option AssistantMessage} : Exchanges asked .closed none
  | asked {asked : Option AssistantMessage} {messages : List AgentMessage}
      (paired : Paired messages) : Exchanges asked (.asked messages) asked

def NoResults (messages : List AgentMessage) : Prop :=
  ∀ message ∈ messages, message.isToolResult = false

/-- What comes from outside: the queues hold no tool results, and the hooks give transcripts that
pair. -/
def Pairs : LoopEvent → Prop
  | ⟨.getSteeringMessages, some (.ok messages)⟩ => NoResults messages
  | ⟨.getFollowUpMessages, some (.ok messages)⟩ => NoResults messages
  | ⟨.transformContext messages, some (.ok messages')⟩ => Paired messages → Paired messages'
  | ⟨.prepareNextTurn _, some (.ok (some update))⟩ =>
      ∀ context, update.context = some context → Paired context.messages
  | _ => True

def exchange : Protocol LoopCall LoopCall.Result String (Option AssistantMessage) Exchanged where
  observe e := e.call.exchanged
  next := Exchanges
  assumes := Pairs

/-! ## Rules -/

section Rules

variable {α : Type} {asked asked' : Option AssistantMessage} {p : LoopM α}

theorem exchange_emit {event : AgentEvent} {o : Exchanged}
    (shows : (LoopCall.emit event).exchanged = some o) (step : Exchanges asked o asked') :
    exchange.Keeps (emit event) asked (Leaves fun _ asked'' => asked'' = asked') :=
  leaves_await (fun _ => shows) step

theorem exchanged_of_silent {c : LoopCall} (silent : c.IsSilent) : c.exchanged = none := by
  obtain ⟨noStep, aside⟩ := silent
  cases c with
  | emit event => cases noStep
  | convertToLlm messages => cases aside
  | prepareNextTurn context => cases aside
  | _ => rfl

theorem quiet_of_silent (silent : Prog.Makes LoopCall.IsSilent p) : exchange.Quiet p :=
  silent.mono fun _ isSilent _ => exchanged_of_silent isSilent

/-- Events that leave a turn as it is are no messages. -/
theorem quiet_of_stays (stays : Prog.Makes (LoopCall.Stays .turn) p)
    (aside : Prog.Makes LoopCall.IsAside p) : exchange.Quiet p := by
  intro es o traces e there
  have stay := stays es o traces e there
  have isAside := aside es o traces e there
  obtain ⟨call, answer⟩ := e
  intro _
  cases call with
  | emit event =>
      have loop := stay event rfl
      cases loop <;> rfl
  | convertToLlm messages => cases isAside
  | prepareNextTurn context => cases isAside
  | _ => rfl

theorem quiet_emit {event : AgentEvent} (none : (LoopCall.emit event).exchanged = none) :
    exchange.Quiet (emit event) := makes_await fun _ => none

end Rules

/-! ## Tool calls -/

section ToolCalls

variable {context : AgentContext} {assistantMessage : AssistantMessage} {config : AgentLoopConfig}

/-- The message answers one of the calls. -/
def Answers (assistantMessage : AssistantMessage) (message : ToolResultMessage) : Prop :=
  ∃ toolCall ∈ assistantMessage.toolCalls, toolCall.id = message.toolCallId

theorem exchange_result {message : ToolResultMessage} (answers : Answers assistantMessage message) :
    exchange.Keeps (emitToolResultMessage message) (some assistantMessage)
      (Leaves fun _ asked => asked = some assistantMessage) := by
  obtain ⟨toolCall, called, answered⟩ := answers
  exact leaves_skip (quiet_emit (by rfl)) fun _ =>
    exchange_emit (by rfl) (.completed (.toolResult called answered))

/-- The calls that were finished, all of them answered. -/
def AllAnswer (assistantMessage : AssistantMessage)
    (finished : List (FinalizedToolCall × ToolResultMessage)) : Prop :=
  ∀ x ∈ finished, Answers assistantMessage x.2

theorem exchange_publish {finalized : FinalizedToolCall} {α : Type}
    (called : finalized.toolCall ∈ assistantMessage.toolCalls)
    {f : ToolResultMessage → LoopM α} {G : α → Option AssistantMessage → Prop}
    (rest : ∀ message, Answers assistantMessage message →
      exchange.Keeps (f message) (some assistantMessage) (Leaves G)) :
    exchange.Keeps (do
        let message ← createToolResultMessage finalized
        emitToolResultMessage message
        f message) (some assistantMessage) (Leaves G) := by
  have silent : Prog.Makes LoopCall.IsSilent (createToolResultMessage finalized) :=
    (Prog.makes_get (by exact ⟨rfl, rfl⟩)).bind fun _ => makes_pure _
  refine leaves_bind (leaves_traces (leaves_quiet (quiet_of_silent silent))
    fun es message traces => (createToolResultMessage_law traces).2) fun message asked known => ?_
  obtain ⟨rfl, timestamp, rfl⟩ := known
  have answers : Answers assistantMessage (toolResultMessage finalized timestamp) :=
    ⟨finalized.toolCall, called, rfl⟩
  exact leaves_bind (exchange_result answers) fun _ _ same => same ▸ rest _ answers

theorem exchange_toolResults {finalizedCalls : List FinalizedToolCall}
    (called : ∀ x ∈ finalizedCalls, x.toolCall ∈ assistantMessage.toolCalls) :
    exchange.Keeps (emitToolResults finalizedCalls) (some assistantMessage)
      (Leaves fun finished asked => asked = some assistantMessage ∧
        AllAnswer assistantMessage finished) := by
  induction finalizedCalls with
  | nil => exact leaves_pure ⟨rfl, fun x there => by cases there⟩
  | cons finalized rest ih =>
      rw [List.forall_mem_cons] at called
      refine exchange_publish called.1 fun message answers => ?_
      refine leaves_bind (ih called.2) fun more asked known => ?_
      obtain ⟨rfl, all⟩ := known
      exact leaves_pure ⟨rfl, List.forall_mem_cons.mpr ⟨answers, all⟩⟩

theorem exchange_sequential {toolCalls : List AgentToolCall}
    (called : ∀ toolCall ∈ toolCalls, toolCall ∈ assistantMessage.toolCalls) :
    exchange.Keeps (executeToolCallsSequential context assistantMessage config toolCalls)
      (some assistantMessage)
      (Leaves fun finished asked => asked = some assistantMessage ∧
        AllAnswer assistantMessage finished) := by
  induction toolCalls with
  | nil => exact leaves_pure ⟨rfl, fun x there => by cases there⟩
  | cons toolCall toolCalls ih =>
      rw [List.forall_mem_cons] at called
      refine leaves_skip (quiet_emit (by rfl)) fun _ => ?_
      -- the outcome is that of the call
      have prepares : exchange.Quiet (prepareToolCall context assistantMessage toolCall config) :=
        quiet_of_silent prepareToolCall_silent
      refine leaves_bind (leaves_traces (leaves_quiet prepares) fun es preparation traces =>
        Exists.intro es traces) fun preparation asked known => ?_
      obtain ⟨rfl, es', isPreparation⟩ := known
      have runs : exchange.Quiet
          (finalizeToolCall context assistantMessage config toolCall preparation) :=
        quiet_of_stays (finalizeToolCall_stays _ _) (finalizeToolCall_aside _)
      refine leaves_bind (leaves_traces (leaves_quiet runs) fun es finalized traces =>
        (finalizeToolCall_law isPreparation traces).1) fun finalized asked known => ?_
      obtain ⟨rfl, sameCall⟩ := known
      refine leaves_skip (quiet_emit (by rfl)) fun _ => ?_
      refine exchange_publish (sameCall ▸ called.1) fun message answers => ?_
      refine leaves_skip (quiet_of_silent isAborted_silent) fun aborted => ?_
      cases aborted with
      | true =>
          exact leaves_pure ⟨rfl,
            List.forall_mem_cons.mpr ⟨answers, fun x there => by cases there⟩⟩
      | false =>
          refine leaves_bind (ih called.2) fun rest asked known => ?_
          obtain ⟨rfl, all⟩ := known
          exact leaves_pure ⟨rfl, List.forall_mem_cons.mpr ⟨answers, all⟩⟩

theorem exchange_parallel {toolCalls : List AgentToolCall}
    (called : ∀ toolCall ∈ toolCalls, toolCall ∈ assistantMessage.toolCalls) :
    exchange.Keeps (executeToolCallsParallel context assistantMessage config toolCalls)
      (some assistantMessage)
      (Leaves fun finished asked => asked = some assistantMessage ∧
        AllAnswer assistantMessage finished) := by
  have starts : exchange.Quiet (startToolCalls context assistantMessage config toolCalls) :=
    quiet_of_stays (startToolCalls_stays _) (startToolCalls_aside _)
  refine leaves_bind (leaves_traces (leaves_quiet starts) fun es entries traces =>
    Exists.intro es (startToolCalls_law traces).1) fun entries asked known => ?_
  obtain ⟨rfl, es, covers⟩ := known
  have entered : ∀ entry ∈ entries, entry.toolCall ∈ toolCalls := by
    have isPrefix : entries.map FinalizedToolCallEntry.toolCall <+: toolCalls := by
      rcases covers with same | ⟨-, before⟩
      · exact same ▸ List.prefix_refl _
      · exact before
    exact fun entry there => isPrefix.subset (List.mem_map_of_mem there)
  have finishes : exchange.Quiet (Prog.awaitAll entries
      (finishToolCall context assistantMessage config)) :=
    quiet_of_stays (Prog.makes_awaitAll finishToolCall_stays)
      (Prog.makes_awaitAll finishToolCall_aside)
  refine leaves_bind (leaves_traces (leaves_quiet finishes) fun es ordered traces =>
    Exists.intro es (Prog.traces_awaitAll_ok traces)) fun ordered asked known => ?_
  obtain ⟨rfl, es, runs, rfl, each, -⟩ := known
  obtain ⟨ran, sameResults, sameCalls, -⟩ := finishToolCalls_law each
  refine exchange_toolResults fun x there => called _ ?_
  rw [← sameResults] at there
  obtain ⟨y, isRun, rfl⟩ := List.mem_map.mp there
  have isCall : y.1.toolCall ∈ entries.map FinalizedToolCallEntry.toolCall :=
    sameCalls ▸ List.mem_map_of_mem isRun
  obtain ⟨entry, isEntry, same⟩ := List.mem_map.mp isCall
  exact same ▸ entered entry isEntry

theorem exchange_finishToolCalls :
    exchange.Keeps (finishToolCalls context assistantMessage config) (some assistantMessage)
      (Leaves fun finished asked => asked = some assistantMessage ∧
        AllAnswer assistantMessage finished) := by
  rw [finishToolCalls]
  split
  · exact exchange_sequential fun _ there => there
  · exact exchange_parallel fun _ there => there

theorem exchange_executeTools :
    exchange.Keeps (executeTools context assistantMessage config) (some assistantMessage)
      (Leaves fun batch asked => asked = some assistantMessage ∧
        ∀ message ∈ batch.messages, Answers assistantMessage message) := by
  rw [executeTools]
  split
  · exact leaves_pure ⟨rfl, fun x there => by cases there⟩
  · refine leaves_bind exchange_finishToolCalls fun finished asked known => ?_
    obtain ⟨rfl, all⟩ := known
    refine leaves_pure ⟨rfl, fun message there => ?_⟩
    obtain ⟨x, inFinished, rfl⟩ := List.mem_map.mp there
    exact all x inFinished

end ToolCalls

/-! ## Turns -/

section Turns

/-- A transcript that pairs, with the message whose calls may be answered behind it. -/
def Open (messages : List AgentMessage) (asked : Option AssistantMessage) : Prop :=
  Walk Exchange none messages asked

theorem open_push {messages : List AgentMessage} (paired : Paired messages)
    (message : AssistantMessage) : Open (messages ++ [.assistant message]) (some message) := by
  obtain ⟨q, walk⟩ := paired
  exact walk.append (.single (.assistant message))

theorem open_replaceLast {context : AgentContext} (paired : Paired context.messages)
    (message : AssistantMessage) :
    Open (context.replaceLast (.assistant message)).messages (some message) := by
  obtain ⟨last, split⟩ := List.dropLast_prefix context.messages
  rw [← split] at paired
  exact open_push paired.left message

theorem open_results {messages : List AgentMessage} {message : AssistantMessage}
    (isOpen : Open messages (some message)) {results : List ToolResultMessage}
    (answers : ∀ result ∈ results, Answers message result) :
    Paired (messages ++ results.map .toolResult) := by
  refine ⟨some message, isOpen.append (.loops fun result there => ?_)⟩
  obtain ⟨result, inResults, rfl⟩ := List.mem_map.mp there
  obtain ⟨toolCall, called, answered⟩ := answers result inResults
  exact .toolResult called answered

variable {asked : Option AssistantMessage} {s : LoopState}

/-- The message that was read, behind what the response was read for. -/
def Answered (answer : AssistantMessage × AgentContext) (asked : Option AssistantMessage) : Prop :=
  asked = some answer.1 ∧ Open answer.2.messages (some answer.1)

theorem exchange_finishResponse {st : Streaming} (paired : Paired st.context.messages) :
    exchange.Keeps (finishResponse st) asked (Leaves Answered) := by
  have reads : exchange.Quiet (Prog.await LoopCall.result : LoopM _) :=
    makes_await fun _ => by rfl
  rw [finishResponse]
  refine leaves_skip reads fun finalMessage => ?_
  cases st.partialMessage with
  | none =>
      refine leaves_skip (quiet_emit (by rfl)) fun _ => ?_
      exact leaves_bind (exchange_emit (by rfl) (.completed (.assistant finalMessage)))
        fun _ _ same => leaves_pure ⟨same, open_push paired finalMessage⟩
  | some message =>
      exact leaves_bind (exchange_emit (by rfl) (.completed (.assistant finalMessage)))
        fun _ _ same => leaves_pure ⟨same, open_replaceLast paired finalMessage⟩

theorem exchange_readResponse (interrupted : Option String) (events : List AssistantMessageEvent)
    {st : Streaming} (paired : Paired st.context.messages) :
    exchange.Keeps (readResponse interrupted events st) asked (Leaves Answered) := by
  induction events generalizing st with
  | nil =>
      cases interrupted with
      | none => exact exchange_finishResponse paired
      | some error => exact Protocol.keeps_fail trivial
  | cons event events ih =>
      cases event with
      | start message =>
          rw [readResponse]
          exact leaves_skip (quiet_emit (by rfl)) fun _ => ih ⟨_, open_push paired message⟩
      | update kind message =>
          rw [readResponse]
          cases st.partialMessage with
          | none => exact ih paired
          | some before =>
              exact leaves_skip (quiet_emit (by rfl)) fun _ =>
                ih ⟨_, open_replaceLast paired message⟩
      | done => exact exchange_finishResponse paired
      | error => exact exchange_finishResponse paired

theorem exchange_transformMessages (config : AgentLoopConfig) {messages : List AgentMessage}
    (paired : Paired messages) :
    exchange.Keeps (transformMessages config messages) asked
      (Leaves fun messages asked' => asked' = asked ∧ Paired messages) := by
  rw [transformMessages]
  cases config.transformContext with
  | true => exact leaves_ask (fun _ => by rfl) fun messages pairs => ⟨rfl, pairs paired⟩
  | false => exact leaves_pure ⟨rfl, paired⟩

theorem exchange_convertToLlm {messages : List AgentMessage} (paired : Paired messages) :
    exchange.Keeps (Prog.await (LoopCall.convertToLlm messages)) asked
      (Leaves fun _ asked' => asked' = asked) := by
  refine Protocol.keeps_await (fun _ => by rfl) (.asked paired) fun answer _ => ?_
  cases answer with
  | ok a => rfl
  | error e => trivial

theorem exchange_streamAssistantResponse {context : AgentContext} (config : AgentLoopConfig)
    (paired : Paired context.messages) :
    exchange.Keeps (streamAssistantResponse context config) asked (Leaves Answered) := by
  refine leaves_bind (exchange_transformMessages config paired) fun messages _ known => ?_
  obtain ⟨rfl, paired'⟩ := known
  refine leaves_bind (exchange_convertToLlm paired') fun llmMessages _ same => ?_
  refine leaves_skip (quiet_of_silent (resolveApiKey_silent _)) fun apiKey => ?_
  have streams (request) : exchange.Quiet (Prog.await (LoopCall.streamFunction request) : LoopM _) :=
    makes_await fun _ => by rfl
  exact leaves_skip (streams _) fun response => exchange_readResponse _ _ paired

theorem exchange_emitMessages {messages : List AgentMessage} (noResults : NoResults messages) :
    exchange.Keeps (emitMessages messages) asked (Leaves fun _ _ => True) := by
  induction messages generalizing asked with
  | nil => exact leaves_pure trivial
  | cons message messages ih =>
      obtain ⟨here, there⟩ := List.forall_mem_cons.mp noResults
      refine leaves_skip (quiet_emit (by rfl)) fun _ => ?_
      obtain ⟨q, walk⟩ := Paired.singleton here
      cases walk with
      | cons step rest =>
          exact leaves_bind (exchange_emit (by rfl) (.completed (step.from here asked)))
            fun _ _ _ => ih there

theorem quiet_beginTurn : exchange.Quiet (beginTurn s) := by
  rw [beginTurn]
  split
  · exact quiet_emit (by rfl)
  · exact makes_pure _

theorem exchange_getSteeringMessages (config : AgentLoopConfig) :
    exchange.Keeps (getSteeringMessages config) asked
      (Leaves fun messages _ => NoResults messages) := by
  rw [getSteeringMessages]
  cases config.getSteeringMessages with
  | true => exact leaves_ask (fun _ => by rfl) fun messages pairs => pairs
  | false => exact leaves_pure fun message there => by cases there

theorem exchange_getFollowUpMessages (config : AgentLoopConfig) :
    exchange.Keeps (getFollowUpMessages config) asked
      (Leaves fun messages _ => NoResults messages) := by
  rw [getFollowUpMessages]
  cases config.getFollowUpMessages with
  | true => exact leaves_ask (fun _ => by rfl) fun messages pairs => pairs
  | false => exact leaves_pure fun message there => by cases there

/-- What a turn may begin with. -/
structure LoopState.Pairs (s : LoopState) : Prop where
  context : Paired s.currentContext.messages
  pending : NoResults s.pendingMessages

def TurnPairs : TurnEnd → Option AssistantMessage → Prop
  | .finished _, _ => True
  | .goesOn s, _ => s.Pairs

theorem exchange_endRun (newMessages : List AgentMessage) :
    exchange.Keeps (endRun newMessages) asked (Leaves TurnPairs) :=
  leaves_bind (exchange_emit (by rfl) .closed) fun _ _ _ => leaves_pure trivial

/-- The update gives no context, or one that pairs. -/
def UpdatePairs (update : Option AgentLoopTurnUpdate) : Prop :=
  ∀ u context, update = some u → u.context = some context → Paired context.messages

theorem exchange_askPrepareNextTurn (message : AssistantMessage)
    (toolResults : List ToolResultMessage) :
    exchange.Keeps (askPrepareNextTurn s message toolResults) asked
      (Leaves fun update _ => UpdatePairs update) := by
  rw [askPrepareNextTurn]
  cases s.config.prepareNextTurn with
  | true =>
      refine Protocol.keeps_await (fun _ => by rfl) .closed fun answer pairs => ?_
      rcases answer with error | update
      · trivial
      · intro u context isUpdate isContext
        subst isUpdate
        exact pairs context isContext
  | false => exact leaves_pure fun u context none => by cases none

theorem UpdatePairs.paired {update : Option AgentLoopTurnUpdate} (pairs : UpdatePairs update)
    (paired : Paired s.currentContext.messages) :
    Paired (s.update update).currentContext.messages := by
  cases update with
  | none => exact paired
  | some u =>
      cases isContext : u.context with
      | none => simpa [LoopState.update, isContext] using paired
      | some context => simpa [LoopState.update, isContext] using pairs u context rfl isContext

theorem exchange_endTurn (paired : Paired s.currentContext.messages) (message : AssistantMessage)
    (toolResults : List ToolResultMessage) :
    exchange.Keeps (endTurn s message toolResults) asked (Leaves TurnPairs) := by
  refine leaves_bind (exchange_emit (by rfl) .closed) fun _ _ _ => ?_
  refine leaves_bind (exchange_askPrepareNextTurn _ _) fun update _ pairs => ?_
  refine leaves_skip (quiet_of_silent (askShouldStop_silent _ _ _)) fun stop => ?_
  cases stop with
  | true => exact exchange_endRun _
  | false =>
      exact leaves_bind (exchange_getSteeringMessages _) fun pendingMessages _ noResults =>
        leaves_pure ⟨pairs.paired paired, noResults⟩

theorem exchange_runTurn (pairs : s.Pairs) :
    exchange.Keeps (runTurn s) asked (Leaves TurnPairs) := by
  refine leaves_skip quiet_beginTurn fun _ => ?_
  refine leaves_bind (exchange_emitMessages pairs.pending) fun _ _ _ => ?_
  have paired : Paired (s.push s.pendingMessages).currentContext.messages :=
    pairs.context.append (paired_of_noResults pairs.pending)
  refine leaves_bind (exchange_streamAssistantResponse _ paired) fun answer _ known => ?_
  obtain ⟨rfl, isOpen⟩ := known
  rw [answerTools]
  split
  · exact leaves_bind (exchange_emit (by rfl) .closed) fun _ _ _ => exchange_endRun _
  · refine leaves_bind exchange_executeTools fun batch _ known => ?_
    exact exchange_endTurn (open_results isOpen known.2) _ _

theorem exchange_turns (fuel : Nat) (pairs : s.Pairs) :
    exchange.Keeps (turns fuel s) asked (Leaves fun _ _ => True) := by
  induction fuel generalizing s asked with
  | zero => exact Protocol.keeps_halt
  | succ fuel ih =>
      rw [turns]
      split
      · refine leaves_bind (exchange_runTurn pairs) fun turnEnd _ known => ?_
        cases turnEnd with
        | finished newMessages => exact leaves_pure trivial
        | goesOn s' => exact ih known
      · refine leaves_bind (exchange_getFollowUpMessages _) fun followUps _ noResults => ?_
        split
        · exact leaves_bind (exchange_emit (by rfl) .closed) fun _ _ _ => leaves_pure trivial
        · exact ih ⟨pairs.context, noResults⟩

theorem exchange_runAgentLoop (fuel : Nat) {prompts : List AgentMessage} {context : AgentContext}
    (config : AgentLoopConfig) (paired : Paired context.messages)
    (noResults : NoResults prompts) :
    exchange.Keeps (runAgentLoop fuel prompts context config) asked (Leaves fun _ _ => True) := by
  refine leaves_skip (quiet_emit (by rfl)) fun _ => ?_
  refine leaves_skip (quiet_emit (by rfl)) fun _ => ?_
  refine leaves_bind (exchange_emitMessages noResults) fun _ _ _ => ?_
  refine leaves_bind (exchange_getSteeringMessages _) fun pendingMessages _ pending => ?_
  exact exchange_turns fuel ⟨paired.append (paired_of_noResults noResults), pending⟩

end Turns

/-! ## What was published -/

/-- The message that was completed. -/
def Exchanged.message : Exchanged → List AgentMessage
  | .completed message => [message]
  | _ => []

/-- The transcript that was handed to the model. -/
def Exchanged.transcript : Exchanged → List (List AgentMessage)
  | .asked messages => [messages]
  | _ => []

theorem completed_eq (es : List LoopEvent) :
    completed es = (exchange.observed es).flatMap Exchanged.message := by
  induction es with
  | nil => rfl
  | cons e es ih =>
      obtain ⟨call, answer⟩ := e
      have whole : completed ([⟨call, answer⟩] ++ es) = completed [⟨call, answer⟩] ++ completed es := by
        rw [completed, steps_append, List.filterMap_append]
        rfl
      rw [← List.singleton_append, whole, ih, Protocol.observed_append, List.flatMap_append]
      congr 1
      cases call with
      | emit event => cases event <;> rfl
      | _ => rfl

theorem converted_eq (es : List LoopEvent) :
    converted es = (exchange.observed es).flatMap Exchanged.transcript := by
  induction es with
  | nil => rfl
  | cons e es ih =>
      obtain ⟨call, answer⟩ := e
      rw [← List.singleton_append, converted_append, ih, Protocol.observed_append,
        List.flatMap_append]
      congr 1
      cases call with
      | emit event => cases event <;> rfl
      | _ => rfl

theorem Walk.completed {os : List Exchanged} {asked asked' q : Option AssistantMessage}
    (walk : Walk Exchanges asked os q) (fewer : asked = none ∨ asked = asked') :
    ∃ q', Walk Exchange asked' (os.flatMap Exchanged.message) q' := by
  induction walk generalizing asked' with
  | nil => exact ⟨asked', .nil⟩
  | cons step rest ih =>
      cases step with
      | completed goesOn =>
          obtain ⟨q', walk'⟩ := ih (Or.inr rfl)
          exact ⟨q', .cons (goesOn.mono fewer) walk'⟩
      | closed => exact ih (Or.inl rfl)
      | asked paired => exact ih fewer

theorem Walk.asked {os : List Exchanged} {asked q : Option AssistantMessage}
    (walk : Walk Exchanges asked os q) :
    ∀ messages ∈ os.flatMap Exchanged.transcript, Paired messages := by
  induction walk with
  | nil => simp
  | cons step rest ih =>
      cases step with
      | asked paired => exact List.forall_mem_cons.mpr ⟨paired, ih⟩
      | _ => exact ih

end NestifyClaw.Agent
