import NestifyClaw.Agent.Transcript
import NestifyClaw.Protocol

/-!
# The lifecycle of a run

The events of a run follow one another as `Lifecycle` says, in every run and at every point of it:
runs that fail in the middle, or whose sink rejects an event, keep to it as well
(`runAgentLoop_lifecycle`).  A listener of `agentLoop` sees one `agent_end`, and nothing behind it,
however the run ends (`agentLoop_ends`).
-/

namespace NestifyClaw.Agent

open Concurrent

/-- Where a run stands for those who listen to it. -/
inductive Phase
  | before
  | turns
  | turn
  | message (message : AgentMessage)
  | over

inductive Lifecycle : Phase → AgentEvent → Phase → Prop
  | agentStart : Lifecycle .before .agentStart .turns
  | turnStart : Lifecycle .turns .turnStart .turn
  | messageStart (message : AgentMessage) : Lifecycle .turn (.messageStart message) (.message message)
  | messageEnd (message : AgentMessage) : Lifecycle (.message message) (.messageEnd message) .turn
  /-- A response may start again; it stays open. -/
  | messageRestart (message message' : AssistantMessage) :
      Lifecycle (.message (.assistant message)) (.messageStart (.assistant message'))
        (.message (.assistant message'))
  | messageUpdate (message message' : AssistantMessage) (event : AssistantMessageEvent) :
      Lifecycle (.message (.assistant message)) (.messageUpdate (.assistant message') event)
        (.message (.assistant message'))
  | messageFinal (message message' : AssistantMessage) :
      Lifecycle (.message (.assistant message)) (.messageEnd (.assistant message')) .turn
  | toolExecutionStart (toolCall : AgentToolCall) :
      Lifecycle .turn (.toolExecutionStart toolCall) .turn
  | toolExecutionUpdate (toolCall : AgentToolCall) (partialResult : AgentToolResult) :
      Lifecycle .turn (.toolExecutionUpdate toolCall partialResult) .turn
  | toolExecutionEnd (toolCallId toolName : String) (result : AgentToolResult) (isError : Bool) :
      Lifecycle .turn (.toolExecutionEnd toolCallId toolName result isError) .turn
  | turnEnd (message : AssistantMessage) (toolResults : List ToolResultMessage) :
      Lifecycle .turn (.turnEnd message toolResults) .turns
  | agentEnd (messages : List AgentMessage) : Lifecycle .turns (.agentEnd messages) .over

/-- The sink did not take the event. -/
def rejected : LoopEvent → Bool
  | ⟨.emit _, some (.error _)⟩ => true
  | _ => false

/-- The lifecycle as a protocol; where `accepted` holds, the sink takes every event. -/
def lifecycle (accepted : Prop) : Protocol LoopCall LoopCall.Result String Phase AgentEvent where
  observe e := e.call.step.bind Step.toEvent
  next := Lifecycle
  assumes e := accepted → rejected e = false

theorem observed_eq_emitted (accepted : Prop) (es : List LoopEvent) :
    (lifecycle accepted).observed es = emitted es :=
  List.filterMap_filterMap.symm

/-- A program that returns leaves the run at `q`; one that throws, before its end. -/
def Arrives (accepted : Prop) {α : Type} (q : Phase) : Except String α → Phase → Prop
  | .ok _, s => s = q
  | .error _, s => accepted → s ≠ .over

section Rules

variable {accepted : Prop} {α β : Type} {s q q' : Phase}

theorem keeps_emit {event : AgentEvent} (step : Lifecycle s event q) :
    (lifecycle accepted).Keeps (emit event) s (Arrives accepted q) := by
  refine Protocol.keeps_await (fun _ => by rfl) step fun answer assumed => ?_
  rcases answer with e | a
  · intro isAccepted
    cases assumed isAccepted
  · rfl

theorem keeps_pure (a : α) : (lifecycle accepted).Keeps (pure a : LoopM α) s (Arrives accepted s) :=
  Protocol.keeps_done (by rfl)

/-- One part after the other. -/
theorem keeps_bind {p : LoopM α} {f : α → LoopM β}
    (first : (lifecycle accepted).Keeps p s (Arrives accepted q))
    (rest : ∀ a, (lifecycle accepted).Keeps (f a) q (Arrives accepted q')) :
    (lifecycle accepted).Keeps (p >>= f) s (Arrives accepted q') :=
  first.bind (fun a _ same => same ▸ rest a) fun _ _ notOver => notOver

/-- Observations that the phase allows again and again. -/
def LoopCall.Stays (q : Phase) (c : LoopCall) : Prop :=
  ∀ o, c.step.bind Step.toEvent = some o → Lifecycle q o q

theorem stays_of_silent {c : LoopCall} (silent : c.IsSilent) : c.Stays q := by
  intro o shows
  rw [silent.1] at shows
  cases shows

theorem keeps_of_stays {p : LoopM α} (stays : Prog.Makes (LoopCall.Stays q) p) (notOver : q ≠ .over) :
    (lifecycle accepted).Keeps p q (Arrives accepted q) := by
  refine Protocol.keeps_of_makes (stays.mono fun c stay _ => stay) fun r => ?_
  rcases r with e | a
  · exact fun _ => notOver
  · rfl

theorem keeps_silent {p : LoopM α} (silent : Prog.Makes LoopCall.IsSilent p)
    (notOver : q ≠ .over) : (lifecycle accepted).Keeps p q (Arrives accepted q) :=
  keeps_of_stays (silent.mono fun _ => stays_of_silent) notOver

end Rules

/-! ## Tool calls -/

section ToolCalls

variable {context : AgentContext} {assistantMessage : AssistantMessage} {config : AgentLoopConfig}
  {accepted : Prop}

theorem stays_turn_silent {α : Type} {p : LoopM α} (silent : Prog.Makes LoopCall.IsSilent p) :
    Prog.Makes (LoopCall.Stays .turn) p :=
  silent.mono fun _ => stays_of_silent

theorem stays_emit {q : Phase} {event : AgentEvent} (loop : Lifecycle q event q) :
    Prog.Makes (LoopCall.Stays q) (emit event) := by
  refine makes_await fun o shows => ?_
  cases shows
  exact loop

theorem emitUpdates_stays (toolCall : AgentToolCall) (updates : List AgentToolResult) :
    Prog.Makes (LoopCall.Stays .turn) (emitUpdates toolCall updates) := by
  induction updates with
  | nil => exact makes_pure _
  | cons partialResult updates ih =>
      refine Prog.makes_call (fun o shows => ?_) fun answer =>
        ih.andThen fun rest => Prog.makes_ofExcept _
      cases shows
      exact .toolExecutionUpdate toolCall partialResult

theorem executeAndFinalize_stays (prepared : PreparedToolCall) :
    Prog.Makes (LoopCall.Stays .turn)
      (executeAndFinalize context assistantMessage config prepared) := by
  refine Prog.Makes.bind ?_ fun executed => stays_turn_silent finalizeExecutedToolCall_silent
  refine Prog.makes_call (fun o shows => by cases shows) fun answer => ?_
  cases answer with
  | error error => exact makes_pure _
  | ok execution => exact (emitUpdates_stays _ _).bind fun _ => makes_pure _

theorem emitToolExecutionEnd_stays (finalized : FinalizedToolCall) :
    Prog.Makes (LoopCall.Stays .turn) (emitToolExecutionEnd finalized) :=
  stays_emit (.toolExecutionEnd ..)

theorem finalizeToolCall_stays (toolCall : AgentToolCall) (preparation : Preparation) :
    Prog.Makes (LoopCall.Stays .turn)
      (finalizeToolCall context assistantMessage config toolCall preparation) := by
  cases preparation with
  | immediate result isError => exact makes_pure _
  | prepared prepared => exact executeAndFinalize_stays prepared

theorem startToolCalls_stays (toolCalls : List AgentToolCall) :
    Prog.Makes (LoopCall.Stays .turn)
      (startToolCalls context assistantMessage config toolCalls) := by
  induction toolCalls with
  | nil => exact makes_pure _
  | cons toolCall toolCalls ih =>
      refine (stays_emit (.toolExecutionStart toolCall)).bind fun _ => ?_
      refine (stays_turn_silent prepareToolCall_silent).bind fun preparation => ?_
      refine Prog.Makes.bind ?_ fun entry => ?_
      · cases preparation with
        | immediate result isError => exact (emitToolExecutionEnd_stays _).bind fun _ => makes_pure _
        | prepared prepared => exact makes_pure _
      · refine (stays_turn_silent isAborted_silent).bind fun aborted => ?_
        cases aborted with
        | true => exact makes_pure _
        | false => exact ih.bind fun _ => makes_pure _

theorem finishToolCall_stays (entry : FinalizedToolCallEntry) :
    Prog.Makes (LoopCall.Stays .turn)
      (finishToolCall context assistantMessage config entry) := by
  cases entry with
  | settled finalized => exact makes_pure _
  | deferred prepared =>
      exact (executeAndFinalize_stays prepared).bind fun _ =>
        (emitToolExecutionEnd_stays _).bind fun _ => makes_pure _

theorem keeps_message (message : AgentMessage) :
    (lifecycle accepted).Keeps
      (do emit (.messageStart message); emit (.messageEnd message)) .turn (Arrives accepted .turn) :=
  keeps_bind (keeps_emit (.messageStart message)) fun _ => keeps_emit (.messageEnd message)

theorem keeps_createToolResultMessage (finalized : FinalizedToolCall) :
    (lifecycle accepted).Keeps (createToolResultMessage finalized) .turn
      (Arrives accepted .turn) := by
  refine keeps_silent ?_ (by simp)
  exact (Prog.makes_get (by exact ⟨rfl, rfl⟩)).bind fun _ => makes_pure _

theorem keeps_emitToolResults (finalizedCalls : List FinalizedToolCall) :
    (lifecycle accepted).Keeps (emitToolResults finalizedCalls) .turn (Arrives accepted .turn) := by
  induction finalizedCalls with
  | nil => exact keeps_pure _
  | cons finalized rest ih =>
      exact keeps_bind (keeps_createToolResultMessage finalized) fun message =>
        keeps_bind (keeps_message _) fun _ => keeps_bind ih fun _ => keeps_pure _

theorem keeps_sequential (toolCalls : List AgentToolCall) :
    (lifecycle accepted).Keeps
      (executeToolCallsSequential context assistantMessage config toolCalls) .turn
      (Arrives accepted .turn) := by
  induction toolCalls with
  | nil => exact keeps_pure _
  | cons toolCall toolCalls ih =>
      refine keeps_bind (keeps_emit (.toolExecutionStart toolCall)) fun _ => ?_
      refine keeps_bind (keeps_silent prepareToolCall_silent (by simp)) fun preparation => ?_
      refine keeps_bind (keeps_of_stays (finalizeToolCall_stays toolCall preparation) (by simp))
        fun finalized => ?_
      refine keeps_bind (keeps_emit (.toolExecutionEnd ..)) fun _ => ?_
      refine keeps_bind (keeps_createToolResultMessage finalized) fun message => ?_
      refine keeps_bind (keeps_message _) fun _ => ?_
      refine keeps_bind (keeps_silent isAborted_silent (by simp)) fun aborted => ?_
      cases aborted with
      | true => exact keeps_pure _
      | false => exact keeps_bind ih fun _ => keeps_pure _

/-- The tools may run in any order: each of their events leaves the turn as it is. -/
theorem keeps_parallel (toolCalls : List AgentToolCall) :
    (lifecycle accepted).Keeps
      (executeToolCallsParallel context assistantMessage config toolCalls) .turn
      (Arrives accepted .turn) := by
  refine keeps_bind (keeps_of_stays (startToolCalls_stays toolCalls) (by simp)) fun entries => ?_
  refine keeps_bind (keeps_of_stays (Prog.makes_awaitAll finishToolCall_stays) (by simp))
    fun ordered => ?_
  exact keeps_emitToolResults ordered

theorem keeps_executeTools :
    (lifecycle accepted).Keeps (executeTools context assistantMessage config) .turn
      (Arrives accepted .turn) := by
  rw [executeTools]
  split
  · exact keeps_pure _
  · refine keeps_bind ?_ fun finished => keeps_pure _
    rw [finishToolCalls]
    split
    · exact keeps_sequential _
    · exact keeps_parallel _

end ToolCalls

/-! ## Turns -/

section Turns

variable {accepted : Prop} {s : LoopState}

theorem keeps_finishResponse (st : Streaming) :
    (lifecycle accepted).Keeps (finishResponse st)
      (st.partialMessage.elim .turn fun message => .message (.assistant message))
      (Arrives accepted .turn) := by
  have silent : Prog.Makes LoopCall.IsSilent (Prog.await LoopCall.result : LoopM _) :=
    makes_await (by exact ⟨rfl, rfl⟩)
  rw [finishResponse]
  cases st.partialMessage with
  | none =>
      refine keeps_bind (keeps_silent silent (by simp)) fun finalMessage => ?_
      exact keeps_bind (keeps_emit (.messageStart _)) fun _ =>
        keeps_bind (keeps_emit (.messageEnd _)) fun _ => keeps_pure _
  | some message =>
      refine keeps_bind (keeps_silent silent (by simp)) fun finalMessage => ?_
      exact keeps_bind (keeps_emit (.messageFinal _ _)) fun _ => keeps_pure _

theorem keeps_readResponse (interrupted : Option String) (events : List AssistantMessageEvent)
    (st : Streaming) :
    (lifecycle accepted).Keeps (readResponse interrupted events st)
      (st.partialMessage.elim .turn fun message => .message (.assistant message))
      (Arrives accepted .turn) := by
  induction events generalizing st with
  | nil =>
      cases interrupted with
      | none => exact keeps_finishResponse st
      | some error =>
          refine Protocol.keeps_fail fun _ => ?_
          cases st.partialMessage <;> simp
  | cons event events ih =>
      cases event with
      | start message =>
          rw [readResponse]
          refine keeps_bind (q := .message (.assistant message)) ?_ fun _ => ih _
          cases st.partialMessage with
          | none => exact keeps_emit (.messageStart _)
          | some before => exact keeps_emit (.messageRestart before message)
      | update kind message =>
          rw [readResponse]
          cases isPartial : st.partialMessage with
          | none =>
              have rest := ih st
              rwa [isPartial] at rest
          | some before => exact keeps_bind (keeps_emit (.messageUpdate before message _)) fun _ => ih _
      | done => exact keeps_finishResponse st
      | error => exact keeps_finishResponse st

theorem transformMessages_stays (config : AgentLoopConfig) (messages : List AgentMessage)
    (q : Phase) : Prog.Makes (LoopCall.Stays q) (transformMessages config messages) := by
  rw [transformMessages]
  cases config.transformContext with
  | true => exact makes_await fun o shows => by cases shows
  | false => exact makes_pure _

theorem keeps_streamAssistantResponse (context : AgentContext) (config : AgentLoopConfig) :
    (lifecycle accepted).Keeps (streamAssistantResponse context config) .turn
      (Arrives accepted .turn) := by
  refine keeps_bind (keeps_of_stays (transformMessages_stays _ _ _) (by simp)) fun messages => ?_
  refine keeps_bind (q := .turn) ?_ fun llmMessages => ?_
  · exact keeps_of_stays (makes_await fun o shows => by cases shows) (by simp)
  refine keeps_bind (keeps_silent (resolveApiKey_silent _) (by simp)) fun apiKey => ?_
  refine keeps_bind ?_ fun response => keeps_readResponse _ _ ⟨none, context⟩
  exact keeps_of_stays (makes_await fun o shows => by cases shows) (by simp)

theorem keeps_emitMessages (messages : List AgentMessage) :
    (lifecycle accepted).Keeps (emitMessages messages) .turn (Arrives accepted .turn) := by
  induction messages with
  | nil => exact keeps_pure _
  | cons message messages ih =>
      exact keeps_bind (keeps_emit (.messageStart message)) fun _ =>
        keeps_bind (keeps_emit (.messageEnd message)) fun _ => ih

/-- A run's first turn is open already. -/
def LoopState.phase (s : LoopState) : Phase := if s.firstTurn then .turn else .turns

theorem keeps_beginTurn :
    (lifecycle accepted).Keeps (beginTurn s) s.phase (Arrives accepted .turn) := by
  rw [beginTurn, LoopState.phase]
  cases s.firstTurn with
  | true => exact keeps_pure _
  | false => exact keeps_emit .turnStart

theorem getSteeringMessages_stays (config : AgentLoopConfig) (q : Phase) :
    Prog.Makes (LoopCall.Stays q) (getSteeringMessages config) := by
  rw [getSteeringMessages]
  cases config.getSteeringMessages with
  | true => exact makes_await fun o shows => by cases shows
  | false => exact makes_pure _

theorem getFollowUpMessages_stays (config : AgentLoopConfig) (q : Phase) :
    Prog.Makes (LoopCall.Stays q) (getFollowUpMessages config) := by
  rw [getFollowUpMessages]
  cases config.getFollowUpMessages with
  | true => exact makes_await fun o shows => by cases shows
  | false => exact makes_pure _

theorem askPrepareNextTurn_stays (message : AssistantMessage)
    (toolResults : List ToolResultMessage) (q : Phase) :
    Prog.Makes (LoopCall.Stays q) (askPrepareNextTurn s message toolResults) := by
  rw [askPrepareNextTurn]
  cases s.config.prepareNextTurn with
  | true => exact makes_await fun o shows => by cases shows
  | false => exact makes_pure _

/-- Behind a turn the run is over, or stands between two turns. -/
def TurnArrives (accepted : Prop) : Except String TurnEnd → Phase → Prop
  | .ok (.finished _), q => q = .over
  | .ok (.goesOn s), q => q = .turns ∧ s.firstTurn = false
  | .error _, q => accepted → q ≠ .over

theorem keeps_turnBind {α : Type} {p : LoopM α} {f : α → LoopM TurnEnd} {q q' : Phase}
    (first : (lifecycle accepted).Keeps p q (Arrives accepted q'))
    (rest : ∀ a, (lifecycle accepted).Keeps (f a) q' (TurnArrives accepted)) :
    (lifecycle accepted).Keeps (p >>= f) q (TurnArrives accepted) :=
  first.bind (fun a _ same => same ▸ rest a) fun _ _ notOver => notOver

theorem keeps_endRun (newMessages : List AgentMessage) :
    (lifecycle accepted).Keeps (endRun newMessages) .turns (TurnArrives accepted) :=
  keeps_turnBind (keeps_emit (.agentEnd newMessages)) fun _ => Protocol.keeps_done (by rfl)

theorem keeps_endTurn (later : s.firstTurn = false) (message : AssistantMessage)
    (toolResults : List ToolResultMessage) :
    (lifecycle accepted).Keeps (endTurn s message toolResults) .turn (TurnArrives accepted) := by
  refine keeps_turnBind (keeps_emit (.turnEnd message toolResults)) fun _ => ?_
  refine keeps_turnBind (keeps_of_stays (askPrepareNextTurn_stays _ _ _) (by simp)) fun update => ?_
  refine keeps_turnBind (keeps_silent (askShouldStop_silent _ _ _) (by simp)) fun stop => ?_
  cases stop with
  | true => exact keeps_endRun _
  | false =>
      refine keeps_turnBind (keeps_of_stays (getSteeringMessages_stays _ _) (by simp))
        fun pendingMessages => Protocol.keeps_done ⟨rfl, ?_⟩
      exact (newMessages_update update).2.trans later

theorem keeps_runTurn :
    (lifecycle accepted).Keeps (runTurn s) s.phase (TurnArrives accepted) := by
  refine keeps_turnBind keeps_beginTurn fun _ => ?_
  refine keeps_turnBind (keeps_emitMessages _) fun _ => ?_
  refine keeps_turnBind (keeps_streamAssistantResponse _ _) fun answer => ?_
  rw [answerTools]
  split
  · exact keeps_turnBind (keeps_emit (.turnEnd ..)) fun _ => keeps_endRun _
  · exact keeps_turnBind keeps_executeTools fun batch => keeps_endTurn (by rfl) _ _

theorem keeps_turns (fuel : Nat) (begins : s.firstTurn = true → s.hasMoreToolCalls = true) :
    (lifecycle accepted).Keeps (turns fuel s) s.phase (Arrives accepted .over) := by
  induction fuel generalizing s with
  | zero => exact Protocol.keeps_halt
  | succ fuel ih =>
      rw [turns]
      split
      · refine keeps_runTurn.bind (fun turnEnd q arrives => ?_) fun _ _ notOver => notOver
        cases turnEnd with
        | finished newMessages => exact arrives ▸ keeps_pure _
        | goesOn s' =>
            obtain ⟨rfl, later⟩ := arrives
            have rest := ih (s := s') fun first => by simp [later] at first
            rwa [LoopState.phase, later] at rest
      · rename_i idle
        have later : s.firstTurn = false := by
          cases first : s.firstTurn with
          | false => rfl
          | true => simp [begins first] at idle
        rw [LoopState.phase, later]
        refine keeps_bind (keeps_of_stays (getFollowUpMessages_stays _ _) (by simp))
          fun followUpMessages => ?_
        split
        · exact keeps_bind (keeps_emit (.agentEnd _)) fun _ => keeps_pure _
        · have rest := ih (s := { s with
            pendingMessages := followUpMessages, hasMoreToolCalls := true }) fun _ => rfl
          rwa [LoopState.phase, later] at rest

theorem keeps_runLoop (fuel : Nat) (context : AgentContext) (newMessages : List AgentMessage)
    (config : AgentLoopConfig) :
    (lifecycle accepted).Keeps (runLoop fuel context newMessages config) .turn
      (Arrives accepted .over) :=
  keeps_bind (keeps_of_stays (getSteeringMessages_stays _ _) (by simp)) fun pendingMessages =>
    keeps_turns (s := ⟨context, newMessages, config, true, true, pendingMessages⟩) fuel fun _ => rfl

theorem keeps_runAgentLoop (fuel : Nat) (prompts : List AgentMessage) (context : AgentContext)
    (config : AgentLoopConfig) :
    (lifecycle accepted).Keeps (runAgentLoop fuel prompts context config) .before
      (Arrives accepted .over) :=
  keeps_bind (keeps_emit .agentStart) fun _ => keeps_bind (keeps_emit .turnStart) fun _ =>
    keeps_bind (keeps_emitMessages prompts) fun _ => keeps_runLoop _ _ _ _

theorem keeps_runAgentLoopContinue (fuel : Nat) (context : AgentContext)
    (config : AgentLoopConfig) :
    (lifecycle accepted).Keeps (runAgentLoopContinue fuel context config) .before
      (Arrives accepted .over) := by
  rw [runAgentLoopContinue]
  split
  · exact Protocol.keeps_fail fun _ => by simp
  · exact Protocol.keeps_fail fun _ => by simp
  · exact keeps_bind (keeps_emit .agentStart) fun _ => keeps_bind (keeps_emit .turnStart) fun _ =>
      keeps_runLoop _ _ _ _

end Turns

/-! ## The end of a run -/

def AgentEvent.isAgentEnd : AgentEvent → Bool
  | agentEnd _ => true
  | _ => false

/-- There is one `agent_end`, and it comes last. -/
def EndsOnce (events : List AgentEvent) : Prop :=
  ∃ front messages, events = front ++ [.agentEnd messages] ∧
    ∀ event ∈ front, event.isAgentEnd = false

theorem path_open {s q : Phase} {events : List AgentEvent} (path : Walk Lifecycle s events q)
    (notOver : q ≠ .over) : ∀ event ∈ events, event.isAgentEnd = false := by
  induction path with
  | nil => simp
  | cons step rest ih =>
      refine List.forall_mem_cons.mpr ⟨?_, ih notOver⟩
      cases step with
      | agentEnd messages =>
          exact absurd (rest.of_stuck fun o s' leads => by cases leads).2 notOver
      | _ => rfl

theorem path_over {s : Phase} {events : List AgentEvent} (path : Walk Lifecycle s events .over)
    (notOver : s ≠ .over) : EndsOnce events := by
  generalize isEnd : Phase.over = q at path notOver
  induction path with
  | nil => exact absurd rfl notOver
  | @cons s s' _ event events step rest ih =>
      subst isEnd
      by_cases last : s' = .over
      · subst last
        obtain ⟨rfl, -⟩ := rest.of_stuck fun o s' leads => by cases leads
        cases step with
        | agentEnd messages => exact ⟨[], messages, rfl, by simp⟩
      · obtain ⟨front, messages, rfl, none⟩ := ih rfl last
        refine ⟨event :: front, messages, rfl, List.forall_mem_cons.mpr ⟨?_, none⟩⟩
        cases step with
        | agentEnd messages => exact absurd rfl last
        | _ => rfl

theorem traces_emit_bind {α : Type} {event : AgentEvent} {f : Unit → LoopM α} {es : List LoopEvent}
    {r : Except String α} (accepted : ∀ e ∈ es, rejected e = false)
    (traces : (emit event >>= f).Traces es (some r)) :
    ∃ rest, emitted es = event :: emitted rest ∧ (∀ e ∈ rest, rejected e = false) ∧
      (f ()).Traces rest (some r) := by
  rcases Prog.traces_andThen traces with ⟨answer, first, rest, rfl, here, there⟩ | ⟨-, none⟩
  · cases Prog.traces_await here
    obtain ⟨taken, later⟩ := List.forall_mem_cons.mp accepted
    cases answer with
    | error e => cases taken
    | ok a => exact ⟨rest, rfl, later, there⟩
  · cases none

theorem traces_get_bind {α : Type} {c : LoopCall} {f : c.Result → LoopM α} {es : List LoopEvent}
    {r : Except String α} (traces : (Prog.get c >>= f).Traces es (some r)) :
    ∃ v rest, es = ⟨c, some (.ok v)⟩ :: rest ∧ (f v).Traces rest (some r) := by
  rcases Prog.traces_andThen traces with ⟨answer, first, rest, rfl, here, there⟩ | ⟨-, none⟩
  · obtain ⟨v, rfl, rfl⟩ := Prog.traces_get here
    exact ⟨v, rest, rfl, there⟩
  · cases none

theorem pushLoopFailure_emitted {config : AgentLoopConfig} {error : String} {es : List LoopEvent}
    {r : Except String (List AgentMessage)} (accepted : ∀ e ∈ es, rejected e = false)
    (traces : (pushLoopFailure config error).Traces es (some r)) :
    ∃ message : AssistantMessage, emitted es =
      [.messageStart (.assistant message), .messageEnd (.assistant message), .turnEnd message [],
        .agentEnd [.assistant message]] := by
  obtain ⟨aborted, behind, rfl, read⟩ := traces_get_bind traces
  obtain ⟨timestamp, rest, rfl, publishes⟩ := traces_get_bind read
  have accepted := (List.forall_mem_cons.mp (List.forall_mem_cons.mp accepted).2).2
  obtain ⟨rest₁, started, accepted₁, publishes⟩ := traces_emit_bind accepted publishes
  obtain ⟨rest₂, ended, accepted₂, publishes⟩ := traces_emit_bind accepted₁ publishes
  obtain ⟨rest₃, turnEnded, accepted₃, publishes⟩ := traces_emit_bind accepted₂ publishes
  obtain ⟨rest₄, agentEnded, -, publishes⟩ := traces_emit_bind accepted₃ publishes
  have none : emitted rest₄ = [] := by
    rw [publishes.1]
    rfl
  refine ⟨createLoopFailureMessage config error aborted timestamp, ?_⟩
  rw [← none, ← agentEnded, ← turnEnded, ← ended, ← started]
  rfl

/-- However a run ends, those who listen to its stream see one end. -/
theorem streamRun_ends {config : AgentLoopConfig} {run : LoopM (List AgentMessage)}
    {es : List LoopEvent} {r : Except String (List AgentMessage)}
    (keeps : (lifecycle True).Keeps run .before (Arrives True .over))
    (accepted : ∀ e ∈ es, rejected e = false)
    (traces : (streamRun config run).Traces es (some r)) : EndsOnce (emitted es) := by
  rcases Prog.traces_andThen traces with ⟨outcome, first, rest, rfl, here, there⟩ | ⟨-, none⟩
  · obtain ⟨before, after⟩ := List.forall_mem_append.mp accepted
    obtain ⟨q, path, arrives⟩ := keeps _ _ here fun e there _ => before e there
    rw [observed_eq_emitted] at path
    have whole : emitted (first ++ rest) = emitted first ++ emitted rest := by
      rw [emitted, steps_append, List.filterMap_append]
      rfl
    cases outcome with
    | ok messages =>
        obtain rfl := arrives _ rfl
        rw [there.1, List.append_nil]
        exact path_over path (by simp)
    | error error =>
        obtain ⟨message, failure⟩ := pushLoopFailure_emitted after there
        refine ⟨emitted first ++ [.messageStart (.assistant message),
          .messageEnd (.assistant message), .turnEnd message []], [.assistant message], ?_, ?_⟩
        · rw [whole, failure, List.append_assoc]
          rfl
        · refine List.forall_mem_append.mpr ⟨path_open path (arrives _ rfl trivial), ?_⟩
          simp [AgentEvent.isAgentEnd]
  · cases none

/-! ## Main results -/

/-- At every point of every run, what was published is a way through the lifecycle, and a run that
returned is over. -/
theorem runAgentLoop_lifecycle {fuel : Nat} {prompts : List AgentMessage} {context : AgentContext}
    {config : AgentLoopConfig} {es : List LoopEvent}
    {o : Option (Except String (List AgentMessage))}
    (traces : (runAgentLoop fuel prompts context config).Traces es o) :
    ∃ q, Walk Lifecycle .before (emitted es) q ∧ ∀ messages, o = some (.ok messages) → q = .over := by
  obtain ⟨q, path, arrives⟩ :=
    @keeps_runAgentLoop False fuel prompts context config es o traces
      fun _ _ impossible => impossible.elim
  rw [observed_eq_emitted] at path
  exact ⟨q, path, fun messages returned => arrives _ returned⟩

theorem runAgentLoop_lifecycle_oneCall :
    ∃ es : List LoopEvent, Walk Lifecycle .before (emitted es) .over := by
  obtain ⟨es, messages, traces, -⟩ := oneCall_returns
  obtain ⟨q, path, isOver⟩ := runAgentLoop_lifecycle traces
  exact ⟨es, isOver messages rfl ▸ path⟩

/-- Every settled run of `agentLoop` ends once for its listeners, whether it returned or threw. -/
theorem agentLoop_ends {fuel : Nat} {prompts : List AgentMessage} {context : AgentContext}
    {config : AgentLoopConfig} {es : List LoopEvent} {r : Except String (List AgentMessage)}
    (accepted : ∀ e ∈ es, rejected e = false)
    (traces : (agentLoop fuel prompts context config).Traces es (some r)) :
    EndsOnce (emitted es) :=
  streamRun_ends (keeps_runAgentLoop _ _ _ _) accepted traces

theorem agentLoop_ends_oneCall : ∃ es : List LoopEvent, EndsOnce (emitted es) := by
  let run := (agentLoop 3 [question] oneTool plainConfig).run (scripted oneCall) 0
  have returns : run.returned.isSome = true := by decide +kernel
  exact ⟨_, agentLoop_ends (by decide +kernel)
    (Prog.traces_of_returned (Option.eq_some_of_isSome returns))⟩

/-- A run that is continued is refused before anything is published, or ends once as well. -/
theorem agentLoopContinue_ends {fuel : Nat} {context : AgentContext} {config : AgentLoopConfig}
    {es : List LoopEvent} {r : Except String (List AgentMessage)}
    (accepted : ∀ e ∈ es, rejected e = false)
    (traces : (agentLoopContinue fuel context config).Traces es (some r)) :
    (es = [] ∧ ∃ error, r = .error error) ∨ EndsOnce (emitted es) := by
  rw [agentLoopContinue] at traces
  split at traces
  · obtain ⟨rfl, never | same⟩ := traces
    · cases never
    · exact Or.inl ⟨rfl, _, Option.some.inj same⟩
  · obtain ⟨rfl, never | same⟩ := traces
    · cases never
    · exact Or.inl ⟨rfl, _, Option.some.inj same⟩
  · exact Or.inr (streamRun_ends (keeps_runAgentLoopContinue _ _ _) accepted traces)

end NestifyClaw.Agent
