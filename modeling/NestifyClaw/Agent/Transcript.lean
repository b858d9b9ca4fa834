import NestifyClaw.Agent.Loop

/-!
# The transcript of a run

A run that returned is a sequence of turns.  Each turn publishes the messages that were waiting,
the model's answer and the results of its tool calls, and these are what the run returns
(`runAgentLoop_law`).
-/

namespace NestifyClaw.Agent

open Concurrent

/-- What came to pass in a turn. -/
structure Turn where
  pending : List AgentMessage
  message : AssistantMessage
  executed : List ExecutedToolCall

namespace Turn

def toolResults (t : Turn) : List ToolResultMessage := t.executed.map ExecutedToolCall.message

def messages (t : Turn) : List AgentMessage :=
  t.pending ++ .assistant t.message :: t.toolResults.map .toolResult

/-- The answer ends the run, and no tool is run for it. -/
def Failed (t : Turn) : Prop := t.message.stopReason = .error ∨ t.message.stopReason = .aborted

end Turn

/-- An answer that is not complete yet. -/
def Step.isPartial : Step → Bool
  | .event (.messageStart (.assistant _)) => true
  | .event (.messageUpdate (.assistant _) _) => true
  | _ => false

/-- An answer is published while it grows, and once it is complete. -/
def ResponseLaw (message : AssistantMessage) (shown : List Step) : Prop :=
  ∃ first growing, shown = .event (.messageStart (.assistant first)) :: growing ++
    [.event (.messageEnd (.assistant message))] ∧ ∀ step ∈ growing, step.isPartial = true

/-- What a turn leaves. -/
inductive TurnLaw (first : Bool) (t : Turn) : List LoopEvent → Prop
  | of {opening response tools closing : List LoopEvent}
      (opened : steps opening =
        (if first then [] else [.event .turnStart]) ++ t.pending.flatMap messageSteps)
      (answered : ResponseLaw t.message (steps response))
      (failed : t.Failed → t.executed = [] ∧ steps tools = [])
      (batch : ¬t.Failed → BatchLaw t.message.toolCalls t.executed tools)
      (closed : steps closing = [.event (.turnEnd t.message t.toolResults)]) :
      TurnLaw first t (opening ++ (response ++ (tools ++ closing)))

/-- What one turn after the other leaves. -/
inductive Played : Bool → List Turn → List LoopEvent → Prop
  | nil {first : Bool} {es : List LoopEvent} (silent : steps es = []) : Played first [] es
  | cons {first : Bool} {t : Turn} {ts : List Turn} {es es' : List LoopEvent}
      (turn : TurnLaw first t es) (rest : Played false ts es') : Played first (t :: ts) (es ++ es')

theorem TurnLaw.prepend {first : Bool} {t : Turn} {es es' : List LoopEvent}
    (turn : TurnLaw first t es') (silent : steps es = []) : TurnLaw first t (es ++ es') := by
  cases turn with
  | of opened answered failed batch closed =>
      rw [← List.append_assoc]
      exact .of (by rwa [steps_append, silent]) answered failed batch closed

theorem Played.prepend {first : Bool} {ts : List Turn} {es es' : List LoopEvent}
    (played : Played first ts es') (silent : steps es = []) : Played first ts (es ++ es') := by
  cases played with
  | nil silent' => exact .nil (by rw [steps_append, silent, silent', List.append_nil])
  | cons turn rest =>
      rw [← List.append_assoc]
      exact .cons (turn.prepend silent) rest

/-! ## The model's answer -/

section Response

variable {es : List LoopEvent} {message : AssistantMessage} {context : AgentContext}

def AssistantMessageEvent.isStart : AssistantMessageEvent → Bool
  | start _ => true
  | _ => false

def startsOnce : LoopEvent → Bool
  | ⟨.streamFunction _, some (.ok response)⟩ =>
      response.events.countP AssistantMessageEvent.isStart ≤ 1
  | _ => true

/-- No response of the model starts more than once. -/
def StartOnce (es : List LoopEvent) : Prop := ∀ e ∈ es, startsOnce e = true

theorem StartOnce.left {es' : List LoopEvent} (once : StartOnce (es ++ es')) : StartOnce es :=
  fun e there => once e (List.mem_append_left _ there)

theorem StartOnce.right {es' : List LoopEvent} (once : StartOnce (es ++ es')) : StartOnce es' :=
  fun e there => once e (List.mem_append_right _ there)

@[simp] theorem replaceLast_push (message message' : AgentMessage) :
    (context.push [message]).replaceLast message' = context.push [message'] := by
  simp [AgentContext.push, AgentContext.replaceLast]

@[simp] theorem replaceLast_replaceLast (message message' : AgentMessage) :
    (context.replaceLast message).replaceLast message' = context.replaceLast message' := by
  simp [AgentContext.replaceLast]

theorem finishResponse_law {st : Streaming}
    (traces : (finishResponse st).Traces es (some (.ok (message, context)))) :
    match st.partialMessage with
    | none => ResponseLaw message (steps es) ∧ context = st.context.push [.assistant message]
    | some _ => steps es = [.event (.messageEnd (.assistant message))] ∧
        context = st.context.replaceLast (.assistant message) := by
  obtain ⟨finalMessage, _, _, rfl, read, traces⟩ := Prog.traces_bind_ok traces
  rw [steps_append, Prog.traces_await read]
  cases partialMessage : st.partialMessage with
  | none =>
      simp only [partialMessage] at traces
      obtain ⟨_, _, _, rfl, started, traces⟩ := Prog.traces_bind_ok traces
      obtain ⟨_, _, _, rfl, ended, traces⟩ := Prog.traces_bind_ok traces
      obtain ⟨rfl, same⟩ := Prog.traces_done_ok traces
      cases same
      rw [List.append_nil, steps_append, steps_emit started, steps_emit ended]
      exact ⟨⟨_, [], rfl, by simp⟩, rfl⟩
  | some partialMessage' =>
      simp only [partialMessage] at traces
      obtain ⟨_, _, _, rfl, ended, traces⟩ := Prog.traces_bind_ok traces
      obtain ⟨rfl, same⟩ := Prog.traces_done_ok traces
      cases same
      rw [List.append_nil, steps_emit ended]
      exact ⟨rfl, rfl⟩

theorem finishResponse_started {st : Streaming} {partialMessage : AssistantMessage}
    (started : st.partialMessage = some partialMessage)
    (traces : (finishResponse st).Traces es (some (.ok (message, context)))) :
    (∃ growing, steps es = growing ++ [.event (.messageEnd (.assistant message))] ∧
      ∀ step ∈ growing, step.isPartial = true) ∧
    context = st.context.replaceLast (.assistant message) := by
  have law := finishResponse_law traces
  rw [started] at law
  exact ⟨⟨[], law.1, by simp⟩, law.2⟩

/-- The rest of a response that has started. -/
theorem readResponse_started {interrupted : Option String} {events : List AssistantMessageEvent}
    {st : Streaming} {partialMessage : AssistantMessage}
    (started : st.partialMessage = some partialMessage)
    (traces : (readResponse interrupted events st).Traces es (some (.ok (message, context)))) :
    (∃ growing, steps es = growing ++ [.event (.messageEnd (.assistant message))] ∧
      ∀ step ∈ growing, step.isPartial = true) ∧
    (events.countP AssistantMessageEvent.isStart = 0 →
      context = st.context.replaceLast (.assistant message)) := by
  induction events generalizing es st partialMessage with
  | nil =>
      cases interrupted with
      | some error => exact absurd traces Prog.not_traces_fail_ok
      | none => exact (finishResponse_started started traces).imp_right fun last _ => last
  | cons event events ih =>
      cases event with
      | start message' =>
          obtain ⟨_, _, rest, rfl, published, traces⟩ := Prog.traces_bind_ok traces
          obtain ⟨⟨growing, shown, partials⟩, -⟩ := ih rfl traces
          refine ⟨⟨.event (.messageStart (.assistant message')) :: growing, ?_, ?_⟩, ?_⟩
          · rw [steps_append, steps_emit published, shown]
            rfl
          · exact List.forall_mem_cons.mpr ⟨rfl, partials⟩
          · rw [List.countP_cons_of_pos (by rfl)]
            intro none
            cases none
      | update kind message' =>
          simp only [readResponse, started] at traces
          obtain ⟨_, _, rest, rfl, published, traces⟩ := Prog.traces_bind_ok traces
          obtain ⟨⟨growing, shown, partials⟩, last⟩ := ih rfl traces
          refine ⟨⟨.event (.messageUpdate (.assistant message') (.update kind message')) :: growing,
            ?_, ?_⟩, ?_⟩
          · rw [steps_append, steps_emit published, shown]
            rfl
          · exact List.forall_mem_cons.mpr ⟨rfl, partials⟩
          · rw [List.countP_cons_of_neg (by exact Bool.false_ne_true)]
            intro none
            rw [last none, replaceLast_replaceLast]
      | done => exact (finishResponse_started started traces).imp_right fun last _ => last
      | error => exact (finishResponse_started started traces).imp_right fun last _ => last

/-- A response from its beginning. -/
theorem readResponse_law {interrupted : Option String} {events : List AssistantMessageEvent}
    {before : AgentContext}
    (traces : (readResponse interrupted events
      { partialMessage := none, context := before }).Traces es (some (.ok (message, context)))) :
    ResponseLaw message (steps es) ∧
      (events.countP AssistantMessageEvent.isStart ≤ 1 →
        context = before.push [.assistant message]) := by
  have finished {es} (traces : (finishResponse { partialMessage := none, context := before }).Traces
      es (some (.ok (message, context)))) := finishResponse_law traces
  induction events generalizing es with
  | nil =>
      cases interrupted with
      | some error => exact absurd traces Prog.not_traces_fail_ok
      | none => exact (finished traces).imp_right fun last _ => last
  | cons event events ih =>
      cases event with
      | start message' =>
          obtain ⟨_, _, rest, rfl, published, traces⟩ := Prog.traces_bind_ok traces
          obtain ⟨⟨growing, shown, partials⟩, last⟩ := readResponse_started rfl traces
          refine ⟨⟨message', growing, ?_, partials⟩, ?_⟩
          · rw [steps_append, steps_emit published, shown]
            rfl
          · rw [List.countP_cons_of_pos (by rfl)]
            intro once
            rw [last (Nat.le_zero.mp (Nat.le_of_succ_le_succ once)), replaceLast_push]
      | update kind message' =>
          rw [List.countP_cons_of_neg (by exact Bool.false_ne_true)]
          exact ih traces
      | done => exact (finished traces).imp_right fun last _ => last
      | error => exact (finished traces).imp_right fun last _ => last

theorem finishResponse_aside (st : Streaming) :
    Prog.Makes LoopCall.IsAside (finishResponse st) := by
  refine (makes_await (by rfl)).bind fun finalMessage => ?_
  cases st.partialMessage with
  | none => exact (emit_aside (by rfl)).bind fun _ => (emit_aside (by rfl)).bind fun _ => makes_pure _
  | some partialMessage => exact (emit_aside (by rfl)).bind fun _ => makes_pure _

theorem readResponse_aside (interrupted : Option String) (events : List AssistantMessageEvent)
    (st : Streaming) : Prog.Makes LoopCall.IsAside (readResponse interrupted events st) := by
  induction events generalizing st with
  | nil =>
      cases interrupted with
      | none => exact finishResponse_aside st
      | some error => exact Prog.makes_ofExcept (.error error)
  | cons event events ih =>
      cases event with
      | start message' => exact (emit_aside (by rfl)).bind fun _ => ih _
      | update kind message' =>
          rw [readResponse]
          cases st.partialMessage with
          | none => exact ih st
          | some partialMessage => exact (emit_aside (by rfl)).bind fun _ => ih _
      | done => exact finishResponse_aside st
      | error => exact finishResponse_aside st

theorem transformMessages_law {config : AgentLoopConfig} {messages messages' : List AgentMessage}
    (traces : (transformMessages config messages).Traces es (some (.ok messages'))) :
    steps es = [] ∧ polled es = [] ∧ converted es = [] := by
  rw [transformMessages] at traces
  cases transforms : config.transformContext with
  | true =>
      simp only [transforms] at traces
      rw [Prog.traces_await traces]
      exact ⟨rfl, rfl, rfl⟩
  | false =>
      simp only [transforms] at traces
      obtain ⟨rfl, -⟩ := Prog.traces_done_ok traces
      exact ⟨rfl, rfl, rfl⟩

theorem resolveApiKey_silent (config : AgentLoopConfig) :
    Prog.Makes LoopCall.IsSilent (resolveApiKey config) := by
  rw [resolveApiKey]
  split
  · exact (makes_await (by exact ⟨rfl, rfl⟩)).bind fun _ => makes_pure _
  · exact makes_pure _

/-- What asking the model leaves; where nothing transforms it, the model is given the transcript,
and the answer is put behind it. -/
structure AnswerLaw (before : AgentContext) (config : AgentLoopConfig) (message : AssistantMessage)
    (after : AgentContext) (es : List LoopEvent) : Prop where
  shown : ResponseLaw message (steps es)
  taken : polled es = []
  asked : config.transformContext = false → converted es = [before.messages]
  added : StartOnce es → after = before.push [.assistant message]

theorem streamAssistantResponse_law {before : AgentContext} {config : AgentLoopConfig}
    (traces : (streamAssistantResponse before config).Traces es (some (.ok (message, context)))) :
    AnswerLaw before config message context es := by
  obtain ⟨messages, atTransform, _, rfl, transformed, traces⟩ := Prog.traces_bind_ok traces
  obtain ⟨llmMessages, _, _, rfl, convert, traces⟩ := Prog.traces_bind_ok traces
  obtain ⟨apiKey, atKey, _, rfl, resolved, traces⟩ := Prog.traces_bind_ok traces
  obtain ⟨response, _, atResponse, rfl, asked, read⟩ := Prog.traces_bind_ok traces
  obtain ⟨noStep, noPoll, noRequest⟩ := transformMessages_law transformed
  have silent := resolveApiKey_silent config
  have aside := readResponse_aside response.interrupted response.events ⟨none, before⟩
  obtain ⟨shown, last⟩ := readResponse_law read
  cases Prog.traces_await convert
  cases Prog.traces_await asked
  refine ⟨?_, ?_, fun plain => ?_, fun once => last ?_⟩
  · simp only [steps_append, noStep, steps_of_makes silent resolved]
    exact shown
  · simp only [polled_append, noPoll, polled_of_makes (aside_of_silent silent) resolved,
      polled_of_makes aside read]
    rfl
  · simp only [converted_append, noRequest, converted_of_makes (aside_of_silent silent) resolved,
      converted_of_makes aside read]
    rw [transformMessages, plain] at transformed
    rw [(Prog.traces_done_ok transformed).2]
    rfl
  · exact of_decide_eq_true (once _ (List.mem_append_right _ (List.mem_append_right _
      (List.mem_append_right _ List.mem_cons_self))))

end Response

/-! ## Turns -/

section Turns

variable {es : List LoopEvent} {s : LoopState} {message : AssistantMessage}

theorem emitMessages_aside (messages : List AgentMessage) :
    Prog.Makes LoopCall.IsAside (emitMessages messages) := by
  induction messages with
  | nil => exact makes_pure _
  | cons message messages ih => exact (emit_aside (by rfl)).bind fun _ => (emit_aside (by rfl)).bind fun _ => ih

theorem emitMessages_steps {messages : List AgentMessage} {r : Unit}
    (traces : (emitMessages messages).Traces es (some (.ok r))) :
    steps es = messages.flatMap messageSteps := by
  induction messages generalizing es with
  | nil =>
      obtain ⟨rfl, -⟩ := Prog.traces_done_ok traces
      rfl
  | cons message messages ih =>
      obtain ⟨_, _, _, rfl, started, traces⟩ := Prog.traces_bind_ok traces
      obtain ⟨_, _, _, rfl, ended, traces⟩ := Prog.traces_bind_ok traces
      rw [steps_append, steps_append, steps_emit started, steps_emit ended, ih traces]
      rfl

theorem beginTurn_aside (s : LoopState) : Prog.Makes LoopCall.IsAside (beginTurn s) := by
  rw [beginTurn]
  split
  · exact emit_aside (by rfl)
  · exact makes_pure _

theorem beginTurn_steps {r : Unit} (traces : (beginTurn s).Traces es (some (.ok r))) :
    steps es = if s.firstTurn then [] else [.event .turnStart] := by
  rw [beginTurn] at traces
  cases first : s.firstTurn with
  | true =>
      simp only [first] at traces
      rw [(Prog.traces_done_ok traces).1]
      rfl
  | false =>
      simp only [first] at traces
      rw [steps_emit traces]
      rfl

theorem executeTools_aside (context : AgentContext) (message : AssistantMessage)
    (config : AgentLoopConfig) :
    Prog.Makes LoopCall.IsAside (executeTools context message config) := by
  rw [executeTools]
  split
  · exact makes_pure _
  · exact executeToolCalls_aside

/-- An answer without tool calls has an empty batch. -/
theorem executeTools_law {context : AgentContext} {config : AgentLoopConfig}
    {batch : ExecutedToolCallBatch}
    (traces : (executeTools context message config).Traces es (some (.ok batch))) :
    ∃ executed, BatchLaw message.toolCalls executed es ∧
      batch.messages = executed.map ExecutedToolCall.message := by
  rw [executeTools] at traces
  split at traces
  · rename_i none
    obtain ⟨rfl, rfl⟩ := Prog.traces_done_ok traces
    rw [List.isEmpty_iff] at none
    exact ⟨[], ⟨Or.inl none.symm, .done (by simp), rfl⟩, rfl⟩
  · obtain ⟨finished, ran, _, rfl, here, there⟩ := Prog.traces_bind_ok traces
    obtain ⟨rfl, rfl⟩ := Prog.traces_done_ok there
    obtain ⟨executed, rfl, law⟩ := finishToolCalls_batchLaw here
    rw [List.append_nil]
    exact ⟨executed, law, List.map_map ..⟩

theorem askPrepareNextTurn_law {toolResults : List ToolResultMessage}
    {update : Option AgentLoopTurnUpdate}
    (traces : (askPrepareNextTurn s message toolResults).Traces es (some (.ok update))) :
    steps es = [] ∧ polled es = [] ∧ converted es = [] := by
  rw [askPrepareNextTurn] at traces
  cases prepares : s.config.prepareNextTurn with
  | true =>
      simp only [prepares] at traces
      rw [Prog.traces_await traces]
      exact ⟨rfl, rfl, rfl⟩
  | false =>
      simp only [prepares] at traces
      obtain ⟨rfl, -⟩ := Prog.traces_done_ok traces
      exact ⟨rfl, rfl, rfl⟩

theorem askShouldStop_silent (s : LoopState) (message : AssistantMessage)
    (toolResults : List ToolResultMessage) :
    Prog.Makes LoopCall.IsSilent (askShouldStop s message toolResults) := by
  rw [askShouldStop]
  cases s.config.shouldStopAfterTurn with
  | true => exact makes_await (by exact ⟨rfl, rfl⟩)
  | false => exact makes_pure _

theorem getSteeringMessages_law {config : AgentLoopConfig} {messages : List AgentMessage}
    (traces : (getSteeringMessages config).Traces es (some (.ok messages))) :
    steps es = [] ∧ polled es = messages ∧ converted es = [] := by
  rw [getSteeringMessages] at traces
  cases waits : config.getSteeringMessages with
  | true =>
      simp only [waits] at traces
      rw [Prog.traces_await traces]
      exact ⟨rfl, List.append_nil _, rfl⟩
  | false =>
      simp only [waits] at traces
      obtain ⟨rfl, rfl⟩ := Prog.traces_done_ok traces
      exact ⟨rfl, rfl, rfl⟩

theorem getFollowUpMessages_law {config : AgentLoopConfig} {messages : List AgentMessage}
    (traces : (getFollowUpMessages config).Traces es (some (.ok messages))) :
    steps es = [] ∧ polled es = messages ∧ converted es = [] := by
  rw [getFollowUpMessages] at traces
  cases waits : config.getFollowUpMessages with
  | true =>
      simp only [waits] at traces
      rw [Prog.traces_await traces]
      exact ⟨rfl, List.append_nil _, rfl⟩
  | false =>
      simp only [waits] at traces
      obtain ⟨rfl, rfl⟩ := Prog.traces_done_ok traces
      exact ⟨rfl, rfl, rfl⟩

/-- How the loop goes on behind a turn that ended in a state. -/
def LoopState.Leaves (s : LoopState) (last : List LoopEvent) : TurnEnd → Prop
  | .finished messages =>
      messages = s.newMessages ∧ steps last = [.event (.agentEnd messages)] ∧ polled last = []
  | .goesOn s' =>
      s'.newMessages = s.newMessages ∧ s'.firstTurn = s.firstTurn ∧ steps last = [] ∧
        polled last = s'.pendingMessages ∧
          (s.config.prepareNextTurn = false →
            s'.currentContext = s.currentContext ∧ s'.config = s.config)

theorem endRun_law {newMessages : List AgentMessage} {turnEnd : TurnEnd}
    (traces : (endRun newMessages).Traces es (some (.ok turnEnd))) :
    turnEnd = .finished newMessages ∧ steps es = [.event (.agentEnd newMessages)] ∧
      polled es = [] ∧ converted es = [] := by
  obtain ⟨_, _, _, rfl, ended, traces⟩ := Prog.traces_bind_ok traces
  obtain ⟨rfl, rfl⟩ := Prog.traces_done_ok traces
  rw [List.append_nil]
  exact ⟨rfl, steps_emit ended, polled_emit ended,
    converted_emit ended⟩

theorem newMessages_update (update : Option AgentLoopTurnUpdate) :
    (s.update update).newMessages = s.newMessages ∧ (s.update update).firstTurn = s.firstTurn := by
  cases update <;> exact ⟨rfl, rfl⟩

theorem update_of_not_prepare {toolResults : List ToolResultMessage}
    {update : Option AgentLoopTurnUpdate}
    (asked : (askPrepareNextTurn s message toolResults).Traces es (some (.ok update)))
    (plain : s.config.prepareNextTurn = false) : s.update update = s := by
  rw [askPrepareNextTurn, plain] at asked
  rw [(Prog.traces_done_ok asked).2]
  rfl

theorem endTurn_law {toolResults : List ToolResultMessage} {turnEnd : TurnEnd}
    (traces : (endTurn s message toolResults).Traces es (some (.ok turnEnd))) :
    ∃ closing last, es = closing ++ last ∧ steps closing = [.event (.turnEnd message toolResults)] ∧
      polled closing = [] ∧ converted closing = [] ∧ s.Leaves last turnEnd ∧
        converted last = [] := by
  obtain ⟨_, closing, _, rfl, closed, traces⟩ := Prog.traces_bind_ok traces
  obtain ⟨update, atPrepare, _, rfl, prepared, traces⟩ := Prog.traces_bind_ok traces
  obtain ⟨stop, atStop, _, rfl, decided, traces⟩ := Prog.traces_bind_ok traces
  obtain ⟨noStep, noPoll, noRequest⟩ := askPrepareNextTurn_law prepared
  have silent := askShouldStop_silent (s.update update) message toolResults
  have sameMessages := newMessages_update (s := s) update
  refine ⟨closing, _, rfl, steps_emit closed, polled_emit closed,
    converted_emit closed, ?_⟩
  rw [converted_append, converted_append, noRequest,
    converted_of_makes (aside_of_silent silent) decided]
  cases stop with
  | true =>
      obtain ⟨rfl, shown, taken, none⟩ := endRun_law traces
      refine ⟨⟨sameMessages.1, ?_, ?_⟩, none⟩
      · rw [steps_append, steps_append, noStep, steps_of_makes silent decided]
        exact shown
      · rw [polled_append, polled_append, noPoll,
          polled_of_makes (aside_of_silent silent) decided]
        exact taken
  | false =>
      obtain ⟨pending, atPoll, _, rfl, polls, traces⟩ := Prog.traces_bind_ok traces
      obtain ⟨rfl, rfl⟩ := Prog.traces_done_ok traces
      obtain ⟨shown, taken, none⟩ := getSteeringMessages_law polls
      refine ⟨⟨sameMessages.1, sameMessages.2, ?_, ?_, fun plain => ?_⟩, ?_⟩
      · rw [steps_append, steps_append, noStep, steps_of_makes silent decided, List.append_nil,
          shown]
        rfl
      · rw [polled_append, polled_append, noPoll,
          polled_of_makes (aside_of_silent silent) decided, List.append_nil, taken]
        rfl
      · rw [update_of_not_prepare prepared plain]
        exact ⟨rfl, rfl⟩
      · rw [List.append_nil, none]
        rfl

/-- The state behind a turn's messages. -/
structure LoopState.Takes (s : LoopState) (t : Turn) (s' : LoopState) (es : List LoopEvent) :
    Prop where
  newMessages : s'.newMessages = s.newMessages ++ t.messages
  firstTurn : s'.firstTurn = false
  config : s'.config = s.config
  context : StartOnce es → s'.currentContext.messages = s.currentContext.messages ++ t.messages

theorem runTurn_law {turnEnd : TurnEnd} (traces : (runTurn s).Traces es (some (.ok turnEnd))) :
    ∃ t s' turn last, es = turn ++ last ∧ TurnLaw s.firstTurn t turn ∧
      t.pending = s.pendingMessages ∧ polled turn = [] ∧
      (s.config.transformContext = false →
        converted turn = [s.currentContext.messages ++ t.pending]) ∧
      s'.Leaves last turnEnd ∧ converted last = [] ∧ s.Takes t s' es := by
  obtain ⟨_, atBegin, _, rfl, begun, traces⟩ := Prog.traces_bind_ok traces
  obtain ⟨_, atPending, _, rfl, published, traces⟩ := Prog.traces_bind_ok traces
  obtain ⟨⟨message, context⟩, atAnswer, behind, rfl, answered, traces⟩ := Prog.traces_bind_ok traces
  obtain ⟨shown, taken, asked, added⟩ := streamAssistantResponse_law answered
  have opened : steps (atBegin ++ atPending) = (if s.firstTurn then [] else [.event .turnStart]) ++
      s.pendingMessages.flatMap messageSteps := by
    rw [steps_append, beginTurn_steps begun, emitMessages_steps published]
  have openingPolled : polled (atBegin ++ atPending) = [] := by
    rw [polled_append, polled_of_makes (beginTurn_aside s) begun,
      polled_of_makes (emitMessages_aside _) published, List.append_nil]
  have openingConverted : converted (atBegin ++ atPending) = [] := by
    rw [converted_append, converted_of_makes (beginTurn_aside s) begun,
      converted_of_makes (emitMessages_aside _) published, List.append_nil]
  rw [← List.append_assoc]
  generalize atBegin ++ atPending = opening at opened openingPolled openingConverted
  rw [answerTools] at traces
  split at traces
  · -- the answer failed: no tools, and the run ends
    rename_i failed
    obtain ⟨_, closing, last, rfl, closed, traces⟩ := Prog.traces_bind_ok traces
    obtain ⟨rfl, ended, noneTaken, none⟩ := endRun_law traces
    refine ⟨⟨s.pendingMessages, message, []⟩, _, opening ++ (atAnswer ++ ([] ++ closing)), last,
      by simp, .of opened shown (fun _ => ⟨rfl, rfl⟩) (fun ok => absurd failed ok)
        (steps_emit closed), rfl, ?_, fun plain => ?_, ⟨rfl, ended, noneTaken⟩, none,
      ⟨?_, rfl, rfl, fun once => ?_⟩⟩
    · simp [openingPolled, taken, polled_emit closed]
    · simp [openingConverted, asked plain, converted_emit closed,
        LoopState.push, AgentContext.push]
    · simp [LoopState.push, Turn.messages, Turn.toolResults]
    · rw [added once.right.left]
      simp [LoopState.push, AgentContext.push, Turn.messages, Turn.toolResults]
  · rename_i ok
    obtain ⟨batch, atTools, _, rfl, ran, traces⟩ := Prog.traces_bind_ok traces
    obtain ⟨executed, law, results⟩ := executeTools_law ran
    obtain ⟨closing, last, rfl, closed, closingPolled, closingConverted, leaves, none⟩ :=
      endTurn_law traces
    have aside := executeTools_aside context message s.config
    refine ⟨⟨s.pendingMessages, message, executed⟩, _, opening ++ (atAnswer ++ (atTools ++ closing)),
      last, by simp, .of opened shown (fun failed => absurd failed ok) (fun _ => law) ?_, rfl, ?_,
      fun plain => ?_, leaves, none, ⟨?_, rfl, rfl, fun once => ?_⟩⟩
    · rw [closed, results]
      rfl
    · simp [openingPolled, taken, polled_of_makes aside ran, closingPolled]
    · simp [openingConverted, asked plain, converted_of_makes aside ran, closingConverted,
        LoopState.push, AgentContext.push]
    · simp [LoopState.push, Turn.messages, Turn.toolResults, results]
    · rw [added once.right.left]
      simp [LoopState.push, AgentContext.push, Turn.messages, Turn.toolResults, results]

end Turns

/-! ## Runs -/

section Runs

variable {es : List LoopEvent} {messages : List AgentMessage} {config : AgentLoopConfig}

/-- What the model is given, turn by turn, when its answers and the results stay in view. -/
def requests (before : List AgentMessage) : List Turn → List (List AgentMessage)
  | [] => []
  | t :: ts => (before ++ t.pending) :: requests (before ++ t.messages) ts

/-- No hook replaces the context. -/
structure AgentLoopConfig.Plain (config : AgentLoopConfig) : Prop where
  transform : config.transformContext = false
  prepare : config.prepareNextTurn = false

/-- A run from a state on. -/
structure TurnsLaw (s : LoopState) (ts : List Turn) (messages : List AgentMessage)
    (es : List LoopEvent) : Prop where
  played : ∃ played last, es = played ++ last ∧ Played s.firstTurn ts played ∧
    steps last = [.event (.agentEnd messages)]
  returned : messages = s.newMessages ++ ts.flatMap Turn.messages
  taken : s.pendingMessages ++ polled es = ts.flatMap Turn.pending
  asked : s.config.Plain → StartOnce es →
    converted es = requests s.currentContext.messages ts

theorem turns_law {fuel : Nat} {s : LoopState}
    (traces : (turns fuel s).Traces es (some (.ok messages))) :
    ∃ ts, TurnsLaw s ts messages es := by
  induction fuel generalizing s es with
  | zero => cases traces.2
  | succ fuel ih =>
      rw [turns] at traces
      split at traces
      · obtain ⟨turnEnd, _, behind, rfl, ran, traces⟩ := Prog.traces_bind_ok traces
        obtain ⟨t, s', turn, last, rfl, law, pending, openTaken, openAsked, leaves, none, takes⟩ :=
          runTurn_law ran
        cases turnEnd with
        | finished newMessages =>
            obtain ⟨rfl, ended, noneTaken⟩ := leaves
            obtain ⟨rfl, rfl⟩ := Prog.traces_done_ok traces
            rw [List.append_nil]
            refine ⟨[t], ⟨turn, last, rfl, ?_, ended⟩, ?_, ?_, fun plain once => ?_⟩
            · rw [← List.append_nil turn]
              exact .cons law (.nil rfl)
            · simpa using takes.newMessages
            · simp [openTaken, noneTaken, pending]
            · rw [converted_append, openAsked plain.transform, none]
              rfl
        | goesOn next =>
            obtain ⟨sameMessages, sameFirst, silent, taken, kept⟩ := leaves
            obtain ⟨ts, ⟨played, last', rfl, rest, ended⟩, rfl, more, furtherAsked⟩ := ih traces
            refine ⟨t :: ts, ⟨turn ++ (last ++ played), last', by simp, ?_, ended⟩, ?_, ?_,
              fun plain once => ?_⟩
            · rw [sameFirst, takes.firstTurn] at rest
              exact .cons law (rest.prepend silent)
            · rw [sameMessages, takes.newMessages, List.flatMap_cons, List.append_assoc]
            · rw [polled_append, polled_append, openTaken, taken, List.nil_append, more,
                ← pending, List.flatMap_cons]
            · have plain' : s'.config.Plain := by rwa [takes.config]
              obtain ⟨sameContext, sameConfig⟩ := kept plain'.prepare
              rw [converted_append, converted_append, openAsked plain.transform, none,
                furtherAsked (sameConfig ▸ plain') once.right, sameContext, takes.context once.left]
              rfl
      · rename_i idle
        have noPending : s.pendingMessages = [] := by
          cases waiting : s.pendingMessages with
          | nil => rfl
          | cons message messages => simp [waiting] at idle
        obtain ⟨followUps, atPoll, behind, rfl, polls, traces⟩ := Prog.traces_bind_ok traces
        obtain ⟨silent, taken, none⟩ := getFollowUpMessages_law polls
        split at traces
        · rename_i empty
          obtain ⟨_, last, _, rfl, ended, traces⟩ := Prog.traces_bind_ok traces
          obtain ⟨rfl, rfl⟩ := Prog.traces_done_ok traces
          rw [List.append_nil]
          refine ⟨[], ⟨atPoll, last, rfl, .nil silent, steps_emit ended⟩, by simp, ?_,
            fun _ _ => ?_⟩
          · rw [polled_append, taken, noPending, List.isEmpty_iff.mp empty,
              polled_emit ended]
            rfl
          · rw [converted_append, none, converted_emit ended]
            rfl
        · obtain ⟨ts, ⟨played, last, rfl, rest, ended⟩, returned, more, asked⟩ := ih traces
          refine ⟨ts, ⟨atPoll ++ played, last, by simp, rest.prepend silent, ended⟩, returned, ?_,
            fun plain once => ?_⟩
          · rw [polled_append, taken, noPending]
            exact more
          · rw [converted_append, none, asked plain once.right]
            rfl

/-- A whole run: it opens with its prompts, and what follows is turns. -/
structure RunLaw (context : AgentContext) (config : AgentLoopConfig) (prompts : List AgentMessage)
    (ts : List Turn) (messages : List AgentMessage) (es : List LoopEvent) : Prop where
  played : ∃ opening played last, es = opening ++ (played ++ last) ∧
    steps opening = .event .agentStart :: .event .turnStart :: prompts.flatMap messageSteps ∧
      Played true ts played ∧ steps last = [.event (.agentEnd messages)]
  returned : messages = prompts ++ ts.flatMap Turn.messages
  taken : polled es = ts.flatMap Turn.pending
  asked : config.Plain → StartOnce es → converted es = requests (context.messages ++ prompts) ts

theorem runLoop_law {fuel : Nat} {context : AgentContext} {newMessages : List AgentMessage}
    (traces : (runLoop fuel context newMessages config).Traces es (some (.ok messages))) :
    ∃ ts, (∃ played last, es = played ++ last ∧ Played true ts played ∧
        steps last = [.event (.agentEnd messages)]) ∧
      messages = newMessages ++ ts.flatMap Turn.messages ∧
      polled es = ts.flatMap Turn.pending ∧
      (config.Plain → StartOnce es → converted es = requests context.messages ts) := by
  obtain ⟨pending, atPoll, behind, rfl, polls, traces⟩ := Prog.traces_bind_ok traces
  obtain ⟨silent, taken, none⟩ := getSteeringMessages_law polls
  obtain ⟨ts, ⟨played, last, rfl, rest, ended⟩, returned, more, asked⟩ := turns_law traces
  refine ⟨ts, ⟨atPoll ++ played, last, by simp, rest.prepend silent, ended⟩, returned, ?_,
    fun plain once => ?_⟩
  · rw [polled_append, taken]
    exact more
  · rw [converted_append, none, asked plain once.right]
    rfl

theorem runAgentLoop_law {fuel : Nat} {prompts : List AgentMessage} {context : AgentContext}
    (traces : (runAgentLoop fuel prompts context config).Traces es (some (.ok messages))) :
    ∃ ts, RunLaw context config prompts ts messages es := by
  obtain ⟨_, atStart, _, rfl, started, traces⟩ := Prog.traces_bind_ok traces
  obtain ⟨_, atTurn, _, rfl, turned, traces⟩ := Prog.traces_bind_ok traces
  obtain ⟨_, atPrompts, behind, rfl, published, traces⟩ := Prog.traces_bind_ok traces
  obtain ⟨ts, ⟨played, last, rfl, rest, ended⟩, returned, taken, asked⟩ := runLoop_law traces
  have aside := emitMessages_aside prompts
  refine ⟨ts, ⟨atStart ++ (atTurn ++ atPrompts), played, last, by simp, ?_, rest, ended⟩, returned,
    ?_, fun plain once => ?_⟩
  · rw [steps_append, steps_append, steps_emit started, steps_emit turned,
      emitMessages_steps published]
    rfl
  · rw [polled_append, polled_append, polled_append, polled_emit started,
      polled_emit turned, polled_of_makes aside published, taken]
    rfl
  · rw [converted_append, converted_append, converted_append,
      converted_emit started, converted_emit turned,
      converted_of_makes aside published, asked plain once.right.right.right]
    rfl

theorem runAgentLoopContinue_law {fuel : Nat} {context : AgentContext}
    (traces : (runAgentLoopContinue fuel context config).Traces es (some (.ok messages))) :
    ∃ ts, RunLaw context config [] ts messages es := by
  rw [runAgentLoopContinue] at traces
  split at traces
  · exact absurd traces Prog.not_traces_fail_ok
  · exact absurd traces Prog.not_traces_fail_ok
  · obtain ⟨_, atStart, _, rfl, started, traces⟩ := Prog.traces_bind_ok traces
    obtain ⟨_, atTurn, behind, rfl, turned, traces⟩ := Prog.traces_bind_ok traces
    obtain ⟨ts, ⟨played, last, rfl, rest, ended⟩, returned, taken, asked⟩ := runLoop_law traces
    refine ⟨ts, ⟨atStart ++ atTurn, played, last, by simp, ?_, rest, ended⟩, returned,
      ?_, fun plain once => ?_⟩
    · rw [steps_append, steps_emit started, steps_emit turned]
      rfl
    · rw [polled_append, polled_append, polled_emit started,
        polled_emit turned, taken]
      rfl
    · rw [converted_append, converted_append, converted_emit started,
        converted_emit turned, asked plain once.right.right, List.append_nil]
      rfl

end Runs

/-! ## What is published -/

section Published

variable {es : List LoopEvent}

/-- The message that the step completes. -/
def Step.completed : Step → Option AgentMessage
  | .event (.messageEnd message) => some message
  | _ => none

/-- The messages that were completed. -/
def completed (es : List LoopEvent) : List AgentMessage := (steps es).filterMap Step.completed

theorem filterMap_messageSteps (messages : List AgentMessage) :
    (messages.flatMap messageSteps).filterMap Step.completed = messages := by
  induction messages with
  | nil => rfl
  | cons message messages ih =>
      rw [List.flatMap_cons, List.filterMap_append, ih]
      rfl

theorem filterMap_filter_isMessage (ss : List Step) :
    (ss.filter Step.isMessage).filterMap Step.completed = ss.filterMap Step.completed := by
  rw [List.filterMap_filter]
  refine List.filterMap_congr fun step _ => ?_
  split
  · rfl
  · rename_i notMessage
    match step with
    | .event (.messageEnd message) => exact absurd rfl notMessage
    | .event .agentStart | .event (.agentEnd _) | .event .turnStart | .event (.turnEnd _ _)
    | .event (.messageStart _) | .event (.messageUpdate _ _) | .event (.toolExecutionStart _)
    | .event (.toolExecutionUpdate _ _) | .event (.toolExecutionEnd _ _ _ _) | .execute _ _ _ => rfl

theorem ResponseLaw.completed {message : AssistantMessage} {shown : List Step}
    (law : ResponseLaw message shown) : shown.filterMap Step.completed = [.assistant message] := by
  obtain ⟨first, growing, rfl, partials⟩ := law
  have none : growing.filterMap Step.completed = [] := by
    refine List.filterMap_eq_nil_iff.mpr fun step there => ?_
    have isPartial := partials step there
    match step with
    | .event (.messageEnd _) => cases isPartial
    | .event .agentStart | .event (.agentEnd _) | .event .turnStart | .event (.turnEnd _ _)
    | .event (.messageStart _) | .event (.messageUpdate _ _) | .event (.toolExecutionStart _)
    | .event (.toolExecutionUpdate _ _) | .event (.toolExecutionEnd _ _ _ _) | .execute _ _ _ => rfl
  rw [List.cons_append, List.filterMap_cons_none (by rfl), List.filterMap_append, none]
  rfl

theorem BatchLaw.completed {toolCalls : List AgentToolCall} {executed : List ExecutedToolCall}
    (law : BatchLaw toolCalls executed es) :
    Agent.completed es = executed.map fun x => .toolResult x.message := by
  rw [Agent.completed, ← filterMap_filter_isMessage, law.ordered, ← filterMap_messageSteps
    (executed.map fun x => AgentMessage.toolResult x.message), List.flatMap_map]
  rfl

theorem TurnLaw.completed {first : Bool} {t : Turn} (law : TurnLaw first t es) :
    Agent.completed es = t.messages := by
  cases law with
  | @of opening response tools closing opened answered failed batch closed =>
      have results : Agent.completed tools = t.toolResults.map .toolResult := by
        by_cases isFailed : t.Failed
        · obtain ⟨noCall, silent⟩ := failed isFailed
          rw [Agent.completed, silent, Turn.toolResults, noCall]
          rfl
        · rw [(batch isFailed).completed, Turn.toolResults, List.map_map]
          rfl
      have opens : Agent.completed opening = t.pending := by
        rw [Agent.completed, opened, List.filterMap_append, filterMap_messageSteps]
        cases first <;> rfl
      rw [Agent.completed] at results opens
      simp only [Agent.completed, steps_append, List.filterMap_append, answered.completed,
        results, opens, closed]
      simp [Turn.messages, Step.completed]

theorem Played.completed {first : Bool} {ts : List Turn} (played : Played first ts es) :
    Agent.completed es = ts.flatMap Turn.messages := by
  induction played with
  | nil silent =>
      rw [Agent.completed, silent]
      rfl
  | cons turn rest ih =>
      rw [Agent.completed] at ih
      have here := turn.completed
      rw [Agent.completed] at here
      rw [Agent.completed, steps_append, List.filterMap_append, ih, here, List.flatMap_cons]

/-- The messages that a run returns are those that it published, in the same order. -/
theorem RunLaw.completed {context : AgentContext} {config : AgentLoopConfig}
    {prompts messages : List AgentMessage} {ts : List Turn}
    (law : RunLaw context config prompts ts messages es) : Agent.completed es = messages := by
  obtain ⟨opening, played, last, rfl, opened, turns, ended⟩ := law.played
  have middle := turns.completed
  rw [Agent.completed] at middle
  have opens : (steps opening).filterMap Step.completed = prompts := by
    rw [opened, List.filterMap_cons_none (by rfl), List.filterMap_cons_none (by rfl),
      filterMap_messageSteps]
  rw [Agent.completed, steps_append, steps_append, List.filterMap_append, List.filterMap_append,
    middle, opens, ended, law.returned]
  exact congrArg _ (List.append_nil _)

/-- The answer's tool calls have been seen to. -/
structure Turn.SeenTo (t : Turn) (es : List LoopEvent) : Prop where
  known : t.executed.map ExecutedToolCall.toolCall <+: t.message.toolCalls
  failed : t.Failed → t.executed = []
  complete : ¬t.Failed → ¬Aborted es →
    t.executed.map ExecutedToolCall.toolCall = t.message.toolCalls

theorem Turn.SeenTo.mono {t : Turn} {es' : List LoopEvent} (seenTo : t.SeenTo es)
    (more : ∀ e ∈ es, e ∈ es') : t.SeenTo es' :=
  ⟨seenTo.known, seenTo.failed, fun ok quiet => seenTo.complete ok fun aborted =>
    quiet (more _ aborted)⟩

theorem TurnLaw.seenTo {first : Bool} {t : Turn} (law : TurnLaw first t es) : t.SeenTo es := by
  cases law with
  | @of opening response tools closing opened answered failed batch closed =>
      by_cases isFailed : t.Failed
      · have noCall := (failed isFailed).1
        exact ⟨by simp [noCall], fun _ => noCall, absurd isFailed⟩
      · have covers := (batch isFailed).covers
        refine ⟨?_, fun failed => absurd failed isFailed, fun _ quiet => ?_⟩
        · rcases covers with same | ⟨-, before⟩
          · exact same ▸ List.prefix_refl _
          · exact before
        · refine covers.resolve_right fun aborted => quiet ?_
          simp only [Aborted, List.mem_append]
          exact Or.inr (Or.inr (Or.inl aborted.1))

theorem Played.seenTo {first : Bool} {ts : List Turn} (played : Played first ts es) :
    ∀ t ∈ ts, t.SeenTo es := by
  induction played with
  | nil => simp
  | cons turn rest ih =>
      refine List.forall_mem_cons.mpr ⟨?_, fun t there => ?_⟩
      · exact turn.seenTo.mono fun e => List.mem_append_left _
      · exact (ih t there).mono fun e => List.mem_append_right _

end Published

/-! ## Main results -/

def question : AgentMessage := .user ⟨.text "What is there?", 0⟩

/-- Callees that give the two answers lead to a run that returns. -/
theorem oneCall_returns : ∃ es messages,
    (runAgentLoop 3 [question] oneTool plainConfig).Traces es (some (.ok messages)) ∧
      StartOnce es := by
  let run := (runAgentLoop 3 [question] oneTool plainConfig).run (scripted oneCall) 0
  have returns : run.returned.isSome = true := by decide +kernel
  refine ⟨_, _, Prog.traces_of_returned (Option.eq_some_of_isSome returns), ?_⟩
  unfold StartOnce
  decide +kernel

section Main

variable {fuel : Nat} {context : AgentContext} {config : AgentLoopConfig} {es : List LoopEvent}
  {prompts messages : List AgentMessage}

/-- A run returns what it published: its prompts, and turn by turn the messages that had been
waiting, each of them once, the answer, and the results of the answer's tool calls. -/
theorem runAgentLoop_transcript
    (traces : (runAgentLoop fuel prompts context config).Traces es (some (.ok messages))) :
    completed es = messages ∧ ∃ ts : List Turn, messages = prompts ++ ts.flatMap Turn.messages ∧
      polled es = ts.flatMap Turn.pending ∧ ∀ t ∈ ts, t.SeenTo es := by
  obtain ⟨ts, law⟩ := runAgentLoop_law traces
  obtain ⟨opening, played, last, rfl, -, turns, -⟩ := law.played
  refine ⟨law.completed, ts, law.returned, law.taken, fun t there => ?_⟩
  exact (turns.seenTo t there).mono fun e inPlayed => by simp [inPlayed]

theorem runAgentLoop_transcript_oneCall : ∃ es messages, ∃ ts : List Turn,
    completed es = messages ∧ messages = [question] ++ ts.flatMap Turn.messages ∧
      ∀ t ∈ ts, t.SeenTo es := by
  obtain ⟨es, messages, traces, -⟩ := oneCall_returns
  obtain ⟨published, ts, returned, -, seenTo⟩ := runAgentLoop_transcript traces
  exact ⟨es, messages, ts, published, returned, seenTo⟩

/-- A continued run returns its own turns. -/
theorem runAgentLoopContinue_transcript
    (traces : (runAgentLoopContinue fuel context config).Traces es (some (.ok messages))) :
    completed es = messages ∧ ∃ ts : List Turn, messages = ts.flatMap Turn.messages ∧
      polled es = ts.flatMap Turn.pending ∧ ∀ t ∈ ts, t.SeenTo es := by
  obtain ⟨ts, law⟩ := runAgentLoopContinue_law traces
  obtain ⟨opening, played, last, rfl, -, turns, -⟩ := law.played
  refine ⟨law.completed, ts, law.returned, law.taken, fun t there => ?_⟩
  exact (turns.seenTo t there).mono fun e inPlayed => by simp [inPlayed]

end Main

end NestifyClaw.Agent
