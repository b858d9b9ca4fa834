import NestifyClaw.Agent.Messages
import NestifyClaw.Protocol

/-!
# Tool results behind their calls

A model takes a transcript only where each tool result stands behind the message that made its
call, with nothing but results of that message between them.  `Paired` says so, as a way along
`Exchange`; it survives where the transcript is cut before anything but a tool result
(`Paired.cut`).
-/

namespace NestifyClaw.Agent

open Concurrent

def AgentMessage.isToolResult : AgentMessage → Bool
  | .toolResult _ => true
  | _ => false

/-- How a message goes on from the one whose calls may be answered. -/
inductive Exchange : Option AssistantMessage → AgentMessage → Option AssistantMessage → Prop
  | assistant {asked : Option AssistantMessage} (message : AssistantMessage) :
      Exchange asked (.assistant message) (some message)
  | toolResult {message : AssistantMessage} {toolCall : AgentToolCall} {result : ToolResultMessage}
      (called : toolCall ∈ message.toolCalls) (answered : toolCall.id = result.toolCallId) :
      Exchange (some message) (.toolResult result) (some message)
  | other {asked : Option AssistantMessage} {message : AgentMessage}
      (noAnswer : message.isAssistant = false) (noResult : message.isToolResult = false) :
      Exchange asked message none

def Paired (messages : List AgentMessage) : Prop := ∃ q, Walk Exchange none messages q

/-- There is a first message, and it is no tool result. -/
def Opens (messages : List AgentMessage) : Prop :=
  ∃ message rest, messages = message :: rest ∧ message.isToolResult = false

variable {messages messages' : List AgentMessage} {message : AgentMessage}
  {asked asked' q q' : Option AssistantMessage}

/-- What is no tool result may come from anywhere. -/
theorem Exchange.from (exchange : Exchange asked message q)
    (noResult : message.isToolResult = false) (asked' : Option AssistantMessage) :
    Exchange asked' message q := by
  cases exchange with
  | assistant message => exact .assistant message
  | toolResult => cases noResult
  | other noAnswer noResult => exact .other noAnswer noResult

/-- What may come where no call is open may come anywhere. -/
theorem Exchange.mono (exchange : Exchange asked message q)
    (fewer : asked = none ∨ asked = asked') : Exchange asked' message q := by
  rcases fewer with rfl | rfl
  · cases exchange with
    | assistant message => exact .assistant message
    | other noAnswer noResult => exact .other noAnswer noResult
  · exact exchange

theorem Exchange.unique (exchange : Exchange asked message q)
    (exchange' : Exchange asked message q') : q = q' := by
  cases exchange with
  | assistant message =>
      cases exchange' with
      | assistant => rfl
      | other noAnswer => cases noAnswer
  | toolResult called answered =>
      cases exchange' with
      | toolResult => rfl
      | other _ noResult => cases noResult
  | other noAnswer noResult =>
      cases exchange' with
      | assistant => cases noAnswer
      | toolResult => cases noResult
      | other => rfl

/-- Behind nothing, only what opens can follow. -/
theorem opens_of_walk (walk : Walk Exchange none messages q) (some : messages ≠ []) :
    Opens messages := by
  cases walk with
  | nil => exact absurd rfl some
  | @cons _ _ _ message rest step =>
      refine ⟨message, rest, rfl, ?_⟩
      cases step with
      | assistant => rfl
      | other _ noResult => exact noResult

theorem Opens.walk (opens : Opens messages) (walk : Walk Exchange asked messages q)
    (asked' : Option AssistantMessage) : Walk Exchange asked' messages q := by
  obtain ⟨message, rest, rfl, noResult⟩ := opens
  cases walk with
  | cons step rest => exact .cons (step.from noResult asked') rest

namespace Paired

theorem nil : Paired [] := ⟨none, .nil⟩

theorem left (paired : Paired (messages ++ messages')) : Paired messages := by
  obtain ⟨q, walk⟩ := paired
  obtain ⟨q', before, -⟩ := walk.of_append
  exact ⟨q', before⟩

/-- A transcript may be cut where what stays does not begin with a tool result. -/
theorem cut (paired : Paired (messages ++ messages')) (opens : Opens messages') :
    Paired messages' := by
  obtain ⟨q, walk⟩ := paired
  obtain ⟨q', -, after⟩ := walk.of_append
  exact ⟨q, opens.walk after none⟩

theorem append (paired : Paired messages) (paired' : Paired messages') :
    Paired (messages ++ messages') := by
  obtain ⟨q, walk⟩ := paired
  obtain ⟨q', walk'⟩ := paired'
  by_cases empty : messages' = []
  · subst empty
    rw [List.append_nil]
    exact ⟨q, walk⟩
  · exact ⟨q', walk.append ((opens_of_walk walk' empty).walk walk' q)⟩

/-- What may come behind a transcript may come behind its end. -/
theorem extend (whole : Paired (messages ++ messages' ++ [message])) (paired : Paired messages')
    (kept : messages' = [] → messages = []) : Paired (messages' ++ [message]) := by
  by_cases empty : messages' = []
  · subst empty
    rw [kept rfl] at whole
    exact whole
  · obtain ⟨q, walk⟩ := whole
    rw [List.append_assoc] at walk
    obtain ⟨asked, -, walk⟩ := walk.of_append
    obtain ⟨q', walk'⟩ := paired
    have opens := opens_of_walk walk' empty
    refine ⟨q, ?_⟩
    obtain ⟨message', rest, rfl, noResult⟩ := opens
    exact Opens.walk ⟨message', rest ++ [message], rfl, noResult⟩ walk none

theorem singleton (noResult : message.isToolResult = false) : Paired [message] := by
  cases isAnswer : message.isAssistant with
  | false => exact ⟨none, .single (.other isAnswer noResult)⟩
  | true =>
      cases message with
      | assistant message => exact ⟨some message, .single (.assistant message)⟩
      | _ => cases isAnswer

end Paired

/-- Without tool results there is nothing to pair. -/
theorem paired_of_noResults (noResults : ∀ message ∈ messages, message.isToolResult = false) :
    Paired messages := by
  induction messages with
  | nil => exact .nil
  | cons message messages ih =>
      obtain ⟨here, there⟩ := List.forall_mem_cons.mp noResults
      exact (Paired.singleton here).append (ih there)

end NestifyClaw.Agent
