import NestifyClaw.Agent.ToolCalls
import Mathlib.Algebra.Order.Group.Multiset
import Mathlib.Tactic.Abel

/-!
# Tools at the same time against tools one after the other

Running the tools of a message at the same time leaves no outcome that running them one after the
other could not leave: from every run of the first kind the same calls with the same answers can be
put into the order of the second kind, and the finished calls are the same
(`parallel_sequential`).
-/

namespace NestifyClaw.Agent

open Concurrent

variable {context : AgentContext} {assistantMessage : AssistantMessage} {config : AgentLoopConfig}

theorem traces_isAborted (aborted : Bool) :
    isAborted.Traces [⟨.aborted, some (.ok aborted)⟩] (some (.ok aborted)) :=
  @Prog.traces_get_of _ LoopCall.Result _ .aborted aborted

/-- One call of the sequential loop, put together from its parts. -/
theorem traces_sequential_cons {toolCall : AgentToolCall} {toolCalls : List AgentToolCall}
    {preparation : Preparation} {finalized : FinalizedToolCall} {message : ToolResultMessage}
    {rest : List (FinalizedToolCall × ToolResultMessage)} {aborted : Bool}
    {atStart atPreparation atRun atEnd atMessage atResult others : List LoopEvent}
    (started : (emit (.toolExecutionStart toolCall)).Traces atStart (some (.ok ())))
    (prepared : (prepareToolCall context assistantMessage toolCall config).Traces atPreparation
      (some (.ok preparation)))
    (ran : (finalizeToolCall context assistantMessage config toolCall preparation).Traces atRun
      (some (.ok finalized)))
    (ended : (emitToolExecutionEnd finalized).Traces atEnd (some (.ok ())))
    (made : (createToolResultMessage finalized).Traces atMessage (some (.ok message)))
    (published : (emitToolResultMessage message).Traces atResult (some (.ok ())))
    (goesOn : if aborted then others = [] ∧ rest = []
      else (executeToolCallsSequential context assistantMessage config toolCalls).Traces others
        (some (.ok rest))) :
    (executeToolCallsSequential context assistantMessage config (toolCall :: toolCalls)).Traces
      (atStart ++ (atPreparation ++ (atRun ++ (atEnd ++ (atMessage ++ (atResult ++
        (⟨.aborted, some (.ok aborted)⟩ :: others))))))) (some (.ok ((finalized, message) :: rest))) := by
  refine started.bind (prepared.bind (ran.bind (ended.bind (made.bind (published.bind ?_)))))
  refine (traces_isAborted aborted).bind ?_
  cases aborted with
  | true =>
      obtain ⟨rfl, rfl⟩ := goesOn
      exact Prog.traces_pure _
  | false =>
      rw [← List.append_nil others]
      exact Prog.Traces.bind goesOn (Prog.traces_pure _)

/-- What the two halves of a call leave is what its outcome and its end leave. -/
theorem outcome_of_halves {toolCall : AgentToolCall} {preparation : Preparation}
    {entry : FinalizedToolCallEntry} {finalized : FinalizedToolCall}
    {atPreparation atEntry atFinish : List LoopEvent}
    (prepared : (prepareToolCall context assistantMessage toolCall config).Traces atPreparation
      (some (.ok preparation)))
    (entered : (enterToolCall toolCall preparation).Traces atEntry (some (.ok entry)))
    (finished : (finishToolCall context assistantMessage config entry).Traces atFinish
      (some (.ok finalized))) :
    ∃ atRun atEnd, atEntry ++ atFinish = atRun ++ atEnd ∧
      (finalizeToolCall context assistantMessage config toolCall preparation).Traces atRun
        (some (.ok finalized)) ∧
      (emitToolExecutionEnd finalized).Traces atEnd (some (.ok ())) := by
  cases preparation with
  | immediate result isError =>
      obtain ⟨_, atEnd, rest, rfl, ended, entered⟩ := Prog.traces_bind_ok entered
      obtain ⟨rfl, rfl⟩ := Prog.traces_done_ok entered
      obtain ⟨rfl, rfl⟩ := Prog.traces_done_ok finished
      exact ⟨[], atEnd, by simp, Prog.traces_pure _, ended⟩
  | prepared prepared' =>
      obtain ⟨rfl, rfl⟩ := Prog.traces_done_ok entered
      obtain ⟨finalized', atRun, _, rfl, ran, finished⟩ := Prog.traces_bind_ok finished
      obtain ⟨_, atEnd, _, rfl, ended, finished⟩ := Prog.traces_bind_ok finished
      obtain ⟨rfl, rfl⟩ := Prog.traces_done_ok finished
      exact ⟨atRun, atEnd, by simp, ran, ended⟩

/-- The parts of a parallel run, put into the order of the sequential loop. -/
theorem sequential_of_parts {toolCalls : List AgentToolCall} {entries : List FinalizedToolCallEntry}
    {runs : List (List LoopEvent × FinalizedToolCall)}
    {finished : List (FinalizedToolCall × ToolResultMessage)} {atStart atResults : List LoopEvent}
    (started : (startToolCalls context assistantMessage config toolCalls).Traces atStart
      (some (.ok entries)))
    (each : List.Forall₂ (fun entry run =>
      (finishToolCall context assistantMessage config entry).Traces run.1 (some (.ok run.2)))
      entries runs)
    (resulted : (emitToolResults (runs.map Prod.snd)).Traces atResults (some (.ok finished))) :
    ∃ es, es.Perm (atStart ++ ((runs.map Prod.fst).flatten ++ atResults)) ∧
      (executeToolCallsSequential context assistantMessage config toolCalls).Traces es
        (some (.ok finished)) := by
  induction toolCalls generalizing atStart entries runs atResults finished with
  | nil =>
      obtain ⟨rfl, rfl⟩ := Prog.traces_done_ok started
      cases each
      obtain ⟨rfl, rfl⟩ := Prog.traces_done_ok resulted
      exact ⟨[], List.Perm.refl _, Prog.traces_pure _⟩
  | cons toolCall toolCalls ih =>
      obtain ⟨_, atCall, _, rfl, called, started⟩ := Prog.traces_bind_ok started
      obtain ⟨preparation, atPreparation, _, rfl, prepared, started⟩ := Prog.traces_bind_ok started
      obtain ⟨entry, atEntry, _, rfl, entered, started⟩ := Prog.traces_bind_ok started
      obtain ⟨aborted, atCheck, rest, rfl, checked, behind⟩ := Prog.traces_bind_ok started
      obtain ⟨_, same, rfl⟩ := Prog.traces_get checked
      cases same
      -- the entry that belongs to this call, and the ones behind it
      obtain ⟨restEntries, rfl, goesOn⟩ : ∃ restEntries, entries = entry :: restEntries ∧
          if aborted then rest = [] ∧ restEntries = []
          else (startToolCalls context assistantMessage config toolCalls).Traces rest
            (some (.ok restEntries)) := by
        cases aborted with
        | true =>
            obtain ⟨rfl, rfl⟩ := Prog.traces_done_ok behind
            exact ⟨[], rfl, rfl, rfl⟩
        | false =>
            obtain ⟨restEntries, first, last, rfl, others, there⟩ := Prog.traces_bind_ok behind
            obtain ⟨rfl, rfl⟩ := Prog.traces_done_ok there
            rw [List.append_nil]
            exact ⟨restEntries, rfl, others⟩
      cases each with
      | @cons _ run _ runs here each =>
      obtain ⟨message, atMessage, _, rfl, made, resulted⟩ := Prog.traces_bind_ok resulted
      obtain ⟨_, atResult, _, rfl, published, resulted⟩ := Prog.traces_bind_ok resulted
      obtain ⟨restFinished, atRest, last, rfl, further, there⟩ := Prog.traces_bind_ok resulted
      obtain ⟨rfl, rfl⟩ := Prog.traces_done_ok there
      obtain ⟨atRun, atEnd, halves, ran, ended⟩ := outcome_of_halves prepared entered here
      obtain ⟨others, order, tail⟩ : ∃ others,
          others.Perm (rest ++ ((runs.map Prod.fst).flatten ++ atRest)) ∧
          if aborted then others = [] ∧ restFinished = []
          else (executeToolCallsSequential context assistantMessage config toolCalls).Traces others
            (some (.ok restFinished)) := by
        cases aborted with
        | true =>
            obtain ⟨rfl, rfl⟩ := goesOn
            cases each
            obtain ⟨rfl, rfl⟩ := Prog.traces_done_ok further
            exact ⟨[], List.Perm.refl _, rfl, rfl⟩
        | false => exact ih goesOn each further
      refine ⟨_, ?_, traces_sequential_cons called prepared ran ended made published tail⟩
      rw [← Multiset.coe_eq_coe] at order ⊢
      have sameHalves := congrArg (fun es : List LoopEvent => (es : Multiset LoopEvent)) halves
      simp only [← Multiset.coe_add, ← Multiset.cons_coe, ← Multiset.singleton_add, List.map_cons,
        List.flatten_cons, Multiset.coe_nil, List.cons_append] at order sameHalves ⊢
      rw [order, ← add_assoc (atRun : Multiset LoopEvent), ← sameHalves]
      abel

/-- From a run with the tools at the same time to one with the tools one after the other. -/
theorem parallel_sequential {toolCalls : List AgentToolCall} {es : List LoopEvent}
    {finished : List (FinalizedToolCall × ToolResultMessage)}
    (traces : (executeToolCallsParallel context assistantMessage config toolCalls).Traces es
      (some (.ok finished))) :
    ∃ es', es'.Perm es ∧
      (executeToolCallsSequential context assistantMessage config toolCalls).Traces es'
        (some (.ok finished)) := by
  obtain ⟨entries, atStart, _, rfl, started, traces⟩ := Prog.traces_bind_ok traces
  obtain ⟨ordered, atRun, atResults, rfl, together, traces⟩ := Prog.traces_bind_ok traces
  obtain ⟨runs, rfl, each, mixed⟩ := Prog.traces_awaitAll_ok together
  obtain ⟨es', order, sequential⟩ := sequential_of_parts started each traces
  exact ⟨es', order.trans ((mixed.perm.symm.append_right _).append_left _), sequential⟩

theorem parallel_sequential_oneCall : ∃ es finished,
    (executeToolCallsSequential oneTool (answerOf [.toolCall listCall]) plainConfig [listCall]).Traces
      es (some (.ok finished)) := by
  let run := (executeToolCallsParallel oneTool (answerOf [.toolCall listCall]) plainConfig
    [listCall]).run (scripted []) 0
  have returns : run.returned.isSome = true := by decide +kernel
  obtain ⟨es, -, traces⟩ :=
    parallel_sequential (Prog.traces_of_returned (Option.eq_some_of_isSome returns))
  exact ⟨es, _, traces⟩

end NestifyClaw.Agent
