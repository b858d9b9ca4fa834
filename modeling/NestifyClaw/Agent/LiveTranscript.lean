import Mathlib.Data.List.Induction
import NestifyClaw.Agent.Lifecycle

/-!
# The live transcript

A run keeps its transcript in step with what it publishes.  `Live` follows both: a message that is
completed comes behind the transcript, a turn that ended waits for the transcript that the hook
gives.  An `Asking` is the transcript with what was made of it: `askingAfter` reads it off what a run
has published and was answered.

The model is only asked with the transcript that is there, as the context hook, if there is one, and
`convertToLlm` pass it on (`runAgentLoop_live`).  What the hook gave is its last answer, and it was
asked with that transcript (`given_of_walk`).
-/

namespace NestifyClaw.Agent

open Concurrent Concurrent.Protocol

/-- What a run has to ask the model with: its transcript, and what was made of it since it last
changed, by the context hook and for the model. -/
structure Asking where
  transcript : List AgentMessage
  given : Option (List AgentMessage)
  llmMessages : Option (List Message)

/-- Nothing was made of the transcript yet. -/
def Asking.start (transcript : List AgentMessage) : Asking := ⟨transcript, none, none⟩

/-- Where a run stands with its transcript. -/
inductive Standing
  | inTurn (asking : Asking)
  | turned
  | finished

inductive Seen
  | completed (message : AgentMessage)
  | turnEnd
  | replaced (messages : List AgentMessage)
  | transformed (messages : List AgentMessage) (given : Option (List AgentMessage))
  | converted (messages : List AgentMessage) (llmMessages : Option (List Message))
  | requested (messages : List Message)
  | agentEnd

def seen : LoopEvent → Option Seen
  | ⟨.emit (.messageEnd message), _⟩ => some (.completed message)
  | ⟨.emit (.turnEnd _ _), _⟩ => some .turnEnd
  | ⟨.emit (.agentEnd _), _⟩ => some .agentEnd
  | ⟨.prepareNextTurn _, some (.ok (some update))⟩ =>
      update.context.map fun context => .replaced context.messages
  | ⟨.transformContext messages, answer⟩ =>
      some (.transformed messages (answer.bind Except.toOption))
  | ⟨.convertToLlm messages, answer⟩ => some (.converted messages (answer.bind Except.toOption))
  | ⟨.streamFunction request, _⟩ => some (.requested request.messages)
  | _ => none

/-- What is converted for the model: what the context hook gave, if there is one, else the
transcript. -/
def Asking.Converts (transforms : Bool) (a : Asking) (messages : List AgentMessage) : Prop :=
  if transforms = true then a.given = some messages else messages = a.transcript

/-- How the transcript goes on with what is seen, and with what the model may be asked meanwhile.  A
message that is completed, or a context that is given, undoes what was made of the transcript. -/
inductive Live (transforms : Bool) : Standing → Seen → Standing → Prop
  | completed {a : Asking} (message : AgentMessage) :
      Live transforms (.inTurn a) (.completed message)
        (.inTurn (.start (a.transcript ++ [message])))
  | transformed {a : Asking} (given : Option (List AgentMessage)) :
      Live transforms (.inTurn a) (.transformed a.transcript given)
        (.inTurn ⟨a.transcript, given, none⟩)
  | converted {a : Asking} {messages : List AgentMessage} (converts : a.Converts transforms messages)
      (llmMessages : Option (List Message)) :
      Live transforms (.inTurn a) (.converted messages llmMessages)
        (.inTurn { a with llmMessages })
  | requested {a : Asking} {messages : List Message} (given : a.llmMessages = some messages) :
      Live transforms (.inTurn a) (.requested messages) (.inTurn a)
  | turnEnd {a : Asking} : Live transforms (.inTurn a) .turnEnd .turned
  | replaced (messages : List AgentMessage) :
      Live transforms .turned (.replaced messages) (.inTurn (.start messages))
  | stopped : Live transforms .turned .agentEnd .finished
  | ended {a : Asking} : Live transforms (.inTurn a) .agentEnd .finished

/-- The hook that prepares the next turn gives a context. -/
def GivesContext : LoopEvent → Prop
  | ⟨.prepareNextTurn _, some (.ok update)⟩ =>
      ∃ u context, update = some u ∧ u.context = some context
  | _ => True

def live (transforms : Bool) : Protocol LoopCall LoopCall.Result String Standing Seen where
  observe := seen
  next := Live transforms
  assumes e := startsOnce e = true ∧ GivesContext e

/-- The run is in a turn with the transcript. -/
def InTurn (transcript : List AgentMessage) (q : Standing) : Prop :=
  ∃ a, q = .inTurn a ∧ a.transcript = transcript

/-! ## Parts that only publish -/

section Adds

variable {transforms : Bool} {α : Type} {p : LoopM α} {transcript : List AgentMessage}
  {q : Standing}

theorem seen_of_aside {c : LoopCall} (aside : c.IsAside) (answer : Option (Except String c.Result)) :
    seen ⟨c, answer⟩ = (c.step.bind Step.completed).map Seen.completed := by
  cases c with
  | emit event =>
      cases event with
      | turnEnd => cases aside
      | agentEnd => cases aside
      | _ => rfl
  | transformContext messages => cases aside
  | convertToLlm messages => cases aside
  | streamFunction request => cases aside
  | prepareNextTurn context => cases aside
  | _ => rfl

theorem observed_of_aside {es : List LoopEvent} (aside : ∀ e ∈ es, e.call.IsAside) :
    (live transforms).observed es = (completed es).map Seen.completed := by
  rw [completed, steps, List.filterMap_filterMap, List.map_filterMap]
  exact List.filterMap_congr fun e there => seen_of_aside (aside e there) e.answer

theorem walk_completed (messages : List AgentMessage) (inTurn : InTurn transcript q) :
    ∃ q', Walk (Live transforms) q (messages.map Seen.completed) q' ∧
      InTurn (transcript ++ messages) q' := by
  induction messages generalizing transcript q with
  | nil =>
      rw [List.append_nil]
      exact ⟨q, .nil, inTurn⟩
  | cons message messages ih =>
      obtain ⟨a, rfl, rfl⟩ := inTurn
      obtain ⟨q', walk, there⟩ := @ih (a.transcript ++ [message])
        (.inTurn (.start (a.transcript ++ [message]))) ⟨_, rfl, rfl⟩
      rw [List.append_assoc] at there
      exact ⟨q', .cons (.completed message) walk, there⟩

/-- What a part publishes comes behind the transcript. -/
theorem live_adds {F : α → List AgentMessage → Prop} (inTurn : InTurn transcript q)
    (aside : Prog.Makes LoopCall.IsAside p)
    (law : ∀ es a, p.Traces es (some (.ok a)) → F a (completed es)) :
    (live transforms).Keeps p q
      (Leaves fun a q' => ∃ added, InTurn (transcript ++ added) q' ∧ F a added) := by
  intro es o traces _
  rw [observed_of_aside (aside es o traces)]
  obtain ⟨q', walk, there⟩ := walk_completed (completed es) inTurn
  refine ⟨q', walk, fun r isResult => ?_⟩
  subst isResult
  cases r with
  | ok a => exact ⟨completed es, there, law es a traces⟩
  | error e => trivial

theorem live_silent (silent : Prog.Makes LoopCall.IsSilent p) :
    (live transforms).Keeps p q (Leaves fun _ q' => q' = q) := by
  refine leaves_quiet (silent.mono fun c isSilent answer => ?_)
  rw [show (live transforms).observe ⟨c, answer⟩ = seen ⟨c, answer⟩ from rfl,
    seen_of_aside isSilent.2, isSilent.1]
  rfl

theorem live_emitMessages (inTurn : InTurn transcript q) (messages : List AgentMessage) :
    (live transforms).Keeps (emitMessages messages) q
      (Leaves fun _ q' => InTurn (transcript ++ messages) q') := by
  have law := @live_adds transforms _ (emitMessages messages) transcript q
    (fun _ added => added = messages) inTurn (emitMessages_aside messages) fun es a traces => by
      rw [completed, emitMessages_steps traces, filterMap_messageSteps]
  refine law.mono fun r q leaves => ?_
  cases r with
  | ok a =>
      obtain ⟨added, there, rfl⟩ := leaves
      exact there
  | error e => trivial

theorem live_beginTurn (s : LoopState) :
    (live transforms).Keeps (beginTurn s) q (Leaves fun _ q' => q' = q) := by
  refine leaves_quiet ?_
  rw [beginTurn]
  split
  · exact makes_await fun _ => rfl
  · exact makes_pure _

end Adds

/-! ## The model's answer -/

section Answer

variable {transforms : Bool} {context : AgentContext} {config : AgentLoopConfig} {q : Standing}

/-- The context hook is given the transcript. -/
theorem live_transformMessages (isConfig : config.transformContext = transforms)
    {messages : List AgentMessage} (inTurn : InTurn messages q) :
    (live transforms).Keeps (transformMessages config messages) q
      (Leaves fun messages' q' => ∃ a, q' = .inTurn a ∧ a.transcript = messages ∧
        a.Converts transforms messages') := by
  obtain ⟨a, rfl, rfl⟩ := inTurn
  subst isConfig
  rw [transformMessages]
  cases transforms : config.transformContext with
  | true =>
      refine keeps_call fun answer _ => ⟨_, .single (.transformed (answer.bind Except.toOption)), ?_⟩
      rintro r rfl
      cases r with
      | ok given => exact ⟨_, rfl, rfl, rfl⟩
      | error e => trivial
  | false => exact leaves_pure ⟨a, rfl, rfl, rfl⟩

theorem live_convertToLlm {a : Asking} {messages : List AgentMessage}
    (converts : a.Converts transforms messages) :
    (live transforms).Keeps (Prog.await (LoopCall.convertToLlm messages)) (.inTurn a)
      (Leaves fun llmMessages q' => q' = .inTurn { a with llmMessages := some llmMessages }) := by
  refine keeps_call fun answer _ =>
    ⟨_, .single (.converted converts (answer.bind Except.toOption)), ?_⟩
  rintro r rfl
  cases r with
  | ok llmMessages => rfl
  | error e => trivial

theorem live_streamFunction {request : StreamRequest} {a : Asking}
    (given : a.llmMessages = some request.messages) :
    (live transforms).Keeps (Prog.await (LoopCall.streamFunction request)) (.inTurn a)
      (Leaves fun response q' => q' = .inTurn a ∧
        response.events.countP AssistantMessageEvent.isStart ≤ 1) := by
  refine keeps_call fun answer assumed => ⟨_, .single (.requested given), ?_⟩
  rintro r rfl
  cases r with
  | ok response =>
      obtain ⟨once, -⟩ := assumed
      exact ⟨rfl, by simpa [startsOnce] using once⟩
  | error e => trivial

/-- The answer is published, and put behind the transcript that the model was asked with. -/
theorem live_readResponse {response : Response} (inTurn : InTurn context.messages q)
    (once : response.events.countP AssistantMessageEvent.isStart ≤ 1) :
    (live transforms).Keeps (readResponse response.interrupted response.events ⟨none, context⟩) q
      (Leaves fun answer q' => InTurn answer.2.messages q') := by
  have law := @live_adds transforms _ (readResponse response.interrupted response.events
    ⟨none, context⟩) context.messages q
    (fun answer added => answer.2.messages = context.messages ++ added) inTurn
    (readResponse_aside _ _ _) fun es answer traces => by
      obtain ⟨message, context'⟩ := answer
      obtain ⟨shown, added⟩ := readResponse_law traces
      rw [completed, shown.completed, added once]
      rfl
  refine law.mono fun r q leaves => ?_
  cases r with
  | ok a =>
      obtain ⟨added, there, same⟩ := leaves
      rwa [← same] at there
  | error e => trivial

theorem live_streamAssistantResponse (isConfig : config.transformContext = transforms)
    (inTurn : InTurn context.messages q) :
    (live transforms).Keeps (streamAssistantResponse context config) q
      (Leaves fun answer q' => InTurn answer.2.messages q') := by
  refine leaves_bind (live_transformMessages isConfig inTurn) fun messages _ given => ?_
  obtain ⟨a, rfl, same, converts⟩ := given
  refine leaves_bind (live_convertToLlm converts) fun llmMessages _ there => ?_
  subst there
  refine leaves_bind (live_silent (resolveApiKey_silent config)) fun apiKey _ there => ?_
  subst there
  refine leaves_bind (live_streamFunction rfl) fun response _ known => ?_
  obtain ⟨rfl, once⟩ := known
  exact live_readResponse ⟨_, rfl, same⟩ once

/-- The results are published, and they are those that the loop puts behind its transcript. -/
theorem live_executeTools {message : AssistantMessage} {transcript : List AgentMessage}
    (inTurn : InTurn transcript q) :
    (live transforms).Keeps (executeTools context message config) q
      (Leaves fun batch q' => InTurn (transcript ++ batch.messages.map .toolResult) q') := by
  have law := @live_adds transforms _ (executeTools context message config) transcript q
    (fun batch added => added = batch.messages.map .toolResult) inTurn (executeTools_aside _ _ _)
    fun es batch traces => by
      obtain ⟨executed, law, results⟩ := executeTools_law traces
      rw [law.completed, results, List.map_map]
      rfl
  refine law.mono fun r q leaves => ?_
  cases r with
  | ok batch =>
      obtain ⟨added, there, rfl⟩ := leaves
      exact there
  | error e => trivial

end Answer

/-! ## Turns -/

/-- The hook for the next turn is there, and the context hook is there or not. -/
structure AgentLoopConfig.Hooks (transforms : Bool) (config : AgentLoopConfig) : Prop where
  prepares : config.prepareNextTurn = true
  transforms : config.transformContext = transforms

section Turns

variable {transforms : Bool} {s : LoopState} {q : Standing}

theorem AgentLoopConfig.Hooks.update (hooks : s.config.Hooks transforms)
    (update : Option AgentLoopTurnUpdate) : (s.update update).config.Hooks transforms := by
  cases update with
  | none => exact hooks
  | some update => exact ⟨hooks.prepares, hooks.transforms⟩

theorem live_askPrepareNextTurn (hooks : s.config.Hooks transforms)
    (message : AssistantMessage) (toolResults : List ToolResultMessage) :
    (live transforms).Keeps (askPrepareNextTurn s message toolResults) .turned
      (Leaves fun update q => InTurn (s.update update).currentContext.messages q) := by
  rw [askPrepareNextTurn, hooks.prepares]
  refine keeps_call fun answer assumed => ?_
  rcases answer with - | error | update
  · exact ⟨.turned, .nil, fun r none => by cases none⟩
  · refine ⟨.turned, .nil, fun r isError => ?_⟩
    cases isError
    trivial
  · obtain ⟨u, context, rfl, isContext⟩ := assumed.2
    have observed : (live transforms).observed [⟨.prepareNextTurn (s.turnContext message toolResults),
        some (.ok (some u))⟩] = [.replaced context.messages] := by
      rw [Protocol.observed, List.filterMap_cons_some (b := Seen.replaced context.messages)]
      · rfl
      · show u.context.map _ = _
        rw [isContext]
        rfl
    rw [observed]
    refine ⟨.inTurn (.start context.messages), .single (.replaced _), fun r isAnswer => ?_⟩
    cases isAnswer
    refine ⟨_, rfl, ?_⟩
    show context.messages = (s.update (some u)).currentContext.messages
    rw [LoopState.update, isContext]
    rfl

/-- How a turn leaves the transcript. -/
def TurnLive (transforms : Bool) : TurnEnd → Standing → Prop
  | .finished _, q => q = .finished
  | .goesOn s, q => InTurn s.currentContext.messages q ∧ s.config.Hooks transforms

theorem live_endRun (ends : Live transforms q .agentEnd .finished)
    (newMessages : List AgentMessage) :
    (live transforms).Keeps (endRun newMessages) q (Leaves (TurnLive transforms)) :=
  leaves_bind (leaves_await (fun _ => rfl) ends) fun _ _ same => leaves_pure same

theorem live_getSteeringMessages (config : AgentLoopConfig) :
    (live transforms).Keeps (getSteeringMessages config) q (Leaves fun _ q' => q' = q) := by
  rw [getSteeringMessages]
  cases config.getSteeringMessages with
  | true => exact leaves_quiet (makes_await fun _ => rfl)
  | false => exact leaves_pure rfl

theorem live_getFollowUpMessages (config : AgentLoopConfig) :
    (live transforms).Keeps (getFollowUpMessages config) q (Leaves fun _ q' => q' = q) := by
  rw [getFollowUpMessages]
  cases config.getFollowUpMessages with
  | true => exact leaves_quiet (makes_await fun _ => rfl)
  | false => exact leaves_pure rfl

theorem live_endTurn (hooks : s.config.Hooks transforms) {transcript : List AgentMessage}
    (inTurn : InTurn transcript q) (message : AssistantMessage)
    (toolResults : List ToolResultMessage) :
    (live transforms).Keeps (endTurn s message toolResults) q (Leaves (TurnLive transforms)) := by
  obtain ⟨a, rfl, -⟩ := inTurn
  refine leaves_bind (leaves_await (fun _ => rfl) .turnEnd) fun _ _ same => ?_
  subst same
  refine leaves_bind (live_askPrepareNextTurn hooks _ _) fun update _ inTurn => ?_
  refine leaves_bind (live_silent (askShouldStop_silent _ _ _)) fun stop _ same => ?_
  subst same
  cases stop with
  | true =>
      obtain ⟨a, rfl, -⟩ := inTurn
      exact live_endRun .ended _
  | false =>
      refine leaves_bind (live_getSteeringMessages _) fun pendingMessages _ same => ?_
      subst same
      exact leaves_pure ⟨inTurn, hooks.update update⟩

theorem live_runTurn (hooks : s.config.Hooks transforms)
    (inTurn : InTurn s.currentContext.messages q) :
    (live transforms).Keeps (runTurn s) q (Leaves (TurnLive transforms)) := by
  refine leaves_bind (live_beginTurn s) fun _ _ same => ?_
  subst same
  refine leaves_bind (live_emitMessages inTurn s.pendingMessages) fun _ _ inTurn => ?_
  refine leaves_bind (@live_streamAssistantResponse transforms
    (s.push s.pendingMessages).currentContext _ _ hooks.transforms inTurn) fun answer _ inTurn => ?_
  rw [answerTools]
  split
  · obtain ⟨a, rfl, -⟩ := inTurn
    refine leaves_bind (leaves_await (fun _ => rfl) .turnEnd) fun _ _ same => ?_
    subst same
    exact live_endRun .stopped _
  · refine leaves_bind (live_executeTools inTurn) fun batch _ inTurn => ?_
    refine live_endTurn ?_ inTurn _ _
    exact ⟨hooks.prepares, hooks.transforms⟩

theorem live_turns (fuel : Nat) (hooks : s.config.Hooks transforms)
    (inTurn : InTurn s.currentContext.messages q) :
    (live transforms).Keeps (turns fuel s) q (Leaves fun _ q' => q' = .finished) := by
  induction fuel generalizing s q with
  | zero => exact Protocol.keeps_halt
  | succ fuel ih =>
      rw [turns]
      split
      · refine leaves_bind (live_runTurn hooks inTurn) fun turnEnd _ leaves => ?_
        cases turnEnd with
        | finished newMessages => exact leaves_pure leaves
        | goesOn s' => exact ih leaves.2 leaves.1
      · refine leaves_bind (live_getFollowUpMessages _) fun followUps _ same => ?_
        subst same
        split
        · obtain ⟨a, rfl, -⟩ := inTurn
          exact leaves_bind (leaves_await (fun _ => rfl) .ended) fun _ _ same => leaves_pure same
        · exact ih (s := { s with pendingMessages := followUps, hasMoreToolCalls := true }) hooks
            inTurn

theorem live_runAgentLoop (fuel : Nat) (prompts : List AgentMessage) (context : AgentContext)
    {config : AgentLoopConfig} (hooks : config.Hooks transforms) :
    (live transforms).Keeps (runAgentLoop fuel prompts context config)
      (.inTurn (.start context.messages)) (Leaves fun _ q => q = .finished) := by
  have start : InTurn context.messages (.inTurn (.start context.messages)) := ⟨_, rfl, rfl⟩
  refine leaves_skip (makes_await fun _ => rfl) fun _ => ?_
  refine leaves_skip (makes_await fun _ => rfl) fun _ => ?_
  refine leaves_bind (live_emitMessages start prompts) fun _ _ inTurn => ?_
  refine leaves_bind (live_getSteeringMessages _) fun pendingMessages _ same => ?_
  subst same
  exact live_turns (s := ⟨context.push prompts, prompts, config, true, true, pendingMessages⟩) fuel
    hooks inTurn

end Turns

/-! ## Main result -/

/-- What becomes of it with what is seen. -/
def Asking.see (a : Asking) (e : LoopEvent) : Asking :=
  match seen e with
  | some (.completed message) => .start (a.transcript ++ [message])
  | some (.replaced messages) => .start messages
  | some (.transformed _ given) => ⟨a.transcript, given, none⟩
  | some (.converted _ llmMessages) => { a with llmMessages }
  | _ => a

/-- The transcript is what was there, or what the hook for the next turn gave last, and behind it
what was published since. -/
def askingAfter (before : List AgentMessage) (es : List LoopEvent) : Asking :=
  es.foldl Asking.see (.start before)

/-- The calls about the model are made with what there is to ask it with. -/
def Asking.Asks (transforms : Bool) (a : Asking) : LoopEvent → Prop
  | ⟨.transformContext messages, _⟩ => messages = a.transcript
  | ⟨.convertToLlm messages, _⟩ => a.Converts transforms messages
  | ⟨.streamFunction request, _⟩ => a.llmMessages = some request.messages
  | _ => True

/-- A turn that ended has no transcript until the hook gives one. -/
theorem asking_of_walk {transforms : Bool} {es : List LoopEvent} {q q' : Standing}
    (walk : Walk (Live transforms) q ((live transforms).observed es) q') :
    ∀ before a, q' = .inTurn a → (∀ a, q = .inTurn a → a = before) →
      a = es.foldl Asking.see before := by
  induction es generalizing q with
  | nil =>
      intro before a isEnd isStart
      cases walk
      exact isStart a isEnd
  | cons e es ih =>
      intro before a isEnd isStart
      have observe : (live transforms).observe e = seen e := rfl
      rw [List.foldl_cons, Asking.see]
      cases isSeen : seen e with
      | none =>
          rw [Protocol.observed, List.filterMap_cons_none (observe.trans isSeen)] at walk
          exact ih walk before a isEnd isStart
      | some o =>
          rw [Protocol.observed, List.filterMap_cons_some (observe.trans isSeen)] at walk
          cases walk with
          | cons step rest =>
              refine ih rest _ a isEnd fun a' same => ?_
              cases step with
              | completed message =>
                  cases same
                  rw [isStart _ rfl]
              | transformed given =>
                  cases same
                  rw [isStart _ rfl]
              | converted converts llmMessages =>
                  cases same
                  rw [isStart _ rfl]
              | requested => exact isStart a' same
              | turnEnd => cases same
              | replaced messages =>
                  cases same
                  rfl
              | stopped => cases same
              | ended => cases same

/-- A call about the model is made in a turn. -/
theorem asks_of_walk {transforms : Bool} {e : LoopEvent} {q q' : Standing}
    (walk : Walk (Live transforms) q ((live transforms).observed [e]) q') :
    ∀ before, (∀ a, q = .inTurn a → a = before) → before.Asks transforms e := by
  intro before isStart
  obtain ⟨call, answer⟩ := e
  cases call with
  | transformContext messages =>
      have step : Live transforms q (.transformed messages _) q' :=
        step_of_observed (P := live transforms) rfl walk
      cases step
      exact congrArg Asking.transcript (isStart _ rfl)
  | convertToLlm messages =>
      have step : Live transforms q (.converted messages _) q' :=
        step_of_observed (P := live transforms) rfl walk
      cases step with
      | converted converts =>
          rw [← isStart _ rfl]
          exact converts
  | streamFunction request =>
      have step : Live transforms q (.requested request.messages) q' :=
        step_of_observed (P := live transforms) rfl walk
      cases step with
      | requested given =>
          rw [← isStart _ rfl]
          exact given
  | _ => trivial

/-- At every point of every run, the model is asked with what was published, behind what the run
began with or the last context that it was given, as the context hook, if there is one, and
`convertToLlm` have passed it on. -/
theorem runAgentLoop_live {fuel : Nat} {prompts : List AgentMessage} {context : AgentContext}
    {config : AgentLoopConfig} {es front back : List LoopEvent} {e : LoopEvent}
    {o : Option (Except String (List AgentMessage))} (prepares : config.prepareNextTurn = true)
    (assumed : ∀ e ∈ es, startsOnce e = true ∧ GivesContext e)
    (traces : (runAgentLoop fuel prompts context config).Traces es o)
    (split : es = front ++ e :: back) :
    (askingAfter context.messages front).Asks config.transformContext e := by
  obtain ⟨q, walk, -⟩ := live_runAgentLoop fuel prompts context ⟨prepares, rfl⟩ es o traces assumed
  rw [split, show front ++ e :: back = front ++ [e] ++ back by simp, observed_append,
    observed_append] at walk
  obtain ⟨q₂, walk, -⟩ := walk.of_append
  obtain ⟨q₁, before, here⟩ := walk.of_append
  refine asks_of_walk here _ fun a same => asking_of_walk before _ a same fun a' same' => ?_
  exact (Standing.inTurn.inj same').symm

/-- Callees that give the two answers, and a context behind each turn. -/
def renewing : Prog.Callees Nat LoopCall LoopCall.Result String
  | n, .prepareNextTurn turn => (.ok (some ⟨some turn.context, none, none⟩), n)
  | n, call => scripted oneCall n call

def renewingConfig : AgentLoopConfig :=
  { plainConfig with transformContext := true, prepareNextTurn := true }

def isRequest : LoopEvent → Bool
  | ⟨.streamFunction _, _⟩ => true
  | _ => false

def givesContext : LoopEvent → Bool
  | ⟨.prepareNextTurn _, some (.ok update)⟩ => (update.bind AgentLoopTurnUpdate.context).isSome
  | _ => true

theorem givesContext_iff {e : LoopEvent} (gives : givesContext e = true) : GivesContext e := by
  obtain ⟨call, answer⟩ := e
  cases call with
  | prepareNextTurn turn =>
      rcases answer with - | error | update
      · trivial
      · trivial
      · obtain ⟨context, given⟩ := Option.isSome_iff_exists.mp gives
        obtain ⟨u, isUpdate, isContext⟩ := Option.bind_eq_some_iff.mp given
        exact ⟨u, context, isUpdate, isContext⟩
  | _ => trivial

theorem runAgentLoop_live_oneCall : ∃ (es front back : List LoopEvent) (request : StreamRequest)
    (answer : Option (Except String Response)),
    es = front ++ ⟨.streamFunction request, answer⟩ :: back ∧
      (askingAfter [] front).llmMessages = some request.messages := by
  let run := (runAgentLoop 3 [question] oneTool renewingConfig).run renewing 0
  have returns : run.returned.isSome = true := by decide +kernel
  have assumed : run.events.all (fun e => startsOnce e && givesContext e) = true := by
    decide +kernel
  have asked : run.events.any isRequest = true := by decide +kernel
  obtain ⟨e, there, requests⟩ := List.any_eq_true.mp asked
  obtain ⟨front, back, split⟩ := List.append_of_mem there
  have live := runAgentLoop_live (by rfl) (fun e there => by
      obtain ⟨once, gives⟩ := Bool.and_eq_true_iff.mp (List.all_eq_true.mp assumed e there)
      exact ⟨once, givesContext_iff gives⟩)
    (Prog.traces_of_returned (Option.eq_some_of_isSome returns)) split
  obtain ⟨call, answer⟩ := e
  cases call with
  | streamFunction request => exact ⟨run.events, front, back, request, answer, split, live⟩
  | _ => cases requests

end NestifyClaw.Agent
