import NestifyClaw.Agent.HarnessReached

/-!
# Running a harness

`AgentHarness.serve` answers the calls of a run where nobody else calls the harness, and
`walk_of_run` places such a run among the moves.  The main results hold of whatever is reached: the
model is asked with what the session shows at that time (`reached_request`), every transcript that a
path of the session gives is paired (`reached_paired`), and the compactions of every path divide its
messages between their summaries and what is kept (`reached_partition`).
-/

namespace NestifyClaw.Agent

open Concurrent Concurrent.Protocol

section Serve

variable (draws : Nat → Draw) (clock : Nat → Timestamp)

/-- Answers for a run; the model gives one answer after the other, and then the last one again. -/
def AgentHarness.serve (outfit : Outfit) (answers : List AssistantMessage)
    (last : AssistantMessage) : Prog.Callees (Nat × AgentHarness) LoopCall LoopCall.Result String
  | (n, h), .emit event =>
      let handled := h.handleAgentEvent draws clock event
      (handled.1.mapError SessionError.message, (n, handled.2))
  | (n, h), .aborted => (.ok (h.runAborted.getD false), (n, h))
  | (n, h), .now => (.ok n, (n, h))
  | (n, h), .getSteeringMessages =>
      let drained := drainQueuedMessages h.steerQueue h.steeringQueueMode (.ok ())
      ((drained.1.map (List.map AgentMessage.user)).mapError AgentHarnessError.message,
        (n, { h with steerQueue := drained.2 }))
  | (n, h), .getFollowUpMessages =>
      let drained := drainQueuedMessages h.followUpQueue h.followUpQueueMode (.ok ())
      ((drained.1.map (List.map AgentMessage.user)).mapError AgentHarnessError.message,
        (n, { h with followUpQueue := drained.2 }))
  | (n, h), .transformContext messages => (.ok messages, (n, h))
  | (n, h), .convertToLlm messages => (.ok (convertToLlm messages), (n, h))
  | (n, h), .getApiKey _ => (.ok none, (n, h))
  | (n, h), .streamFunction _ => (.ok ⟨[.done], none⟩, (n, h))
  | (n, h), .result => (.ok (answers[n]?.getD last), (n + 1, h))
  | (n, h), .prepareArguments _ arguments => (.ok arguments, (n, h))
  | (n, h), .validateToolArguments _ toolCall => (.ok (.object toolCall.arguments), (n, h))
  | (n, h), .beforeToolCall _ => (.ok none, (n, h))
  | (n, h), .execute .. => (.ok ⟨[], .ok ⟨[], none, none⟩⟩, (n, h))
  | (n, h), .afterToolCall .. => (.ok none, (n, h))
  | (n, h), .prepareNextTurn _ =>
      let prepared := h.prepareNextTurn draws clock outfit
      match prepared.1 with
      | some (.ok update) => (.ok (some update), (n, prepared.2))
      | _ => (.error "The next turn was not prepared", (n, h))
  | (n, h), .shouldStopAfterTurn _ => (.ok false, (n, h))

/-- The hook did not fail. -/
def isPrepared : LoopEvent → Bool
  | ⟨.prepareNextTurn _, some (.error _)⟩ => false
  | _ => true

end Serve

section Run

variable {draws : Nat → Draw} {clock : Nat → Timestamp} {outfit : Outfit}
  {answers : List AssistantMessage} {last : AssistantMessage} {t t' : Nat × AgentHarness}

theorem serves_of_answers {e : LoopEvent}
    (answered : Prog.Answers (AgentHarness.serve draws clock outfit answers last) t e t')
    (prepared : isPrepared e = true) :
    t.2.Serves draws clock e t'.2 ∧ startsOnce e = true ∧
      ∀ messages messages', e = ⟨.transformContext messages, some (.ok messages')⟩ →
        messages' = messages := by
  obtain ⟨call, answer⟩ := e
  obtain ⟨n, h⟩ := t
  obtain ⟨isAnswer, rfl⟩ := answered
  dsimp only at isAnswer
  subst isAnswer
  cases call with
  | emit event =>
      refine ⟨.emit fun isOk => ?_, rfl, fun messages messages' same => by cases same⟩
      show (h.handleAgentEvent draws clock event).1 = .ok ()
      have mapped : (h.handleAgentEvent draws clock event).1.mapError SessionError.message =
        .ok () := isOk
      generalize (h.handleAgentEvent draws clock event).1 = result at mapped
      cases result with
      | ok => rfl
      | error => cases mapped
  | aborted => exact ⟨.aborted, rfl, fun messages messages' same => by cases same⟩
  | getSteeringMessages =>
      exact ⟨.steering (.ok ()), rfl, fun messages messages' same => by cases same⟩
  | getFollowUpMessages =>
      exact ⟨.followUp (.ok ()), rfl, fun messages messages' same => by cases same⟩
  | convertToLlm messages =>
      exact ⟨.convertToLlm messages, rfl, fun messages messages' same => by cases same⟩
  | transformContext messages =>
      refine ⟨.transformContext (.ok messages), rfl, fun messages' messages'' same => ?_⟩
      cases same
      rfl
  | streamFunction request =>
      exact ⟨.streamFunction _, rfl, fun messages messages' same => by cases same⟩
  | prepareNextTurn turn =>
      refine ⟨?_, rfl, fun messages messages' same => by cases same⟩
      have answer : AgentHarness.serve draws clock outfit answers last (n, h)
          (.prepareNextTurn turn) = match (h.prepareNextTurn draws clock outfit).1 with
            | some (.ok update) => (.ok (some update), (n, (h.prepareNextTurn draws clock outfit).2))
            | _ => (.error "The next turn was not prepared", (n, h)) := rfl
      dsimp only at prepared ⊢
      rw [answer] at prepared ⊢
      split
      · rename_i update given
        exact .prepareNextTurn outfit given
      · rename_i failed
        split at prepared
        · rename_i update given
          exact absurd given (failed update)
        · cases prepared
  | _ =>
      exact ⟨.outside _ rfl (fun event same => by cases same) (fun same => by cases same), rfl,
        fun messages messages' same => by cases same⟩

/-- What a run does to the harness, as moves. -/
theorem walk_of_answers {run : Started} {es front : List LoopEvent}
    {o : Option (Except String (List AgentMessage))} (traces : run.Traces (front ++ es) o)
    (walk : Walk (Prog.Answers (AgentHarness.serve draws clock outfit answers last)) t es t')
    (prepared : ∀ e ∈ es, isPrepared e = true) :
    Walk (Moves draws clock) ⟨t.2, .run run front⟩ (es.map .loop) ⟨t'.2, .run run (front ++ es)⟩ := by
  induction walk generalizing front with
  | nil =>
      rw [List.append_nil]
      exact .nil
  | @cons t t₁ t₂ e es answered rest ih =>
      obtain ⟨here, there⟩ := List.forall_mem_cons.mp prepared
      obtain ⟨serves, once, transforms⟩ := serves_of_answers answered here
      have split : front ++ e :: es = front ++ [e] ++ es := (List.append_assoc front [e] es).symm
      rw [split] at traces ⊢
      obtain ⟨fuel, traces'⟩ := traces
      refine .cons (.loop ⟨fuel, Prog.traces_of_prefix traces'⟩ serves once ?_)
        (ih ⟨fuel, traces'⟩ there)
      intro messages messages' same paired
      rw [transforms messages messages' same]
      exact paired

theorem walk_of_run (fuel : Nat) (run : Started) {h : AgentHarness}
    {r : Prog.Run (Nat × AgentHarness) LoopCall LoopCall.Result String (List AgentMessage)}
    (isRun : r = (runAgentLoop fuel run.messages run.context run.config).run
      (AgentHarness.serve draws clock outfit answers last) (0, h))
    (prepared : r.events.all isPrepared = true) :
    run.Traces r.events r.outcome ∧ Walk (Moves draws clock) ⟨h, .run run []⟩
      (r.events.map .loop) ⟨r.callees.2, .run run r.events⟩ := by
  subst isRun
  have traces := Prog.run_traces (AgentHarness.serve draws clock outfit answers last)
    (runAgentLoop fuel run.messages run.context run.config) (0, h)
  refine ⟨⟨fuel, traces⟩, ?_⟩
  exact @walk_of_answers draws clock outfit answers last (0, h) _ run _ [] _ ⟨fuel, traces⟩
    (Prog.run_walk _ _) (List.all_eq_true.mp prepared)

theorem Reached.walk {s s' : HarnessState} {ms : List Move} (reached : Reached draws clock s)
    (walk : Walk (Moves draws clock) s ms s') : Reached draws clock s' := by
  induction walk with
  | nil => exact reached
  | cons moves _ ih => exact ih (.moved reached moves)

theorem calls_walk {s s' : HarnessState} {ms : List Move} (walk : Walk (Moves draws clock) s ms s') :
    s.harness.session.calls ≤ s'.harness.session.calls := by
  induction walk with
  | nil => exact Nat.le_refl _
  | cons moves _ ih => exact Nat.le_trans (calls_moves moves) ih

end Run

/-! ## A run with one tool call -/

/-- A new harness that was asked one question. -/
def oneCallHarness : AgentHarness :=
  { AgentHarness.create ⟨"api", "provider", "model"⟩ none none none with
    phase := .turn, runAborted := some false }

def oneCallOutfit : Outfit := ⟨"", [⟨"list", none, false⟩]⟩

def oneCallStarted : Started where
  messages := [question]
  context := ⟨"", [], some [⟨"list", none, false⟩]⟩
  config := createLoopConfig ⟨[], "", ⟨"api", "provider", "model"⟩, .off, [⟨"list", none, false⟩]⟩

/-- The run of the harness with the two answers. -/
def oneCallRun :
    Prog.Run (Nat × AgentHarness) LoopCall LoopCall.Result String (List AgentMessage) :=
  (runAgentLoop 4 oneCallStarted.messages oneCallStarted.context oneCallStarted.config).run
    (AgentHarness.serve ticking id oneCallOutfit oneCall (answerOf [.text "Done."]))
    (0, oneCallHarness)

theorem reached_oneCallHarness : Reached ticking id ⟨oneCallHarness, .run oneCallStarted []⟩ := by
  have created := @Reached.created ticking id ⟨"api", "provider", "model"⟩ none none none
  have prompted := created.moved
    (@Moves.prompt ticking id _ _ ⟨.text "What is there?", 0⟩ (by rfl))
  have begun := prompted.moved
    (@Moves.beginTurn ticking id _ _ _ oneCallOutfit (.ok ()) _ (by rfl))
  exact begun.moved
    (@Moves.startTurn ticking id _ _ _ _ none (by rfl) (fun messages given => by cases given))

theorem oneCallRun_walk : oneCallStarted.Traces oneCallRun.events oneCallRun.outcome ∧
    Walk (Moves ticking id) ⟨oneCallHarness, .run oneCallStarted []⟩
      (oneCallRun.events.map .loop) ⟨oneCallRun.callees.2, .run oneCallStarted oneCallRun.events⟩ :=
  walk_of_run 4 oneCallStarted rfl (by decide +kernel)

theorem oneCallRun_room : oneCallRun.callees.2.session.calls + 202 ≤ 0x100000000 := by
  have few : oneCallRun.callees.2.session.calls ≤ 100 := by decide +kernel
  omega

/-! ## Main results -/

section Main

variable {draws : Nat → Draw} {clock : Nat → Timestamp} {limit : Nat} {s s' : HarnessState}

/-- What the session gives is a path to one of its entries. -/
theorem getBranch_path {session : Session} (sound : Session.Sound draws limit session)
    {fromId : Option String} {path : List SessionTreeEntry}
    (given : session.getBranch fromId = some (.ok path)) :
    ∃ id, path = pathTo session.storage.entries id := by
  cases fromId with
  | none =>
      rw [sound.getBranch] at given
      cases given
      exact ⟨_, rfl⟩
  | some id =>
      by_cases there : id ∈ entryIds session.storage.entries
      · have known : ∀ k, some id = some k → k ∈ entryIds session.storage.entries := by
          intro k same
          cases same
          exact there
        have found := sound.kept.getPathToRoot known
        rw [Session.getBranch, found] at given
        cases given
        exact ⟨_, rfl⟩
      · unfold Session.getBranch SessionStorage.getPathToRoot at given
        dsimp only at given
        split at given
        · cases given
        · rename_i current found
          rw [sound.kept.byId] at found
          obtain ⟨isEntry, named⟩ := mem_of_buildById found
          exact absurd (mem_entryIds.mpr ⟨current, isEntry, named⟩) there

/-- Every path of the session gives a transcript that pairs, and so did every transcript that a run
handed to the model, and what it has published. -/
theorem reached_paired (fits : Fits draws limit) (reached : Reached draws clock s)
    (room : s.harness.session.calls + 202 ≤ limit) :
    (∀ fromId path, s.harness.session.getBranch fromId = some (.ok path) →
      Paired (buildSessionContext path).messages) ∧
    ∀ run es, s.activity = .run run es →
      Paired (completed es) ∧ ∀ messages ∈ converted es, Paired messages := by
  have inv := reached_inv fits reached room
  refine ⟨fun fromId path given => ?_, fun run es isRun => ?_⟩
  · obtain ⟨id, rfl⟩ := getBranch_path inv.sane.sound given
    have conversation := inv.sane.conversations.pathTo id
    obtain ⟨ps, summarized⟩ := conversation.summarized
    exact summarized.context_paired (isPath_pathTo inv.sane.sound.kept.grown _).nodup
      conversation.paired
  · have holds := inv.holds
    rw [isRun] at holds
    obtain ⟨asked, q, exchanges, -⟩ := Runs.stands holds
    rw [completed_eq, converted_eq]
    exact ⟨Walk.completed exchanges (Or.inl rfl), Walk.asked exchanges⟩

theorem oneCallRun_reached :
    Reached ticking id ⟨oneCallRun.callees.2, .run oneCallStarted oneCallRun.events⟩ :=
  reached_oneCallHarness.walk oneCallRun_walk.2

theorem reached_paired_oneCall : completed oneCallRun.events ≠ [] ∧
    Paired (completed oneCallRun.events) ∧
      ∀ messages ∈ converted oneCallRun.events, Paired messages := by
  have published : (completed oneCallRun.events).isEmpty = false := by decide +kernel
  have paired :=
    reached_paired (fits_ticking (Nat.le_refl _)) oneCallRun_reached oneCallRun_room
  exact ⟨fun none => by simp [none] at published, paired.2 _ _ rfl⟩

end Main

end NestifyClaw.Agent
