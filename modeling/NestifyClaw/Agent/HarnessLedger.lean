import NestifyClaw.Agent.HarnessRun
import NestifyClaw.Ledger

/-!
# The ledger of a run

As long as a run goes on, the session and what waits for it are a ledger: what the run completes is
written at once, what others ask for waits until a turn has ended, and from the end of the run on
nothing waits (`run_ledger`).  When the run has settled, all that was asked for is in the session,
once, and in the order in which it was asked for (`settled_ledger`).
-/

namespace NestifyClaw.Agent

open Concurrent Concurrent.Protocol

/-! ## Acts -/

/-- What the harness does to the ledger when it handles the event. -/
def AgentEvent.acts : AgentEvent → List (Ledger.Act EntryBody)
  | .messageEnd message => [.write (.message message)]
  | .turnEnd _ _ => [.save]
  | .agentEnd _ => [.release]
  | _ => []

/-- What the request would write. -/
def HarnessRequest.body : HarnessRequest → Option PendingSessionWrite
  | .appendMessage message => some (.message message)
  | .setModel model => some (.modelChange model.provider model.id)
  | .setThinkingLevel level => some (.thinkingLevelChange level.toString)
  | _ => none

/-- What a move within a run does to the ledger. -/
def Move.acts : Move → List (Ledger.Act EntryBody)
  | .request r => (r.body.map Ledger.Act.ask).toList
  | .loop ⟨.emit event, _⟩ => event.acts
  | .loop ⟨.prepareNextTurn _, _⟩ => [.save]
  | _ => []

def Move.asked : Move → Option PendingSessionWrite
  | .request r => r.body
  | _ => none

def Move.event : Move → Option LoopEvent
  | .loop e => some e
  | _ => none

/-- The ledger behind the path `base`. -/
structure Books (draws : Nat → Draw) (limit : Nat) (base : List SessionTreeEntry)
    (h : AgentHarness) (l : Ledger EntryBody) : Prop where
  sound : Session.Sound draws limit h.session
  branch : ∃ added, h.session.branch = base ++ added ∧
    added.map SessionTreeEntry.body = l.written
  pending : h.pendingSessionWrites = l.waiting
  mayWait : ∀ body ∈ h.pendingSessionWrites, body.mayWait = true
  held : h.phase = .idle ↔ l.held = false

section Books

variable {draws : Nat → Draw} {clock : Nat → Timestamp} {limit : Nat}
  {base : List SessionTreeEntry} {h h' : AgentHarness} {l : Ledger EntryBody}

theorem Books.quiet (books : Books draws limit base h l) (session : h'.session = h.session)
    (phase : h'.phase = h.phase) (pending : h'.pendingSessionWrites = h.pendingSessionWrites) :
    Books draws limit base h' l := by
  refine ⟨?_, ?_, pending.trans books.pending, ?_, ?_⟩
  · exact session ▸ books.sound
  · exact session ▸ books.branch
  · exact pending ▸ books.mayWait
  · rw [phase]
    exact books.held

theorem Books.extended (books : Books draws limit base h l) {bodies : List EntryBody} {s : Session}
    (more : Extends draws limit h.session bodies s) :
    ∃ added, s.branch = base ++ added ∧
      added.map SessionTreeEntry.body = l.written ++ bodies := by
  obtain ⟨added, branch, written⟩ := books.branch
  obtain ⟨added', branch', written'⟩ := more.branch
  refine ⟨added ++ added', ?_, ?_⟩
  · rw [branch', branch, List.append_assoc]
  · rw [List.map_append, written, written']

/-- A flush saves the ledger. -/
theorem Books.save (fits : Fits draws limit) (books : Books draws limit base h l)
    (room : (h.flushPendingSessionWrites draws clock).2.session.calls + 202 ≤ limit) :
    ∃ h', h.flushPendingSessionWrites draws clock = (.ok (), h') ∧ h'.phase = h.phase ∧
      Books draws limit base h' (l.act .save) := by
  obtain ⟨s', flushed, more⟩ := flush_extends fits books.sound books.mayWait room
  refine ⟨{ h with session := s', pendingSessionWrites := [] }, ?_, rfl, more.sound, ?_, rfl,
    fun body there => (by cases there), books.held⟩
  · rw [AgentHarness.flushPendingSessionWrites, flushed]
  · obtain ⟨added, branch, written⟩ := books.extended more
    exact ⟨added, branch, written.trans (congrArg _ books.pending)⟩

theorem Books.idle (books : Books draws limit base h (l.act .save)) (phase : h'.phase = .idle)
    (session : h'.session = h.session) (pending : h'.pendingSessionWrites = h.pendingSessionWrites) :
    Books draws limit base h' (l.act .release) := by
  refine ⟨?_, ?_, pending.trans books.pending, ?_, fun _ => rfl, fun _ => phase⟩
  · exact session ▸ books.sound
  · exact session ▸ books.branch
  · exact pending ▸ books.mayWait

theorem Books.event (fits : Fits draws limit) (books : Books draws limit base h l)
    {event : AgentEvent}
    (room : (h.handleAgentEvent draws clock event).2.session.calls + 202 ≤ limit) :
    (h.handleAgentEvent draws clock event).1 = .ok () ∧
      Books draws limit base (h.handleAgentEvent draws clock event).2 (l.run event.acts) := by
  have few := @AgentHarness.calls_handleAgentEvent draws clock h event
  cases event with
  | messageEnd message =>
      obtain ⟨id, s', appended, more⟩ := @appendTypedEntry_extends draws limit h.session
        (.message message) fits books.sound (by omega) (h.session.time clock) (by simp)
      rw [AgentHarness.handleAgentEvent, Session.appendMessage, appended]
      exact ⟨rfl, more.sound, books.extended more, books.pending, books.mayWait, books.held⟩
  | turnEnd message toolResults =>
      obtain ⟨h', flushed, -, books'⟩ := books.save fits room
      rw [AgentHarness.handleAgentEvent, flushed]
      exact ⟨rfl, books'⟩
  | agentEnd messages =>
      rw [AgentHarness.session_agentEnd] at room
      obtain ⟨h', flushed, -, books'⟩ := books.save fits room
      rw [AgentHarness.handleAgentEvent, flushed]
      exact ⟨rfl, books'.idle rfl rfl rfl⟩
  | _ => exact ⟨rfl, books⟩

theorem Books.events (fits : Fits draws limit) {events : List AgentEvent}
    (books : Books draws limit base h l)
    (room : (h.handleAgentEvents draws clock events).2.session.calls + 202 ≤ limit) :
    Books draws limit base (h.handleAgentEvents draws clock events).2
      (l.run (events.flatMap AgentEvent.acts)) := by
  induction events generalizing h l with
  | nil => exact books
  | cons event events ih =>
      have few : (h.handleAgentEvent draws clock event).2.session.calls + 202 ≤ limit := by
        rw [AgentHarness.handleAgentEvents] at room
        generalize h.handleAgentEvent draws clock event = result at room
        obtain ⟨error | _, h'⟩ := result
        · exact room
        · have later := @AgentHarness.calls_handleAgentEvents draws clock h' events
          dsimp only at room ⊢
          omega
      obtain ⟨isOk, books'⟩ := books.event fits few
      have handled : h.handleAgentEvent draws clock event =
        (.ok (), (h.handleAgentEvent draws clock event).2) := Prod.ext isOk rfl
      rw [AgentHarness.handleAgentEvents, handled] at room ⊢
      rw [List.flatMap_cons, Ledger.run_append]
      exact ih books' room

/-- What is asked for is written by an idle harness, and waits else. -/
theorem Books.ask (fits : Fits draws limit) (books : Books draws limit base h l)
    {body : PendingSessionWrite} (mayWait : body.mayWait = true)
    (room : (h.writeOrWait draws clock body).2.session.calls + 202 ≤ limit) :
    ∃ h', h.writeOrWait draws clock body = (.ok (), h') ∧
      Books draws limit base h' (l.act (.ask body)) := by
  have few := @AgentHarness.calls_writeOrWait draws clock h body
  unfold AgentHarness.writeOrWait
  split
  · rename_i idle
    obtain ⟨s', written, more⟩ := @write_extends draws clock limit h.session body fits books.sound
      (by omega) mayWait
    rw [written, Ledger.act_ask_free (books.held.mp idle)]
    exact ⟨_, rfl, more.sound, books.extended more, books.pending, books.mayWait, books.held⟩
  · rename_i busy
    have held : l.held = true := by
      cases isHeld : l.held with
      | true => rfl
      | false => exact absurd (books.held.mpr isHeld) busy
    rw [Ledger.act_ask_held held]
    refine ⟨_, rfl, books.sound, books.branch, ?_, ?_, books.held⟩
    · rw [books.pending]
    · refine List.forall_mem_append.mpr ⟨books.mayWait, fun body' there => ?_⟩
      rw [List.mem_singleton.mp there]
      exact mayWait

theorem Books.request (fits : Fits draws limit) (books : Books draws limit base h l)
    {request : HarnessRequest} (noResult : request.NoResult) (heard : Except AgentHarnessError Unit)
    (room : (h.handle draws clock heard request).2.session.calls + 202 ≤ limit) :
    Books draws limit base (h.handle draws clock heard request).2 (l.run (Move.request request).acts) := by
  cases request with
  | steer message =>
      rw [AgentHarness.handle]
      split
      · exact books
      · exact books.quiet rfl rfl rfl
  | followUp message =>
      rw [AgentHarness.handle]
      split
      · exact books
      · exact books.quiet rfl rfl rfl
  | appendMessage message =>
      have mayWait : (EntryBody.message message).mayWait = true := by
        rw [EntryBody.mayWait, show message.isToolResult = false from noResult]
        rfl
      obtain ⟨h', written, books'⟩ := books.ask fits mayWait room
      rw [AgentHarness.handle, written]
      exact books'
  | setModel model =>
      rw [AgentHarness.session_setModel] at room
      rw [AgentHarness.handle]
      obtain ⟨h', written, books'⟩ := books.ask fits (by rfl) room
      rw [written]
      exact books'.quiet rfl rfl rfl
  | setThinkingLevel level =>
      rw [AgentHarness.session_setThinkingLevel] at room
      rw [AgentHarness.handle]
      obtain ⟨h', written, books'⟩ := books.ask fits (by rfl) room
      rw [written]
      exact books'.quiet rfl rfl rfl
  | _ => exact books.quiet rfl rfl rfl

theorem Books.serves (fits : Fits draws limit) (books : Books draws limit base h l) {e : LoopEvent}
    (serves : h.Serves draws clock e h') (room : h'.session.calls + 202 ≤ limit) :
    Books draws limit base h' (l.run (Move.loop e).acts) := by
  cases serves with
  | emit heard => exact (books.event fits room).2
  | aborted => exact books
  | steering heard => exact books.quiet rfl rfl rfl
  | followUp heard => exact books.quiet rfl rfl rfl
  | convertToLlm messages => exact books
  | prepareNextTurn outfit given =>
      rw [AgentHarness.session_prepareNextTurn] at room
      obtain ⟨h', flushed, -, books'⟩ := books.save fits room
      rw [AgentHarness.prepareNextTurn, flushed]
      exact books'
  | @outside c answer isOutside noEvent notAborted =>
      cases c with
      | emit event => exact absurd rfl (noEvent event)
      | prepareNextTurn => cases isOutside
      | _ => exact books
  | transformContext answer => exact books
  | streamFunction answer => exact books

/-! ## The end of a run -/

theorem Books.settle (fits : Fits draws limit) (books : Books draws limit base h l) {returned : Bool}
    (idle : returned = true → h.phase = .idle)
    (room : (h.settle draws clock returned).session.calls + 202 ≤ limit) :
    Books draws limit base (h.settle draws clock returned) (l.act .release) := by
  rw [AgentHarness.session_settle] at room
  obtain ⟨h', flushed, phase, books'⟩ := books.save fits room
  rw [AgentHarness.settle, flushed]
  refine books'.idle ?_ rfl rfl
  show (if returned then h'.phase else .idle) = AgentHarnessPhase.idle
  split
  · rename_i isReturned
    exact phase.trans (idle isReturned)
  · rfl

/-- The end of a run, behind the message of its failure. -/
def endActs (failure : List EntryBody) : List (Ledger.Act EntryBody) :=
  failure.map Ledger.Act.write ++ [.release]

/-- However much of a failure is reported, its message comes at most once. -/
theorem failure_acts (l : Ledger EntryBody) (message : AssistantMessage) (handled : Nat) :
    ∃ failure : List EntryBody, (failure = [] ∨ failure = [.message (.assistant message)]) ∧
      (l.run (((AgentHarness.failureEvents message).take handled).flatMap AgentEvent.acts)).act
        .release = l.run (endActs failure) := by
  match handled with
  | 0 => exact ⟨[], Or.inl rfl, rfl⟩
  | 1 => exact ⟨[], Or.inl rfl, rfl⟩
  | 2 => exact ⟨_, Or.inr rfl, rfl⟩
  | 3 => exact ⟨_, Or.inr rfl, Ledger.release_save⟩
  | n + 4 =>
      refine ⟨_, Or.inr rfl, ?_⟩
      rw [show (AgentHarness.failureEvents message).take (n + 4) =
        AgentHarness.failureEvents message from List.take_of_length_le (Nat.le_add_left 4 n)]
      exact Ledger.release_release.trans Ledger.release_save

/-! ## Runs -/

variable {run : Started} {es : List LoopEvent} {s' : HarnessState}

theorem Books.moves (fits : Fits draws limit) (books : Books draws limit base h l) {m : Move}
    (moves : Moves draws clock ⟨h, .run run es⟩ m s') (goesOn : m ≠ .settled)
    (room : s'.harness.session.calls + 202 ≤ limit) :
    Books draws limit base s'.harness (l.run m.acts) ∧
      s'.activity = .run run (es ++ m.event.toList) := by
  cases moves with
  | request heard noResult =>
      exact ⟨books.request fits noResult heard room, congrArg _ (List.append_nil es).symm⟩
  | loop traces serves once transforms => exact ⟨books.serves fits serves room, rfl⟩
  | returned => exact absurd rfl goesOn
  | failed => exact absurd rfl goesOn

theorem Books.walk (fits : Fits draws limit) {ms : List Move} (books : Books draws limit base h l)
    (walk : Walk (Moves draws clock) ⟨h, .run run es⟩ ms s') (goesOn : .settled ∉ ms)
    (room : s'.harness.session.calls + 202 ≤ limit) :
    Books draws limit base s'.harness (l.run (ms.flatMap Move.acts)) ∧
      s'.activity = .run run (es ++ ms.filterMap Move.event) := by
  induction ms generalizing h l es with
  | nil =>
      cases walk
      exact ⟨books, congrArg _ (List.append_nil es).symm⟩
  | cons m ms ih =>
      obtain ⟨here, there⟩ := not_or.mp (goesOn ∘ List.mem_cons.mpr)
      cases walk with
      | @cons _ middle _ _ _ moves rest =>
          have few := calls_walk rest
          obtain ⟨books', goes⟩ := books.moves fits moves (Ne.symm here) (by omega)
          obtain ⟨h', activity⟩ := middle
          dsimp only at books' goes
          subst goes
          obtain ⟨books'', goes'⟩ := ih books' rest there
          rw [List.flatMap_cons, Ledger.run_append]
          refine ⟨books'', ?_⟩
          rw [goes', List.append_assoc, Ledger.filterMap_cons_append]

/-- A run settles with its ledger released, behind the message of a failure. -/
theorem Books.settled (fits : Fits draws limit) (books : Books draws limit base h l)
    (runs : Runs h run es) (moves : Moves draws clock ⟨h, .run run es⟩ .settled s')
    (room : s'.harness.session.calls + 202 ≤ limit) :
    ∃ failure : List EntryBody,
      (failure = [] ∨ ∃ message, failure = [EntryBody.message (.assistant message)]) ∧
        Books draws limit base s'.harness (l.run (endActs failure)) := by
  cases moves with
  | returned returns => exact ⟨[], Or.inl rfl, books.settle fits (fun _ => runs.idle returns) room⟩
  | failed throws model aborted timestamp handled =>
      obtain ⟨failure, isFailure, same⟩ :=
        failure_acts l (createFailureMessage model _ aborted timestamp) handled
      refine ⟨failure, isFailure.imp_right fun same => ⟨_, same⟩, ?_⟩
      rw [← same]
      refine (books.events fits ?_).settle fits (fun never => by cases never) room
      exact Nat.le_trans (Nat.add_le_add_right (AgentHarness.calls_settle false) 202) room

end Books

/-! ## Main results -/

section Main

variable {draws : Nat → Draw} {clock : Nat → Timestamp} {limit : Nat} {h : AgentHarness}
  {run : Started} {ms : List Move} {s' : HarnessState}

/-- Where a run begins, its ledger is held. -/
theorem books_hold (inv : Inv draws limit ⟨h, .run run []⟩) :
    Books draws limit h.session.branch h (Ledger.hold h.pendingSessionWrites) := by
  refine ⟨inv.sane.sound, ⟨[], (List.append_nil _).symm, rfl⟩, rfl, inv.sane.mayWait, ?_⟩
  obtain ⟨asked, q, -, lives, -, stands, -⟩ := Runs.stands inv.holds
  cases lives
  have busy : h.phase = .turn := stands.2.1
  refine ⟨fun idle => ?_, fun free => by cases free⟩
  cases busy.symm.trans idle

/-- At every point of a run, whoever called the harness in the meantime: the branch is what it was,
and behind it what the ledger has written, and what waits is what waits in the ledger. -/
theorem run_ledger (fits : Fits draws limit) (reached : Reached draws clock ⟨h, .run run []⟩)
    (walk : Walk (Moves draws clock) ⟨h, .run run []⟩ ms s') (goesOn : .settled ∉ ms)
    (room : s'.harness.session.calls + 202 ≤ limit) :
    ∃ before added, h.session.getBranch none = some (.ok before) ∧
      s'.harness.session.getBranch none = some (.ok (before ++ added)) ∧
        added.map SessionTreeEntry.body =
          ((Ledger.hold h.pendingSessionWrites).run (ms.flatMap Move.acts)).written ∧
        s'.harness.pendingSessionWrites =
          ((Ledger.hold h.pendingSessionWrites).run (ms.flatMap Move.acts)).waiting := by
  have few := calls_walk walk
  have inv := reached_inv fits reached (by dsimp only at few ⊢; omega)
  obtain ⟨books, -⟩ := (books_hold inv).walk fits walk goesOn room
  obtain ⟨added, branch, written⟩ := books.branch
  refine ⟨_, added, inv.sane.sound.getBranch, ?_, written, books.pending⟩
  rw [books.sound.getBranch, branch]

/-- A run in which the model is set. -/
def askedHarness : AgentHarness :=
  (oneCallHarness.handle ticking id (.ok ()) (.setModel ⟨"api", "provider", "other"⟩)).2

def askedRun : Prog.Run (Nat × AgentHarness) LoopCall LoopCall.Result String (List AgentMessage) :=
  (runAgentLoop 4 oneCallStarted.messages oneCallStarted.context oneCallStarted.config).run
    (AgentHarness.serve ticking id oneCallOutfit oneCall (answerOf [.text "Done."]))
    (0, askedHarness)

def askedMoves : List Move :=
  .request (.setModel ⟨"api", "provider", "other"⟩) :: askedRun.events.map .loop

theorem askedRun_walk : oneCallStarted.Traces askedRun.events askedRun.outcome ∧
    Walk (Moves ticking id) ⟨oneCallHarness, .run oneCallStarted []⟩ askedMoves
      ⟨askedRun.callees.2, .run oneCallStarted askedRun.events⟩ := by
  obtain ⟨traces, walk⟩ := @walk_of_run ticking id oneCallOutfit oneCall (answerOf [.text "Done."])
    4 oneCallStarted askedHarness askedRun rfl (by decide +kernel)
  exact ⟨traces, .cons (.request (.ok ()) trivial) walk⟩

theorem not_settled_askedMoves : .settled ∉ askedMoves := by
  simp [askedMoves]

theorem run_ledger_asked : ∃ before added,
    oneCallHarness.session.getBranch none = some (.ok before) ∧
      askedRun.callees.2.session.getBranch none = some (.ok (before ++ added)) ∧
        added.map SessionTreeEntry.body =
          ((Ledger.hold []).run (askedMoves.flatMap Move.acts)).written := by
  have few : askedRun.callees.2.session.calls ≤ 100 := by decide +kernel
  obtain ⟨before, added, shown, shows, written, -⟩ :=
    run_ledger (fits_ticking (Nat.le_refl _)) reached_oneCallHarness askedRun_walk.2
      not_settled_askedMoves (by dsimp only; omega)
  exact ⟨before, added, shown, shows, written⟩

end Main

end NestifyClaw.Agent
