import NestifyClaw.Agent.HarnessSession

/-!
# Harnesses that are reached

Whatever is asked of a harness while its runs go on, every path of its session is a conversation,
and a run stands where its session does: the transcript that the model is given is what the branch
gives at that time (`Inv`, `reached_inv`).
-/

namespace NestifyClaw.Agent

open Concurrent Concurrent.Protocol

/-- The transcript that the branch gives. -/
def Session.transcript (s : Session) : List AgentMessage := (buildSessionContext s.branch).messages

/-- The run waits for no tool results, or the branch ends with the calls that it waits for. -/
def Session.Awaits (s : Session) (asked : Option AssistantMessage) : Prop :=
  asked = none ∨ Walk Exchange none (entryMessages s.branch) asked

/-- What the model is asked with is what `convertToLlm` makes of what the context hook gave. -/
def Asking.Ready (a : Asking) : Prop :=
  ∀ llmMessages, a.llmMessages = some llmMessages → a.given.map convertToLlm = some llmMessages

/-- The harness stands where its run stands. -/
def AgentHarness.Stands (h : AgentHarness) : Standing → Prop
  | .inTurn asking => asking.transcript = h.session.transcript ∧ h.phase = .turn ∧ asking.Ready
  | .turned => h.phase = .turn
  | .finished => h.phase = .idle

/-- What holds of a run and the harness that runs it. -/
structure Runs (h : AgentHarness) (run : Started) (es : List LoopEvent) : Prop where
  hooks : run.config.Hooks true
  paired : Paired run.context.messages
  noResults : NoResults run.messages
  pairs : ∀ e ∈ es, Pairs e
  gives : ∀ e ∈ es, startsOnce e = true ∧ GivesContext e
  stands : ∃ asked q, Walk Exchanges none (exchange.observed es) asked ∧
    Walk (Live true) (.inTurn (.start run.context.messages)) ((live true).observed es) q ∧
      h.session.Awaits asked ∧ h.Stands q ∧ (q = .finished → asked = none)

def Activity.Holds (h : AgentHarness) : Activity → Prop
  | .none => h.phase = .idle
  | .prompt _ => h.phase = .turn
  | .starting s => h.phase = .turn ∧ s.turnState.messages = h.session.transcript ∧
      NoResults s.messages
  | .run r es => Runs h r es
  | .compaction p => h.phase = .compaction ∧
      prepareCompaction h.session.branch DEFAULT_COMPACTION_SETTINGS = .ok (some p)
  | .branchSummary navigation => h.phase = .branchSummary ∧
      ∀ k, navigation.targetEntry.newLeaf.1 = some k → k ∈ entryIds h.session.storage.entries

/-- What holds of a harness, whatever it is in the middle of. -/
structure AgentHarness.Sane (draws : Nat → Draw) (limit : Nat) (h : AgentHarness) : Prop where
  sound : Session.Sound draws limit h.session
  conversations : Conversations h.session
  mayWait : ∀ body ∈ h.pendingSessionWrites, body.mayWait = true
  nextTurn : NoResults h.nextTurnQueue

structure Inv (draws : Nat → Draw) (limit : Nat) (s : HarnessState) : Prop where
  sane : s.harness.Sane draws limit
  holds : s.activity.Holds s.harness

/-! ## The session of a harness -/

section Sane

variable {draws : Nat → Draw} {clock : Nat → Timestamp} {limit : Nat} {h : AgentHarness}
  {s s' : Session} {body : EntryBody}

theorem Session.Sound.nodup_branch (sound : Session.Sound draws limit s) :
    (entryIds s.branch).Nodup := (isPath_pathTo sound.kept.grown _).nodup

theorem buildContext_law (sound : Session.Sound draws limit s) :
    s.buildContext = some (.ok (buildSessionContext s.branch)) := by
  rw [Session.buildContext, sound.getBranch]
  rfl

theorem createTurnState_law (sane : h.Sane draws limit) {outfit : Outfit}
    {turnState : AgentHarnessTurnState}
    (created : h.createTurnState outfit = some (.ok turnState)) :
    turnState.messages = h.session.transcript := by
  rw [AgentHarness.createTurnState, buildContext_law sane.sound] at created
  cases created
  rfl

/-- What the branch gives a model is paired. -/
theorem transcript_paired (sound : Session.Sound draws limit s) (conversations : Conversations s) :
    Paired s.transcript := by
  have conversation := conversations.pathTo s.storage.leafId
  obtain ⟨ps, summarized⟩ := conversation.summarized
  exact summarized.context_paired sound.nodup_branch conversation.paired

/-- A message behind the branch comes behind its transcript. -/
theorem Extends.transcript {message : AgentMessage}
    (more : Extends draws limit s [.message message] s') :
    s'.transcript = s.transcript ++ [message] := by
  obtain ⟨entry, branch, isBody⟩ := more.branch_single
  have nodup := more.sound.nodup_branch
  have plain : entry.toCompaction = none := by
    unfold SessionTreeEntry.toCompaction
    rw [isBody]
  rw [branch] at nodup
  rw [Session.transcript, branch, messages_concat nodup plain, SessionTreeEntry.contextMessage,
    isBody]
  rfl

theorem flushPendingSessionWrites_law (fits : Fits draws limit) (sane : h.Sane draws limit)
    (room : (h.flushPendingSessionWrites draws clock).2.session.calls + 202 ≤ limit) :
    ∃ s', h.flushPendingSessionWrites draws clock =
        (.ok (), { h with session := s', pendingSessionWrites := [] }) ∧
      Extends draws limit h.session h.pendingSessionWrites s' := by
  obtain ⟨s', flushed, more⟩ := flush_extends fits sane.sound sane.mayWait room
  refine ⟨s', ?_, more⟩
  rw [AgentHarness.flushPendingSessionWrites, flushed]

/-- What was written, in whatever order the rest changed. -/
theorem AgentHarness.Sane.extends (sane : h.Sane draws limit) {bodies : List EntryBody} {h' : AgentHarness}
    (more : Extends draws limit h.session bodies h'.session)
    (plain : ∀ body ∈ bodies, body.isPlain = true)
    (mayWait : ∀ body ∈ h'.pendingSessionWrites, body.mayWait = true)
    (nextTurn : NoResults h'.nextTurnQueue) : h'.Sane draws limit :=
  ⟨more.sound, more.conversations sane.conversations plain, mayWait, nextTurn⟩

theorem AgentHarness.Sane.flushed (sane : h.Sane draws limit)
    (more : Extends draws limit h.session h.pendingSessionWrites s') :
    AgentHarness.Sane draws limit { h with session := s', pendingSessionWrites := [] } :=
  sane.extends more (fun body there => isPlain_of_mayWait (sane.mayWait body there))
    (fun body there => by cases there) sane.nextTurn

theorem AgentHarness.Sane.phase (sane : h.Sane draws limit) (phase : AgentHarnessPhase)
    (runAborted : Option Bool) : AgentHarness.Sane draws limit { h with phase, runAborted } :=
  ⟨sane.sound, sane.conversations, sane.mayWait, sane.nextTurn⟩

/-- A message for which the branch, and not only the loop, is ready. -/
theorem awaits_message {asked asked' : Option AssistantMessage} {message : AgentMessage}
    (awaits : s.Awaits asked) (paired : Paired (entryMessages s.branch))
    (exchange : Exchange asked message asked') :
    Walk Exchange none (entryMessages s.branch ++ [message]) asked' := by
  rcases awaits with rfl | walk
  · obtain ⟨q, walk⟩ := paired
    exact walk.append (.single (exchange.mono (Or.inl rfl)))
  · exact walk.append (.single exchange)

/-- What the loop completes is put behind the branch. -/
theorem AgentHarness.Sane.message (fits : Fits draws limit) (sane : h.Sane draws limit)
    (room : h.session.calls + 202 ≤ limit) {message : AgentMessage}
    {asked asked' : Option AssistantMessage} (awaits : h.session.Awaits asked)
    (exchange : Exchange asked message asked') :
    ∃ s', h.handleAgentEvent draws clock (.messageEnd message) = (.ok (), { h with session := s' }) ∧
      Extends draws limit h.session [.message message] s' ∧
      AgentHarness.Sane draws limit { h with session := s' } ∧ s'.Awaits asked' := by
  have noLeaf (targetId : Option String) : EntryBody.message message ≠ .leaf targetId := by simp
  obtain ⟨id, s', appended, follows⟩ :=
    Session.appendTypedEntry_law (h.session.time clock) fits sane.sound (by omega) noLeaf
  have more := extends_of_follows follows
  have conversation := sane.conversations.pathTo h.session.storage.leafId
  have walk := awaits_message awaits conversation.paired exchange
  have added (entry : SessionTreeEntry) (isBody : entry.body = .message message) :
      entryMessages (h.session.branch ++ [entry]) =
        entryMessages h.session.branch ++ [message] := by
    have given : getMessageFromEntryForCompaction entry = some message := by
      unfold getMessageFromEntryForCompaction SessionTreeEntry.toCompaction getMessageFromEntry
      rw [isBody]
      rfl
    rw [entryMessages_append]
    exact congrArg _ (List.filterMap_cons_some given)
  refine ⟨s', ?_, more, ⟨more.sound, ?_, sane.mayWait, sane.nextTurn⟩, Or.inr ?_⟩
  · rw [AgentHarness.handleAgentEvent, Session.appendMessage, appended]
    rfl
  · refine follows.conversations sane.conversations fun entry isBody _ => ?_
    have isBody' := List.mem_singleton.mp isBody
    obtain ⟨ps, summarized⟩ := conversation.summarized
    refine ⟨⟨ps, .entry summarized ?_⟩, ?_⟩
    · unfold SessionTreeEntry.toCompaction
      rw [isBody']
    · rw [added entry isBody']
      exact ⟨asked', walk⟩
  · obtain ⟨entry, branch, isBody⟩ := more.branch_single
    rw [branch, added entry isBody]
    exact walk

end Sane

/-! ## Where a run stands -/

section Stands

theorem Exchanges.unique {asked q q' : Option AssistantMessage} {o : Exchanged}
    (first : Exchanges asked o q) (second : Exchanges asked o q') : q = q' := by
  cases first with
  | completed exchange =>
      cases second with
      | completed exchange' => exact exchange.unique exchange'
  | closed =>
      cases second
      rfl
  | asked =>
      cases second
      rfl

theorem Live.unique {transforms : Bool} {s q q' : Standing} {o : Seen}
    (first : Live transforms s o q) (second : Live transforms s o q') : q = q' := by
  cases first <;> cases second <;> rfl

/-- The end of a run closes its calls, and nothing comes behind it. -/
theorem closed_of_finished {e : LoopEvent} {asked asked' : Option AssistantMessage} {q q' : Standing}
    (exchanges : Walk Exchanges asked (exchange.observed [e]) asked')
    (lives : Walk (Live true) q ((live true).observed [e]) q') (before : q = .finished → asked = none)
    (isFinished : q' = .finished) : asked' = none := by
  obtain ⟨call, answer⟩ := e
  -- nothing is observed of the call
  have silent (noExchange : exchange.observe ⟨call, answer⟩ = none)
      (noLive : (live true).observe ⟨call, answer⟩ = none) : asked' = none := by
    obtain rfl := still_of_observed (P := exchange) noExchange exchanges
    obtain rfl := still_of_observed (P := live true) noLive lives
    exact before isFinished
  -- the call closes what is open
  have closes (closed : exchange.observe ⟨call, answer⟩ = some .closed) : asked' = none := by
    have step : Exchanges asked .closed asked' := step_of_observed (P := exchange) closed exchanges
    cases step
    rfl
  -- the call leaves the run in its turn
  have inTurn (o : Seen) (isSeen : (live true).observe ⟨call, answer⟩ = some o)
      (goesOn : ∀ q', Live true q o q' → ∃ a, q' = .inTurn a) : asked' = none := by
    obtain ⟨a, never⟩ := goesOn q' (step_of_observed (P := live true) isSeen lives)
    cases isFinished.symm.trans never
  cases call with
  | emit event =>
      cases event with
      | messageEnd message =>
          exact inTurn (.completed message) rfl fun q step => by
            cases step
            exact ⟨_, rfl⟩
      | turnEnd message toolResults => exact closes rfl
      | agentEnd messages => exact closes rfl
      | _ => exact silent rfl rfl
  | prepareNextTurn context => exact closes rfl
  | transformContext messages =>
      exact inTurn (.transformed messages (answer.bind Except.toOption)) rfl fun q step => by
        cases step
        exact ⟨_, rfl⟩
  | convertToLlm messages =>
      exact inTurn (.converted messages (answer.bind Except.toOption)) rfl fun q step => by
        cases step
        exact ⟨_, rfl⟩
  | streamFunction request =>
      exact inTurn (.requested request.messages) rfl fun q step => by
        cases step
        exact ⟨_, rfl⟩
  | _ => exact silent rfl rfl

variable {h : AgentHarness} {run : Started} {es : List LoopEvent} {e : LoopEvent}
  {o : Option (Except String (List AgentMessage))}

/-- A run that goes on: where it stood, where it stands now, and what is left to show of the
harness. -/
theorem Runs.advance (runs : Runs h run es) (goesOn : run.Traces (es ++ [e]) o) (pairs : Pairs e)
    (gives : startsOnce e = true ∧ GivesContext e) :
    ∃ asked asked' q q', h.session.Awaits asked ∧ h.Stands q ∧
      Walk Exchanges asked (exchange.observed [e]) asked' ∧
      Walk (Live true) q ((live true).observed [e]) q' ∧
      ∀ h' : AgentHarness, h'.session.Awaits asked' → h'.Stands q' → Runs h' run (es ++ [e]) := by
  obtain ⟨asked, q, exchanges, lives, awaits, stands, closed⟩ := runs.stands
  obtain ⟨fuel, traces⟩ := goesOn
  have pairs' : ∀ e' ∈ es ++ [e], Pairs e' :=
    List.forall_mem_append.mpr ⟨runs.pairs, fun e' there => List.mem_singleton.mp there ▸ pairs⟩
  have gives' : ∀ e' ∈ es ++ [e], startsOnce e' = true ∧ GivesContext e' :=
    List.forall_mem_append.mpr ⟨runs.gives, fun e' there => List.mem_singleton.mp there ▸ gives⟩
  obtain ⟨asked', exchanges', -⟩ :=
    @exchange_runAgentLoop none fuel _ _ run.config runs.paired runs.noResults _ _ traces pairs'
  obtain ⟨q', lives', -⟩ :=
    live_runAgentLoop fuel run.messages run.context runs.hooks _ _ traces gives'
  have whole := exchanges'
  have whole' := lives'
  rw [observed_append] at exchanges' lives'
  obtain ⟨middle, first, last⟩ := exchanges'.of_append
  obtain ⟨middle', first', last'⟩ := lives'.of_append
  obtain rfl := Walk.unique (R := Exchanges) Exchanges.unique first exchanges
  obtain rfl := Walk.unique (R := Live true) Live.unique first' lives
  refine ⟨middle, asked', middle', q', awaits, stands, last, last', fun h' awaits' stands' => ?_⟩
  exact ⟨runs.hooks, runs.paired, runs.noResults, pairs', gives', asked', q', whole, whole',
    awaits', stands', closed_of_finished last last' closed⟩

/-- A run that returned is over. -/
theorem Runs.idle {messages : List AgentMessage} (runs : Runs h run es)
    (returns : run.Traces es (some (.ok messages))) : h.phase = .idle := by
  obtain ⟨asked, q, -, lives, -, stands, -⟩ := runs.stands
  obtain ⟨fuel, traces⟩ := returns
  obtain ⟨q', lives', isFinished⟩ :=
    live_runAgentLoop fuel run.messages run.context runs.hooks _ _ traces runs.gives
  obtain rfl := Walk.unique (R := Live true) Live.unique lives' lives
  rw [show q' = .finished from isFinished _ rfl] at stands
  exact stands

theorem AgentHarness.Stands.same {h' : AgentHarness} {q : Standing} (stands : h.Stands q)
    (session : h'.session = h.session) (phase : h'.phase = h.phase) : h'.Stands q := by
  cases q with
  | inTurn transcript =>
      obtain ⟨same, turn, ready⟩ := stands
      refine ⟨?_, phase.trans turn, ready⟩
      rw [session]
      exact same
  | turned => exact phase.trans stands
  | finished => exact phase.trans stands

/-- A call that leaves the session alone leaves the run where it stands. -/
theorem Runs.still (runs : Runs h run es) (goesOn : run.Traces (es ++ [e]) o) (pairs : Pairs e)
    (gives : startsOnce e = true ∧ GivesContext e)
    (exchanges : ∀ o ∈ exchange.observed [e], ∀ a a', Exchanges a o a' → a' = a)
    (lives : ∀ o ∈ (live true).observed [e], ∀ q q', Live true q o q' → q' = q) {h' : AgentHarness}
    (session : h'.session = h.session) (phase : h'.phase = h.phase) :
    Runs h' run (es ++ [e]) := by
  obtain ⟨asked, asked', q, q', awaits, stands, walk, walk', goes⟩ :=
    runs.advance goesOn pairs gives
  obtain rfl := walk.still exchanges
  obtain rfl := walk'.still lives
  refine goes h' ?_ (stands.same session phase)
  rw [session]
  exact awaits

/-- A call about the model leaves the session alone, and the run in its turn. -/
theorem Runs.asks (runs : Runs h run es) (goesOn : run.Traces (es ++ [e]) o) (pairs : Pairs e)
    (gives : startsOnce e = true ∧ GivesContext e)
    (exchanges : ∀ o ∈ exchange.observed [e], ∀ a a', Exchanges a o a' → a' = a) {seen : Seen}
    (isSeen : (live true).observe e = some seen)
    (lives : ∀ q q', Live true q seen q' → ∃ a a', q = .inTurn a ∧ q' = .inTurn a' ∧
      a'.transcript = a.transcript ∧ (a.Ready → a'.Ready)) :
    Runs h run (es ++ [e]) := by
  obtain ⟨asked, asked', q, q', awaits, stands, walk, walk', goes⟩ :=
    runs.advance goesOn pairs gives
  obtain rfl := walk.still exchanges
  obtain ⟨a, a', rfl, rfl, transcript, ready⟩ :=
    lives _ _ (step_of_observed (P := live true) isSeen walk')
  obtain ⟨same, turn, isReady⟩ := stands
  exact goes h awaits ⟨transcript.trans same, turn, ready isReady⟩

end Stands

/-! ## Steps of a run -/

section Loop

variable {draws : Nat → Draw} {clock : Nat → Timestamp} {limit : Nat} {h : AgentHarness}
  {run : Started} {es : List LoopEvent} {o : Option (Except String (List AgentMessage))}

theorem Inv.emit_message (fits : Fits draws limit) (inv : Inv draws limit ⟨h, .run run es⟩)
    (room : h.session.calls + 202 ≤ limit) {message : AgentMessage} {answer : Except String Unit}
    (goesOn : run.Traces (es ++ [⟨.emit (.messageEnd message), some answer⟩]) o) :
    Inv draws limit ⟨(h.handleAgentEvent draws clock (.messageEnd message)).2,
      .run run (es ++ [⟨.emit (.messageEnd message), some answer⟩])⟩ := by
  obtain ⟨asked, asked', q, q', awaits, stands, exchanges, lives, goes⟩ :=
    Runs.advance inv.holds goesOn trivial ⟨rfl, trivial⟩
  have exchanged : Exchanges asked (.completed message) asked' :=
    step_of_observed (P := exchange) rfl exchanges
  have seen : Live true q (.completed message) q' := step_of_observed (P := live true) rfl lives
  cases exchanged with
  | completed exchange =>
      obtain ⟨s', handled, more, sane, awaits'⟩ := inv.sane.message fits room awaits exchange
      rw [handled]
      refine ⟨sane, goes _ awaits' ?_⟩
      cases seen with
      | completed =>
          obtain ⟨same, phase, -⟩ := stands
          refine ⟨?_, phase, fun llmMessages none => by cases none⟩
          show _ ++ [message] = s'.transcript
          rw [same, more.transcript]

theorem Inv.emit_turnEnd (fits : Fits draws limit) (inv : Inv draws limit ⟨h, .run run es⟩)
    {message : AssistantMessage} {toolResults : List ToolResultMessage}
    (room : (h.handleAgentEvent draws clock (.turnEnd message toolResults)).2.session.calls + 202 ≤
      limit) {answer : Except String Unit}
    (goesOn : run.Traces (es ++ [⟨.emit (.turnEnd message toolResults), some answer⟩]) o) :
    Inv draws limit ⟨(h.handleAgentEvent draws clock (.turnEnd message toolResults)).2,
      .run run (es ++ [⟨.emit (.turnEnd message toolResults), some answer⟩])⟩ := by
  obtain ⟨asked, asked', q, q', awaits, stands, exchanges, lives, goes⟩ :=
    Runs.advance inv.holds goesOn trivial ⟨rfl, trivial⟩
  obtain ⟨s', flushed, more⟩ := flushPendingSessionWrites_law fits inv.sane room
  rw [AgentHarness.handleAgentEvent, flushed]
  have exchanged : Exchanges asked .closed asked' := step_of_observed (P := exchange) rfl exchanges
  have seen : Live true q .turnEnd q' := step_of_observed (P := live true) rfl lives
  refine ⟨inv.sane.flushed more, goes _ ?_ ?_⟩
  · cases exchanged
    exact Or.inl rfl
  · cases seen
    exact stands.2.1

theorem Inv.emit_agentEnd (fits : Fits draws limit) (inv : Inv draws limit ⟨h, .run run es⟩)
    {messages : List AgentMessage}
    (room : (h.handleAgentEvent draws clock (.agentEnd messages)).2.session.calls + 202 ≤ limit)
    {answer : Except String Unit}
    (goesOn : run.Traces (es ++ [⟨.emit (.agentEnd messages), some answer⟩]) o) :
    Inv draws limit ⟨(h.handleAgentEvent draws clock (.agentEnd messages)).2,
      .run run (es ++ [⟨.emit (.agentEnd messages), some answer⟩])⟩ := by
  obtain ⟨asked, asked', q, q', awaits, stands, exchanges, lives, goes⟩ :=
    Runs.advance inv.holds goesOn trivial ⟨rfl, trivial⟩
  rw [AgentHarness.session_agentEnd] at room
  obtain ⟨s', flushed, more⟩ := flushPendingSessionWrites_law fits inv.sane room
  rw [AgentHarness.handleAgentEvent, flushed]
  have exchanged : Exchanges asked .closed asked' := step_of_observed (P := exchange) rfl exchanges
  have seen : Live true q .agentEnd q' := step_of_observed (P := live true) rfl lives
  refine ⟨(inv.sane.flushed more).phase .idle _, goes _ ?_ ?_⟩
  · cases exchanged
    exact Or.inl rfl
  · cases seen <;> rfl

/-- The hook of the harness gives what the branch gives. -/
theorem prepareNextTurn_law (fits : Fits draws limit) (sane : h.Sane draws limit) {outfit : Outfit}
    (room : (h.prepareNextTurn draws clock outfit).2.session.calls + 202 ≤ limit)
    {answer : Except SessionError AgentLoopTurnUpdate}
    (given : (h.prepareNextTurn draws clock outfit).1 = some answer) :
    ∃ s' update context, Extends draws limit h.session h.pendingSessionWrites s' ∧
      (h.prepareNextTurn draws clock outfit).2 =
        { h with session := s', pendingSessionWrites := [] } ∧
      answer = .ok update ∧ update.context = some context ∧ context.messages = s'.transcript := by
  rw [AgentHarness.session_prepareNextTurn] at room
  obtain ⟨s', flushed, more⟩ := flushPendingSessionWrites_law fits sane room
  rw [AgentHarness.prepareNextTurn, flushed] at given ⊢
  dsimp only at given ⊢
  rw [AgentHarness.createTurnState, buildContext_law more.sound] at given
  cases given
  exact ⟨s', _, _, more, rfl, rfl, rfl, rfl⟩

theorem Inv.prepareNextTurn (fits : Fits draws limit) (inv : Inv draws limit ⟨h, .run run es⟩)
    {outfit : Outfit} (room : (h.prepareNextTurn draws clock outfit).2.session.calls + 202 ≤ limit)
    {turn : TurnContext} {answer : Except SessionError AgentLoopTurnUpdate}
    (given : (h.prepareNextTurn draws clock outfit).1 = some answer)
    (goesOn : run.Traces (es ++
      [⟨.prepareNextTurn turn, some ((answer.map some).mapError SessionError.message)⟩]) o) :
    Inv draws limit ⟨(h.prepareNextTurn draws clock outfit).2, .run run (es ++
      [⟨.prepareNextTurn turn, some ((answer.map some).mapError SessionError.message)⟩])⟩ := by
  obtain ⟨s', update, context, more, after, rfl, isContext, shown⟩ :=
    prepareNextTurn_law fits inv.sane room given
  have sane := inv.sane.flushed more
  have pairs : Pairs ⟨.prepareNextTurn turn, some (.ok (some update))⟩ := by
    intro context' isContext'
    rw [isContext] at isContext'
    cases isContext'
    rw [shown]
    exact transcript_paired sane.sound sane.conversations
  obtain ⟨asked, asked', q, q', awaits, stands, exchanges, lives, goes⟩ :=
    Runs.advance inv.holds goesOn pairs ⟨rfl, update, context, rfl, isContext⟩
  have exchanged : Exchanges asked .closed asked' := step_of_observed (P := exchange) rfl exchanges
  have seen : Live true q (.replaced context.messages) q' := by
    refine step_of_observed (P := live true) ?_ lives
    show update.context.map _ = _
    rw [isContext]
    rfl
  rw [after]
  refine ⟨sane, goes _ ?_ ?_⟩
  · cases exchanged
    exact Or.inl rfl
  · cases seen
    exact ⟨shown, stands, fun llmMessages none => by cases none⟩

/-- One call of the run, whoever answers it. -/
theorem Inv.loop (fits : Fits draws limit) (inv : Inv draws limit ⟨h, .run run es⟩)
    {h' : AgentHarness} {e : LoopEvent} (room : h'.session.calls + 202 ≤ limit)
    (goesOn : run.Traces (es ++ [e]) o) (serves : h.Serves draws clock e h')
    (once : startsOnce e = true)
    (transforms : ∀ messages messages', e = ⟨.transformContext messages, some (.ok messages')⟩ →
      Paired messages → Paired messages') :
    Inv draws limit ⟨h', .run run (es ++ [e])⟩ := by
  have runs : Runs h run es := inv.holds
  have noResults (messages : List UserMessage) : NoResults (messages.map .user) := by
    intro message there
    obtain ⟨user, -, rfl⟩ := List.mem_map.mp there
    rfl
  have none {o : Exchanged} (there : o ∈ ([] : List Exchanged)) (a a') :
      Exchanges a o a' → a' = a := by cases there
  have none' {o : Seen} (there : o ∈ ([] : List Seen)) (q q') : Live true q o q' → q' = q := by
    cases there
  cases serves with
  | @emit event answer heard =>
      cases event with
      | messageEnd message =>
          refine inv.emit_message fits ?_ goesOn
          have later := @AgentHarness.calls_handleAgentEvent draws clock h (.messageEnd message)
          omega
      | turnEnd message toolResults => exact inv.emit_turnEnd fits room goesOn
      | agentEnd messages => exact inv.emit_agentEnd fits room goesOn
      | _ =>
          exact ⟨inv.sane, runs.still goesOn trivial ⟨rfl, trivial⟩ (fun o there => none there)
            (fun o there => none' there) rfl rfl⟩
  | aborted =>
      exact ⟨inv.sane, runs.still goesOn trivial ⟨rfl, trivial⟩ (fun o there => none there)
        (fun o there => none' there) rfl rfl⟩
  | steering heard =>
      refine ⟨⟨inv.sane.sound, inv.sane.conversations, inv.sane.mayWait, inv.sane.nextTurn⟩,
        runs.still goesOn ?_ ⟨rfl, trivial⟩ (fun o there => none there)
          (fun o there => none' there) rfl rfl⟩
      generalize (AgentHarness.drainQueuedMessages h.steerQueue h.steeringQueueMode heard).1 = r
      cases r with
      | error error => trivial
      | ok messages => exact noResults messages
  | followUp heard =>
      refine ⟨⟨inv.sane.sound, inv.sane.conversations, inv.sane.mayWait, inv.sane.nextTurn⟩,
        runs.still goesOn ?_ ⟨rfl, trivial⟩ (fun o there => none there)
          (fun o there => none' there) rfl rfl⟩
      generalize (AgentHarness.drainQueuedMessages h.followUpQueue h.followUpQueueMode heard).1 = r
      cases r with
      | error error => trivial
      | ok messages => exact noResults messages
  | convertToLlm messages =>
      refine ⟨inv.sane, runs.asks goesOn trivial ⟨rfl, trivial⟩ (fun o there => ?_) rfl ?_⟩
      · intro a a' step
        obtain rfl : o = .asked messages := List.mem_singleton.mp there
        cases step
        rfl
      · intro q q' step
        cases step with
        | converted converts =>
            refine ⟨_, _, rfl, rfl, rfl, fun _ llmMessages isMade => ?_⟩
            cases isMade
            exact congrArg (Option.map convertToLlm) converts
  | prepareNextTurn outfit given => exact inv.prepareNextTurn fits room given goesOn
  | @outside c answer isOutside noEvent notAborted =>
      cases c with
      | emit event => exact absurd rfl (noEvent event)
      | aborted => exact absurd rfl notAborted
      | getSteeringMessages => cases isOutside
      | getFollowUpMessages => cases isOutside
      | transformContext => cases isOutside
      | convertToLlm => cases isOutside
      | streamFunction => cases isOutside
      | prepareNextTurn => cases isOutside
      | _ =>
          exact ⟨inv.sane, runs.still goesOn trivial ⟨once, trivial⟩ (fun o there => none there)
            (fun o there => none' there) rfl rfl⟩
  | @transformContext messages answer =>
      refine ⟨inv.sane, runs.asks goesOn ?_ ⟨rfl, trivial⟩ (fun o there => none there) rfl ?_⟩
      · cases answer with
        | error error => trivial
        | ok messages' => exact transforms messages messages' rfl
      · intro q q' step
        cases step with
        | transformed given => exact ⟨_, _, rfl, rfl, rfl, fun _ llmMessages none => by cases none⟩
  | streamFunction answer =>
      refine ⟨inv.sane, runs.asks goesOn trivial ⟨once, trivial⟩ (fun o there => none there) rfl ?_⟩
      intro q q' step
      cases step with
      | requested given => exact ⟨_, _, rfl, rfl, rfl, id⟩

end Loop

end NestifyClaw.Agent
