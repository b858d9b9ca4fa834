import NestifyClaw.Gateway.Service

/-!
# The calls of one `handleInbound` run

Whatever the seven ports answer, the calls of a run go along one script (`fullTrace`): the six
calls up to the turn, then `prepareOutbound` and `deliver` for each reply in order, then the
save.  `handleInbound_traceLaw` says where a run leaves the script, and reads off what that
means for deliveries and saves.
-/

namespace NestifyClaw.Gateway

open Await GatewayService

variable {V E τ : Type}

/-- What the calls of a complete run settle with. -/
structure Answers (V : Type) where
  decision : InboundDecision
  route : RouteTarget
  session : Option (Ref (SessionState V))
  media : Unknown V
  result : TurnResult V
  prepared : List (OutboundReply V)
  /-- `data` and `updatedAt` of the state that is saved. -/
  data : Ref (Record V)
  updatedAt : Nat
  responds : decision.kind ≠ .ignore
  prepared_length : prepared.length = result.replies.length

/-- The delivery loop, every call fulfilled. -/
def deliveryTrace (route : RouteTarget) (replies prepared : List (OutboundReply V)) :
    List (PortEvent V E) :=
  (replies.zip prepared).flatMap fun pair =>
    [⟨.prepareOutbound pair.1, .ok pair.2⟩, ⟨.deliver route pair.2, .ok ()⟩]

/-- The save that ends a complete run. -/
def saveTrace (route : RouteTarget) (data : Ref (Record V)) (updatedAt : Nat) :
    List (PortEvent V E) :=
  [⟨.save ⟨route.sessionKey, data, updatedAt⟩, .ok ()⟩]

/-- A complete run. -/
def fullTrace (message : IncomingChannelMessage V) (a : Answers V) : List (PortEvent V E) :=
  ⟨.tryHandle message, .ok false⟩ ::
  ⟨.classify message, .ok a.decision⟩ ::
  ⟨.resolve message, .ok a.route⟩ ::
  ⟨.load a.route.sessionKey, .ok a.session⟩ ::
  ⟨.resolveInbound message, .ok a.media⟩ ::
  ⟨.runTurn ⟨a.route, message, a.session⟩, .ok a.result⟩ ::
  (deliveryTrace a.route a.result.replies a.prepared ++ saveTrace a.route a.data a.updatedAt)

/-- How a run relates to the script: it ends after `tryHandle` when that returned true, after
`classify` when the kind is `ignore`, and otherwise at the end or at the first rejection. -/
inductive TraceLaw (message : IncomingChannelMessage V) (a : Answers V) :
    List (PortEvent V E) → Except E Unit → Prop
  | handled : TraceLaw message a [⟨.tryHandle message, .ok true⟩] (.ok ())
  | ignored (decision : InboundDecision) : decision.kind = .ignore →
      TraceLaw message a
        [⟨.tryHandle message, .ok false⟩, ⟨.classify message, .ok decision⟩] (.ok ())
  | responds {trace result} : Follows (fullTrace message a) trace result →
      TraceLaw message a trace result

/-- The `deliver` calls among some calls, with their target and reply. -/
def deliverCalls (calls : List (PortCall V)) : List (RouteTarget × OutboundReply V) :=
  calls.filterMap fun
    | .deliver target reply => some (target, reply)
    | _ => none

/-- The states passed to `save` among some calls. -/
def saveCalls (calls : List (PortCall V)) : List (SessionState V) :=
  calls.filterMap fun
    | .save state => some state
    | _ => none

/-- What holds of the calls made up to some moment of the run. -/
structure DeliveryLaw (a : Answers V) (calls : List (PortCall V)) : Prop where
  /-- Each `deliver` is for the next reply of the turn and takes its prepared image. -/
  inOrder : deliverCalls calls <+: a.prepared.map fun prepared => (a.route, prepared)
  /-- The session is saved at most once, under the session key of the route. -/
  savedOnce : saveCalls calls = [] ∨
    saveCalls calls = [⟨a.route.sessionKey, a.data, a.updatedAt⟩]
  /-- When it is saved, every reply has been delivered. -/
  savedLast : saveCalls calls ≠ [] →
    deliverCalls calls = a.prepared.map fun prepared => (a.route, prepared)

/-! ## Walking the script -/

/-- On both branches of `session?.data ?? {}` one data object reaches what follows. -/
theorem traces_dataOrEmpty {session : Option (Ref (SessionState V))}
    {k : Ref (Record V) → GatewayM V Unit} {trace : List (PortEvent V E)}
    {result : Except E Unit} (h : ((dataOrEmpty session).bind k).Traces trace result) :
    ∃ data, (k data).Traces trace result := by
  unfold dataOrEmpty at h
  rcases Prog.traces_read h with ⟨w, h⟩
  dsimp only at h
  cases found : session.bind w.sessions.read with
  | some st =>
      rw [found] at h
      exact ⟨st.data, h⟩
  | none =>
      rw [found] at h
      exact ⟨_, Prog.traces_write h⟩

theorem traces_saveSession {route : RouteTarget} {session : Option (Ref (SessionState V))}
    {trace : List (PortEvent V E)} {result : Except E Unit}
    (h : (saveSession route session).Traces trace result) :
    ∃ data updatedAt, Follows (saveTrace route data updatedAt) trace result := by
  rcases traces_dataOrEmpty h with ⟨data, stamped⟩
  rcases Prog.traces_read stamped with ⟨w, saves⟩
  refine ⟨data, w.now, ?_⟩
  rcases Prog.traces_await saves with ⟨v, rest, rfl, ended⟩ | ⟨e, rfl, rfl⟩
  · rcases Prog.traces_done ended with ⟨rfl, rfl⟩
    exact .settles .completed
  · exact .rejects

/-- The delivery loop goes along its script, and then the save. -/
theorem traces_deliverThenSave {route : RouteTarget}
    {session : Option (Ref (SessionState V))} {replies : List (OutboundReply V)}
    {trace : List (PortEvent V E)} {result : Except E Unit}
    (h : (deliverThenSave route session replies).Traces trace result) :
    ∃ prepared data updatedAt, prepared.length = replies.length ∧
      Follows (deliveryTrace route replies prepared ++ saveTrace route data updatedAt)
        trace result := by
  induction replies generalizing trace with
  | nil =>
      rcases traces_saveSession h with ⟨data, updatedAt, follows⟩
      exact ⟨[], data, updatedAt, rfl, follows⟩
  | cons reply replies ih =>
      rw [deliverThenSave_cons] at h
      rcases Prog.traces_await h with ⟨prepared, rest, rfl, delivers⟩ | ⟨e, rfl, rfl⟩
      · rcases Prog.traces_await delivers with ⟨v, rest, rfl, loops⟩ | ⟨e, rfl, rfl⟩
        · rcases ih loops with ⟨tail, data, updatedAt, length, follows⟩
          exact ⟨prepared :: tail, data, updatedAt, congrArg Nat.succ length,
            .settles (.settles follows)⟩
        · exact ⟨prepared :: replies, ⟨0⟩, 0, rfl, .settles .rejects⟩
      · exact ⟨reply :: replies, ⟨0⟩, 0, rfl, .rejects⟩

/-- Answers for the calls that a run did not get to. -/
def Answers.rest (decision : InboundDecision) (responds : decision.kind ≠ .ignore)
    (route : RouteTarget) (session : Option (Ref (SessionState V))) : Answers V :=
  ⟨decision, route, session, .undefined, ⟨[]⟩, [], ⟨0⟩, 0, responds, rfl⟩

theorem traces_afterLoad {message : IncomingChannelMessage V} {decision : InboundDecision}
    (responds : decision.kind ≠ .ignore) {route : RouteTarget}
    {session : Option (Ref (SessionState V))} {trace : List (PortEvent V E)}
    {result : Except E Unit} (h : (afterLoad message route session).Traces trace result) :
    ∃ a : Answers V, a.decision = decision ∧ a.route = route ∧ a.session = session ∧
      Follows ((fullTrace message a).drop 4) trace result := by
  rw [afterLoad_eq] at h
  rcases Prog.traces_await h with ⟨media, rest, rfl, turns⟩ | ⟨e, rfl, rfl⟩
  · rcases Prog.traces_await turns with ⟨turn, rest, rfl, delivers⟩ | ⟨e, rfl, rfl⟩
    · rcases traces_deliverThenSave delivers with ⟨prepared, data, updatedAt, length, follows⟩
      exact ⟨⟨decision, route, session, media, turn, prepared, data, updatedAt, responds, length⟩,
        rfl, rfl, rfl, .settles (.settles follows)⟩
    · exact ⟨⟨decision, route, session, media, ⟨[]⟩, [], ⟨0⟩, 0, responds, rfl⟩,
        rfl, rfl, rfl, .settles .rejects⟩
  · exact ⟨.rest decision responds route session, rfl, rfl, rfl, .rejects⟩

/-- Every trace of `handleInbound` obeys the law. -/
theorem traces_handleInbound {message : IncomingChannelMessage V}
    {trace : List (PortEvent V E)} {result : Except E Unit}
    (h : (handleInbound message).Traces trace result) :
    ∃ a : Answers V, TraceLaw message a trace result := by
  let respond : InboundDecision := ⟨.respond, none⟩
  let someRoute : RouteTarget := ⟨"", "", .agent⟩
  have responds : respond.kind ≠ .ignore := by decide
  rw [handleInbound_eq] at h
  rcases Prog.traces_await h with ⟨handled, rest, rfl, classifies⟩ | ⟨e, rfl, rfl⟩
  · cases handled with
    | true =>
        rcases Prog.traces_done classifies with ⟨rfl, rfl⟩
        exact ⟨.rest respond responds someRoute none, .handled⟩
    | false =>
        rcases Prog.traces_await classifies with ⟨decision, rest, rfl, routes⟩ | ⟨e, rfl, rfl⟩
        · unfold afterClassify at routes
          by_cases kind : decision.kind = .ignore
          · rw [if_pos kind] at routes
            rcases Prog.traces_done routes with ⟨rfl, rfl⟩
            exact ⟨.rest respond responds someRoute none, .ignored decision kind⟩
          · rw [if_neg kind] at routes
            rcases Prog.traces_await routes with ⟨route, rest, rfl, loads⟩ | ⟨e, rfl, rfl⟩
            · rcases Prog.traces_await loads with ⟨session, rest, rfl, turns⟩ | ⟨e, rfl, rfl⟩
              · rcases traces_afterLoad kind turns with ⟨a, rfl, rfl, rfl, follows⟩
                exact ⟨a, .responds (.settles (.settles (.settles (.settles follows))))⟩
              · exact ⟨.rest decision kind route none,
                  .responds (.settles (.settles (.settles .rejects)))⟩
            · exact ⟨.rest decision kind someRoute none,
                .responds (.settles (.settles .rejects))⟩
        · exact ⟨.rest respond responds someRoute none, .responds (.settles .rejects)⟩
  · exact ⟨.rest respond responds someRoute none, .responds .rejects⟩

/-! ## Deliveries and saves along the script -/

theorem TraceLaw.calls_prefix {message : IncomingChannelMessage V} {a : Answers V}
    {trace : List (PortEvent V E)} {result : Except E Unit}
    (law : TraceLaw message a trace result) :
    trace.map Event.call <+: (fullTrace (E := E) message a).map Event.call := by
  cases law with
  | handled => exact List.cons_prefix_cons.mpr ⟨rfl, List.nil_prefix⟩
  | ignored decision _ =>
      exact List.cons_prefix_cons.mpr ⟨rfl, List.cons_prefix_cons.mpr ⟨rfl, List.nil_prefix⟩⟩
  | responds follows => exact follows.calls_prefix

theorem deliverCalls_deliveryTrace (route : RouteTarget)
    {replies prepared : List (OutboundReply V)} (length : prepared.length = replies.length) :
    deliverCalls ((deliveryTrace (E := E) route replies prepared).map Event.call) =
      prepared.map fun p => (route, p) := by
  induction replies generalizing prepared with
  | nil => rw [List.length_eq_zero_iff.mp length]; rfl
  | cons reply replies ih =>
      cases prepared with
      | nil => cases length
      | cons p prepared => exact congrArg (List.cons (route, p)) (ih (Nat.succ.inj length))

theorem saveCalls_deliveryTrace (route : RouteTarget)
    (replies prepared : List (OutboundReply V)) :
    saveCalls ((deliveryTrace (E := E) route replies prepared).map Event.call) = [] := by
  induction replies generalizing prepared with
  | nil => rfl
  | cons reply replies ih =>
      cases prepared with
      | nil => rfl
      | cons p prepared => exact ih prepared

section Script

variable (message : IncomingChannelMessage V) (a : Answers V)

/-- The calls of the script: all but the last one, and the save. -/
theorem calls_fullTrace :
    ∃ front, (fullTrace (E := E) message a).map Event.call =
        front ++ [PortCall.save ⟨a.route.sessionKey, a.data, a.updatedAt⟩] ∧
      deliverCalls front = (a.prepared.map fun p => (a.route, p)) ∧ saveCalls front = [] := by
  have delivered := deliverCalls_deliveryTrace (E := E) a.route a.prepared_length
  have unsaved := saveCalls_deliveryTrace (E := E) a.route a.result.replies a.prepared
  refine ⟨PortCall.tryHandle message :: .classify message :: .resolve message ::
    .load a.route.sessionKey :: .resolveInbound message ::
    .runTurn ⟨a.route, message, a.session⟩ ::
    (deliveryTrace (E := E) a.route a.result.replies a.prepared).map Event.call, ?_, ?_, ?_⟩
  · simp [fullTrace, saveTrace]
  · exact delivered
  · exact unsaved

end Script

/-- The law of the deliveries for calls that are a prefix of the script's calls. -/
theorem deliveryLaw_of_prefix {message : IncomingChannelMessage V} {a : Answers V}
    {calls : List (PortCall V)}
    (isPrefix : calls <+: (fullTrace (E := E) message a).map Event.call) :
    DeliveryLaw a calls := by
  rcases calls_fullTrace (E := E) message a with ⟨front, script, delivered, unsaved⟩
  rw [script] at isPrefix
  rcases List.prefix_concat_iff.mp isPrefix with rfl | before
  · -- the whole script
    have all : deliverCalls (front ++ [PortCall.save ⟨a.route.sessionKey, a.data, a.updatedAt⟩]) =
        a.prepared.map fun p => (a.route, p) := by
      rw [← delivered]
      simp [deliverCalls]
    have once : saveCalls (front ++ [PortCall.save ⟨a.route.sessionKey, a.data, a.updatedAt⟩]) =
        [⟨a.route.sessionKey, a.data, a.updatedAt⟩] := by
      rw [saveCalls, List.filterMap_append, ← saveCalls, unsaved]
      rfl
    exact ⟨all ▸ List.prefix_refl _, Or.inr once, fun _ => all⟩
  · -- before the save
    have none : saveCalls calls = [] :=
      List.prefix_nil.mp (unsaved ▸ before.filterMap _)
    exact ⟨delivered ▸ before.filterMap _, Or.inl none, fun saved => absurd none saved⟩

/-- Every run of `handleInbound`, whatever the ports answer, goes along the script and leaves it
only where the law says; at every moment of the run the deliveries so far are the prepared
images of the first replies, in order, and a save has all of them behind it. -/
theorem handleInbound_traceLaw (ports : Prog.Ports (World V) τ (PortCall V) PortCall.Result E)
    (t : τ) (w : World V) (message : IncomingChannelMessage V) :
    let out := (handleInbound message).run ports t w
    ∃ a : Answers V, TraceLaw message a out.trace out.result ∧
      ∀ done, done <+: out.trace → DeliveryLaw a (done.map Event.call) := by
  intro out
  rcases traces_handleInbound ((handleInbound message).run_traces t w) with ⟨a, law⟩
  refine ⟨a, law, fun done isPrefix => ?_⟩
  exact deliveryLaw_of_prefix ((isPrefix.map Event.call).trans law.calls_prefix)

end NestifyClaw.Gateway
