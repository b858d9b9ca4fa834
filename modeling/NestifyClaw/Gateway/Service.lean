import NestifyClaw.Gateway.Models

/-!
# GatewayService

`handleInbound`, statement by statement.  The equations after it name the program that is left
at each await of the function (`afterLoad`, `deliverReplies`, `saveSession`), which is how the
other modules walk through it.
-/

namespace NestifyClaw.Gateway

open Await

variable {V : Type}

namespace GatewayService

/-- `session?.data ?? {}` -/
def dataOrEmpty (session : Option (Ref (SessionState V))) : GatewayM V (Ref (Record V)) :=
  .read fun w =>
    match session.bind w.sessions.read with
    | some st => .done st.data
    | none =>
        let fresh := w.records.alloc Record.empty
        .write { w with records := fresh.2 } (.done fresh.1)

/-- `Date.now()` -/
def dateNow : GatewayM V Nat := .read fun w => .done w.now

def tryHandle (message : IncomingChannelMessage V) : GatewayM V Bool :=
  Prog.call (PortCall.tryHandle message)

def classify (message : IncomingChannelMessage V) : GatewayM V InboundDecision :=
  Prog.call (PortCall.classify message)

def resolve (message : IncomingChannelMessage V) : GatewayM V RouteTarget :=
  Prog.call (PortCall.resolve message)

def load (sessionKey : String) : GatewayM V (Option (Ref (SessionState V))) :=
  Prog.call (PortCall.load sessionKey)

def resolveInbound (message : IncomingChannelMessage V) : GatewayM V (Unknown V) :=
  Prog.call (PortCall.resolveInbound message)

def runTurn (input : TurnInput V) : GatewayM V (TurnResult V) :=
  Prog.call (PortCall.runTurn input)

def prepareOutbound (reply : OutboundReply V) : GatewayM V (OutboundReply V) :=
  Prog.call (PortCall.prepareOutbound reply)

def deliver (target : RouteTarget) (reply : OutboundReply V) : GatewayM V Unit :=
  Prog.call (PortCall.deliver target reply)

def save (state : SessionState V) : GatewayM V Unit := Prog.call (PortCall.save state)

/-- The `for` loop over the turn's replies. -/
def deliverReplies (route : RouteTarget) (replies : List (OutboundReply V)) : GatewayM V Unit :=
  replies.forM fun reply => do
    let prepared ← prepareOutbound reply
    deliver route prepared

/-- The trailing save. -/
def saveSession (route : RouteTarget) (session : Option (Ref (SessionState V))) :
    GatewayM V Unit := do
  let data ← dataOrEmpty session
  let updatedAt ← dateNow
  save { sessionKey := route.sessionKey, data, updatedAt }

def handleInbound (message : IncomingChannelMessage V) : GatewayM V Unit := do
  if ← tryHandle message then
    return
  let decision ← classify message
  if decision.kind = .ignore then
    return
  let route ← resolve message
  let session ← load route.sessionKey
  let _ ← resolveInbound message
  let result ← runTurn { route, message, session }
  deliverReplies route result.replies
  saveSession route session

/-! ## What is left at each await -/

/-- The replies still to deliver, and then the save. -/
def deliverThenSave (route : RouteTarget) (session : Option (Ref (SessionState V)))
    (replies : List (OutboundReply V)) : GatewayM V Unit := do
  deliverReplies route replies
  saveSession route session

/-- What follows `sessions.load`. -/
def afterLoad (message : IncomingChannelMessage V) (route : RouteTarget)
    (session : Option (Ref (SessionState V))) : GatewayM V Unit := do
  let _ ← resolveInbound message
  let result ← runTurn { route, message, session }
  deliverThenSave route session result.replies

/-- What follows `inbound.classify`. -/
def afterClassify (message : IncomingChannelMessage V) (decision : InboundDecision) :
    GatewayM V Unit :=
  if decision.kind = .ignore then .done ()
  else .await (.resolve message) fun route =>
    .await (.load route.sessionKey) fun session => afterLoad message route session

theorem handleInbound_eq (message : IncomingChannelMessage V) :
    handleInbound message =
      .await (.tryHandle message) fun (handled : Bool) =>
        if handled = true then .done ()
        else .await (.classify message) fun decision => afterClassify message decision := rfl

theorem afterLoad_eq (message : IncomingChannelMessage V) (route : RouteTarget)
    (session : Option (Ref (SessionState V))) :
    afterLoad message route session =
      .await (.resolveInbound message) fun _ =>
        .await (.runTurn { route, message, session }) fun result =>
          deliverThenSave route session result.replies := rfl

theorem deliverThenSave_nil (route : RouteTarget) (session : Option (Ref (SessionState V))) :
    deliverThenSave route session [] = saveSession route session := rfl

theorem deliverThenSave_cons (route : RouteTarget) (session : Option (Ref (SessionState V)))
    (reply : OutboundReply V) (replies : List (OutboundReply V)) :
    deliverThenSave route session (reply :: replies) =
      .await (.prepareOutbound reply) fun prepared =>
        .await (.deliver route prepared) fun _ => deliverThenSave route session replies := rfl

/-- The state that the trailing save passes on in a world, and the world it does so from. -/
def trailingSave (route : RouteTarget) (session : Option (Ref (SessionState V)))
    (w : World V) : SessionState V × World V :=
  match session.bind w.sessions.read with
  | some st => ({ sessionKey := route.sessionKey, data := st.data, updatedAt := w.now }, w)
  | none =>
      let fresh := w.records.alloc Record.empty
      ({ sessionKey := route.sessionKey, data := fresh.1, updatedAt := w.now },
        { w with records := fresh.2 })

theorem advance_saveSession (route : RouteTarget) (session : Option (Ref (SessionState V)))
    (w : World V) :
    (saveSession route session).advance w =
      ((trailingSave route session w).2,
        .waiting (.save (trailingSave route session w).1) .done) := by
  change Prog.advance (Prog.bind (dataOrEmpty session) _) w = _
  unfold dataOrEmpty trailingSave
  simp only [Prog.bind, Prog.advance]
  cases session.bind w.sessions.read <;> rfl

end GatewayService

end NestifyClaw.Gateway
