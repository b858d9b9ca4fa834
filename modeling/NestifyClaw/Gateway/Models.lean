import NestifyClaw.Await
import NestifyClaw.Heap
import NestifyClaw.Gateway.StateStore

/-!
# Domain types, ports and stores of the gateway

The types of `common/types`, the calls of the seven pipeline ports, and the two services behind
the session port.  Session objects and their `data` records are objects with identity: they live
in the two heaps of a `World`, `StateStoreService.get` hands out the stored object itself, and
`SessionsService.save` stores a new object that shares the `data` of the one it is given.

`V` stands for the values the gateway never looks into (`unknown`).
-/

namespace NestifyClaw.Gateway

open Await

structure IncomingChannelMessage (V : Type) where
  channel : String
  chatId : String
  senderName : Option String
  senderId : Option String
  text : Option String
  raw : Unknown V
  deriving DecidableEq, Repr

inductive InboundDecisionKind
  | respond
  | ignore
  | command
  deriving DecidableEq, Repr

structure InboundDecision where
  kind : InboundDecisionKind
  reason : Option String
  deriving DecidableEq, Repr

inductive RouteTargetKind
  | agent
  | subagent
  | acp
  deriving DecidableEq, Repr

structure RouteTarget where
  agentId : String
  sessionKey : String
  targetKind : RouteTargetKind
  deriving DecidableEq, Repr

/-- `Record<string, unknown>`: the own entries of a plain object. -/
def Record (V : Type) := String → Option (Unknown V)

namespace Record

variable {V : Type}

/-- `{}` -/
def empty : Record V := fun _ => none

/-- `record[key] = value`, or `delete record[key]` for `none`. -/
def put (r : Record V) (key : String) (value : Option (Unknown V)) : Record V :=
  fun k => if k = key then value else r k

end Record

/-- A persisted session; `data` is the identity of its record. -/
structure SessionState (V : Type) where
  sessionKey : String
  data : Ref (Record V)
  updatedAt : Nat
  deriving DecidableEq

structure OutboundReply (V : Type) where
  text : Option String
  media : Unknown V
  deriving DecidableEq, Repr

structure TurnInput (V : Type) where
  route : RouteTarget
  message : IncomingChannelMessage V
  session : Option (Ref (SessionState V))
  deriving DecidableEq

structure TurnResult (V : Type) where
  replies : List (OutboundReply V)
  deriving DecidableEq

/-! ## The ports -/

/-- A call of one of the seven pipeline ports. -/
inductive PortCall (V : Type)
  | tryHandle (message : IncomingChannelMessage V)
  | classify (message : IncomingChannelMessage V)
  | resolve (message : IncomingChannelMessage V)
  | load (sessionKey : String)
  | resolveInbound (message : IncomingChannelMessage V)
  | runTurn (input : TurnInput V)
  | prepareOutbound (reply : OutboundReply V)
  | deliver (target : RouteTarget) (reply : OutboundReply V)
  | save (state : SessionState V)
  deriving DecidableEq

variable {V : Type}

/-- What the call's promise resolves to. -/
def PortCall.Result : PortCall V → Type
  | .tryHandle _ => Bool
  | .classify _ => InboundDecision
  | .resolve _ => RouteTarget
  | .load _ => Option (Ref (SessionState V))
  | .resolveInbound _ => Unknown V
  | .runTurn _ => TurnResult V
  | .prepareOutbound _ => OutboundReply V
  | .deliver _ _ => Unit
  | .save _ => Unit

/-- The objects the gateway and its stores share, and the clock. -/
structure World (V : Type) where
  state : StateStoreService (Ref (SessionState V))
  sessions : Heap (SessionState V)
  records : Heap (Record V)
  now : Nat

/-- Right after start-up. -/
def World.new (now : Nat) : World V := ⟨.new, ⟨[]⟩, ⟨[]⟩, now⟩

/-- An asynchronous function of the gateway. -/
abbrev GatewayM (V : Type) := Prog (World V) (PortCall V) PortCall.Result

abbrev PortEvent (V ε : Type) := Event (PortCall V) PortCall.Result ε

/-! ## SessionsService -/

namespace SessionsService

def SESSIONS_NAMESPACE : String := "sessions"

/-- `load`: the stored object itself. -/
def load (w : World V) (sessionKey : String) : Option (Ref (SessionState V)) :=
  w.state.get SESSIONS_NAMESPACE sessionKey

/-- `save`: a new object with the top-level entries of `stateToSave`. -/
def save (w : World V) (stateToSave : SessionState V) : World V :=
  let stored := w.sessions.alloc { stateToSave with updatedAt := w.now }
  { w with
    sessions := stored.2
    state := w.state.set SESSIONS_NAMESPACE stateToSave.sessionKey (.value stored.1) }

/-- After a save the key holds the new object, every other key what it held before. -/
theorem load_save (w : World V) (st : SessionState V) (key : String) :
    load (save w st) key =
      if key = st.sessionKey then some (w.sessions.alloc { st with updatedAt := w.now }).1
      else load w key := by
  simp only [load, save, StateStoreService.get_set, StateStoreService.compositeKey_left_inj]
  rfl

/-- The object that a save stores. -/
def saved (w : World V) : Ref (SessionState V) := ⟨w.sessions.cells.length⟩

theorem read_save_new (w : World V) (st : SessionState V) :
    (save w st).sessions.read (w.sessions.alloc { st with updatedAt := w.now }).1 =
      some { st with updatedAt := w.now } :=
  Heap.read_alloc_new _ _

/-- Saving leaves every existing session object as it was. -/
theorem read_save {w : World V} {s : Ref (SessionState V)} (valid : w.sessions.Valid s)
    (st : SessionState V) : (save w st).sessions.read s = w.sessions.read s :=
  Heap.read_alloc valid _

end SessionsService

namespace World

/-- The state of the session stored under a key. -/
def storedSession (w : World V) (key : String) : Option (SessionState V) :=
  (SessionsService.load w key).bind w.sessions.read

/-- Its `data` object. -/
def storedData (w : World V) (key : String) : Option (Ref (Record V)) :=
  (w.storedSession key).map SessionState.data

/-- The session object stored under a key, with its `data` object. -/
def found (w : World V) (key : String) : Option (Ref (SessionState V) × Ref (Record V)) :=
  (SessionsService.load w key).bind fun s =>
    (w.sessions.read s).map fun st => (s, st.data)

theorem storedData_eq (w : World V) (key : String) :
    w.storedData key = (w.found key).map Prod.snd := by
  unfold storedData storedSession found
  cases SessionsService.load w key with
  | none => rfl
  | some s => cases h : w.sessions.read s <;> simp [h]

/-- The content of that object. -/
def sessionData (w : World V) (key : String) : Option (Record V) :=
  (w.storedData key).bind w.records.read

end World

/-! ## RoutingService -/

namespace RoutingService

def DEFAULT_AGENT_ID : String := "main"

def resolve (message : IncomingChannelMessage V) : RouteTarget :=
  let agentId := DEFAULT_AGENT_ID
  { agentId
    sessionKey := "agent:" ++ agentId ++ ":" ++ message.channel ++ ":" ++ message.chatId
    targetKind := .agent }

end RoutingService

end NestifyClaw.Gateway
