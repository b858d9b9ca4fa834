import NestifyClaw.Transition

/-!
# The WhatsApp channel service

`WhatsappChannelService` as a labelled step on its own fields together with what baileys and
the event loop hold for it: the sockets ever created and the `connect()` calls suspended at
one of their two awaits.  `start`, `stop`, `connect` and the `connection.update` handler are
the source's functions; `Event` lists what the event loop can do next.

Of baileys only this is used: `makeWASocket` returns a live socket, a socket stops being live
when `end()` is called on it or when it reports `close`, and it reports `close` at most once,
possibly after `end()`.
-/

namespace NestifyClaw.Whatsapp

abbrev SocketId := Nat
abbrev ConnectId := Nat

inductive SocketStatus
  | live
  /-- `end()` was called, `close` is not reported yet. -/
  | ended
  | closed
  deriving DecidableEq, Repr

/-- The await of `connect()` at which a call is suspended. -/
inductive ConnectStage
  | loadBaileys
  | useMultiFileAuthState
  deriving DecidableEq, Repr

structure PendingConnect where
  id : ConnectId
  stage : ConnectStage
  deriving DecidableEq, Repr

inductive Connection
  | connecting
  | opened
  | close
  deriving DecidableEq, Repr

/-- Status codes as `DisconnectReason` tells them apart here. -/
inductive DisconnectReason
  | loggedOut
  | other (statusCode : Nat)
  deriving DecidableEq, Repr

/-- The part of a `connection.update` event that the handler reads; `statusCode` is
`lastDisconnect?.error?.output?.statusCode`. -/
structure ConnectionUpdate where
  connection : Option Connection
  statusCode : Option DisconnectReason
  qr : Option String
  deriving DecidableEq, Repr

def ConnectionUpdate.closes (update : ConnectionUpdate) : Bool :=
  update.connection == some .close

def ConnectionUpdate.loggedOut (update : ConnectionUpdate) : Bool :=
  update.statusCode == some .loggedOut

structure State where
  sock : Option SocketId
  stopping : Bool
  /-- `this.baileys` is set. -/
  baileys : Bool
  /-- Every socket ever created; a `SocketId` is a position in this list. -/
  sockets : List SocketStatus
  connects : List PendingConnect
  nextConnect : ConnectId
  deriving DecidableEq, Repr

/-- A new service. -/
def State.init : State := ⟨none, false, false, [], [], 0⟩

def State.liveCount (s : State) : Nat := s.sockets.count .live

/-! ## The service's functions -/

/-- `connect()` up to its first await. -/
def connect (s : State) : State :=
  { s with
    connects := s.connects ++ [⟨s.nextConnect, .loadBaileys⟩]
    nextConnect := s.nextConnect + 1 }

/-- `start()` under the given `process.env.WHATSAPP_ENABLED`. -/
def start (WHATSAPP_ENABLED : Option String) (s : State) : State :=
  if WHATSAPP_ENABLED ≠ some "true" then s
  else connect { s with stopping := false }

/-- `sock.end(undefined)`: a live socket is live no more, the others are as before. -/
def endSocket (sockets : List SocketStatus) (j : SocketId) : List SocketStatus :=
  sockets.modify j fun status => if status = .live then .ended else status

def stop (s : State) : State :=
  { s with
    stopping := true
    sockets := match s.sock with
      | some j => endSocket s.sockets j
      | none => s.sockets
    sock := none }

def dropConnect (c : ConnectId) (s : State) : State :=
  { s with connects := s.connects.filter (·.id ≠ c) }

/-- The suspended `connect()` goes on from the await it is at. -/
def resumeConnect (s : State) (pending : PendingConnect) : State :=
  match pending.stage with
  | .loadBaileys =>
      { s with
        baileys := true
        connects := s.connects.map fun p =>
          if p.id = pending.id then { p with stage := .useMultiFileAuthState } else p }
  | .useMultiFileAuthState =>
      -- makeWASocket and `this.sock = sock` run without an await between them
      dropConnect pending.id
        { s with sockets := s.sockets ++ [.live], sock := some s.sockets.length }

/-- The handler of `connection.update`, the same closure for every socket. -/
def onConnectionUpdate (update : ConnectionUpdate) (s : State) : State :=
  if update.closes then
    if update.loggedOut then s
    else if !s.stopping then connect s
    else s
  else s

/-! ## What the event loop can do -/

inductive Event
  | start
  | stop
  /-- The promise that the pending `connect()` waits for is fulfilled. -/
  | resume (c : ConnectId)
  /-- That promise rejects, and the `connect()` call with it. -/
  | reject (c : ConnectId)
  | update (j : SocketId) (update : ConnectionUpdate)
  deriving DecidableEq, Repr

def step (s : State) : Event → Option State
  | .start => some (Whatsapp.start (some "true") s)
  | .stop => some (Whatsapp.stop s)
  | .resume c => (s.connects.find? (·.id = c)).map (resumeConnect s)
  | .reject c => if s.connects.any (·.id = c) then some (dropConnect c s) else none
  | .update j update =>
      match s.sockets[j]? with
      | none => none
      | some status =>
          if update.closes then
            -- `close` is reported at most once
            if status = .closed then none
            else some (onConnectionUpdate update { s with sockets := s.sockets.set j .closed })
          else some (onConnectionUpdate update s)

/-! ## What one step does -/

@[simp] theorem start_enabled (s : State) :
    start (some "true") s = connect { s with stopping := false } := by
  simp [start]

@[simp] theorem stop_connects (s : State) : (stop s).connects = s.connects := rfl

@[simp] theorem connect_sockets (s : State) : (connect s).sockets = s.sockets := rfl

@[simp] theorem connect_connects (s : State) :
    (connect s).connects = s.connects ++ [⟨s.nextConnect, .loadBaileys⟩] := rfl

/-- `end()` on one socket leaves every other socket as it was. -/
theorem endSocket_ne {sockets : List SocketStatus} {i j : SocketId} (ne : i ≠ j) :
    (endSocket sockets j)[i]? = sockets[i]? := by
  rw [endSocket, List.getElem?_modify]
  simp only [if_neg ne.symm]
  exact id_map' _

/-- After `end()` the socket is not live. -/
theorem endSocket_self {sockets : List SocketStatus} {j : SocketId} :
    (endSocket sockets j)[j]? ≠ some .live := by
  rw [endSocket, List.getElem?_modify]
  cases sockets[j]? with
  | none => simp
  | some status => cases status <;> simp

/-- A suspended `connect()` either passes its first await, or creates the next socket. -/
theorem step_resume {s t : State} {c : ConnectId} (h : step s (.resume c) = some t) :
    ∃ p ∈ s.connects, p.id = c ∧
      (p.stage = .loadBaileys ∧
        t = { s with
              baileys := true
              connects := s.connects.map fun q =>
                if q.id = c then { q with stage := .useMultiFileAuthState } else q } ∨
       p.stage = .useMultiFileAuthState ∧
        t = dropConnect c
          { s with sockets := s.sockets ++ [.live], sock := some s.sockets.length }) := by
  obtain ⟨p, found, rfl⟩ := Option.map_eq_some_iff.mp h
  have idEq : p.id = c := by simpa using List.find?_some found
  refine ⟨p, List.mem_of_find?_eq_some found, idEq, ?_⟩
  subst idEq
  cases stage : p.stage with
  | loadBaileys => exact Or.inl ⟨rfl, by simp [resumeConnect, stage]⟩
  | useMultiFileAuthState => exact Or.inr ⟨rfl, by simp [resumeConnect, stage]⟩

theorem step_reject {s t : State} {c : ConnectId} (h : step s (.reject c) = some t) :
    (∃ p ∈ s.connects, p.id = c) ∧ t = dropConnect c s := by
  rw [step] at h
  split at h
  · rename_i pending
    exact ⟨by simpa using pending, (Option.some.inj h).symm⟩
  · cases h

/-- A socket's event changes nothing, or it is its one `close`: then the socket is closed,
and a new `connect()` begins unless the close was a logout or the service is stopping. -/
theorem step_update {s t : State} {j : SocketId} {update : ConnectionUpdate}
    (h : step s (.update j update) = some t) :
    (update.closes = false ∧ t = s) ∨
      (update.closes = true ∧
        (s.sockets[j]? = some .live ∨ s.sockets[j]? = some .ended) ∧
        t = if update.loggedOut = false ∧ s.stopping = false
            then connect { s with sockets := s.sockets.set j .closed }
            else { s with sockets := s.sockets.set j .closed }) := by
  simp only [step] at h
  cases atJ : s.sockets[j]? with
  | none => simp [atJ] at h
  | some status =>
      simp only [atJ] at h
      cases closes : update.closes with
      | false =>
          left
          simpa [closes, onConnectionUpdate, eq_comm] using h
      | true =>
          right
          simp only [closes, if_true] at h
          cases status with
          | closed => simp at h
          | live =>
              refine ⟨rfl, Or.inl rfl, ?_⟩
              cases out : update.loggedOut <;> cases stopping : s.stopping <;>
                simpa [onConnectionUpdate, closes, out, stopping, eq_comm] using h
          | ended =>
              refine ⟨rfl, Or.inr rfl, ?_⟩
              cases out : update.loggedOut <;> cases stopping : s.stopping <;>
                simpa [onConnectionUpdate, closes, out, stopping, eq_comm] using h

end NestifyClaw.Whatsapp
