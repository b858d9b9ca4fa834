import NestifyClaw.Connectors.Whatsapp

/-!
# One WhatsApp connection at a time

While the service is meant to be up, live sockets and `connect()` calls in progress should add
up to one.  `Watched` pairs the service with an observer of its events that knows when this is
asked for: from a `start()` call on, until a `stop()` call, until that very call rejects, or
until a socket reports `loggedOut`.

Every socket shares one close handler, so three kinds of event break the sum: a `start()` on
top of a connection, the late `close` of a socket that was already ended, and a reconnect whose
`connect()` rejects.  `exactlyOne_iff` says that these are the only ones: a run keeps the sum
at one precisely if none of its steps is of these kinds.
-/

namespace NestifyClaw.Whatsapp

open Transition

/-- The service and, while a connection is owed, the `connect()` call of the `start()` that
asked for it. -/
structure Watched where
  state : State
  current : Option ConnectId
  deriving DecidableEq, Repr

def Watched.init : Watched := ⟨State.init, none⟩

/-- The observer: which `start()` call, if any, is in force after the event. -/
def observe (w : Watched) : Event → Option ConnectId
  | .start => some w.state.nextConnect
  | .stop => none
  | .resume _ => w.current
  | .reject c => if w.current = some c then none else w.current
  | .update _ update => if update.closes ∧ update.loggedOut then none else w.current

def Watched.step (w : Watched) (e : Event) : Option Watched :=
  (Whatsapp.step w.state e).map fun s => ⟨s, observe w e⟩

/-- Live sockets and `connect()` calls in progress. -/
def State.connections (s : State) : Nat := s.liveCount + s.connects.length

/-- While a `start()` call is in force there is exactly one connection. -/
def ExactlyOne (w : Watched) : Prop := w.current.isSome → w.state.connections = 1

instance : DecidablePred ExactlyOne := fun w =>
  inferInstanceAs (Decidable (w.current.isSome → w.state.connections = 1))

/-- The step is none of the three kinds that the service does not guard against. -/
def Undisturbed (w : Watched) : Event → Prop
  -- start() while a socket is live or a connect() is in progress
  | .start => w.state.connections = 0
  -- a reconnect that rejects: only the connect() awaited by start() itself may
  | .reject c => w.current = none ∨ w.current = some c
  -- the close of a socket that end() was already called on
  | .update j update =>
      w.current.isSome → update.closes → update.loggedOut = false →
        w.state.sockets[j]? = some .live
  | .stop => True
  | .resume _ => True

instance (w : Watched) (e : Event) : Decidable (Undisturbed w e) := by
  cases e <;> unfold Undisturbed <;> infer_instance

/-- A `start()` call in force means that `stopping` is down. -/
def NotStopping (w : Watched) : Prop := w.current.isSome → w.state.stopping = false

theorem watched_step {w w' : Watched} {e : Event} (h : w.step e = some w') :
    step w.state e = some w'.state ∧ w'.current = observe w e := by
  rcases Option.map_eq_some_iff.mp h with ⟨s, stepped, rfl⟩
  exact ⟨stepped, rfl⟩

/-! ## How one step changes the sum -/

theorem connections_connect (s : State) :
    (connect s).connections = s.connections + 1 := by
  simp only [State.connections, State.liveCount, connect_sockets, connect_connects,
    List.length_append, List.length_singleton]
  omega

/-- Of a single `connect()` in progress, dropping it leaves none. -/
theorem length_dropConnect {s : State} {c : ConnectId} (pending : ∃ p ∈ s.connects, p.id = c)
    (atMostOne : s.connects.length ≤ 1) : (dropConnect c s).connects.length = 0 := by
  rcases pending with ⟨p, member, rfl⟩
  have only : s.connects = [p] := by
    cases connects : s.connects with
    | nil => simp [connects] at member
    | cons q rest =>
        have : rest = [] := by
          rw [connects, List.length_cons] at atMostOne
          exact List.length_eq_zero_iff.mp (by omega)
        subst this
        rw [connects, List.mem_singleton] at member
        rw [member]
  simp [dropConnect, only]

theorem liveCount_snoc_live (s : State) :
    (s.sockets ++ [SocketStatus.live]).count .live = s.liveCount + 1 := by
  simp [State.liveCount]

/-- A resumed `connect()` is exchanged for the socket it creates. -/
theorem connections_resume {s t : State} {c : ConnectId} (h : step s (.resume c) = some t)
    (one : s.connections = 1) : t.connections = 1 := by
  rcases step_resume h with ⟨p, member, idEq, ⟨-, rfl⟩ | ⟨-, rfl⟩⟩
  · simpa [State.connections, State.liveCount] using one
  · have positive : 0 < s.connects.length := List.length_pos_of_mem member
    have atMostOne : s.connects.length ≤ 1 := by
      simp only [State.connections] at one
      omega
    have dropped : (dropConnect c s).connects.length = 0 :=
      length_dropConnect ⟨p, member, idEq⟩ atMostOne
    have noneLive : s.liveCount = 0 := by
      simp only [State.connections] at one
      omega
    change (s.sockets ++ [SocketStatus.live]).count .live + (dropConnect c s).connects.length = 1
    rw [liveCount_snoc_live, noneLive, dropped]

/-- A rejected `connect()` was the one connection. -/
theorem connections_reject {s t : State} {c : ConnectId} (h : step s (.reject c) = some t)
    (one : s.connections = 1) : t.connections = 0 := by
  rcases step_reject h with ⟨pending, rfl⟩
  have positive : 0 < s.connects.length := by
    rcases pending with ⟨p, member, -⟩
    exact List.length_pos_of_mem member
  simp only [State.connections] at one
  have dropped := length_dropConnect pending (by omega)
  have noneLive : s.liveCount = 0 := by omega
  simp only [State.connections, dropped, Nat.add_zero]
  exact noneLive

/-- Closing a live socket takes one off the live ones. -/
theorem liveCount_set_of_live {sockets : List SocketStatus} {j : SocketId}
    (live : sockets[j]? = some .live) :
    (sockets.set j .closed).count .live + 1 = sockets.count .live := by
  rcases List.getElem?_eq_some_iff.mp live with ⟨inRange, isLive⟩
  have counted : 0 < sockets.count .live :=
    List.count_pos_iff.mpr (isLive ▸ List.getElem_mem inRange)
  rw [List.count_set inRange, isLive]
  simp only [beq_self_eq_true, if_true, reduceCtorEq, beq_iff_eq, if_false]
  omega

/-- Closing an ended socket does not change how many are live. -/
theorem liveCount_set_of_ended {sockets : List SocketStatus} {j : SocketId}
    (ended : sockets[j]? = some .ended) :
    (sockets.set j .closed).count .live = sockets.count .live := by
  rcases List.getElem?_eq_some_iff.mp ended with ⟨inRange, isEnded⟩
  rw [List.count_set inRange, isEnded]
  simp

/-- A reconnect replaces a live socket, and adds to the sum when the socket was ended. -/
theorem connections_reconnect {s : State} {j : SocketId}
    (open_ : s.sockets[j]? = some .live ∨ s.sockets[j]? = some .ended) :
    (connect { s with sockets := s.sockets.set j .closed }).connections = s.connections ↔
      s.sockets[j]? = some .live := by
  rw [connections_connect]
  simp only [State.connections, State.liveCount]
  rcases open_ with live | ended
  · have counted := liveCount_set_of_live live
    exact iff_of_true (by omega) live
  · rw [liveCount_set_of_ended ended, ended]
    exact iff_of_false (by omega) (by simp)

/-! ## One step, exactly -/

theorem NotStopping.step {w w' : Watched} {e : Event} (inv : NotStopping w)
    (h : w.step e = some w') : NotStopping w' := by
  rcases watched_step h with ⟨stepped, observed⟩
  intro inForce
  rw [observed] at inForce
  cases e with
  | start =>
      rw [← Option.some.inj stepped, start_enabled]
      rfl
  | stop => cases inForce
  | resume c =>
      rcases step_resume stepped with ⟨-, -, -, ⟨-, eq⟩ | ⟨-, eq⟩⟩ <;> rw [eq] <;>
        exact inv inForce
  | reject c =>
      rw [(step_reject stepped).2]
      simp only [observe] at inForce
      split at inForce
      · cases inForce
      · exact inv inForce
  | update j update =>
      have before : w.state.stopping = false := by
        simp only [observe] at inForce
        split at inForce
        · cases inForce
        · exact inv inForce
      rcases step_update stepped with ⟨-, eq⟩ | ⟨-, -, eq⟩
      · rw [eq, before]
      · rw [eq]
        split <;> exact before

/-- From a good state a step leads to a good state precisely when it is undisturbed. -/
theorem exactlyOne_step {w w' : Watched} {e : Event} (inv : NotStopping w)
    (good : ExactlyOne w) (h : w.step e = some w') : ExactlyOne w' ↔ Undisturbed w e := by
  rcases watched_step h with ⟨stepped, observed⟩
  rw [ExactlyOne, observed]
  cases e with
  | start =>
      have adds : w'.state.connections = w.state.connections + 1 := by
        rw [← Option.some.inj stepped, start_enabled, connections_connect]
        rfl
      simp only [observe, Option.isSome_some, true_imp_iff, Undisturbed]
      omega
  | stop => simp [observe, Undisturbed]
  | resume c =>
      refine iff_of_true (fun inForce => ?_) trivial
      exact connections_resume stepped (good inForce)
  | reject c =>
      simp only [observe, Undisturbed]
      cases current : w.current with
      | none => simp
      | some own =>
          have one : w.state.connections = 1 := good (by rw [current]; rfl)
          have gone := connections_reject stepped one
          by_cases eq : own = c
          · simp [eq]
          · simp [eq, gone]
  | update j update =>
      simp only [observe, Undisturbed]
      cases current : w.current with
      | none => simp
      | some own =>
          have one : w.state.connections = 1 := good (by rw [current]; rfl)
          have up : w.state.stopping = false := inv (by rw [current]; rfl)
          rcases step_update stepped with ⟨closes, eq⟩ | ⟨closes, open_, eq⟩
          · simp [closes, eq, one]
          · cases out : update.loggedOut with
            | true => simp [closes]
            | false =>
                rw [if_pos ⟨out, up⟩] at eq
                have exact := connections_reconnect open_
                rw [← eq, one] at exact
                simpa [closes] using exact

/-- A run keeps exactly one connection in every state it passes through precisely if each of
its steps is undisturbed. -/
theorem exactlyOne_iff (es : List Event) :
    Always Watched.step ExactlyOne Watched.init es ↔
      Meets Watched.step Undisturbed Watched.init es :=
  always_iff_meets (fun _ _ _ inv _ => inv.step) (fun _ _ _ => exactlyOne_step)
    (fun inForce => by cases inForce) (fun inForce => by cases inForce)

/-- A `start()` after a `stop()`, and then the late `close` of the socket that `stop()` ended:
the handler sees `stopping` down again and opens a second connection. -/
theorem not_exactlyOne : ¬ ∀ es, Always Watched.step ExactlyOne Watched.init es := by
  intro always
  have run := always [.start, .resume 0, .resume 0, .stop, .start,
    .update 0 ⟨some .close, none, none⟩]
  exact absurd run (by decide)

end NestifyClaw.Whatsapp
