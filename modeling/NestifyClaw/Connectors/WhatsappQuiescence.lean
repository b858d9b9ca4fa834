import NestifyClaw.Connectors.Whatsapp

/-!
# After `stop()`: no WhatsApp socket

`stop()` ends the one socket the service holds and raises a flag that only the `close`
handler reads.  It therefore silences the connector exactly when it is called with no
`connect()` in progress and with no live socket but the one held: `quiescent_iff_stopSafe`
states this for one `stop()` against every continuation, and for whole runs.
-/

namespace NestifyClaw.Whatsapp

open Transition

/-- No socket is live.  A socket is live when it is created, so a state reached by creating
one is never of this kind. -/
def NoLive (s : State) : Prop := SocketStatus.live ∉ s.sockets

instance (s : State) : Decidable (NoLive s) :=
  inferInstanceAs (Decidable (SocketStatus.live ∉ s.sockets))

/-- From `s` on, nothing is live until the next `start()` call. -/
def QuietUntilStart (s : State) : Prop :=
  ∀ post t, Event.start ∉ post → run step s post = some t → NoLive t

/-- All along a run of the service: once `stop()` has run and until the next `start()` call,
no socket is live and none is created. -/
def Quiescent (es : List Event) : Prop :=
  ∀ pre post t, pre ++ .stop :: post <+: es → Event.start ∉ post →
    run step State.init (pre ++ .stop :: post) = some t → NoLive t

/-- `stop()` meets the service with no `connect()` in progress and no live socket but the one
held in `this.sock`. -/
def StopSafe (s : State) : Prop :=
  s.connects = [] ∧ ∀ j, s.sockets[j]? = some .live → s.sock = some j

instance (s : State) : Decidable (StopSafe s) :=
  decidable_of_iff
    (s.connects = [] ∧ ∀ j < s.sockets.length, s.sockets[j]? = some .live → s.sock = some j) <|
    and_congr_right fun _ => ⟨fun held j live =>
      held j (List.getElem?_eq_some_iff.mp live).1 live, fun held j _ => held j⟩

/-- Each `stop()` of a run is called in a safe state; nothing is asked of other events. -/
def stopsSafely (s : State) (e : Event) : Prop := e = .stop → StopSafe s

instance (s : State) (e : Event) : Decidable (stopsSafely s e) :=
  inferInstanceAs (Decidable (e = .stop → StopSafe s))

/-- What `stop()` leaves behind when it was safe. -/
structure Stopped (s : State) : Prop where
  stopping : s.stopping = true
  connects : s.connects = []
  noLive : NoLive s

theorem noLive_iff {s : State} :
    NoLive s ↔ ∀ j : SocketId, s.sockets[j]? ≠ some SocketStatus.live := by
  rw [NoLive, List.mem_iff_getElem?, not_exists]

/-- Marking sockets as closed revives none. -/
theorem noLive_set_closed {sockets : List SocketStatus} {j : SocketId}
    (dead : SocketStatus.live ∉ sockets) : SocketStatus.live ∉ sockets.set j .closed := by
  intro member
  rcases List.mem_or_eq_of_mem_set member with old | new
  · exact dead old
  · cases new

/-- A live socket after `stop()` was live before and is not the one held. -/
theorem stop_live {s : State} {j : SocketId} :
    (stop s).sockets[j]? = some .live ↔ s.sockets[j]? = some .live ∧ s.sock ≠ some j := by
  cases held : s.sock with
  | none => simp [stop, held]
  | some i =>
      by_cases eq : j = i
      · subst eq
        simpa [stop, held] using endSocket_self
      · have keeps : (endSocket s.sockets i)[j]? = s.sockets[j]? := endSocket_ne eq
        simp [stop, held, keeps, Ne.symm eq]

theorem stop_stopped {s : State} (safe : StopSafe s) : Stopped (stop s) := by
  rcases safe with ⟨connects, held⟩
  refine ⟨rfl, connects, noLive_iff.mpr fun j live => ?_⟩
  rcases stop_live.mp live with ⟨liveBefore, notHeld⟩
  exact notHeld (held j liveBefore)

/-- Nothing but `start()` leaves the stopped condition. -/
theorem Stopped.step {s t : State} {e : Event} (stopped : Stopped s)
    (h : step s e = some t) (notStart : e ≠ .start) : Stopped t := by
  rcases stopped with ⟨stopping, connects, noLive⟩
  cases e with
  | start => exact absurd rfl notStart
  | stop =>
      cases Option.some.inj h
      refine stop_stopped ⟨connects, fun j live => ?_⟩
      exact (noLive_iff.mp noLive j live).elim
  | resume c =>
      rcases step_resume h with ⟨p, member, -, -⟩
      simp [connects] at member
  | reject c =>
      rcases step_reject h with ⟨⟨p, member, -⟩, -⟩
      simp [connects] at member
  | update j update =>
      rcases step_update h with ⟨-, rfl⟩ | ⟨-, -, rfl⟩
      · exact ⟨stopping, connects, noLive⟩
      · rw [if_neg (by simp [stopping])]
        exact ⟨stopping, connects, noLive_set_closed noLive⟩

theorem Stopped.quietUntilStart {s : State} (stopped : Stopped s) : QuietUntilStart s := by
  intro post
  induction post generalizing s with
  | nil =>
      intro t _ reach
      exact Option.some.inj reach ▸ stopped.noLive
  | cons e post ih =>
      intro t noStart reach
      rcases not_or.mp (List.mem_cons.not.mp noStart) with ⟨notStart, noStart⟩
      rw [run_cons] at reach
      rcases Option.bind_eq_some_iff.mp reach with ⟨u, first, rest⟩
      exact ih (stopped.step first (Ne.symm notStart)) t noStart rest

/-- A suspended `connect()` that `stop()` met goes on to create a live socket. -/
theorem connects_nil_of_quiet {s : State} (quiet : QuietUntilStart (stop s)) :
    s.connects = [] := by
  cases pending : s.connects with
  | nil => rfl
  | cons p rest =>
      exfalso
      rcases p with ⟨c, stage⟩
      have found : (stop s).connects.find? (·.id = c) = some ⟨c, stage⟩ := by
        simp [pending]
      have first : step (stop s) (.resume c) = some (resumeConnect (stop s) ⟨c, stage⟩) := by
        rw [step, found, Option.map_some]
      cases stage with
      | useMultiFileAuthState =>
          refine quiet [.resume c] _ (by simp) ((run_cons_of_step [] first).trans rfl) ?_
          simp [resumeConnect, dropConnect]
      | loadBaileys =>
          have found' : (resumeConnect (stop s) ⟨c, .loadBaileys⟩).connects.find? (·.id = c) =
              some ⟨c, .useMultiFileAuthState⟩ := by
            simp [resumeConnect, pending]
          have second : step (resumeConnect (stop s) ⟨c, .loadBaileys⟩) (.resume c) = some
              (resumeConnect (resumeConnect (stop s) ⟨c, .loadBaileys⟩)
                ⟨c, .useMultiFileAuthState⟩) := by
            rw [step, found', Option.map_some]
          refine quiet [.resume c, .resume c] _ (by simp)
            ((run_cons_of_step _ first).trans ((run_cons_of_step _ second).trans rfl)) ?_
          simp [resumeConnect, dropConnect]

/-- One `stop()` silences the connector against every continuation exactly when it is safe. -/
theorem quietUntilStart_stop_iff {s : State} : QuietUntilStart (stop s) ↔ StopSafe s := by
  constructor
  · intro quiet
    refine ⟨connects_nil_of_quiet quiet, fun j live => ?_⟩
    by_contra notHeld
    have dead : NoLive (stop s) := quiet [] (stop s) (by simp) rfl
    exact noLive_iff.mp dead j (stop_live.mpr ⟨live, notHeld⟩)
  · exact fun safe => (stop_stopped safe).quietUntilStart

/-- A run whose `stop()` calls are all safe is quiescent, and a `stop()` in a reachable state
keeps the connector quiet, whatever follows, exactly when it is safe. -/
theorem quiescent_iff_stopSafe (es : List Event) :
    (Meets step stopsSafely State.init es → Quiescent es) ∧
      ∀ s, Reachable step State.init s → (QuietUntilStart (stop s) ↔ StopSafe s) := by
  refine ⟨fun safely pre post t isPre noStart reach => ?_,
    fun s _ => quietUntilStart_stop_iff⟩
  rw [run_append] at reach
  rcases Option.bind_eq_some_iff.mp reach with ⟨s, reachStop, rest⟩
  have safe : StopSafe s := by
    refine safely pre .stop s (stop s) (List.IsPrefix.trans ?_ isPre) reachStop rfl rfl
    exact List.prefix_append_right_inj pre |>.mpr (by simp)
  exact (stop_stopped safe).quietUntilStart post t noStart rest

/-- A connection that opens, drops and comes back before the service is stopped. -/
theorem quiescent_reconnected :
    Quiescent [.start, .resume 0, .resume 0, .update 0 ⟨some .close, none, none⟩,
      .resume 1, .resume 1, .stop, .update 1 ⟨some .close, none, none⟩] :=
  (quiescent_iff_stopSafe _).1 (by decide)

/-- `stop()` during the initial connection: the suspended `connect()` still opens a socket. -/
theorem not_quiescent : ¬ ∀ es, Quiescent es := by
  intro quiescent
  have quiet := quiescent [.start, .stop, .resume 0, .resume 0] [.start]
    [.resume 0, .resume 0]
    ⟨some 0, true, true, [.live], [], 1⟩ (List.prefix_refl _) (by decide) (by decide)
  exact absurd quiet (by decide)

end NestifyClaw.Whatsapp
