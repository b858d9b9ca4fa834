import NestifyClaw.Gateway.Service
import NestifyClaw.Gateway.Effects

/-!
# A failed turn and the conversation's session

A run that rejects has not saved, so all that can have touched the session are the ports'
effects.  The store hands out the stored object itself and a save shares its `data`, so an
effect on `session.data` is an effect on the stored session.  `rejected_sessionData_iff` says
which effects leave the session as it was.
-/

namespace NestifyClaw.Gateway

open Await GatewayService

variable {V ε τ : Type}

/-- Ports with effects on the shared objects: given their history, the world and the call, they
say what they do and what they settle with. -/
abbrev EffectfulPorts (V ε τ : Type) :=
  τ → World V → (c : PortCall V) → τ × List (Effect V) × Except ε c.Result

/-- The pipeline with the real session and state stores.  `load` may still reject; the list
next to the ports' own history records the effects they have had. -/
def withStore (ports : EffectfulPorts V ε τ) :
    Prog.Ports (World V) (τ × List (Effect V)) (PortCall V) PortCall.Result ε :=
  fun (t, done) w c =>
    match c with
    | .load sessionKey =>
        let (t, _, answer) := ports t w (.load sessionKey)
        ((t, done), w, answer.map fun _ => SessionsService.load w sessionKey)
    | .save state => ((t, done), SessionsService.save w state, .ok ())
    | c =>
        let (t, es, answer) := ports t w c
        let es := Effect.performed w es
        ((t, done ++ es), Effect.applyAll es w, answer)

/-- The data object that the effects leave stored under a key: that of the object stored there in
the end, as it was saved or last assigned. -/
def leftData (w : World V) (key : String) (es : List (Effect V)) : Option (Ref (Record V)) :=
  (Effect.storedAll key es (w.cell key)).2.map Prod.snd

/-- The effects put the session stored under a key back: the data object stored in the end has,
in each field, the value that the session had there. -/
def Restored (w : World V) (key : String) (es : List (Effect V)) : Prop :=
  ∀ data', leftData w key es = some data' →
    ∃ data, w.storedData key = some data ∧
      ∀ f, Effect.valueAll data' f es (w.field data' f) = w.field data f

/-! ## Rejecting runs only have the ports' effects -/

section Rejecting

variable {ports : EffectfulPorts V ε τ} {w₀ : World V}

/-- All that happened since `w₀` are the recorded effects. -/
def OnlyEffects (w₀ : World V) (t : τ × List (Effect V)) (w : World V) : Prop :=
  Effect.PossibleAll w₀ t.2 ∧ w = Effect.applyAll t.2 w₀

theorem onlyEffects_performed {t t' : τ} {done : List (Effect V)} {w : World V}
    (only : OnlyEffects w₀ (t, done) w) (es : List (Effect V)) :
    OnlyEffects w₀ (t', done ++ Effect.performed w es)
      (Effect.applyAll (Effect.performed w es) w) := by
  rcases only with ⟨possible, rfl⟩
  refine ⟨Effect.possibleAll_append.mpr ⟨possible, Effect.possibleAll_performed _ es⟩, ?_⟩
  exact (Effect.applyAll_append _ _ _).symm

theorem withStore_keeps {c : PortCall V} (notSave : ∀ state, c ≠ .save state)
    (t : τ × List (Effect V)) (w : World V) (only : OnlyEffects w₀ t w) :
    OnlyEffects w₀ (withStore ports t w c).1 (withStore ports t w c).2.1 := by
  cases c with
  | load sessionKey => exact only
  | save state => exact absurd rfl (notSave state)
  | _ => exact onlyEffects_performed only _

/-- The trailing save does not reject. -/
theorem saveSession_ok (route : RouteTarget) (session : Option (Ref (SessionState V)))
    (t : τ × List (Effect V)) (w : World V) :
    ∃ a, ((saveSession route session).run (withStore ports) t w).result = .ok a := by
  rw [Prog.run_of_advance (advance_saveSession route session w)]
  exact ⟨(), rfl⟩

theorem deliverThenSave_keeps (route : RouteTarget)
    (session : Option (Ref (SessionState V))) (replies : List (OutboundReply V)) :
    Prog.KeepsOnReject (withStore ports) (OnlyEffects w₀)
      (deliverThenSave route session replies) := by
  induction replies with
  | nil => exact Prog.keepsOnReject_of_ok (saveSession_ok route session)
  | cons reply replies ih =>
      rw [deliverThenSave_cons]
      apply Prog.keepsOnReject_await (withStore_keeps (by simp))
      intro prepared
      apply Prog.keepsOnReject_await (withStore_keeps (by simp))
      exact fun _ => ih

theorem handleInbound_keeps (message : IncomingChannelMessage V) :
    Prog.KeepsOnReject (withStore ports) (OnlyEffects w₀) (handleInbound message) := by
  rw [handleInbound_eq]
  apply Prog.keepsOnReject_await (withStore_keeps (by simp))
  intro (handled : Bool)
  refine Prog.KeepsOnReject.ite (Prog.keepsOnReject_done ()) ?_
  apply Prog.keepsOnReject_await (withStore_keeps (by simp))
  intro (decision : InboundDecision)
  unfold afterClassify
  refine Prog.KeepsOnReject.ite (Prog.keepsOnReject_done ()) ?_
  apply Prog.keepsOnReject_await (withStore_keeps (by simp))
  intro (route : RouteTarget)
  apply Prog.keepsOnReject_await (withStore_keeps (by simp))
  intro (session : Option (Ref (SessionState V)))
  rw [afterLoad_eq]
  apply Prog.keepsOnReject_await (withStore_keeps (by simp))
  intro (media : Unknown V)
  apply Prog.keepsOnReject_await (withStore_keeps (by simp))
  intro (result : TurnResult V)
  exact deliverThenSave_keeps route session result.replies

end Rejecting

/-! ## What effects do to a session -/

/-- Effects never take a session away. -/
theorem storedAll_none {key : String} {es : List (Effect V)}
    {f : Nat × Option (Ref (SessionState V) × Ref (Record V))}
    (gone : (Effect.storedAll key es f).2 = none) : f.2 = none := by
  induction es generalizing f with
  | nil => exact gone
  | cons e es ih =>
      have before : (e.stored key f).2 = none := ih gone
      cases e with
      | assign session state => exact Option.map_eq_none_iff.mp before
      | save state =>
          by_cases same : key = state.sessionKey
          · exact absurd before (by simp [Effect.stored, same])
          · exact (if_neg same).symm.trans before
      | _ => exact before

/-- The effect leaves the object stored under the key, `session`, and its `data` where they are. -/
def Effect.Spares (key : String) (session : Ref (SessionState V)) : Effect V → Prop
  | .save state => key ≠ state.sessionKey
  | .assign session' _ => session' ≠ session
  | _ => True

theorem storedAll_spared {key : String} {es : List (Effect V)} {n : Nat}
    {session : Ref (SessionState V)} {data : Ref (Record V)}
    (spared : ∀ e ∈ es, e.Spares key session) :
    (Effect.storedAll key es (n, some (session, data))).2 = some (session, data) := by
  induction es generalizing n with
  | nil => rfl
  | cons e es ih =>
      obtain ⟨here, later⟩ := List.forall_mem_cons.mp spared
      have kept : (e.stored key (n, some (session, data))).2 = some (session, data) := by
        cases e with
        | save state => exact if_neg here
        | assign session' state => exact congrArg some (if_neg (Ne.symm here))
        | _ => rfl
      have step : Effect.storedAll key (e :: es) (n, some (session, data)) =
          Effect.storedAll key es ((e.stored key (n, some (session, data))).1,
            some (session, data)) :=
        congrArg (Effect.storedAll key es) (Prod.ext rfl kept)
      rw [step]
      exact ih later

/-- Ports that leave the stored object and its `data` where they are put the session back exactly
when the last value they put into each field of the data is the one that was there. -/
theorem restored_iff_of_spared {w : World V} {key : String} {session : Ref (SessionState V)}
    {data : Ref (Record V)} (found : w.found key = some (session, data)) {es : List (Effect V)}
    (spared : ∀ e ∈ es, e.Spares key session) :
    Restored w key es ↔ ∀ f, Effect.valueAll data f es (w.field data f) = w.field data f := by
  have kept : leftData w key es = some data := by
    rw [leftData, World.cell, found, storedAll_spared spared]
    rfl
  unfold Restored
  rw [kept, World.storedData_eq, found]
  simp only [Option.map_some, Option.some.injEq, forall_eq', exists_eq_left']

theorem leftData_eq {w : World V} (closed : w.Closed) {es : List (Effect V)}
    (possible : Effect.PossibleAll w es) (key : String) :
    (Effect.applyAll es w).storedData key = leftData w key es := by
  rw [World.storedData_eq, leftData, ← World.cell_applyAll closed possible]
  rfl

theorem sessionData_applyAll_iff {w : World V} (closed : w.Closed) {es : List (Effect V)}
    (possible : Effect.PossibleAll w es) (key : String) :
    (Effect.applyAll es w).sessionData key = w.sessionData key ↔ Restored w key es := by
  rw [(closed.applyAll possible).sessionData_eq, closed.sessionData_eq,
    leftData_eq closed possible]
  unfold Restored
  cases ended : leftData w key es with
  | none =>
      have gone : (w.cell key).2 = none := storedAll_none (Option.map_eq_none_iff.mp ended)
      rw [World.storedData_eq, show w.found key = none from gone]
      exact iff_of_true rfl fun _ found => nomatch found
  | some data' =>
      rw [Option.map_some]
      constructor
      · intro same data'' found
        cases found
        rcases Option.map_eq_some_iff.mp same.symm with ⟨data, found, fields⟩
        refine ⟨data, found, fun f => ?_⟩
        rw [← World.field_applyAll possible, congrFun fields f]
      · intro restored
        rcases restored data' rfl with ⟨data, found, fields⟩
        rw [found, Option.map_some]
        refine congrArg some (funext fun f => ?_)
        rw [World.field_applyAll possible, fields f]

/-! ## The session after a failed turn -/

/-- A rejecting run leaves the session of a key as it was exactly when the effects of the ports
in that run put it back. -/
theorem rejected_sessionData_iff (ports : EffectfulPorts V ε τ) (t : τ) (w : World V)
    (closed : w.Closed) (message : IncomingChannelMessage V) (key : String) (e : ε)
    (rejected : ((handleInbound message).run (withStore ports) (t, []) w).result = .error e) :
    let out := (handleInbound message).run (withStore ports) (t, []) w
    out.state.sessionData key = w.sessionData key ↔ Restored w key out.ports.2 := by
  intro out
  have only : OnlyEffects w out.ports out.state :=
    handleInbound_keeps message (t, []) w e ⟨trivial, rfl⟩ rejected
  rcases only with ⟨possible, ended⟩
  rw [ended]
  exact sessionData_applyAll_iff closed possible key

/-! ## A runtime that fails after recording something -/

/-- Message `"m"` is routed to session `"k"`; the runtime puts a draft into the data of the
session it is given and then rejects. -/
def draftingPorts : EffectfulPorts Nat String Unit := fun _ w c =>
  match c with
  | .tryHandle _ => ((), [], .ok false)
  | .classify _ => ((), [], .ok ⟨.respond, none⟩)
  | .resolve _ => ((), [], .ok ⟨"main", "k", .agent⟩)
  | .load _ => ((), [], .ok none)
  | .resolveInbound _ => ((), [], .ok .undefined)
  | .runTurn input =>
      let data := (input.session.bind w.sessions.read).map SessionState.data
      ((), data.toList.map fun data => .put data "draft" (some (.value 1)), .error "no model")
  | .prepareOutbound reply => ((), [], .ok reply)
  | .deliver _ _ => ((), [], .ok ())
  | .save _ => ((), [], .ok ())

/-- A world with an empty session stored under `"k"`. -/
def savedWorld : World Nat :=
  SessionsService.save { World.new 0 with records := ⟨[Record.empty]⟩ } ⟨"k", ⟨0⟩, 0⟩

theorem savedWorld_closed : savedWorld.Closed :=
  World.closed_save
    ⟨fun _ _ found => absurd found (by simp [SessionsService.load, World.new]),
      fun _ _ found => absurd found (by simp [World.new, Heap.read])⟩ (by decide)

def greeting : IncomingChannelMessage Nat := ⟨"telegram", "7", none, none, some "m", .undefined⟩

theorem rejected_drafting :
    let out := (handleInbound greeting).run (withStore draftingPorts) ((), []) savedWorld
    out.state.sessionData "k" = savedWorld.sessionData "k" ↔
      Restored savedWorld "k" out.ports.2 :=
  rejected_sessionData_iff draftingPorts () savedWorld savedWorld_closed greeting "k" "no model"
    rfl

/-- Not every failed turn leaves the session as it was. -/
theorem not_rejected_sessionData :
    ¬ ∀ (ports : EffectfulPorts Nat String Unit) (t : Unit) (w : World Nat), w.Closed →
      ∀ (message : IncomingChannelMessage Nat) (key : String) (e : String),
        ((handleInbound message).run (withStore ports) (t, []) w).result = .error e →
        ((handleInbound message).run (withStore ports) (t, []) w).state.sessionData key =
          w.sessionData key := by
  intro unchanged
  have same := unchanged draftingPorts () savedWorld savedWorld_closed greeting "k" "no model" rfl
  have draft := congrArg (fun data => data.bind (· "draft")) same
  exact absurd draft (by decide)

end NestifyClaw.Gateway
