import NestifyClaw.Gateway.Service
import NestifyClaw.Gateway.Effects

/-!
# One message, by value

The ports here are functions of their arguments, and the agent runtime a function of its
`TurnInput`, read by value (`TurnView`).  A turn may write into the session it is given, save it,
or save another one.  `TurnPorts.converse` is what handling one message does to its
conversation, without any heap; `Shows` relates it to the heap, and `run_handleInbound` shows
that the gateway does just that to the session under the message's key and nothing to any other.
-/

namespace NestifyClaw.Gateway

open Await GatewayService

variable {V ε : Type}

/-- A session by value. -/
structure SessionView (V : Type) where
  sessionKey : String
  data : Record V
  updatedAt : Nat

/-- A `TurnInput` by value. -/
structure TurnView (V : Type) where
  route : RouteTarget
  message : IncomingChannelMessage V
  session : Option (SessionView V)

/-- What a turn does to sessions. -/
inductive TurnEffect (V : Type)
  /-- `session.data[field] = value`, or `delete` for `none` -/
  | record (field : String) (value : Option (Unknown V))
  /-- `sessions.save` of the session that the turn was given -/
  | save
  /-- `sessions.save` of a session with a data object of the turn's own -/
  | saveNew (data : Record V)

/-- Ports that are functions of their arguments. -/
structure TurnPorts (V ε : Type) where
  tryHandle : IncomingChannelMessage V → Except ε Bool
  classify : IncomingChannelMessage V → Except ε InboundDecision
  resolveInbound : IncomingChannelMessage V → Except ε (Unknown V)
  runTurn : TurnView V → List (TurnEffect V) × Except ε (TurnResult V)
  prepareOutbound : OutboundReply V → Except ε (OutboundReply V)
  deliver : RouteTarget → OutboundReply V → Except ε Unit

/-- A session object by value. -/
def World.view (w : World V) (session : Option (Ref (SessionState V))) :
    Option (SessionView V) :=
  (session.bind w.sessions.read).map fun st => ⟨st.sessionKey, w.field st.data, st.updatedAt⟩

/-- The session stored under a key, by value. -/
def World.sessionView (w : World V) (key : String) : Option (SessionView V) :=
  w.view (SessionsService.load w key)

/-- Carry out an effect of a turn that was given the data object `data`. -/
def TurnEffect.perform (sessionKey : String) (data : Option (Ref (Record V))) (w : World V) :
    TurnEffect V → World V
  | .record field value =>
      match data with
      | some d => (Effect.put d field value).apply w
      | none => w
  | .save =>
      match data with
      | some d => SessionsService.save w ⟨sessionKey, d, w.now⟩
      | none => w
  | .saveNew content =>
      let fresh := w.records.alloc content
      SessionsService.save { w with records := fresh.2 } ⟨sessionKey, fresh.1, w.now⟩

/-- The pipeline with the real routing, session store and state store.  The callees' state is the
list of turns run so far. -/
def TurnPorts.withStore (ports : TurnPorts V ε) :
    Prog.Ports (World V) (List (TurnView V)) (PortCall V) PortCall.Result ε :=
  fun seen w c =>
    match c with
    | .tryHandle message => (seen, w, ports.tryHandle message)
    | .classify message => (seen, w, ports.classify message)
    | .resolve message => (seen, w, .ok (RoutingService.resolve message))
    | .load sessionKey => (seen, w, .ok (SessionsService.load w sessionKey))
    | .resolveInbound message => (seen, w, ports.resolveInbound message)
    | .runTurn input =>
        let view : TurnView V := ⟨input.route, input.message, w.view input.session⟩
        let data := (input.session.bind w.sessions.read).map SessionState.data
        let turn := ports.runTurn view
        (seen ++ [view],
          turn.1.foldl (TurnEffect.perform input.route.sessionKey data) w, turn.2)
    | .prepareOutbound reply => (seen, w, ports.prepareOutbound reply)
    | .deliver target reply => (seen, w, ports.deliver target reply)
    | .save state => (seen, SessionsService.save w state, .ok ())

/-! ## Without a heap -/

/-- The session stored under the key in the course of a turn.  `own` is its data, `none` while it
shares the data of the session that the turn was given. -/
structure Slot (V : Type) where
  sessionKey : String
  own : Option (Record V)
  updatedAt : Nat

structure TurnState (V : Type) where
  given : Option (Record V)
  stored : Option (Slot V)

namespace TurnState

def start (session : Option (SessionView V)) : TurnState V where
  given := session.map SessionView.data
  stored := session.map fun s => ⟨s.sessionKey, none, s.updatedAt⟩

/-- The session that the turn leaves. -/
def session (t : TurnState V) : Option (SessionView V) :=
  t.stored.bind fun slot =>
    (slot.own.or t.given).map fun data => ⟨slot.sessionKey, data, slot.updatedAt⟩

def keep (t : TurnState V) (sessionKey : String) (own : Option (Record V)) (now : Nat) :
    TurnState V :=
  { t with stored := some ⟨sessionKey, own, now⟩ }

def effect (sessionKey : String) (now : Nat) (t : TurnState V) : TurnEffect V → TurnState V
  | .record field value => { t with given := t.given.map (·.put field value) }
  | .save =>
      match t.given with
      | some _ => t.keep sessionKey none now
      | none => t
  | .saveNew content => t.keep sessionKey (some content) now

/-- The trailing save. -/
def trailing (sessionKey : String) (now : Nat) (t : TurnState V) : TurnState V :=
  match t.given with
  | some _ => t.keep sessionKey none now
  | none => t.keep sessionKey (some Record.empty) now

end TurnState

/-- Go on after a call's answer. -/
def onAnswer {α β : Type} (answer : Except ε α) (rejected : β) (fulfilled : α → β) : β :=
  match answer with
  | .ok v => fulfilled v
  | .error _ => rejected

namespace TurnPorts

/-- The message gets as far as a turn. -/
def responds (ports : TurnPorts V ε) (message : IncomingChannelMessage V) : Bool :=
  match ports.tryHandle message, ports.classify message, ports.resolveInbound message with
  | .ok false, .ok decision, .ok _ => decision.kind ≠ .ignore
  | _, _, _ => false

/-- Every reply is prepared and delivered. -/
def delivers (ports : TurnPorts V ε) (route : RouteTarget) (replies : List (OutboundReply V)) :
    Bool :=
  replies.all fun reply =>
    onAnswer (ports.prepareOutbound reply) false fun prepared =>
      onAnswer (ports.deliver route prepared) false fun _ => true

/-- What handling a message does to its conversation: the session afterwards, and the turn. -/
def converse (ports : TurnPorts V ε) (message : IncomingChannelMessage V) (now : Nat)
    (session : Option (SessionView V)) : Option (SessionView V) × List (TurnView V) :=
  if ports.responds message then
    let route := RoutingService.resolve message
    let view : TurnView V := ⟨route, message, session⟩
    let turn := ports.runTurn view
    let t := turn.1.foldl (TurnState.effect route.sessionKey now) (TurnState.start session)
    let t := onAnswer turn.2 t fun result =>
      if ports.delivers route result.replies then t.trailing route.sessionKey now else t
    (t.session, [view])
  else (session, [])

end TurnPorts

/-! ## The relation between the two -/

/-- No two keys share a data object. -/
structure World.Apart (w : World V) : Prop where
  closed : w.Closed
  distinct : ∀ key key' st st', w.storedSession key = some st → w.storedSession key' = some st' →
    st.data = st'.data → key = key'

/-- What is stored is as the slot says, `data` being the object that the turn was given. -/
inductive SlotShows (w : World V) (data : Option (Ref (Record V))) :
    Option (SessionState V) → Option (Slot V) → Prop
  | absent : SlotShows w data none none
  | shared {st : SessionState V} : data = some st.data →
      SlotShows w data (some st) (some ⟨st.sessionKey, none, st.updatedAt⟩)
  | own {st : SessionState V} : data ≠ some st.data →
      SlotShows w data (some st) (some ⟨st.sessionKey, some (w.field st.data), st.updatedAt⟩)

/-- In the course of a turn under `key` that started in `w₀`, the world `w` is as `t` says, and
the sessions under other keys are as they were. -/
structure Shows (w₀ : World V) (key : String) (data : Option (Ref (Record V))) (w : World V)
    (t : TurnState V) : Prop where
  closed : w.Closed
  now : w.now = w₀.now
  sessions : ∀ s st, w₀.sessions.read s = some st → w.sessions.read s = some st
  valid : ∀ d, data = some d → w.records.Valid d
  given : data.map w.field = t.given
  stored : SlotShows w data (w.storedSession key) t.stored
  others : ∀ key', key' ≠ key → w.storedSession key' = w₀.storedSession key'
  apart : ∀ key', key' ≠ key → ∀ st, w.storedSession key' = some st →
    data ≠ some st.data ∧ w.storedData key ≠ some st.data
  frame : ∀ key', key' ≠ key → ∀ st, w₀.storedSession key' = some st →
    w.field st.data = w₀.field st.data

theorem World.sessionView_eq (w : World V) (key : String) :
    w.sessionView key =
      (w.storedSession key).map fun st => ⟨st.sessionKey, w.field st.data, st.updatedAt⟩ := rfl

/-- At the start of a turn. -/
theorem World.Apart.start {w : World V} (apart : w.Apart) (key : String) :
    Shows w key (w.storedData key) w (TurnState.start (w.sessionView key)) where
  closed := apart.closed
  now := rfl
  sessions _ _ isSession := isSession
  valid _ found := apart.closed.valid found
  given := by
    rw [World.sessionView_eq, World.storedData]
    cases w.storedSession key <;> rfl
  stored := by
    rw [World.sessionView_eq, World.storedData]
    cases found : w.storedSession key with
    | none => exact .absent
    | some st => exact .shared rfl
  others _ _ := rfl
  apart key' other st found := by
    have different : w.storedData key ≠ some st.data := by
      intro same
      obtain ⟨st', found', sameData⟩ := Option.map_eq_some_iff.mp same
      exact other (apart.distinct key' key st st' found found' sameData.symm)
    exact ⟨different, different⟩
  frame _ _ _ _ := rfl

section Shows

variable {w₀ w : World V} {key : String} {data : Option (Ref (Record V))} {t : TurnState V}

/-- At the end of a turn: the session is as the turn leaves it, all others as they were. -/
theorem Shows.sessionView (shows : Shows w₀ key data w t) :
    w.sessionView key = t.session ∧
      ∀ key', key' ≠ key → w.sessionView key' = w₀.sessionView key' := by
  constructor
  · have given := shows.given
    have stored := shows.stored
    rw [World.sessionView_eq, TurnState.session]
    generalize w.storedSession key = found at stored
    generalize t.stored = kept at stored
    cases stored with
    | absent => rfl
    | shared same =>
        rw [same] at given
        rw [Option.bind_some, Option.none_or, ← given]
        rfl
    | own different => rfl
  · intro key' other
    rw [World.sessionView_eq, World.sessionView_eq, shows.others key' other]
    cases found : w₀.storedSession key' with
    | none => rfl
    | some st => simp only [Option.map_some, shows.frame key' other st found]

theorem Shows.isApart (shows : Shows w₀ key data w t) (apart : w₀.Apart) : w.Apart where
  closed := shows.closed
  distinct key₁ key₂ st₁ st₂ found₁ found₂ same := by
    -- the key of the turn shares its data object with no other key
    have key_apart : ∀ key' st st', w.storedSession key = some st →
        w.storedSession key' = some st' → st.data = st'.data → key = key' := by
      intro key' st st' found found' same
      by_contra other
      refine (shows.apart key' (Ne.symm other) st' found').2 ?_
      rw [World.storedData, found, Option.map_some, same]
    by_cases first : key₁ = key
    · subst first
      exact key_apart key₂ st₁ st₂ found₁ found₂ same
    by_cases second : key₂ = key
    · subst second
      exact (key_apart key₁ st₂ st₁ found₂ found₁ same.symm).symm
    · rw [shows.others key₁ first] at found₁
      rw [shows.others key₂ second] at found₂
      exact apart.distinct key₁ key₂ st₁ st₂ found₁ found₂ same

/-- A save under the key of the turn, of the object it was given or of one of its own. -/
theorem Shows.save (shows : Shows w₀ key data w t) {d : Ref (Record V)} {own : Option (Record V)}
    (valid : w.records.Valid d)
    (content : data = some d ∧ own = none ∨ data ≠ some d ∧ own = some (w.field d))
    (foreign : ∀ key', key' ≠ key → ∀ st, w.storedSession key' = some st → d ≠ st.data)
    (updatedAt : Nat) :
    Shows w₀ key data (SessionsService.save w ⟨key, d, updatedAt⟩)
      (t.keep key own w₀.now) where
  closed := World.closed_save shows.closed valid
  now := shows.now
  sessions s st isSession := by
    have kept := shows.sessions s st isSession
    exact (SessionsService.read_save (Heap.valid_of_read kept) _).trans kept
  valid := shows.valid
  given := shows.given
  stored := by
    rw [World.storedSession_save shows.closed, if_pos rfl, TurnState.keep, ← shows.now]
    rcases content with ⟨given, rfl⟩ | ⟨different, rfl⟩
    · exact .shared given
    · exact .own different
  others key' other := by
    rw [World.storedSession_save shows.closed, if_neg other]
    exact shows.others key' other
  apart key' other st found := by
    rw [World.storedSession_save shows.closed, if_neg other] at found
    refine ⟨(shows.apart key' other st found).1, fun same => ?_⟩
    rw [World.storedData_save shows.closed, if_pos rfl] at same
    exact foreign key' other st found (Option.some.inj same)
  frame := shows.frame

/-- A write into the object that the turn was given. -/
theorem Shows.put {d : Ref (Record V)} (shows : Shows w₀ key (some d) w t) (field : String)
    (value : Option (Unknown V)) :
    Shows w₀ key (some d) ((Effect.put d field value).apply w)
      { t with given := t.given.map (·.put field value) } := by
  have possible : (Effect.put d field value).Possible w := shows.valid d rfl
  have untouched : ∀ r, r ≠ d → ((Effect.put d field value).apply w).field r = w.field r := by
    intro r different
    funext f
    rw [World.field_apply possible]
    exact if_neg fun both => different both.1.symm
  refine ⟨shows.closed.apply possible, shows.now, shows.sessions,
    fun r found => Heap.valid_modify.mpr (shows.valid r found), ?_, ?_, shows.others, shows.apart,
    fun key' other st found => ?_⟩
  · have given : some (w.field d) = t.given := shows.given
    rw [← given]
    refine congrArg some (funext fun f => ?_)
    rw [World.field_apply possible]
    simp [Effect.value, Record.put, eq_comm]
  · have stored := shows.stored
    change SlotShows _ _ (w.storedSession key) t.stored
    generalize w.storedSession key = found at stored ⊢
    generalize t.stored = kept at stored ⊢
    cases stored with
    | absent => exact .absent
    | shared same => exact .shared same
    | @own st different =>
        rw [← untouched st.data fun same => different (congrArg some same.symm)]
        exact .own different
  · rw [← shows.others key' other] at found
    have different : st.data ≠ d := fun same =>
      (shows.apart key' other st found).1 (congrArg some same.symm)
    rw [untouched st.data different]
    exact shows.frame key' other st (shows.others key' other ▸ found)

/-- A new data object changes nothing. -/
theorem Shows.alloc (shows : Shows w₀ key data w t) (content : Record V) :
    Shows w₀ key data { w with records := (w.records.alloc content).2 } t := by
  have untouched : ∀ r, w.records.Valid r →
      World.field { w with records := (w.records.alloc content).2 } r = w.field r := by
    intro r valid
    funext f
    exact congrArg (Option.bind · (· f)) (Heap.read_alloc valid content)
  have isValid : ∀ key' st, w.storedSession key' = some st → w.records.Valid st.data := by
    intro key' st found
    exact shows.closed.valid (congrArg (Option.map SessionState.data) found)
  refine ⟨⟨shows.closed.stored, fun s st isSession => (shows.closed.data s st isSession).alloc _⟩,
    shows.now, shows.sessions, fun d found => (shows.valid d found).alloc _, ?_, ?_, shows.others,
    shows.apart, fun key' other st found => ?_⟩
  · rw [← shows.given]
    cases found : data with
    | none => rfl
    | some d => exact congrArg some (untouched d (shows.valid d found))
  · have stored := shows.stored
    change SlotShows _ _ (w.storedSession key) t.stored
    cases found : w.storedSession key with
    | none =>
        rw [found] at stored
        generalize t.stored = kept at stored ⊢
        cases stored
        exact .absent
    | some st =>
        rw [found] at stored
        generalize t.stored = kept at stored ⊢
        cases stored with
        | shared same => exact .shared same
        | own different =>
            rw [← untouched st.data (isValid key st found)]
            exact .own different
  · rw [← shows.frame key' other st found]
    exact untouched st.data (isValid key' st ((shows.others key' other).trans found))

/-- A save under the key of the turn, of a new data object. -/
theorem Shows.saveNew (shows : Shows w₀ key data w t) (content : Record V) (updatedAt : Nat) :
    let fresh := w.records.alloc content
    Shows w₀ key data
      (SessionsService.save { w with records := fresh.2 } ⟨key, fresh.1, updatedAt⟩)
      (t.keep key (some content) w₀.now) := by
  have new : World.field { w with records := (w.records.alloc content).2 }
      (w.records.alloc content).1 = content := by
    funext f
    exact congrArg (Option.bind · (· f)) (Heap.read_alloc_new w.records content)
  refine (shows.alloc content).save (Heap.valid_alloc_new _ _) (Or.inr ⟨fun same => ?_, ?_⟩)
    (fun key' other st found same => ?_) updatedAt
  · exact (shows.valid _ same).ne_alloc content rfl
  · exact congrArg some new.symm
  · have valid := shows.closed.valid (congrArg (Option.map SessionState.data) found)
    exact valid.ne_alloc content same.symm

/-- A save under the key of the turn, of the object that it was given. -/
theorem Shows.saveGiven {d : Ref (Record V)} (shows : Shows w₀ key (some d) w t)
    (updatedAt : Nat) :
    Shows w₀ key (some d) (SessionsService.save w ⟨key, d, updatedAt⟩)
      (t.keep key none w₀.now) :=
  shows.save (shows.valid d rfl) (Or.inl ⟨rfl, rfl⟩)
    (fun key' other st found same => (shows.apart key' other st found).1 (congrArg some same))
    updatedAt

/-- Each effect of a turn does what it means. -/
theorem Shows.perform (shows : Shows w₀ key data w t) (e : TurnEffect V) :
    Shows w₀ key data (e.perform key data w) (t.effect key w₀.now e) := by
  have given := shows.given
  cases e with
  | record field value =>
      cases data with
      | none =>
          have blank : t.effect key w₀.now (.record field value) = t := by
            rw [TurnState.effect, ← given]
            cases t
            cases given
            rfl
          rw [blank]
          exact shows
      | some d => exact shows.put field value
  | save =>
      cases data with
      | none =>
          rw [TurnState.effect, ← given]
          exact shows
      | some d =>
          rw [TurnState.effect, ← given]
          exact shows.saveGiven w.now
  | saveNew content => exact shows.saveNew content w.now

theorem Shows.performAll (shows : Shows w₀ key data w t) (es : List (TurnEffect V)) :
    Shows w₀ key data (es.foldl (TurnEffect.perform key data) w)
      (es.foldl (TurnState.effect key w₀.now) t) := by
  induction es generalizing w t with
  | nil => exact shows
  | cons e es ih => exact ih (shows.perform e)

/-- The trailing save does what it means. -/
theorem Shows.trailing (shows : Shows w₀ key (w₀.storedData key) w t) (closed : w₀.Closed)
    {route : RouteTarget} (sameKey : route.sessionKey = key) :
    let saving := trailingSave route (SessionsService.load w₀ key) w
    Shows w₀ key (w₀.storedData key) (SessionsService.save saving.2 saving.1)
      (t.trailing key w₀.now) := by
  intro saving
  have given := shows.given
  cases loaded : SessionsService.load w₀ key with
  | none =>
      have absent : w₀.storedData key = none :=
        congrArg (fun s => (Option.bind s _).map SessionState.data) loaded
      have fresh : saving = (⟨key, (w.records.alloc Record.empty).1, w.now⟩,
          { w with records := (w.records.alloc Record.empty).2 }) := by
        simp [saving, trailingSave, loaded, sameKey]
      rw [absent] at given shows ⊢
      rw [TurnState.trailing, ← given, fresh]
      exact shows.saveNew Record.empty w.now
  | some s =>
      obtain ⟨st, isSession, isStored⟩ := closed.storedSession_eq loaded
      have data : w₀.storedData key = some st.data :=
        congrArg (Option.map SessionState.data) isStored
      have shares : saving = (⟨key, st.data, w.now⟩, w) := by
        simp [saving, trailingSave, loaded, sameKey, shows.sessions s st isSession]
      rw [data] at given shows ⊢
      rw [TurnState.trailing, ← given, shares]
      exact shows.saveGiven w.now

end Shows

/-! ## The run -/

section Run

variable (ports : TurnPorts V ε) {w : World V} {seen : List (TurnView V)}

/-- The part of an outcome that later messages see. -/
def ending (p : GatewayM V Unit) (seen : List (TurnView V)) (w : World V) :
    List (TurnView V) × World V :=
  let out := p.run ports.withStore seen w
  (out.ports, out.state)

/-- A call that only answers. -/
theorem ending_await {c : PortCall V} {k : c.Result → GatewayM V Unit}
    {answer : Except ε c.Result} (settled : ports.withStore seen w c = (seen, w, answer)) :
    ending ports (.await c k) seen w =
      onAnswer answer (seen, w) fun v => ending ports (k v) seen w := by
  unfold ending
  cases answer with
  | ok v => rw [Prog.run_await_ok settled]; rfl
  | error e => rw [Prog.run_await_error settled]; rfl

/-- The session state that the trailing save leaves. -/
def saved (route : RouteTarget) (session : Option (Ref (SessionState V))) (w : World V) :
    World V :=
  SessionsService.save (trailingSave route session w).2 (trailingSave route session w).1

theorem onAnswer_delivered {α : Type} {answer : Except ε Unit} {rest : Bool} {stop go : α}
    {next : α} (goesOn : next = if rest then go else stop) :
    (onAnswer answer stop fun _ => next) =
      if (onAnswer answer false fun _ => true) && rest then go else stop := by
  cases answer with
  | error e => rfl
  | ok v => exact goesOn

/-- The delivery loop and the save after it. -/
theorem ending_deliverThenSave (route : RouteTarget) (session : Option (Ref (SessionState V)))
    (replies : List (OutboundReply V)) :
    ending ports (deliverThenSave route session replies) seen w =
      if ports.delivers route replies then (seen, saved route session w) else (seen, w) := by
  induction replies with
  | nil =>
      rw [deliverThenSave_nil, ending, Prog.run_of_advance (advance_saveSession route session w)]
      rfl
  | cons reply replies ih =>
      rw [deliverThenSave_cons]
      refine (ending_await ports rfl).trans ?_
      unfold TurnPorts.delivers
      rw [List.all_cons]
      cases ports.prepareOutbound reply with
      | error e => rfl
      | ok prepared =>
          refine (ending_await ports rfl).trans ?_
          exact onAnswer_delivered ih

/-- The turn, its deliveries and the save after them. -/
def turnThenDeliver (message : IncomingChannelMessage V) (route : RouteTarget)
    (session : Option (Ref (SessionState V))) : GatewayM V Unit :=
  .await (.runTurn { route, message, session }) fun result =>
    deliverThenSave route session (TurnResult.replies result)

theorem ending_turnThenDeliver (message : IncomingChannelMessage V) (route : RouteTarget)
    (session : Option (Ref (SessionState V))) :
    let view : TurnView V := ⟨route, message, w.view session⟩
    let data := (session.bind w.sessions.read).map SessionState.data
    let turn := ports.runTurn view
    let w' := turn.1.foldl (TurnEffect.perform route.sessionKey data) w
    ending ports (turnThenDeliver message route session) seen w =
      (seen ++ [view], onAnswer turn.2 w' fun result =>
        if ports.delivers route result.replies then saved route session w' else w') := by
  intro view data turn w'
  have settled : ports.withStore seen w (.runTurn ⟨route, message, session⟩) =
      (seen ++ [view], w', turn.2) := rfl
  unfold turnThenDeliver ending
  cases answer : turn.2 with
  | error e =>
      rw [answer] at settled
      rw [Prog.run_await_error settled]
      rfl
  | ok result =>
      rw [answer] at settled
      rw [Prog.run_await_ok settled]
      exact (ending_deliverThenSave ports route session result.replies).trans
        (apply_ite (Prod.mk _) _ _ _).symm

/-- A message that gets no turn changes nothing, any other gets one. -/
theorem ending_handleInbound (message : IncomingChannelMessage V) :
    let route := RoutingService.resolve message
    ending ports (handleInbound message) seen w =
      if ports.responds message then
        ending ports
          (turnThenDeliver message route (SessionsService.load w route.sessionKey)) seen w
      else (seen, w) := by
  intro route
  rw [handleInbound_eq]
  refine (ending_await ports rfl).trans ?_
  unfold TurnPorts.responds
  cases ports.tryHandle message with
  | error e => rfl
  | ok handled =>
      cases (handled : Bool) with
      | true => rfl
      | false =>
          refine (ending_await ports rfl).trans ?_
          cases ports.classify message with
          | error e => rfl
          | ok decision =>
              dsimp only [onAnswer]
              unfold afterClassify
              by_cases ignored : InboundDecision.kind decision = .ignore
              · rw [if_pos ignored]
                cases ports.resolveInbound message <;> simp [ignored] <;> rfl
              · rw [if_neg ignored]
                refine (ending_await ports rfl).trans ?_
                refine (ending_await ports rfl).trans ?_
                dsimp only [onAnswer]
                rw [afterLoad_eq]
                refine (ending_await ports rfl).trans ?_
                cases ports.resolveInbound message with
                | error e => rfl
                | ok media => simp [ignored]; rfl

/-- Handling a message does to the session under its key what `converse` says, and nothing to
any other. -/
theorem run_handleInbound (seen : List (TurnView V)) (apart : w.Apart)
    (message : IncomingChannelMessage V) :
    let key := (RoutingService.resolve message).sessionKey
    let after := ending ports (handleInbound message) seen w
    let meant := ports.converse message w.now (w.sessionView key)
    after.2.Apart ∧ after.1 = seen ++ meant.2 ∧ after.2.sessionView key = meant.1 ∧
      ∀ key', key' ≠ key → after.2.sessionView key' = w.sessionView key' := by
  intro key after meant
  let route := RoutingService.resolve message
  let session := SessionsService.load w key
  let data := w.storedData key
  have handled : after = if ports.responds message then
      ending ports (turnThenDeliver message route session) seen w else (seen, w) :=
    ending_handleInbound ports message
  by_cases responds : ports.responds message = true
  · let view : TurnView V := ⟨route, message, w.sessionView key⟩
    let turn := ports.runTurn view
    let w' := turn.1.foldl (TurnEffect.perform key data) w
    let t' := turn.1.foldl (TurnState.effect key w.now) (TurnState.start (w.sessionView key))
    have turned : Shows w key data w' t' := (apart.start key).performAll turn.1
    have saves : Shows w key data (saved route session w') (t'.trailing key w.now) :=
      turned.trailing apart.closed rfl
    -- the answer of the turn and those of the deliveries decide on both sides alike
    have shows : Shows w key data
        (onAnswer turn.2 w' fun result =>
          if ports.delivers route result.replies then saved route session w' else w')
        (onAnswer turn.2 t' fun result =>
          if ports.delivers route result.replies then t'.trailing key w.now else t') := by
      cases turn.2 with
      | error e => exact turned
      | ok result =>
          dsimp only [onAnswer]
          split
          · exact saves
          · exact turned
    have handled : after = (seen ++ [view], onAnswer turn.2 w' fun result =>
        if ports.delivers route result.replies then saved route session w' else w') :=
      (handled.trans (if_pos responds)).trans (ending_turnThenDeliver ports message route session)
    have means : meant = ((onAnswer turn.2 t' fun result =>
        if ports.delivers route result.replies then t'.trailing key w.now else t').session,
        [view]) := if_pos responds
    rw [handled, means]
    exact ⟨shows.isApart apart, rfl, shows.sessionView⟩
  · rw [if_neg responds] at handled
    have means : meant = (w.sessionView key, []) := if_neg responds
    rw [handled, means]
    exact ⟨apart, (List.append_nil seen).symm, rfl, fun _ _ => rfl⟩

end Run

end NestifyClaw.Gateway
