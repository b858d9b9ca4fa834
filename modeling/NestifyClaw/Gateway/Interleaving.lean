import NestifyClaw.Transition
import NestifyClaw.Gateway.Service
import NestifyClaw.Gateway.Effects

/-!
# Overlapping `handleInbound` runs

Any number of `handleInbound` runs share one world.  A run goes on from one await to the next;
between two of its steps anything may happen: other runs take theirs, ports settle in any order,
and other holders of the session store have effects of their own.  `sessions.load` and
`sessions.save` touch the store when they are called, and their promise settles later.

The log lists the loads and saves of the store and the assignments to session objects, the newest
first.  `lastObject` and `dataOf` read off it which session object is stored under a key and which
data object it holds.
-/

namespace NestifyClaw.Gateway

open Await GatewayService

variable {V ε : Type}

/-- Where one run stands. -/
inductive RunStatus (V : Type)
  /-- a port has been called and has not settled -/
  | waiting (c : PortCall V) (k : c.Result → GatewayM V Unit)
  /-- the awaited promise has settled -/
  | ready (p : GatewayM V Unit)
  /-- returned or rejected -/
  | ended

/-- An access to the session objects: which one a run's load found, and its data; which one a save
made, a run's trailing one or another party's, with which data and in the place of which; and an
assignment of another party to the data of one. -/
inductive StoreAccess (V : Type)
  | load (run : Nat) (key : String) (found : Option (Ref (SessionState V) × Ref (Record V)))
  | save (run : Option Nat) (key : String) (session : Ref (SessionState V))
      (data : Ref (Record V)) (before : Option (Ref (Record V)))
  | assign (session : Ref (SessionState V)) (data : Ref (Record V))
  deriving DecidableEq

structure System (V : Type) where
  world : World V
  runs : List (RunStatus V)
  log : List (StoreAccess V)

namespace System

def new (now : Nat) : System V := ⟨World.new now, [], []⟩

/-- Run `i` goes on with `p` up to its next await. -/
def proceed (s : System V) (i : Nat) (p : GatewayM V Unit) : System V :=
  match p.advance s.world with
  | (w, .finished _) => ⟨w, s.runs.set i .ended, s.log⟩
  | (w, .waiting (.load key) k) =>
      ⟨w, s.runs.set i (.ready (k (SessionsService.load w key))),
        .load i key (w.found key) :: s.log⟩
  | (w, .waiting (.save state) k) =>
      ⟨SessionsService.save w state, s.runs.set i (.ready (k ())),
        .save (some i) state.sessionKey (SessionsService.saved w) state.data
          (w.storedData state.sessionKey) :: s.log⟩
  | (w, .waiting c k) => ⟨w, s.runs.set i (.waiting c k), s.log⟩

/-- What the log says of another party's effect. -/
def accesses (w : World V) : Effect V → List (StoreAccess V)
  | .save state =>
      [.save none state.sessionKey (SessionsService.saved w) state.data
        (w.storedData state.sessionKey)]
  | .assign session state => [.assign session state.data]
  | _ => []

inductive Label (V ε : Type)
  /-- A message arrives. -/
  | arrive (message : IncomingChannelMessage V)
  /-- The call that run `i` awaits settles. -/
  | settle (i : Nat) (answer : (c : PortCall V) → Except ε c.Result)
  /-- Run `i` is resumed. -/
  | resume (i : Nat)
  /-- Another party acts. -/
  | effect (e : Effect V)

def step (s : System V) : Label V ε → Option (System V)
  | .arrive message =>
      some (proceed { s with runs := s.runs ++ [.ended] } s.runs.length (handleInbound message))
  | .settle i answer =>
      match s.runs[i]? with
      | some (.waiting c k) =>
          match answer c with
          | .ok v => some { s with runs := s.runs.set i (.ready (k v)) }
          | .error _ => some { s with runs := s.runs.set i .ended }
      | _ => none
  | .resume i =>
      match s.runs[i]? with
      | some (.ready p) => some (s.proceed i p)
      | _ => none
  | .effect e =>
      if e.Possible s.world then
        some { s with world := e.apply s.world, log := accesses s.world e ++ s.log }
      else none

end System

/-! ## The two phases of a run -/

/-- The call goes to a port other than the session store. -/
def PortCall.IsExternal : PortCall V → Prop
  | .load _ => False
  | .save _ => False
  | _ => True

/-- What a run that has loaded `session` under `key` may still do: call ports, and then save. -/
inductive Loaded (key : String) (session : Option (Ref (SessionState V))) :
    GatewayM V Unit → Prop
  | await {c : PortCall V} {k : c.Result → GatewayM V Unit} : c.IsExternal →
      (∀ v, Loaded key session (k v)) → Loaded key session (.await c k)
  | saves {route : RouteTarget} : route.sessionKey = key →
      Loaded key session (saveSession route session)

/-- What a run that has not loaded a session may still do: call ports, and then load. -/
inductive Unloaded : GatewayM V Unit → Prop
  | done : Unloaded (.done ())
  | await {c : PortCall V} {k : c.Result → GatewayM V Unit} : c.IsExternal →
      (∀ v, Unloaded (k v)) → Unloaded (.await c k)
  | loads {key : String} {k : Option (Ref (SessionState V)) → GatewayM V Unit} :
      (∀ session, Loaded key session (k session)) → Unloaded (.await (.load key) k)

theorem loaded_deliverThenSave (route : RouteTarget) (session : Option (Ref (SessionState V)))
    (replies : List (OutboundReply V)) :
    Loaded route.sessionKey session (deliverThenSave route session replies) := by
  induction replies with
  | nil => exact .saves rfl
  | cons reply replies ih =>
      rw [deliverThenSave_cons]
      exact .await trivial fun _ => .await trivial fun _ => ih

theorem loaded_afterLoad (message : IncomingChannelMessage V) (route : RouteTarget)
    (session : Option (Ref (SessionState V))) :
    Loaded route.sessionKey session (afterLoad message route session) := by
  rw [afterLoad_eq]
  exact .await trivial fun _ => .await trivial fun result =>
    loaded_deliverThenSave route session (TurnResult.replies result)

theorem unloaded_handleInbound (message : IncomingChannelMessage V) :
    Unloaded (handleInbound message) := by
  rw [handleInbound_eq]
  refine .await trivial fun (handled : Bool) => ?_
  cases handled with
  | true => exact .done
  | false =>
      refine .await trivial fun (decision : InboundDecision) => ?_
      unfold afterClassify
      split
      · exact .done
      · exact .await trivial fun (route : RouteTarget) =>
          .loads fun session => loaded_afterLoad message route session

/-- Whatever the run goes on with satisfies `P`. -/
def RunStatus.Next (P : GatewayM V Unit → Prop) : RunStatus V → Prop
  | .waiting _ k => ∀ v, P (k v)
  | .ready p => P p
  | .ended => True

/-- The access is one of run `i`. -/
def StoreAccess.By (i : Nat) : StoreAccess V → Bool
  | .load j _ _ => j == i
  | .save run _ _ _ _ => run == some i
  | .assign _ _ => false

/-- How far run `i` is, by the accesses it has made. -/
inductive Phase (own : List (StoreAccess V)) (i : Nat) (status : RunStatus V) : Prop
  | unloaded : own = [] → status.Next Unloaded → Phase own i status
  | loaded {key : String} {found : Option (Ref (SessionState V) × Ref (Record V))} :
      own = [.load i key found] → status.Next (Loaded key (found.map Prod.fst)) →
      Phase own i status
  | finished : status.Next (· = .done ()) → Phase own i status

/-! ## What the log says -/

/-- The session object saved last under a key, `session` if the log has no save under it. -/
def lastObject (key : String) (session : Option (Ref (SessionState V))) :
    List (StoreAccess V) → Option (Ref (SessionState V))
  | [] => session
  | .save _ key' made _ _ :: older => if key = key' then some made else lastObject key session older
  | _ :: older => lastObject key session older

/-- The data that a session object was saved with, or the data assigned to it last. -/
def dataOf (session : Ref (SessionState V)) : List (StoreAccess V) → Option (Ref (Record V))
  | [] => none
  | .save _ _ made data _ :: older => if made = session then some data else dataOf session older
  | .assign assigned data :: older =>
      if assigned = session then some data else dataOf session older
  | .load _ _ _ :: older => dataOf session older

/-- The session object stored under a key, and its data. -/
def lastFound (key : String) (log : List (StoreAccess V)) :
    Option (Ref (SessionState V) × Ref (Record V)) :=
  (lastObject key none log).bind fun session => (dataOf session log).map fun data => (session, data)

theorem lastObject_append (key : String) (session : Option (Ref (SessionState V)))
    (newer older : List (StoreAccess V)) :
    lastObject key session (newer ++ older) =
      lastObject key (lastObject key session older) newer := by
  induction newer with
  | nil => rfl
  | cons e newer ih =>
      cases e with
      | save run key' made data before =>
          simp only [List.cons_append, lastObject]
          rw [ih]
      | _ => exact ih

/-- A session object keeps having some data. -/
theorem dataOf_append {session : Ref (SessionState V)} {older : List (StoreAccess V)}
    {data : Ref (Record V)} (isData : dataOf session older = some data)
    (newer : List (StoreAccess V)) : ∃ data', dataOf session (newer ++ older) = some data' := by
  induction newer with
  | nil => exact ⟨data, isData⟩
  | cons e newer ih =>
      cases e with
      | load run key found => exact ih
      | save run key made data' before =>
          by_cases same : made = session
          · exact ⟨data', if_pos same⟩
          · obtain ⟨data'', isData'⟩ := ih
            exact ⟨data'', (if_neg same).trans isData'⟩
      | assign assigned data' =>
          by_cases same : assigned = session
          · exact ⟨data', if_pos same⟩
          · obtain ⟨data'', isData'⟩ := ih
            exact ⟨data'', (if_neg same).trans isData'⟩

/-- The access found what the log before it says, and a save makes a new session object. -/
def StoreAccess.Sees (older : List (StoreAccess V)) : StoreAccess V → Prop
  | .load _ key found => found = lastFound key older
  | .save _ key made _ before =>
      before = (lastFound key older).map Prod.snd ∧ dataOf made older = none
  | .assign _ _ => True

/-- The trailing save of run `i` follows its one load, which was under the same key, and saves
the data object that the session it has loaded holds then, if it has loaded one. -/
def SavesOwnLoad (i : Nat) (key : String) (data : Ref (Record V))
    (older : List (StoreAccess V)) : Prop :=
  ∃ since found earlier, older = since ++ .load i key found :: earlier ∧
    (∀ e ∈ since ++ earlier, ¬ e.By i) ∧
      ∀ session d, found = some (session, d) → dataOf session older = some data

/-- The invariant of all interleavings. -/
structure System.Consistent (s : System V) : Prop where
  closed : s.world.Closed
  stored : ∀ key, SessionsService.load s.world key = lastObject key none s.log
  objects : ∀ session, (s.world.sessions.read session).map SessionState.data =
    dataOf session s.log
  phases : ∀ i status, s.runs[i]? = some status → Phase (s.log.filter (·.By i)) i status
  started : ∀ e ∈ s.log, ∀ i, e.By i → i < s.runs.length
  sees : ∀ e older, e :: older <:+ s.log → e.Sees older
  savesOwn : ∀ i key session data before older,
    .save (some i) key session data before :: older <:+ s.log → SavesOwnLoad i key data older

end NestifyClaw.Gateway
