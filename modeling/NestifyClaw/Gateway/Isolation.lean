import NestifyClaw.Keyed
import NestifyClaw.Gateway.Conversation

/-!
# Conversations are isolated up to their session keys

A gateway that handles one message after another is a machine with one cell, the stored session,
per session key (`handleAll_refines`), so all messages with other keys can be purged.  A session
key joins channel and chat id with a colon, and two conversations that re-associate across a
colon share it: this is the one way a conversation is not isolated (`isolated_iff`).
-/

namespace NestifyClaw.Gateway

open Separator

variable {V ε : Type}

/-- The conversation a message belongs to. -/
def IncomingChannelMessage.conversation (message : IncomingChannelMessage V) : String × String :=
  (message.channel, message.chatId)

/-- A message and the time of its arrival. -/
structure Arrival (V : Type) where
  message : IncomingChannelMessage V
  now : Nat

namespace RoutingService

/-- The session key of a conversation. -/
def sessionKey (c : String × String) : String :=
  "agent:" ++ DEFAULT_AGENT_ID ++ ":" ++ c.1 ++ ":" ++ c.2

theorem toList_sessionKey (c : String × String) :
    (sessionKey c).toList =
      ("agent:" ++ DEFAULT_AGENT_ID ++ ":").toList ++ joinOn ':' (chars c) := by
  simp [sessionKey, joinOn, chars]

theorem sessionKey_eq_iff {p q : String × String} :
    sessionKey p = sessionKey q ↔ p = q ∨ Reassociates ':' (chars p) (chars q) := by
  rw [← String.toList_inj, toList_sessionKey, toList_sessionKey, List.append_cancel_left_eq,
    joinOn_eq_iff, chars_injective.eq_iff]

/-- Routing tells two conversations apart exactly when they do not re-associate. -/
theorem resolve_ne_iff {message message' : IncomingChannelMessage V}
    (different : message.conversation ≠ message'.conversation) :
    resolve message ≠ resolve message' ↔
      ¬ Reassociates ':' (chars message.conversation) (chars message'.conversation) := by
  have sameTarget : resolve message = resolve message' ↔
      sessionKey message.conversation = sessionKey message'.conversation :=
    ⟨congrArg RouteTarget.sessionKey,
      fun same => congrArg (fun key => RouteTarget.mk DEFAULT_AGENT_ID key .agent) same⟩
  rw [Ne, sameTarget, sessionKey_eq_iff, or_iff_right different]

end RoutingService

open RoutingService

/-! ## Messages one after another -/

section Handle

variable (ports : TurnPorts V ε)

/-- The turns run so far and the world. -/
abbrev GatewayState (V : Type) := List (TurnView V) × World V

def handle (s : GatewayState V) (a : Arrival V) : GatewayState V :=
  ending ports (GatewayService.handleInbound a.message) s.1 { s.2 with now := a.now }

/-- From start-up. -/
def handleAll (as : List (Arrival V)) : GatewayState V :=
  as.foldl (handle ports) ([], World.new 0)

/-- The session data passed to the turns of a conversation. -/
def passed (c : String × String) (turns : List (TurnView V)) : List (Option (Record V)) :=
  (turns.filter fun turn => turn.message.conversation = c).map fun turn =>
    turn.session.map SessionView.data

/-- Without the messages of all other conversations, the turns of `c` get the same session data,
and the same session data is left for `c`. -/
def Isolated (as : List (Arrival V)) (c : String × String) : Prop :=
  let all := handleAll ports as
  let own := handleAll ports (as.filter fun a => a.message.conversation = c)
  passed c all.1 = passed c own.1 ∧
    all.2.sessionData (sessionKey c) = own.2.sessionData (sessionKey c)

/-! ## The machine with one session per key -/

def arrivalKey (a : Arrival V) : String := sessionKey a.message.conversation

def TurnPorts.cell (a : Arrival V) (session : Option (SessionView V)) :
    Option (SessionView V) × List (TurnView V) :=
  ports.converse a.message a.now session

/-- The world's sessions are those of the machine. -/
def Sessions (w : World V) (m : String → Option (SessionView V)) : Prop :=
  w.Apart ∧ ∀ key, w.sessionView key = m key

theorem handle_refines {s : GatewayState V} {m : String → Option (SessionView V)}
    (sessions : Sessions s.2 m) (a : Arrival V) :
    let next := ports.cell a (m (arrivalKey a))
    (handle ports s a).1 = s.1 ++ next.2 ∧
      Sessions (handle ports s a).2 (Function.update m (arrivalKey a) next.1) := by
  intro next
  let w : World V := { s.2 with now := a.now }
  have apart : w.Apart := ⟨⟨sessions.1.closed.stored, sessions.1.closed.data⟩, sessions.1.distinct⟩
  obtain ⟨apart', turns, own, others⟩ := run_handleInbound ports s.1 apart a.message
  have before : w.sessionView (arrivalKey a) = m (arrivalKey a) := sessions.2 _
  have meant : ports.converse a.message w.now (w.sessionView (arrivalKey a)) = next := by
    rw [before]
    rfl
  refine ⟨turns.trans (congrArg (s.1 ++ ·.2) meant), apart', fun key => ?_⟩
  by_cases same : key = arrivalKey a
  · subst same
    rw [Function.update_self]
    exact own.trans (congrArg Prod.fst meant)
  · rw [Function.update_of_ne same]
    exact (others key same).trans (sessions.2 key)

theorem handleAll_refines (as : List (Arrival V)) :
    let machine := Keyed.run arrivalKey ports.cell (fun _ => none) as
    (handleAll ports as).1 = machine.2 ∧ Sessions (handleAll ports as).2 machine.1 := by
  -- from any state that the machine matches
  have refines : ∀ (s : GatewayState V) (m : String → Option (SessionView V)), Sessions s.2 m →
      let machine := Keyed.run arrivalKey ports.cell m as
      (as.foldl (handle ports) s).1 = s.1 ++ machine.2 ∧
        Sessions (as.foldl (handle ports) s).2 machine.1 := by
    induction as with
    | nil => exact fun s m sessions => ⟨(List.append_nil _).symm, sessions⟩
    | cons a as ih =>
        intro s m sessions
        obtain ⟨turns, next⟩ := handle_refines ports sessions a
        obtain ⟨later, last⟩ := ih (handle ports s a) _ next
        refine ⟨?_, last⟩
        rw [List.foldl_cons, later, turns, List.append_assoc]
        rfl
  have started : Sessions (World.new 0 : World V) fun _ => none :=
    ⟨⟨World.closed_new 0, fun _ _ _ _ found => nomatch found⟩, fun _ => rfl⟩
  exact refines ([], World.new 0) _ started

theorem Sessions.sessionData {w : World V} {m : String → Option (SessionView V)}
    (sessions : Sessions w m) (key : String) :
    w.sessionData key = (m key).map SessionView.data := by
  rw [sessions.1.closed.sessionData_eq, ← sessions.2 key, World.sessionView_eq, World.storedData,
    Option.map_map, Option.map_map]
  rfl

/-- The turns of a message are about that message. -/
theorem message_of_mem_cell {a : Arrival V} {session : Option (SessionView V)}
    {turn : TurnView V} (member : turn ∈ (ports.cell a session).2) : turn.message = a.message := by
  unfold TurnPorts.cell TurnPorts.converse at member
  split at member
  · rw [List.mem_singleton.mp member]
  · cases member

end Handle

/-! ## Isolation -/

/-- No message is of another conversation that re-associates with `c` across a colon. -/
def ColonApart (as : List (Arrival V)) (c : String × String) : Prop :=
  ∀ a ∈ as, ¬ Reassociates ':' (chars a.message.conversation) (chars c)

theorem ColonApart.arrivalKey_eq_iff {as : List (Arrival V)} {c : String × String}
    (apart : ColonApart as c) {a : Arrival V} (member : a ∈ as) :
    arrivalKey a = sessionKey c ↔ a.message.conversation = c := by
  rw [arrivalKey, sessionKey_eq_iff, or_iff_left (apart a member)]

/-- What a conversation sees of the machine depends on its own messages only. -/
theorem ColonApart.passed_eq (ports : TurnPorts V ε) {as : List (Arrival V)} {c : String × String}
    (apart : ColonApart as c) :
    let own := Keyed.cellRun ports.cell none
      (as.filter fun a => a.message.conversation = c)
    passed c (handleAll ports as).1 = own.2.map (fun turn => turn.session.map SessionView.data) ∧
      (handleAll ports as).2.sessionData (sessionKey c) = own.1.map SessionView.data := by
  intro own
  obtain ⟨turns, sessions⟩ := handleAll_refines ports as
  have sameMessages : (as.filter fun a => arrivalKey a = sessionKey c) =
      as.filter fun a => a.message.conversation = c :=
    List.filter_congr fun a member => decide_eq_decide.mpr (apart.arrivalKey_eq_iff member)
  constructor
  · rw [passed, turns, Keyed.run_outputs (k := sessionKey c) _ fun a member s turn isTurn => ?_,
      sameMessages]
    rw [message_of_mem_cell ports isTurn]
    exact decide_eq_decide.mpr (apart.arrivalKey_eq_iff member).symm
  · rw [sessions.sessionData, Keyed.run_cell, sameMessages]

theorem ColonApart.isolated (ports : TurnPorts V ε) {as : List (Arrival V)}
    {c : String × String} (apart : ColonApart as c) : Isolated ports as c := by
  have own : ColonApart (as.filter fun a => a.message.conversation = c) c :=
    fun a member => apart a (List.mem_filter.mp member).1
  obtain ⟨turns, data⟩ := apart.passed_eq ports
  obtain ⟨turns', data'⟩ := own.passed_eq ports
  simp only [List.filter_filter, Bool.and_self] at turns' data'
  exact ⟨turns.trans turns'.symm, data.trans data'.symm⟩

/-! ## A conversation that takes another one's session -/

/-- Every port succeeds, and the runtime fails on the messages of `c`. -/
def failsOn (c : String × String) [Inhabited ε] : TurnPorts V ε where
  tryHandle _ := .ok false
  classify _ := .ok ⟨.respond, none⟩
  resolveInbound _ := .ok .undefined
  runTurn turn := ([], if turn.message.conversation = c then .error default else .ok ⟨[]⟩)
  prepareOutbound reply := .ok reply
  deliver _ _ := .ok ()

/-- There is a session after a message exactly if there was one or the message was not of `c`. -/
theorem isSome_failsOn_cell [Inhabited ε] (c : String × String) (a : Arrival V)
    (session : Option (SessionView V)) :
    ((failsOn (ε := ε) c).cell a session).1.isSome =
      (session.isSome || decide (a.message.conversation ≠ c)) := by
  by_cases own : a.message.conversation = c <;> cases session <;>
    simp [TurnPorts.cell, TurnPorts.converse, TurnPorts.responds, TurnPorts.delivers, failsOn,
      onAnswer, own, TurnState.start, TurnState.session, TurnState.trailing, TurnState.keep]

theorem isSome_failsOn_cellRun [Inhabited ε] (c : String × String) (as : List (Arrival V))
    (session : Option (SessionView V)) :
    (Keyed.cellRun (failsOn (ε := ε) c).cell session as).1.isSome =
      (session.isSome || as.any fun a => a.message.conversation ≠ c) := by
  induction as generalizing session with
  | nil => simp [Keyed.cellRun]
  | cons a as ih =>
      rw [Keyed.cellRun, ih, isSome_failsOn_cell, List.any_cons, Bool.or_assoc]

theorem not_isolated_of_reassociates [Inhabited ε] {as : List (Arrival V)} {c : String × String}
    {a : Arrival V} (member : a ∈ as)
    (moved : Reassociates ':' (chars a.message.conversation) (chars c)) :
    ¬ Isolated (failsOn (ε := ε) c) as c := by
  intro isolated
  have different : a.message.conversation ≠ c := fun same => moved.ne (congrArg chars same)
  have sameKey : arrivalKey a = sessionKey c := sessionKey_eq_iff.mpr (Or.inr moved)
  have left := congrArg Option.isSome isolated.2
  rw [(handleAll_refines _ _).2.sessionData, (handleAll_refines _ _).2.sessionData,
    Keyed.run_cell, Keyed.run_cell, Option.isSome_map, Option.isSome_map, isSome_failsOn_cellRun,
    isSome_failsOn_cellRun] at left
  have taken : ((as.filter fun a => arrivalKey a = sessionKey c).any
      fun a => a.message.conversation ≠ c) = true :=
    List.any_eq_true.mpr ⟨a, List.mem_filter.mpr ⟨member, by simpa using sameKey⟩,
      by simpa using different⟩
  have untaken : (((as.filter fun a => a.message.conversation = c).filter
      fun a => arrivalKey a = sessionKey c).any fun a => a.message.conversation ≠ c) = false := by
    rw [List.any_eq_false]
    intro b isOwn
    have own := (List.mem_filter.mp (List.mem_filter.mp isOwn).1).2
    simpa using own
  rw [taken, untaken] at left
  cases left

/-- A conversation is isolated in a sequence of messages, under all ports and runtimes, exactly
when none of the messages is of a conversation that re-associates with it across a colon; and
two conversations have different route targets exactly when they do not re-associate. -/
theorem isolated_iff [Inhabited ε] (as : List (Arrival V)) (c : String × String) :
    ((∀ ports : TurnPorts V ε, Isolated ports as c) ↔
      ∀ a ∈ as, ¬ Reassociates ':' (chars a.message.conversation) (chars c)) ∧
    ∀ message message' : IncomingChannelMessage V,
      message.conversation ≠ message'.conversation →
        (resolve message ≠ resolve message' ↔
          ¬ Reassociates ':' (chars message.conversation) (chars message'.conversation)) := by
  refine ⟨⟨fun isolated a member moved => ?_, fun apart ports => ?_⟩,
    fun _ _ different => resolve_ne_iff different⟩
  · exact not_isolated_of_reassociates member moved (isolated (failsOn c))
  · exact ColonApart.isolated ports apart

/-- Chat `"b:c"` of channel `"a"` takes the session of chat `"c"` of channel `"a:b"`. -/
theorem not_isolated :
    ¬ ∀ (ports : TurnPorts Nat String) (as : List (Arrival Nat)) (c : String × String),
      Isolated ports as c := by
  intro isolated
  refine not_isolated_of_reassociates List.mem_cons_self ?_ (isolated (failsOn ("a:b", "c"))
    [⟨⟨"a", "b:c", none, none, some "hello", .undefined⟩, 1⟩] ("a:b", "c"))
  decide

end NestifyClaw.Gateway
