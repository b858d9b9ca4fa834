import NestifyClaw.Transition

/-!
# The Telegram channel service

`TelegramChannelService` as a labelled step on its two fields, the grammY runners it created,
and its calls suspended at an await: a `start()` waits for `getMe`, a `stop()` for the stop of
the runner it found running.  A runner handle is running from `run(bot)` until `stop()` is
called on it.

`ownership_iff` is the exact form of runner ownership: a run keeps every running runner in
`this.runner` (and a completed `stop()` or a failed `start()` leaves none behind) precisely if
no `start()` and no returning `stop()` meets a running runner, and no `getMe` rejects while the
runner of that `start()` is running.
-/

namespace NestifyClaw.Telegram

open Transition

/-- A runner is named by its position among the runners created so far; the `Bot` of the same
`start()` call and the call itself go by the same number. -/
abbrev RunnerId := Nat
abbrev StopId := Nat

/-- A configured `TELEGRAM_BOT_TOKEN`. -/
structure Token where
  value : String
  nonempty : value ≠ ""

structure State where
  bot : Option RunnerId
  runner : Option RunnerId
  /-- `isRunning()` of every runner created so far. -/
  runners : List Bool
  /-- `start()` calls waiting for `bot.api.getMe()`, by the runner they created. -/
  starts : List RunnerId
  /-- `stop()` calls waiting for `this.runner.stop()`. -/
  stops : List StopId
  nextStop : StopId
  deriving DecidableEq, Repr

def State.init : State := ⟨none, none, [], [], [], 0⟩

def State.isRunning (s : State) (r : RunnerId) : Prop := s.runners[r]? = some true

instance (s : State) (r : RunnerId) : Decidable (s.isRunning r) :=
  inferInstanceAs (Decidable (s.runners[r]? = some true))

/-! ## The service's functions -/

/-- `start()` up to the await of `getMe`, for the configured token if there is one. -/
def start (TELEGRAM_BOT_TOKEN : Option String) (s : State) : State :=
  match TELEGRAM_BOT_TOKEN with
  | none => s
  | some token =>
      if token = "" then s
      else
        { s with
          bot := some s.runners.length
          runner := some s.runners.length
          runners := s.runners ++ [true]
          starts := s.starts ++ [s.runners.length] }

/-- The two assignments that end `stop()`. -/
def clear (s : State) : State := { s with runner := none, bot := none }

/-- `stop()` up to its await, or to its end when no runner is running. -/
def stop (s : State) : State :=
  match s.runner with
  | none => clear s
  | some r =>
      if s.isRunning r then
        { s with
          runners := s.runners.set r false
          stops := s.stops ++ [s.nextStop]
          nextStop := s.nextStop + 1 }
      else clear s

/-! ## What the event loop can do -/

inductive Event
  | start
  /-- `getMe` of the `start()` call that created runner `r` resolves or rejects. -/
  | getMe (r : RunnerId) (resolves : Bool)
  | stop
  /-- The runner stop that a `stop()` call waits for completes. -/
  | stopped (c : StopId)
  deriving DecidableEq, Repr

def step (token : Token) (s : State) : Event → Option State
  | .start => some (Telegram.start (some token.value) s)
  | .getMe r _ => if r ∈ s.starts then some { s with starts := s.starts.erase r } else none
  | .stop => some (Telegram.stop s)
  | .stopped c => if c ∈ s.stops then some (clear { s with stops := s.stops.erase c }) else none

/-! ## The observer -/

/-- The service with what an onlooker remembers of its calls. -/
structure Watched where
  state : State
  /-- Pending `stop()` calls that a later `start()` call has overtaken. -/
  overtaken : List StopId
  /-- Since the last `start()` call, a `stop()` that began after it has completed or that very
  `start()` has rejected. -/
  quiet : Bool
  /-- The event just seen rejected the `start()` call of this runner. -/
  rejected : Option RunnerId
  deriving DecidableEq, Repr

def Watched.init : Watched := ⟨State.init, [], true, none⟩

def Watched.observe (w : Watched) (s : State) : Event → Watched
  | .start => ⟨s, w.state.stops, false, none⟩
  | .getMe _ true => ⟨s, w.overtaken, w.quiet, none⟩
  | .getMe r false => ⟨s, w.overtaken, w.quiet || r + 1 = w.state.runners.length, some r⟩
  -- a stop() that found nothing running has completed at once
  | .stop => ⟨s, w.overtaken, w.quiet || s.stops.length = w.state.stops.length, none⟩
  | .stopped c => ⟨s, w.overtaken, w.quiet || c ∉ w.overtaken, none⟩

def Watched.step (token : Token) (w : Watched) (e : Event) : Option Watched :=
  (Telegram.step token w.state e).map fun s => w.observe s e

def State.NoneRunning (s : State) : Prop := true ∉ s.runners

instance (s : State) : Decidable s.NoneRunning :=
  inferInstanceAs (Decidable (true ∉ s.runners))

/-- Runner ownership, in one state. -/
structure Owned (w : Watched) : Prop where
  /-- A running runner is the one held in `this.runner`. -/
  held : ∀ r, w.state.isRunning r → w.state.runner = some r
  /-- After a completed `stop()` no `start()` overtook, or after the last `start()` rejected,
  no runner is running until the next `start()` call. -/
  quiet : w.quiet = true → w.state.NoneRunning
  /-- A `start()` that rejects leaves the runner it created not running. -/
  rejected : ∀ r, w.rejected = some r → ¬ w.state.isRunning r

/-- The step meets no runner that it would orphan or leave behind. -/
def Clean (w : Watched) : Event → Prop
  | .start => w.state.NoneRunning
  | .getMe r false => ¬ w.state.isRunning r
  | .stopped _ => w.state.NoneRunning
  | .getMe _ true => True
  | .stop => True

instance (w : Watched) (e : Event) : Decidable (Clean w e) := by
  unfold Clean
  split <;> infer_instance

instance : DecidablePred Owned := fun w =>
  decidable_of_iff
    ((∀ r < w.state.runners.length, w.state.isRunning r → w.state.runner = some r) ∧
      (w.quiet = true → w.state.NoneRunning) ∧
      ∀ r ∈ w.rejected, ¬ w.state.isRunning r) <| by
    constructor
    · rintro ⟨held, quiet, rejected⟩
      refine ⟨fun r running => held r ?_ running, quiet, rejected⟩
      exact (List.getElem?_eq_some_iff.mp running).1
    · rintro ⟨held, quiet, rejected⟩
      exact ⟨fun r _ => held r, quiet, rejected⟩

/-- Only the newest runner is ever held. -/
def HoldsNewest (w : Watched) : Prop :=
  ∀ r, w.state.runner = some r → r + 1 = w.state.runners.length

/-! ## One step -/

theorem noneRunning_iff {s : State} : s.NoneRunning ↔ ∀ r, ¬ s.isRunning r := by
  rw [State.NoneRunning, List.mem_iff_getElem?, not_exists]
  rfl

theorem start_configured (token : Token) (s : State) :
    start (some token.value) s =
      { s with
        bot := some s.runners.length
        runner := some s.runners.length
        runners := s.runners ++ [true]
        starts := s.starts ++ [s.runners.length] } := by
  simp [start, token.nonempty]

/-- `stop()` either asks the held, running runner to stop and waits, or is done at once. -/
theorem stop_cases (s : State) :
    (∃ r, s.runner = some r ∧ s.isRunning r ∧
      stop s = { s with
                 runners := s.runners.set r false
                 stops := s.stops ++ [s.nextStop]
                 nextStop := s.nextStop + 1 }) ∨
    ((∀ r, s.runner = some r → ¬ s.isRunning r) ∧ stop s = clear s) := by
  cases runner : s.runner with
  | none => exact Or.inr ⟨by simp, by simp [stop, runner]⟩
  | some r =>
      by_cases running : s.isRunning r
      · exact Or.inl ⟨r, rfl, running, by simp [stop, runner, running]⟩
      · exact Or.inr ⟨by simpa using running, by simp [stop, runner, running]⟩

theorem watched_step {token : Token} {w w' : Watched} {e : Event}
    (h : w.step token e = some w') :
    ∃ s, step token w.state e = some s ∧ w' = w.observe s e := by
  rcases Option.map_eq_some_iff.mp h with ⟨s, stepped, eq⟩
  exact ⟨s, stepped, eq.symm⟩

theorem step_getMe {token : Token} {s t : State} {r : RunnerId} {resolves : Bool}
    (h : step token s (.getMe r resolves) = some t) :
    t = { s with starts := s.starts.erase r } := by
  rw [step] at h
  split at h
  · exact (Option.some.inj h).symm
  · cases h

theorem step_stopped {token : Token} {s t : State} {c : StopId}
    (h : step token s (.stopped c) = some t) :
    t = clear { s with stops := s.stops.erase c } := by
  rw [step] at h
  split at h
  · exact (Option.some.inj h).symm
  · cases h

theorem HoldsNewest.step {token : Token} {w w' : Watched} {e : Event} (inv : HoldsNewest w)
    (h : w.step token e = some w') : HoldsNewest w' := by
  rcases watched_step h with ⟨s, stepped, rfl⟩
  intro r held
  cases e with
  | start =>
      cases Option.some.inj stepped
      simp only [Watched.observe, start_configured, Option.some.injEq] at held ⊢
      simp [← held]
  | getMe r' resolves =>
      cases step_getMe stepped
      cases resolves <;> exact inv r held
  | stop =>
      cases Option.some.inj stepped
      rcases stop_cases w.state with ⟨r', runner, -, eq⟩ | ⟨-, eq⟩
      · simp only [Watched.observe, eq, List.length_set] at held ⊢
        exact inv r held
      · simp only [Watched.observe, eq, clear] at held
        cases held
  | stopped c =>
      cases step_stopped stepped
      cases held

/-- When the held runner is the only one running and is not running, none is. -/
theorem Owned.noneRunning {w : Watched} (owned : Owned w)
    (idle : ∀ r, w.state.runner = some r → ¬ w.state.isRunning r) : w.state.NoneRunning :=
  noneRunning_iff.mpr fun r running => idle r (owned.held r running) running

/-- A state in which no runner is running is owned, whatever was observed. -/
theorem Owned.of_noneRunning {w : Watched} (none_ : w.state.NoneRunning) : Owned w where
  held r running := (noneRunning_iff.mp none_ r running).elim
  quiet _ := none_
  rejected r _ := noneRunning_iff.mp none_ r

/-- Stopping the only running runner leaves none running. -/
theorem Owned.noneRunning_set {w : Watched} (owned : Owned w) {r : RunnerId}
    (runner : w.state.runner = some r) : true ∉ w.state.runners.set r false := by
  intro member
  rcases List.mem_iff_getElem?.mp member with ⟨i, running⟩
  by_cases eq : r = i
  · subst eq
    rw [List.getElem?_set_self'] at running
    cases stored : w.state.runners[r]? with
    | none => simp [stored] at running
    | some flag => simp [stored] at running
  · rw [List.getElem?_set_ne eq] at running
    have held := owned.held i running
    rw [runner] at held
    exact eq (Option.some.inj held)

/-- From an owned state a step leads to an owned state precisely when it is clean. -/
theorem owned_step {token : Token} {w w' : Watched} {e : Event} (inv : HoldsNewest w)
    (owned : Owned w) (h : w.step token e = some w') : Owned w' ↔ Clean w e := by
  rcases watched_step h with ⟨s, stepped, rfl⟩
  cases e with
  | start =>
      cases Option.some.inj stepped
      rw [start_configured]
      constructor
      · intro after
        refine noneRunning_iff.mpr fun r running => ?_
        have inRange := (List.getElem?_eq_some_iff.mp running).1
        have still : (w.state.runners ++ [true])[r]? = some true := by
          rw [List.getElem?_append_left inRange]
          exact running
        have newest : some w.state.runners.length = some r := after.held r still
        have isNewest : w.state.runners.length = r := Option.some.inj newest
        omega
      · intro none_
        refine ⟨fun r running => ?_, fun quiet => (Bool.false_ne_true quiet).elim,
          fun r eq => by cases eq⟩
        by_cases old : r < w.state.runners.length
        · have before : w.state.isRunning r := by
            have still : (w.state.runners ++ [true])[r]? = some true := running
            rwa [List.getElem?_append_left old] at still
          exact (noneRunning_iff.mp none_ r before).elim
        · have inRange := (List.getElem?_eq_some_iff.mp running).1
          have inRange' : r < (w.state.runners ++ [true]).length := inRange
          rw [List.length_append, List.length_singleton] at inRange'
          exact congrArg some (Nat.le_antisymm (Nat.not_lt.mp old) (Nat.lt_succ_iff.mp inRange'))
  | getMe r resolves =>
      cases step_getMe stepped
      cases resolves with
      | true => exact iff_of_true ⟨owned.held, owned.quiet, fun r eq => by cases eq⟩ trivial
      | false =>
          constructor
          · exact fun after => after.rejected r rfl
          · intro idle
            refine ⟨owned.held, fun quiet => ?_, fun r' eq => Option.some.inj eq ▸ idle⟩
            simp only [Watched.observe, Bool.or_eq_true, decide_eq_true_eq] at quiet
            rcases quiet with before | newest
            · exact owned.quiet before
            · refine owned.noneRunning fun r' held => ?_
              have heldNewest := inv r' held
              have same : r' = r := Nat.succ.inj (heldNewest.trans newest.symm)
              exact same ▸ idle
  | stop =>
      cases Option.some.inj stepped
      refine iff_of_true (Owned.of_noneRunning ?_) trivial
      rcases stop_cases w.state with ⟨r, runner, -, eq⟩ | ⟨idle, eq⟩
      · simp only [Watched.observe, State.NoneRunning, eq]
        exact owned.noneRunning_set runner
      · simp only [Watched.observe, eq]
        exact owned.noneRunning idle
  | stopped c =>
      cases step_stopped stepped
      constructor
      · intro after
        exact after.noneRunning fun r held => by cases held
      · exact fun none_ => Owned.of_noneRunning none_

/-- A run of the service keeps runner ownership in every state it passes through precisely if
each of its steps is clean. -/
theorem ownership_iff (token : Token) (es : List Event) :
    Always (Watched.step token) Owned Watched.init es ↔
      Meets (Watched.step token) Clean Watched.init es :=
  always_iff_meets (fun _ _ _ inv _ => inv.step) (fun _ _ _ => owned_step)
    (fun r held => by cases held) (Owned.of_noneRunning (by decide))

/-- `stop()` waits for the first runner while a new `start()` stores the second, which the
returning `stop()` then drops from `this.runner` with the runner still polling. -/
theorem not_ownership :
    ¬ ∀ token es, Always (Watched.step token) Owned Watched.init es := by
  intro always
  have run := always ⟨"token", by decide⟩
    [.start, .getMe 0 true, .stop, .start, .stopped 0]
  exact absurd run (by decide)

end NestifyClaw.Telegram
