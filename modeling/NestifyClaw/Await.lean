import Mathlib.Data.List.Infix

/-!
# Programs that await calls

`Prog σ C R α` is an asynchronous function over local state `σ`: between two awaits it may read
and write the state, `await c k` makes the call `c : C`, is suspended until the callee settles
with an `R c`, and goes on with `k`.

* `Prog.run` runs a program alone against callees that keep a state of their own and may change
  the local state as well.  A rejected call ends the program with its error.
* `Prog.Traces` lists the traces a program can leave whatever the callees answer;
  `Prog.run_traces` places every run among them.
* `Prog.advance` goes to the next await only, for schedulers that interleave programs.
-/

namespace NestifyClaw.Await

inductive Prog (σ C : Type) (R : C → Type) (α : Type) : Type
  | done (a : α)
  | read (k : σ → Prog σ C R α)
  | write (s : σ) (k : Prog σ C R α)
  | await (c : C) (k : R c → Prog σ C R α)

/-- A settled call. -/
structure Event (C : Type) (R : C → Type) (ε : Type) where
  call : C
  outcome : Except ε (R call)

/-- How a run ended: the settled calls in order, the callees' state, the local state, and the
value returned or the error rejected with. -/
structure Outcome (σ τ C : Type) (R : C → Type) (ε α : Type) where
  trace : List (Event C R ε)
  ports : τ
  state : σ
  result : Except ε α

variable {σ τ C : Type} {R : C → Type} {ε α β : Type}

namespace Prog

def bind : Prog σ C R α → (α → Prog σ C R β) → Prog σ C R β
  | done a, f => f a
  | read k, f => read fun s => (k s).bind f
  | write s k, f => write s (k.bind f)
  | await c k, f => await c fun v => (k v).bind f

instance : Monad (Prog σ C R) where
  pure := done
  bind := bind

/-- Make a call and return what it settles with. -/
def call (c : C) : Prog σ C R (R c) := await c done

/-- A callee: given its own state and the local state, it changes both and settles. -/
abbrev Ports (σ τ C : Type) (R : C → Type) (ε : Type) :=
  τ → σ → (c : C) → τ × σ × Except ε (R c)

def run (ports : Ports σ τ C R ε) : Prog σ C R α → τ → σ → Outcome σ τ C R ε α
  | done a, t, s => ⟨[], t, s, .ok a⟩
  | read k, t, s => (k s).run ports t s
  | write s k, t, _ => k.run ports t s
  | await c k, t, s =>
      match ports t s c with
      | (t, s, .error e) => ⟨[⟨c, .error e⟩], t, s, .error e⟩
      | (t, s, .ok v) =>
          let rest := (k v).run ports t s
          { rest with trace := ⟨c, .ok v⟩ :: rest.trace }

/-- Where a program stands when it has nothing to do but wait. -/
inductive Suspension (σ C : Type) (R : C → Type) (α : Type) : Type
  | finished (a : α)
  | waiting (c : C) (k : R c → Prog σ C R α)

/-- Run to the next await. -/
def advance : Prog σ C R α → σ → σ × Suspension σ C R α
  | done a, s => (s, .finished a)
  | read k, s => (k s).advance s
  | write s k, _ => k.advance s
  | await c k, s => (s, .waiting c k)

/-- The traces and results a program can have, whatever its calls settle with. -/
inductive Traces : Prog σ C R α → List (Event C R ε) → Except ε α → Prop
  | done (a : α) : Traces (done a) [] (.ok a)
  | read {k : σ → Prog σ C R α} {s trace result} :
      Traces (k s) trace result → Traces (read k) trace result
  | write {s : σ} {k : Prog σ C R α} {trace result} :
      Traces k trace result → Traces (write s k) trace result
  | settles {c : C} {k : R c → Prog σ C R α} {v trace result} :
      Traces (k v) trace result → Traces (await c k) (⟨c, .ok v⟩ :: trace) result
  | rejects {c : C} {k : R c → Prog σ C R α} {e : ε} :
      Traces (await c k) [⟨c, .error e⟩] (.error e)

/-! ## Running -/

section Run

variable {ports : Ports σ τ C R ε} {t t' : τ} {s s' : σ}

theorem run_await_ok {c : C} {k : R c → Prog σ C R α} {v : R c}
    (settled : ports t s c = (t', s', .ok v)) :
    (await c k).run ports t s =
      { (k v).run ports t' s' with
        trace := ⟨c, .ok v⟩ :: ((k v).run ports t' s').trace } := by
  simp [run, settled]

theorem run_await_error {c : C} {k : R c → Prog σ C R α} {e : ε}
    (settled : ports t s c = (t', s', .error e)) :
    (await c k).run ports t s = ⟨[⟨c, .error e⟩], t', s', .error e⟩ := by
  simp [run, settled]

/-- Up to its next await a program runs on its own. -/
theorem run_of_advance {p : Prog σ C R α} {c : C} {k : R c → Prog σ C R α}
    (next : p.advance s = (s', .waiting c k)) :
    p.run ports t s = (await c k).run ports t s' := by
  induction p generalizing s with
  | done a => cases next
  | read k' ih => exact ih s next
  | write s'' k' ih => exact ih next
  | await c' k' _ => cases next; rfl

/-- What a program does does not depend on what its callees are: it is one of its traces. -/
theorem run_traces (p : Prog σ C R α) (t : τ) (s : σ) :
    p.Traces (p.run ports t s).trace (p.run ports t s).result := by
  induction p generalizing t s with
  | done a => exact .done a
  | read k ih => exact .read (ih s t s)
  | write s' k ih => exact .write (ih t s')
  | await c k ih =>
      rcases settled : ports t s c with ⟨t', s', e | v⟩
      · rw [run_await_error settled]
        exact .rejects
      · rw [run_await_ok settled]
        exact .settles (ih v t' s')

end Run

/-! ## Rejecting runs -/

section Rejecting

variable (ports : Ports σ τ C R ε) (Inv : τ → σ → Prop)

/-- From a start where `Inv` holds, a run that rejects ends where `Inv` holds. -/
def KeepsOnReject (p : Prog σ C R α) : Prop :=
  ∀ t s e, Inv t s → (p.run ports t s).result = .error e →
    Inv (p.run ports t s).ports (p.run ports t s).state

variable {ports : Ports σ τ C R ε} {Inv : τ → σ → Prop}

theorem keepsOnReject_of_ok {p : Prog σ C R α}
    (ok : ∀ t s, ∃ a, (p.run ports t s).result = .ok a) : KeepsOnReject ports Inv p := by
  intro t s e _ rejected
  rcases ok t s with ⟨a, returned⟩
  rw [returned] at rejected
  cases rejected

theorem keepsOnReject_done (a : α) : KeepsOnReject ports Inv (done a : Prog σ C R α) :=
  keepsOnReject_of_ok fun _ _ => ⟨a, rfl⟩

theorem KeepsOnReject.ite {c : Prop} [Decidable c] {p q : Prog σ C R α}
    (yes : KeepsOnReject ports Inv p) (no : KeepsOnReject ports Inv q) :
    KeepsOnReject ports Inv (if c then p else q) := by
  split
  · exact yes
  · exact no

/-- A call that keeps `Inv`, whether it rejects or not, followed by what keeps it. -/
theorem keepsOnReject_await {c : C} {k : R c → Prog σ C R α}
    (call : ∀ t s, Inv t s → Inv (ports t s c).1 (ports t s c).2.1)
    (rest : ∀ v, KeepsOnReject ports Inv (k v)) : KeepsOnReject ports Inv (await c k) := by
  intro t s e inv rejected
  have kept := call t s inv
  rcases settled : ports t s c with ⟨t', s', e' | v⟩ <;> rw [settled] at kept
  · rw [run_await_error settled]
    exact kept
  · rw [run_await_ok settled] at rejected ⊢
    exact rest v t' s' e kept rejected

end Rejecting

/-! ## Inverting traces -/

theorem traces_done {a : α} {trace : List (Event C R ε)} {result : Except ε α}
    (h : (done a : Prog σ C R α).Traces trace result) : trace = [] ∧ result = .ok a := by
  cases h
  exact ⟨rfl, rfl⟩

theorem traces_read {k : σ → Prog σ C R α} {trace : List (Event C R ε)}
    {result : Except ε α} (h : (read k).Traces trace result) :
    ∃ s, (k s).Traces trace result := by
  cases h with
  | read rest => exact ⟨_, rest⟩

theorem traces_write {s : σ} {k : Prog σ C R α} {trace : List (Event C R ε)}
    {result : Except ε α} (h : (write s k).Traces trace result) : k.Traces trace result := by
  cases h with
  | write rest => exact rest

theorem traces_await {c : C} {k : R c → Prog σ C R α} {trace : List (Event C R ε)}
    {result : Except ε α} (h : (await c k).Traces trace result) :
    (∃ v rest, trace = ⟨c, .ok v⟩ :: rest ∧ (k v).Traces rest result) ∨
      ∃ e, trace = [⟨c, .error e⟩] ∧ result = .error e := by
  cases h with
  | settles rest => exact Or.inl ⟨_, _, rfl, rest⟩
  | rejects => exact Or.inr ⟨_, rfl, rfl⟩

end Prog

/-! ## Scripts -/

/-- The trace goes along a script of fulfilled calls and stops early exactly at a call that
rejects, which is its last call and whose error is the result. -/
inductive Follows : List (Event C R ε) → List (Event C R ε) → Except ε Unit → Prop
  | completed : Follows [] [] (.ok ())
  | settles {c : C} {v : R c} {script trace result} :
      Follows script trace result → Follows (⟨c, .ok v⟩ :: script) (⟨c, .ok v⟩ :: trace) result
  | rejects {c : C} {v : R c} {script} {e : ε} :
      Follows (⟨c, .ok v⟩ :: script) [⟨c, .error e⟩] (.error e)

theorem Follows.calls_prefix {script trace : List (Event C R ε)} {result : Except ε Unit}
    (follows : Follows script trace result) :
    trace.map Event.call <+: script.map Event.call := by
  induction follows with
  | completed => exact List.prefix_refl _
  | settles _ ih => exact List.cons_prefix_cons.mpr ⟨rfl, ih⟩
  | rejects => exact List.cons_prefix_cons.mpr ⟨rfl, List.nil_prefix⟩

end NestifyClaw.Await
