import Mathlib.Data.List.Basic
import Mathlib.Logic.Function.Basic

/-!
# Machines with one cell per key

Each input of such a machine has a key, works on the cell of that key alone, and has outputs
that depend on that cell alone.  What happens to one cell is then a run of its own inputs
(`run_cell`, `run_outputs`): inputs with other keys can be purged.
-/

namespace NestifyClaw.Keyed

universe u v w x

variable {A : Type u} {K : Type v} {S : Type w} {O : Type x} [DecidableEq K]

section Machine

variable (key : A → K) (cell : A → S → S × List O)

/-- The machine that has the one cell only. -/
def cellRun : S → List A → S × List O
  | s, [] => (s, [])
  | s, a :: as =>
      let rest := cellRun (cell a s).1 as
      (rest.1, (cell a s).2 ++ rest.2)

def run : (K → S) → List A → (K → S) × List O
  | m, [] => (m, [])
  | m, a :: as =>
      let rest := run (Function.update m (key a) (cell a (m (key a))).1) as
      (rest.1, (cell a (m (key a))).2 ++ rest.2)

end Machine

variable {key : A → K} {cell : A → S → S × List O}

/-- A cell ends as its own inputs leave it. -/
theorem run_cell (m : K → S) (as : List A) (k : K) :
    (run key cell m as).1 k = (cellRun cell (m k) (as.filter (key · = k))).1 := by
  induction as generalizing m with
  | nil => rfl
  | cons a as ih =>
      rw [run, ih]
      by_cases own : key a = k
      · subst own
        rw [List.filter_cons_of_pos (by simp), cellRun, Function.update_self]
      · rw [List.filter_cons_of_neg (by simpa using own), Function.update_of_ne (Ne.symm own)]

/-- The outputs that a predicate attributes to a key are those of the key's own inputs. -/
theorem run_outputs (m : K → S) {as : List A} {k : K} {q : O → Bool}
    (attributes : ∀ a ∈ as, ∀ s, ∀ o ∈ (cell a s).2, q o = decide (key a = k)) :
    (run key cell m as).2.filter q = (cellRun cell (m k) (as.filter (key · = k))).2 := by
  induction as generalizing m with
  | nil => rfl
  | cons a as ih =>
      have rest := ih (Function.update m (key a) (cell a (m (key a))).1)
        fun b member => attributes b (List.mem_cons_of_mem a member)
      have here := attributes a List.mem_cons_self (m (key a))
      rw [run, List.filter_append, rest]
      by_cases own : key a = k
      · subst own
        have kept : (cell a (m (key a))).2.filter q = (cell a (m (key a))).2 :=
          List.filter_eq_self.mpr fun o member => by simpa using here o member
        rw [kept, List.filter_cons_of_pos (by simp), cellRun, Function.update_self]
      · have dropped : (cell a (m (key a))).2.filter q = [] :=
          List.filter_eq_nil_iff.mpr fun o member => by simp [here o member, own]
        rw [dropped, List.nil_append, List.filter_cons_of_neg (by simpa using own),
          Function.update_of_ne (Ne.symm own)]

end NestifyClaw.Keyed
