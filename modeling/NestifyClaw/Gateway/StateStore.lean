import Mathlib.Data.List.AList
import NestifyClaw.Separator

/-!
# The in-memory state store

`StateStoreService` keeps one map under a composite key, the namespace and the key joined by a
NUL.  What it is meant to be is a map keyed by the pair (`PairMap`).  The two answer every
sequence of calls alike exactly as long as the pairs in use are told apart by their composite
keys, that is, as long as no two of them re-associate across a NUL (`refines_iff`).
-/

namespace NestifyClaw.Gateway

open Separator

/-- A JavaScript value of static type `unknown`. -/
inductive Unknown (V : Type)
  | undefined
  | null
  | value (v : V)
  deriving DecidableEq, Repr

/-- `x ?? null`. -/
def Unknown.orNull {V : Type} : Unknown V → Option V
  | .undefined => none
  | .null => none
  | .value v => some v

/-- `StateStoreService`, with its `Map<string, unknown>`. -/
structure StateStoreService (V : Type) where
  store : AList fun _ : String => Unknown V

variable {V : Type}

namespace StateStoreService

def new : StateStoreService V := ⟨∅⟩

def compositeKey (ns key : String) : String := ns ++ "\x00" ++ key

def get (s : StateStoreService V) (ns key : String) : Option V :=
  ((s.store.lookup (compositeKey ns key)).getD .undefined).orNull

def set (s : StateStoreService V) (ns key : String) (value : Unknown V) : StateStoreService V :=
  ⟨s.store.insert (compositeKey ns key) value⟩

def delete (s : StateStoreService V) (ns key : String) : StateStoreService V :=
  ⟨s.store.erase (compositeKey ns key)⟩

@[simp] theorem get_new (ns key : String) : (new : StateStoreService V).get ns key = none := rfl

theorem get_set (s : StateStoreService V) (ns key ns' key' : String) (value : Unknown V) :
    (s.set ns key value).get ns' key' =
      if compositeKey ns' key' = compositeKey ns key then value.orNull else s.get ns' key' := by
  simp only [get, set]
  split
  · rename_i same
    rw [same, AList.lookup_insert, Option.getD_some]
  · rename_i different
    rw [AList.lookup_insert_ne different]

theorem get_delete (s : StateStoreService V) (ns key ns' key' : String) :
    (s.delete ns key).get ns' key' =
      if compositeKey ns' key' = compositeKey ns key then none else s.get ns' key' := by
  simp only [get, delete]
  split
  · rename_i same
    rw [same, AList.lookup_erase]
    rfl
  · rename_i different
    rw [AList.lookup_erase_ne different]

theorem toList_compositeKey (ns key : String) :
    (compositeKey ns key).toList = joinOn '\x00' (chars (ns, key)) := by
  simp [compositeKey, joinOn, chars]

/-- Two pairs share a composite key exactly when they re-associate across a NUL. -/
theorem compositeKey_eq_iff {p q : String × String} :
    compositeKey p.1 p.2 = compositeKey q.1 q.2 ↔
      p = q ∨ Reassociates '\x00' (chars p) (chars q) := by
  rw [← String.toList_inj, toList_compositeKey, toList_compositeKey, joinOn_eq_iff,
    chars_injective.eq_iff]

/-- Within one namespace the composite key tells all keys apart. -/
theorem compositeKey_left_inj {ns key key' : String} :
    compositeKey ns key = compositeKey ns key' ↔ key = key' :=
  String.append_right_inj _

end StateStoreService

/-! ## Sequences of calls -/

inductive StoreCall (V : Type)
  | get (ns key : String)
  | set (ns key : String) (value : Unknown V)
  | delete (ns key : String)
  deriving DecidableEq, Repr

/-- The pair a call is about. -/
def StoreCall.pair : StoreCall V → String × String
  | .get ns key => (ns, key)
  | .set ns key _ => (ns, key)
  | .delete ns key => (ns, key)

/-- The answers to the `get` calls of a sequence, in order. -/
def StateStoreService.answers (s : StateStoreService V) : List (StoreCall V) → List (Option V)
  | [] => []
  | .get ns key :: calls => s.get ns key :: s.answers calls
  | .set ns key value :: calls => (s.set ns key value).answers calls
  | .delete ns key :: calls => (s.delete ns key).answers calls

/-- What the store is for: a map from pairs to values, `none` where nothing is stored. -/
def PairMap (V : Type) := String × String → Option V

namespace PairMap

def empty : PairMap V := fun _ => none

def write (m : PairMap V) (p : String × String) (value : Option V) : PairMap V :=
  fun q => if q = p then value else m q

/-- A `get` is answered by the latest `set` of exactly its pair, unless a `delete` of that pair
came later. -/
def answers (m : PairMap V) : List (StoreCall V) → List (Option V)
  | [] => []
  | .get ns key :: calls => m (ns, key) :: m.answers calls
  | .set ns key value :: calls => (m.write (ns, key) value.orNull).answers calls
  | .delete ns key :: calls => (m.write (ns, key) none).answers calls

end PairMap

/-- The store shows the map's values at the pairs of `P`. -/
def Represents (P : Set (String × String)) (s : StateStoreService V) (m : PairMap V) : Prop :=
  ∀ p ∈ P, s.get p.1 p.2 = m p

/-- No two pairs of `P` re-associate across a NUL. -/
def NulApart (P : Set (String × String)) : Prop :=
  ∀ p ∈ P, ∀ q ∈ P, ¬ Reassociates '\x00' (chars p) (chars q)

section Refinement

variable {P : Set (String × String)} {s : StateStoreService V} {m : PairMap V}

theorem NulApart.compositeKey_inj (apart : NulApart P) {p q : String × String} (inP : p ∈ P)
    (inQ : q ∈ P) (same : StateStoreService.compositeKey p.1 p.2 =
      StateStoreService.compositeKey q.1 q.2) : p = q :=
  (StateStoreService.compositeKey_eq_iff.mp same).resolve_right (apart p inP q inQ)

theorem Represents.set (rep : Represents P s m) (apart : NulApart P) {ns key : String}
    (inP : (ns, key) ∈ P) (value : Unknown V) :
    Represents P (s.set ns key value) (m.write (ns, key) value.orNull) := by
  intro q inQ
  rw [StateStoreService.get_set, PairMap.write]
  by_cases same : q = (ns, key)
  · subst same
    rw [if_pos rfl, if_pos rfl]
  · rw [if_neg fun keys => same (apart.compositeKey_inj inQ inP keys), if_neg same]
    exact rep q inQ

theorem Represents.delete (rep : Represents P s m) (apart : NulApart P) {ns key : String}
    (inP : (ns, key) ∈ P) : Represents P (s.delete ns key) (m.write (ns, key) none) := by
  intro q inQ
  rw [StateStoreService.get_delete, PairMap.write]
  by_cases same : q = (ns, key)
  · subst same
    rw [if_pos rfl, if_pos rfl]
  · rw [if_neg fun keys => same (apart.compositeKey_inj inQ inP keys), if_neg same]
    exact rep q inQ

theorem Represents.answers (rep : Represents P s m) (apart : NulApart P)
    {calls : List (StoreCall V)} (inP : ∀ c ∈ calls, c.pair ∈ P) :
    s.answers calls = m.answers calls := by
  induction calls generalizing s m with
  | nil => rfl
  | cons c calls ih =>
      have here : c.pair ∈ P := inP c List.mem_cons_self
      have later : ∀ c ∈ calls, c.pair ∈ P := fun c member => inP c (List.mem_cons_of_mem _ member)
      cases c with
      | get ns key => exact congrArg₂ List.cons (rep (ns, key) here) (ih rep later)
      | set ns key value => exact ih (rep.set apart here value) later
      | delete ns key => exact ih (rep.delete apart here) later

end Refinement

/-- The store answers as the map keyed by pairs, on every sequence of calls whose pairs are
drawn from `P`, exactly when no two pairs of `P` re-associate across a NUL. -/
theorem refines_iff [Inhabited V] (P : Set (String × String)) :
    (∀ calls : List (StoreCall V), (∀ c ∈ calls, c.pair ∈ P) →
      (StateStoreService.new : StateStoreService V).answers calls =
        (PairMap.empty : PairMap V).answers calls) ↔ NulApart P := by
  constructor
  · intro refines p inP q inQ moved
    have same := StateStoreService.compositeKey_eq_iff.mpr (Or.inr moved)
    -- a value set under `p` is what `get` finds under `q`
    have answered := refines [.set p.1 p.2 (.value default), .get q.1 q.2] (by
      simpa [StoreCall.pair] using ⟨inP, inQ⟩)
    have different : q ≠ p := fun eq => moved.ne (congrArg chars eq.symm)
    simp [StateStoreService.answers, PairMap.answers, StateStoreService.get_set, same,
      PairMap.write, different, PairMap.empty, Unknown.orNull] at answered
  · intro apart calls inP
    exact Represents.answers (fun p _ => StateStoreService.get_new p.1 p.2) apart inP

/-- A namespace that contains the NUL reads another namespace's key. -/
theorem not_refines :
    ¬ ∀ calls : List (StoreCall String),
      (StateStoreService.new : StateStoreService String).answers calls =
        (PairMap.empty : PairMap String).answers calls := by
  intro refines
  have answered := refines
    [.set "sessions" "a\x00b" (.value "alpha"), .get "sessions\x00a" "b"]
  exact absurd answered (by decide)

/-- Namespaces free of NULs, such as the one namespace the gateway uses, never clash. -/
theorem nulApart_of_namespaces {P : Set (String × String)}
    (free : ∀ p ∈ P, '\x00' ∉ p.1.toList) : NulApart P :=
  fun p inP q inQ => not_reassociates_of_notMem (free p inP) (free q inQ)

example : NulApart {p | p.1 = "sessions"} :=
  nulApart_of_namespaces fun p isSessions => by rw [isSessions]; decide

end NestifyClaw.Gateway
