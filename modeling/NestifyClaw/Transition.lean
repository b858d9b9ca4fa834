import Mathlib.Data.List.Infix

/-!
# Runs of a labelled partial step

`run step s as` takes the labelled steps `as` from `s`, and is `none` as soon as one of
them is not enabled.  Two run-level notions are built on it:

* `Always step P s as`: every state the run passes through satisfies `P`;
* `Meets step ok s as`: every step the run takes is taken from a state that `ok` allows.

`run_invariant` is the invariant rule, and `always_iff_meets` the exact guarded one: when one step
keeps `P` precisely if it is allowed, a whole run keeps `P` precisely if all of its steps are
allowed.
-/

namespace NestifyClaw.Transition

universe u v

variable {σ : Type u} {α : Type v}

/-- Take the steps labelled `as` in order. -/
def run (step : σ → α → Option σ) : σ → List α → Option σ
  | s, [] => some s
  | s, a :: as => (step s a).bind fun t => run step t as

/-- Every state the run passes through, its first one included, satisfies `P`. -/
def Always (step : σ → α → Option σ) (P : σ → Prop) (s : σ) (as : List α) : Prop :=
  ∀ pre t, pre <+: as → run step s pre = some t → P t

/-- Every step of the run is taken from a state in which `ok` allows it. -/
def Meets (step : σ → α → Option σ) (ok : σ → α → Prop) (s : σ) (as : List α) : Prop :=
  ∀ pre a t u, pre ++ [a] <+: as → run step s pre = some t → step t a = some u → ok t a

/-- Some run leads from `s` to `t`. -/
def Reachable (step : σ → α → Option σ) (s t : σ) : Prop :=
  ∃ as, run step s as = some t

variable {step : σ → α → Option σ} {P Inv : σ → Prop} {ok : σ → α → Prop}

theorem run_cons (s : σ) (a : α) (as : List α) :
    run step s (a :: as) = (step s a).bind fun t => run step t as := rfl

theorem run_append (s : σ) (as bs : List α) :
    run step s (as ++ bs) = (run step s as).bind fun t => run step t bs := by
  induction as generalizing s with
  | nil => rfl
  | cons a as ih =>
      simp only [List.cons_append, run_cons]
      cases h : step s a with
      | none => rfl
      | some t => exact ih t

theorem run_cons_of_step {s t : σ} {a : α} (as : List α) (h : step s a = some t) :
    run step s (a :: as) = run step t as := by
  rw [run_cons, h, Option.bind_some]

/-- An invariant kept by every step holds at the end of every run. -/
theorem run_invariant (keeps : ∀ s a t, Inv s → step s a = some t → Inv t)
    {s t : σ} {as : List α} (inv : Inv s) (h : run step s as = some t) : Inv t := by
  induction as generalizing s with
  | nil => exact Option.some.inj h ▸ inv
  | cons a as ih =>
      rw [run_cons] at h
      obtain ⟨u, first, rest⟩ := Option.bind_eq_some_iff.mp h
      exact ih (keeps s a u inv first) rest

/-! ## Peeling the first step -/

theorem always_nil {s : σ} : Always step P s [] ↔ P s := by
  refine ⟨fun h => h [] s (List.prefix_refl _) rfl, fun h pre t isPre reach => ?_⟩
  rw [List.prefix_nil.mp isPre] at reach
  exact Option.some.inj reach ▸ h

theorem always_cons {s : σ} {a : α} {as : List α} :
    Always step P s (a :: as) ↔ P s ∧ ∀ t, step s a = some t → Always step P t as := by
  constructor
  · intro h
    refine ⟨h [] s List.nil_prefix rfl, fun t first pre u isPre reach => ?_⟩
    refine h (a :: pre) u (List.cons_prefix_cons.mpr ⟨rfl, isPre⟩) ?_
    rw [run_cons_of_step pre first, reach]
  · rintro ⟨here, later⟩ pre u isPre reach
    cases pre with
    | nil => exact Option.some.inj reach ▸ here
    | cons b pre =>
        obtain ⟨rfl, tailPre⟩ := List.cons_prefix_cons.mp isPre
        rw [run_cons] at reach
        obtain ⟨t, first, rest⟩ := Option.bind_eq_some_iff.mp reach
        exact later t first pre u tailPre rest

theorem meets_nil {s : σ} : Meets step ok s [] := by
  intro pre a t u isPre
  have := isPre.length_le
  simp at this

theorem meets_cons {s : σ} {a : α} {as : List α} :
    Meets step ok s (a :: as) ↔ ∀ t, step s a = some t → ok s a ∧ Meets step ok t as := by
  constructor
  · intro h t first
    refine ⟨h [] a s t (List.cons_prefix_cons.mpr ⟨rfl, List.nil_prefix⟩) rfl first, ?_⟩
    intro pre b u w isPre reach next
    refine h (a :: pre) b u w (List.cons_prefix_cons.mpr ⟨rfl, isPre⟩) ?_ next
    rw [run_cons_of_step pre first, reach]
  · intro h pre b u w isPre reach next
    cases pre with
    | nil =>
        obtain ⟨rfl, -⟩ := List.cons_prefix_cons.mp isPre
        cases Option.some.inj reach
        exact (h w next).1
    | cons c pre =>
        obtain ⟨rfl, tailPre⟩ := List.cons_prefix_cons.mp isPre
        rw [run_cons] at reach
        obtain ⟨t, first, rest⟩ := Option.bind_eq_some_iff.mp reach
        exact (h t first).2 pre b u w tailPre rest next

/-- Along a concrete run, `Always` is checked state by state. -/
instance Always.decidable [DecidablePred P] :
    (s : σ) → (as : List α) → Decidable (Always step P s as)
  | s, [] => decidable_of_iff (P s) always_nil.symm
  | s, a :: as =>
      match first : step s a with
      | none => decidable_of_iff (P s) (by simp [always_cons, first])
      | some t =>
          have := Always.decidable t as
          decidable_of_iff (P s ∧ Always step P t as) (by simp [always_cons, first])

/-- Along a concrete run, `Meets` is checked step by step. -/
instance Meets.decidable [∀ s a, Decidable (ok s a)] :
    (s : σ) → (as : List α) → Decidable (Meets step ok s as)
  | _, [] => isTrue meets_nil
  | s, a :: as =>
      match first : step s a with
      | none => isTrue (by simp [meets_cons, first])
      | some t =>
          have := Meets.decidable t as
          decidable_of_iff (ok s a ∧ Meets step ok t as) (by simp [meets_cons, first])

/-! ## Invariant rules -/

/-- Exact guarded rule: if, from a good state, one step reaches a good state precisely
when it is allowed, then a run stays good precisely when all of its steps are allowed. -/
theorem always_iff_meets (keeps : ∀ s a t, Inv s → P s → step s a = some t → Inv t)
    (exact : ∀ s a t, Inv s → P s → step s a = some t → (P t ↔ ok s a))
    {s : σ} {as : List α} (inv : Inv s) (good : P s) :
    Always step P s as ↔ Meets step ok s as := by
  induction as generalizing s with
  | nil => exact ⟨fun _ => meets_nil, fun _ => always_nil.mpr good⟩
  | cons a as ih =>
      rw [always_cons, meets_cons]
      constructor
      · rintro ⟨-, later⟩ t first
        have goodNext : P t := (later t first) [] t List.nil_prefix rfl
        exact ⟨(exact s a t inv good first).mp goodNext,
          (ih (keeps s a t inv good first) goodNext).mp (later t first)⟩
      · intro allowed
        refine ⟨good, fun t first => ?_⟩
        obtain ⟨okHere, okLater⟩ := allowed t first
        exact (ih (keeps s a t inv good first) ((exact s a t inv good first).mpr okHere)).mpr
          okLater

end NestifyClaw.Transition
