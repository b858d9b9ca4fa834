import Mathlib.Data.List.Basic

/-!
# Scanners

A scanner reads a word symbol by symbol and emits output as it goes, or fails.  `Scans.append`
puts two scans together, `scan_append_eq_some` takes one apart, and `Scans.emits` says of all
output what each step says of its own.
-/

namespace NestifyClaw

universe u

variable {σ α β : Type u} {step : σ → α → Option (σ × List β)} {s t v : σ} {as bs : List α}
  {out out' : List β}

def scan (step : σ → α → Option (σ × List β)) : σ → List α → Option (σ × List β)
  | s, [] => some (s, [])
  | s, a :: as => (step s a).bind fun r => (scan step r.1 as).map fun r' => (r'.1, r.2 ++ r'.2)

/-- Reading `as` takes the scanner from `s` to `t` and emits `out`. -/
def Scans (step : σ → α → Option (σ × List β)) (s : σ) (as : List α) (t : σ) (out : List β) :
    Prop :=
  scan step s as = some (t, out)

theorem Scans.nil : Scans step s [] s [] := rfl

theorem Scans.cons {a : α} (first : step s a = some (t, out)) (rest : Scans step t as v out') :
    Scans step s (a :: as) v (out ++ out') := by
  have rest : scan step t as = some (v, out') := rest
  rw [Scans, scan, first, Option.bind_some, rest]
  rfl

theorem scans_cons_iff {a : α} : Scans step s (a :: as) v out ↔
    ∃ t out₁ out₂, step s a = some (t, out₁) ∧ Scans step t as v out₂ ∧ out = out₁ ++ out₂ := by
  constructor
  · intro scans
    rw [Scans, scan, Option.bind_eq_some_iff] at scans
    obtain ⟨⟨t, out₁⟩, first, mapped⟩ := scans
    obtain ⟨⟨v', out₂⟩, rest, same⟩ := Option.map_eq_some_iff.mp mapped
    cases same
    exact ⟨t, out₁, out₂, first, rest, rfl⟩
  · rintro ⟨t, out₁, out₂, first, rest, rfl⟩
    exact rest.cons first

theorem Scans.append (first : Scans step s as t out) (second : Scans step t bs v out') :
    Scans step s (as ++ bs) v (out ++ out') := by
  induction as generalizing s out with
  | nil =>
      cases first
      exact second
  | cons a as ih =>
      obtain ⟨s', out₁, out₂, here, rest, rfl⟩ := scans_cons_iff.mp first
      rw [List.append_assoc]
      exact (ih rest).cons here

theorem scans_append_iff : Scans step s (as ++ bs) v out ↔
    ∃ t out₁ out₂, Scans step s as t out₁ ∧ Scans step t bs v out₂ ∧ out = out₁ ++ out₂ := by
  constructor
  · intro scans
    induction as generalizing s out with
    | nil => exact ⟨s, [], out, .nil, scans, rfl⟩
    | cons a as ih =>
        obtain ⟨s', out₁, out₂, here, rest, rfl⟩ := scans_cons_iff.mp scans
        obtain ⟨t, out₃, out₄, first, second, rfl⟩ := ih rest
        exact ⟨t, out₁ ++ out₃, out₄, first.cons here, second, by rw [List.append_assoc]⟩
  · rintro ⟨t, out₁, out₂, first, second, rfl⟩
    exact first.append second

theorem Scans.unique (left : Scans step s as t out) (right : Scans step s as v out') :
    t = v ∧ out = out' := by
  have same := Option.some.inj (Eq.trans (Eq.symm left) right)
  cases same
  exact ⟨rfl, rfl⟩

/-- Blocks that each lead back to the state they start from. -/
theorem Scans.flatMap {γ : Type u} {f : γ → List α} {g : γ → List β} {cs : List γ}
    (each : ∀ c ∈ cs, Scans step s (f c) s (g c)) :
    Scans step s (cs.flatMap f) s (cs.flatMap g) := by
  induction cs with
  | nil => exact .nil
  | cons c cs ih =>
      rw [List.flatMap_cons, List.flatMap_cons]
      exact (each c List.mem_cons_self).append
        (ih fun c' inRest => each c' (List.mem_cons_of_mem c inRest))

/-- What every step emits in states of one kind, every scan emits. -/
theorem Scans.emits {Ok : σ → Prop} {P : β → Prop}
    (keeps : ∀ {s a t out}, Ok s → step s a = some (t, out) → Ok t ∧ ∀ b ∈ out, P b)
    (scans : Scans step s as t out) (ok : Ok s) : Ok t ∧ ∀ b ∈ out, P b := by
  induction as generalizing s out with
  | nil =>
      cases scans
      exact ⟨ok, by simp⟩
  | cons a as ih =>
      obtain ⟨s', out₁, out₂, here, rest, rfl⟩ := scans_cons_iff.mp scans
      obtain ⟨ok', emitted⟩ := keeps ok here
      obtain ⟨okEnd, later⟩ := ih rest ok'
      exact ⟨okEnd, fun b isOut => (List.mem_append.mp isOut).elim (emitted b) (later b)⟩

end NestifyClaw
