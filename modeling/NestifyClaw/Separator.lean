import Mathlib.Data.Set.Function

/-!
# Pairs of words joined by a separator

`joinOn sep (a, b)` writes `a`, the separator and `b` one after the other.  When the parts may
contain the separator themselves, two pairs share a joined word exactly when they are equal or
one comes from the other by moving the separator (`Reassociates`): this is `joinOn_eq_iff`.
-/

namespace NestifyClaw.Separator

universe u

variable {α : Type u} {sep : α} {p q : List α × List α}

def joinOn (sep : α) (p : List α × List α) : List α := p.1 ++ sep :: p.2

/-- `q` splits the word of `p` at a later separator. -/
def SplitsLater (sep : α) (p q : List α × List α) : Prop :=
  ∃ w, q.1 = p.1 ++ sep :: w ∧ p.2 = w ++ sep :: q.2

/-- The two pairs are different splittings of one word. -/
def Reassociates (sep : α) (p q : List α × List α) : Prop :=
  SplitsLater sep p q ∨ SplitsLater sep q p

theorem SplitsLater.joinOn_eq (later : SplitsLater sep p q) : joinOn sep p = joinOn sep q := by
  rcases later with ⟨w, first, second⟩
  simp only [joinOn, first, second, List.append_assoc, List.cons_append]

theorem SplitsLater.length_lt (later : SplitsLater sep p q) : p.1.length < q.1.length := by
  rcases later with ⟨w, first, -⟩
  rw [first, List.length_append, List.length_cons]
  omega

theorem Reassociates.symm (moved : Reassociates sep p q) : Reassociates sep q p :=
  Or.symm moved

theorem Reassociates.joinOn_eq (moved : Reassociates sep p q) :
    joinOn sep p = joinOn sep q :=
  moved.elim SplitsLater.joinOn_eq fun later => later.joinOn_eq.symm

theorem Reassociates.ne (moved : Reassociates sep p q) : p ≠ q := by
  rintro rfl
  rcases moved with later | later <;> exact lt_irrefl _ later.length_lt

/-- A word with a separator ends before another one's separator or goes on past it. -/
theorem splitsLater_of_append {w : List α} (first : q.1 = p.1 ++ w)
    (second : sep :: p.2 = w ++ sep :: q.2) : p = q ∨ SplitsLater sep p q := by
  cases w with
  | nil =>
      rw [List.append_nil] at first
      rw [List.nil_append, List.cons.injEq] at second
      exact Or.inl (Prod.ext first.symm second.2)
  | cons c w =>
      rw [List.cons_append, List.cons.injEq] at second
      rcases second with ⟨rfl, second⟩
      exact Or.inr ⟨w, first, second⟩

/-- The joined word determines the pair up to moving the separator. -/
theorem joinOn_eq_iff : joinOn sep p = joinOn sep q ↔ p = q ∨ Reassociates sep p q := by
  constructor
  · intro same
    rcases List.append_eq_append_iff.mp same with ⟨w, first, second⟩ | ⟨w, first, second⟩
    · exact (splitsLater_of_append first second).imp id Or.inl
    · exact (splitsLater_of_append first second).imp Eq.symm Or.inr
  · rintro (rfl | moved)
    · rfl
    · exact moved.joinOn_eq

/-- Without separators in the first parts nothing can re-associate. -/
theorem not_reassociates_of_notMem (left : sep ∉ p.1) (right : sep ∉ q.1) :
    ¬ Reassociates sep p q := by
  rintro (⟨w, first, -⟩ | ⟨w, first, -⟩)
  · exact right (by rw [first]; simp)
  · exact left (by rw [first]; simp)

/-- Splitting later is a matter of dropping the shorter first part. -/
theorem splitsLater_iff_drop :
    SplitsLater sep p q ↔
      q.1 = p.1 ++ sep :: q.1.drop (p.1.length + 1) ∧
        p.2 = q.1.drop (p.1.length + 1) ++ sep :: q.2 := by
  refine ⟨fun ⟨w, first, second⟩ => ?_, fun ⟨first, second⟩ => ⟨_, first, second⟩⟩
  have dropped : q.1.drop (p.1.length + 1) = w := by
    rw [first, List.drop_append]
    simp
  exact ⟨dropped ▸ first, dropped ▸ second⟩

instance [DecidableEq α] : Decidable (SplitsLater sep p q) :=
  decidable_of_iff _ splitsLater_iff_drop.symm

instance [DecidableEq α] : Decidable (Reassociates sep p q) :=
  inferInstanceAs (Decidable (SplitsLater sep p q ∨ SplitsLater sep q p))

/-! ## Pairs of strings -/

/-- The characters of a pair of strings. -/
def chars (p : String × String) : List Char × List Char := (p.1.toList, p.2.toList)

theorem chars_injective : Function.Injective chars := by
  intro p q same
  exact Prod.ext (String.ext (congrArg Prod.fst same)) (String.ext (congrArg Prod.snd same))

end NestifyClaw.Separator
