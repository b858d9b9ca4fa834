import Mathlib.Algebra.Ring.Nat
import Mathlib.Data.List.Basic

/-!
# Numbers written in fields

`fields` writes a number in fields of given widths, the highest first, so that larger numbers get
lexicographically larger lists (`fields_lt`).  The order survives when each element is replaced by
a block of its own (`flatten_zipWith_lt`), as in a printed text.
-/

namespace NestifyClaw

universe u v

/-- The fields of a number, the highest first, by their widths in bits. -/
def fields : List Nat → Nat → List Nat
  | [], _ => []
  | w :: ws, n => n / 2 ^ ws.sum % 2 ^ w :: fields ws n

theorem fields_mod (ws : List Nat) (n : Nat) {k : Nat} (covers : ws.sum ≤ k) :
    fields ws (n % 2 ^ k) = fields ws n := by
  induction ws generalizing k with
  | nil => rfl
  | cons w ws ih =>
      rw [List.sum_cons] at covers
      rw [fields, fields, ih (by omega)]
      congr 1
      obtain ⟨rest, rfl⟩ := Nat.exists_eq_add_of_le covers
      rw [Nat.add_comm w, Nat.add_assoc, Nat.pow_add, Nat.mod_mul_right_div_self,
        Nat.pow_add, Nat.mod_mul_right_mod]

theorem fields_lt (ws : List Nat) {n n' : Nat} (less : n < n') (fits : n' < 2 ^ ws.sum) :
    fields ws n < fields ws n' := by
  induction ws generalizing n n' with
  | nil =>
      simp at fits
      omega
  | cons w ws ih =>
      rw [fields, fields, List.cons_lt_cons_iff]
      have top : ∀ m, m ≤ n' → m / 2 ^ ws.sum % 2 ^ w = m / 2 ^ ws.sum := by
        intro m below
        refine Nat.mod_eq_of_lt (Nat.div_lt_of_lt_mul ?_)
        rw [← Nat.pow_add, Nat.add_comm]
        exact Nat.lt_of_le_of_lt below fits
      rw [top n (Nat.le_of_lt less), top n' (Nat.le_refl _)]
      rcases Nat.lt_or_eq_of_le (Nat.div_le_div_right (c := 2 ^ ws.sum) (Nat.le_of_lt less)) with
        high | same
      · exact Or.inl high
      · refine Or.inr ⟨same, ?_⟩
        rw [← fields_mod ws n (Nat.le_refl _), ← fields_mod ws n' (Nat.le_refl _)]
        refine ih ?_ (Nat.mod_lt _ (Nat.two_pow_pos _))
        have split := Nat.div_add_mod n (2 ^ ws.sum)
        have split' := Nat.div_add_mod n' (2 ^ ws.sum)
        rw [same] at split
        omega

/-! ## Blocks -/

variable {α : Type u} {β : Type v} [LT α] [LT β]

theorem append_lt_append {l l' : List α} (less : l < l') (long : l.length = l'.length)
    (r r' : List α) : l ++ r < l' ++ r' := by
  induction l generalizing l' with
  | nil =>
      cases l' with
      | nil => cases less
      | cons b l' => cases long
  | cons a l ih =>
      cases l' with
      | nil => cases long
      | cons b l' =>
          rw [List.cons_append, List.cons_append, List.cons_lt_cons_iff]
          rcases List.cons_lt_cons_iff.mp less with first | ⟨same, rest⟩
          · exact Or.inl first
          · exact Or.inr ⟨same, ih rest (Nat.succ.inj long)⟩

/-- Blocks that are in the order of their elements, each followed by a text that depends on the
position alone, keep the order of the lists. -/
theorem flatten_zipWith_lt {xs ys : List α} {cs : List (List β)} {block : α → List β}
    (less : xs < ys) (long : xs.length = ys.length) (covers : ys.length ≤ cs.length)
    (same : ∀ x y, (block x).length = (block y).length)
    (mono : ∀ x ∈ xs, ∀ y ∈ ys, x < y → block x < block y) :
    (List.zipWith (fun x c => block x ++ c) xs cs).flatten <
      (List.zipWith (fun x c => block x ++ c) ys cs).flatten := by
  induction xs generalizing ys cs with
  | nil =>
      cases ys with
      | nil => cases less
      | cons y ys => cases long
  | cons x xs ih =>
      cases ys with
      | nil => cases long
      | cons y ys =>
          cases cs with
          | nil => cases covers
          | cons c cs =>
              rw [List.zipWith_cons_cons, List.zipWith_cons_cons, List.flatten_cons,
                List.flatten_cons, List.append_assoc, List.append_assoc]
              rcases List.cons_lt_cons_iff.mp less with first | ⟨rfl, rest⟩
              · exact append_lt_append
                  (mono x List.mem_cons_self y List.mem_cons_self first) (same x y) _ _
              · refine List.append_left_lt (List.append_left_lt ?_)
                exact ih rest (Nat.succ.inj long) (Nat.le_of_succ_le_succ covers)
                  fun x inXs y inYs =>
                    mono x (List.mem_cons_of_mem _ inXs) y (List.mem_cons_of_mem _ inYs)

end NestifyClaw
