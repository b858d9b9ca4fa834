import Mathlib

/-!
# Strings of code units

A string of JavaScript is a list of UTF-16 code units, in which a surrogate may stand alone.  Its
length in bytes is the length of what it becomes in UTF-8.
-/

namespace NestifyClaw

namespace Utf16

def isHigh (code : UInt16) : Bool := 0xd800 ≤ code.toNat && code.toNat ≤ 0xdbff

def isLow (code : UInt16) : Bool := 0xdc00 ≤ code.toNat && code.toNat ≤ 0xdfff

/-- The bytes of a code unit that is not half of a pair.  A surrogate that stands alone counts for
the character that replaces it. -/
def unitBytes (code : UInt16) : Nat :=
  if code.toNat ≤ 0x7f then 1 else if code.toNat ≤ 0x7ff then 2 else 3

def byteLength : List UInt16 → Nat
  | [] => 0
  | [code] => unitBytes code
  | code :: next :: rest =>
      if isHigh code && isLow next then 4 + byteLength rest
      else unitBytes code + byteLength (next :: rest)

variable {code next : UInt16} {s t : List UInt16}

theorem isHigh_of_isLow (low : isLow code = true) : isHigh code = false := by
  simp only [isLow, isHigh, Bool.and_eq_true, decide_eq_true_eq, Bool.and_eq_false_iff,
    decide_eq_false_iff_not] at low ⊢
  omega

theorem unitBytes_high (high : isHigh code = true) : unitBytes code = 3 := by
  simp only [isHigh, Bool.and_eq_true, decide_eq_true_eq] at high
  rw [unitBytes, if_neg (by omega), if_neg (by omega)]

theorem unitBytes_low (low : isLow code = true) : unitBytes code = 3 := by
  simp only [isLow, Bool.and_eq_true, decide_eq_true_eq] at low
  rw [unitBytes, if_neg (by omega), if_neg (by omega)]

theorem byteLength_pair (high : isHigh code = true) (low : isLow next = true) :
    byteLength (code :: next :: s) = 4 + byteLength s := by
  rw [byteLength, high, low]
  rfl

/-- The code unit does not make a pair with what follows. -/
def Alone (code : UInt16) (s : List UInt16) : Prop :=
  isHigh code = true → ∀ next ∈ s.head?, isLow next = false

theorem byteLength_alone (alone : Alone code s) :
    byteLength (code :: s) = unitBytes code + byteLength s := by
  cases s with
  | nil => rfl
  | cons next s =>
      rw [byteLength, if_neg]
      intro pair
      obtain ⟨high, low⟩ := Bool.and_eq_true_iff.mp pair
      cases low.symm.trans (alone high next rfl)

theorem Alone.of_not_high (high : isHigh code = false) : Alone code s :=
  fun never => by cases high.symm.trans never

theorem unitBytes_pos (code : UInt16) : 0 < unitBytes code := by
  unfold unitBytes
  split
  · omega
  · split <;> omega

theorem byteLength_eq_zero : byteLength s = 0 ↔ s = [] := by
  refine ⟨fun isZero => ?_, fun isNil => isNil ▸ rfl⟩
  match s with
  | [] => rfl
  | [code] => exact absurd isZero (Nat.ne_of_gt (unitBytes_pos code))
  | code :: next :: rest =>
      have positive := unitBytes_pos code
      rw [byteLength] at isZero
      split at isZero <;> omega

theorem byteLength_append (apart : ∀ next ∈ t.head?, isLow next = false) :
    byteLength (s ++ t) = byteLength s + byteLength t := by
  induction s using byteLength.induct with
  | case1 => exact (Nat.zero_add _).symm
  | case2 code => exact byteLength_alone fun _ => apart
  | case3 code next rest pair ih =>
      obtain ⟨high, low⟩ := Bool.and_eq_true_iff.mp pair
      rw [List.cons_append, List.cons_append, byteLength_pair high low,
        byteLength_pair high low, ih, Nat.add_assoc]
  | case4 code next rest noPair ih =>
      rw [List.cons_append, List.cons_append, byteLength, byteLength, if_neg noPair, if_neg noPair,
        ← List.cons_append, ih, Nat.add_assoc]

theorem byteLength_ascii (ascii : ∀ code ∈ s, code.toNat ≤ 0x7f) :
    byteLength (s ++ t) = s.length + byteLength t := by
  induction s with
  | nil => exact (Nat.zero_add _).symm
  | cons code s ih =>
      obtain ⟨here, there⟩ := List.forall_mem_cons.mp ascii
      have low : isHigh code = false := by
        simp only [isHigh, Bool.and_eq_false_iff, decide_eq_false_iff_not]
        omega
      rw [List.cons_append, byteLength_alone (.of_not_high low), ih there, unitBytes, if_pos here,
        List.length_cons]
      omega

/-! ## Lines -/

def newline : UInt16 := 0x0a

def joinLines (lines : List (List UInt16)) : List UInt16 := [newline].intercalate lines

/-- What a line costs, with the line break behind it. -/
def lineCost (line : List UInt16) : Nat := byteLength line + 1

theorem byteLength_newline : byteLength (s ++ newline :: t) = lineCost s + byteLength t := by
  rw [byteLength_append fun next isNext => by cases isNext; rfl,
    byteLength_alone (.of_not_high (by rfl)), lineCost, Nat.add_assoc]
  rfl

theorem joinLines_singleton (line : List UInt16) : joinLines [line] = line := by
  simp [joinLines, List.intercalate]

theorem joinLines_cons (line line' : List UInt16) (lines : List (List UInt16)) :
    joinLines (line :: line' :: lines) = line ++ newline :: joinLines (line' :: lines) := by
  simp [joinLines, List.intercalate, List.intersperse]

theorem byteLength_joinLines {lines : List (List UInt16)} (given : lines ≠ []) :
    byteLength (joinLines lines) + 1 = (lines.map lineCost).sum := by
  induction lines with
  | nil => exact absurd rfl given
  | cons line lines ih =>
      cases lines with
      | nil =>
          rw [joinLines_singleton]
          exact List.sum_singleton.symm
      | cons line' lines =>
          rw [joinLines_cons, byteLength_newline, Nat.add_assoc, ih (List.cons_ne_nil _ _)]
          exact List.sum_cons.symm

/-- What lines cost is what they come to when they are joined. -/
theorem fits_iff {maxBytes : Nat} {lines : List (List UInt16)} :
    byteLength (joinLines lines) ≤ maxBytes ↔ (lines.map lineCost).sum ≤ maxBytes + 1 := by
  by_cases given : lines = []
  · subst given
    exact ⟨fun _ => Nat.zero_le _, fun _ => Nat.zero_le _⟩
  · rw [← byteLength_joinLines given, Nat.add_le_add_iff_right]

theorem reverse_fits_iff {maxBytes : Nat} {lines : List (List UInt16)} :
    byteLength (joinLines lines.reverse) ≤ maxBytes ↔
      (lines.map lineCost).sum ≤ maxBytes + 1 := by
  rw [fits_iff, List.map_reverse, List.sum_reverse]

theorem joinLines_front {lines lines' : List (List UInt16)} (front : lines <+: lines') :
    joinLines lines <+: joinLines lines' := by
  obtain ⟨more, rfl⟩ := front
  induction lines with
  | nil => exact List.nil_prefix
  | cons line lines ih =>
      cases lines with
      | nil =>
          cases more with
          | nil => exact List.prefix_rfl
          | cons line' more => simp [joinLines, List.intercalate, List.intersperse]
      | cons line' lines =>
          rw [joinLines_cons, List.cons_append, List.cons_append, joinLines_cons]
          exact (List.prefix_append_right_inj _).mpr ((List.prefix_cons_inj _).mpr ih)

end Utf16

end NestifyClaw
