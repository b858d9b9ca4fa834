import Mathlib.Data.List.Basic

/-!
# A heap of cells

Objects of one type live in cells that are allocated one after the other and never freed.  A
`Ref` is an object's identity: two names for one cell see each other's writes, and a write to
one cell leaves all others as they were.
-/

namespace NestifyClaw

universe u

/-- A reference to a cell with content of type `α`. -/
@[ext]
structure Ref (α : Type u) where
  addr : Nat

instance {α : Type u} : DecidableEq (Ref α) := fun _ _ => decidable_of_iff _ Ref.ext_iff.symm

structure Heap (α : Type u) where
  cells : List α

namespace Heap

variable {α : Type u} {h : Heap α} {r r' : Ref α} {a : α}

def read (h : Heap α) (r : Ref α) : Option α := h.cells[r.addr]?

/-- The next cell, and the heap with it. -/
def alloc (h : Heap α) (a : α) : Ref α × Heap α := (⟨h.cells.length⟩, ⟨h.cells ++ [a]⟩)

/-- Change the content of a cell in place. -/
def modify (h : Heap α) (r : Ref α) (f : α → α) : Heap α := ⟨h.cells.modify r.addr f⟩

/-- The reference points to an allocated cell. -/
def Valid (h : Heap α) (r : Ref α) : Prop := r.addr < h.cells.length

instance : Decidable (h.Valid r) := inferInstanceAs (Decidable (r.addr < h.cells.length))

theorem valid_of_read (found : h.read r = some a) : h.Valid r :=
  (List.getElem?_eq_some_iff.mp found).1

theorem Valid.exists_read (valid : h.Valid r) : ∃ a, h.read r = some a :=
  ⟨_, List.getElem?_eq_getElem valid⟩

@[simp] theorem read_alloc_new (h : Heap α) (a : α) :
    (h.alloc a).2.read (h.alloc a).1 = some a := by
  simp [alloc, read]

/-- Allocation does not touch existing cells. -/
theorem read_alloc (valid : h.Valid r) (a : α) : (h.alloc a).2.read r = h.read r :=
  List.getElem?_append_left valid

theorem read_alloc_eq_some {b : α} (found : (h.alloc a).2.read r = some b) :
    h.read r = some b ∨ r = (h.alloc a).1 ∧ b = a := by
  by_cases valid : h.Valid r
  · exact Or.inl ((read_alloc valid a).symm.trans found)
  · have inside : r.addr < h.cells.length + 1 := by simpa [alloc, Valid] using valid_of_read found
    have here : r = (h.alloc a).1 := Ref.ext (by unfold Valid at valid; simp only [alloc]; omega)
    rw [here, read_alloc_new] at found
    exact Or.inr ⟨here, (Option.some.inj found).symm⟩

theorem read_alloc_eq (h : Heap α) (a : α) (r : Ref α) :
    (h.alloc a).2.read r = if (h.alloc a).1 = r then some a else h.read r := by
  split
  · rename_i here
    rw [← here, read_alloc_new]
  · rename_i elsewhere
    cases found : (h.alloc a).2.read r with
    | none =>
        by_cases valid : h.Valid r
        · rw [← read_alloc valid a, found]
        · exact (List.getElem?_eq_none (Nat.le_of_not_lt valid)).symm
    | some b =>
        rcases read_alloc_eq_some found with old | ⟨here, -⟩
        · exact old.symm
        · exact absurd here.symm elsewhere

/-- Allocation makes no difference to a reader that takes the new content for absence. -/
theorem bind_read_alloc {β : Type*} {k : α → Option β} (blank : k a = none) (h : Heap α)
    (r : Ref α) : ((h.alloc a).2.read r).bind k = (h.read r).bind k := by
  by_cases valid : h.Valid r
  · rw [read_alloc valid]
  · have dangles : h.cells.length ≤ r.addr := Nat.le_of_not_lt valid
    unfold read alloc
    rw [List.getElem?_append_right dangles, List.getElem?_eq_none dangles, List.getElem?_singleton]
    split
    · exact blank
    · rfl

theorem Valid.alloc (valid : h.Valid r) (a : α) : (h.alloc a).2.Valid r := by
  unfold Valid at *
  simp only [Heap.alloc, List.length_append, List.length_singleton]
  omega

theorem valid_alloc_new (h : Heap α) (a : α) : (h.alloc a).2.Valid (h.alloc a).1 := by
  simp [Valid, alloc]

/-- A new cell is none of the existing ones. -/
theorem Valid.ne_alloc (valid : h.Valid r) (a : α) : r ≠ (h.alloc a).1 := by
  rintro rfl
  exact Nat.lt_irrefl _ valid

theorem read_modify (h : Heap α) (r r' : Ref α) (f : α → α) :
    (h.modify r f).read r' = if r = r' then (h.read r').map f else h.read r' := by
  simp only [modify, read, List.getElem?_modify, Ref.ext_iff]
  split
  · rfl
  · exact Option.map_id'

@[simp] theorem valid_modify {f : α → α} : (h.modify r f).Valid r' ↔ h.Valid r' := by
  simp [Valid, modify]

/-- Cells are added, and those that were there stay as they are. -/
def Grows (h h' : Heap α) : Prop := h.cells <+: h'.cells

theorem Grows.refl (h : Heap α) : h.Grows h := List.prefix_rfl

theorem Grows.trans {h h' h'' : Heap α} (first : h.Grows h') (second : h'.Grows h'') :
    h.Grows h'' :=
  List.IsPrefix.trans first second

theorem grows_alloc (h : Heap α) (a : α) : h.Grows (h.alloc a).2 := List.prefix_append h.cells [a]

theorem Grows.read {h h' : Heap α} (grows : h.Grows h') (found : h.read r = some a) :
    h'.read r = some a := by
  obtain ⟨added, cells⟩ := grows
  have inside : r.addr < h.cells.length := valid_of_read found
  rw [Heap.read, ← cells, List.getElem?_append_left inside]
  exact found

end Heap

end NestifyClaw
