import Mathlib.Data.List.Nodup

/-!
# Sets and maps in insertion order

`OrdSet` and `OrdMap` list their elements and their keys in the order of the first insertion, each
once.  What a sequence of insertions leaves is said by membership (`mem_addAll`) and by lookups
(`get_upsert`), the order of the keys by `keys_upsert`.
-/

namespace NestifyClaw

universe u v

variable {α : Type u} {ν : Type v}

/-! ## Sets -/

structure OrdSet (α : Type u) where
  items : List α
  nodup : items.Nodup

namespace OrdSet

def empty : OrdSet α := ⟨[], List.nodup_nil⟩

instance : Membership α (OrdSet α) := ⟨fun s a => a ∈ s.items⟩

theorem mem_items {a : α} {s : OrdSet α} : a ∈ s.items ↔ a ∈ s := Iff.rfl

theorem notMem_empty (a : α) : a ∉ (empty : OrdSet α) := List.not_mem_nil

theorem ext {s t : OrdSet α} (same : s.items = t.items) : s = t := by
  cases s
  cases same
  rfl

variable [DecidableEq α]

instance (a : α) (s : OrdSet α) : Decidable (a ∈ s) := inferInstanceAs (Decidable (a ∈ s.items))

def add (s : OrdSet α) (a : α) : OrdSet α :=
  if here : a ∈ s.items then s
  else ⟨s.items ++ [a], List.nodup_append.mpr ⟨s.nodup, List.nodup_singleton a, by
    rintro b inItems c isNew rfl
    exact here (List.mem_singleton.mp isNew ▸ inItems)⟩⟩

theorem add_of_mem {s : OrdSet α} {a : α} (here : a ∈ s) : s.add a = s := dif_pos here

theorem items_add_of_notMem {s : OrdSet α} {a : α} (new : a ∉ s) :
    (s.add a).items = s.items ++ [a] := by
  have notThere : a ∉ s.items := new
  rw [add, dif_neg notThere]

@[simp] theorem mem_add {s : OrdSet α} {a b : α} : b ∈ s.add a ↔ b ∈ s ∨ b = a := by
  by_cases here : a ∈ s
  · rw [add_of_mem here]
    exact ⟨Or.inl, fun there => there.elim id fun same => same ▸ here⟩
  · rw [← mem_items, items_add_of_notMem here, List.mem_append, List.mem_singleton, mem_items]

def addAll (s : OrdSet α) (as : List α) : OrdSet α := as.foldl add s

@[simp] theorem addAll_nil (s : OrdSet α) : s.addAll [] = s := rfl

@[simp] theorem addAll_cons (s : OrdSet α) (a : α) (as : List α) :
    s.addAll (a :: as) = (s.add a).addAll as := rfl

theorem addAll_append (s : OrdSet α) (as bs : List α) :
    s.addAll (as ++ bs) = (s.addAll as).addAll bs := List.foldl_append

@[simp] theorem mem_addAll {as : List α} : ∀ {s : OrdSet α} {b : α},
    b ∈ s.addAll as ↔ b ∈ s ∨ b ∈ as := by
  induction as with
  | nil => simp
  | cons a as ih =>
      intro s b
      rw [addAll_cons, ih, mem_add, List.mem_cons, or_assoc]

/-- Adding what is there already changes nothing. -/
theorem addAll_of_subset {as : List α} : ∀ {s : OrdSet α}, (∀ a ∈ as, a ∈ s) → s.addAll as = s := by
  induction as with
  | nil => exact fun _ => rfl
  | cons a as ih =>
      intro s there
      rw [addAll_cons, add_of_mem (there a List.mem_cons_self)]
      exact ih fun b inRest => there b (List.mem_cons_of_mem a inRest)

end OrdSet

/-! ## Maps -/

structure OrdMap (α : Type u) (ν : Type v) where
  entries : List (α × ν)
  nodup : (entries.map Prod.fst).Nodup

namespace OrdMap

def empty : OrdMap α ν := ⟨[], List.nodup_nil⟩

def keys (m : OrdMap α ν) : OrdSet α := ⟨m.entries.map Prod.fst, m.nodup⟩

variable [DecidableEq α]

def get (m : OrdMap α ν) (a : α) : Option ν := m.entries.lookup a

/-- Change the value of a key in its place, or the default behind the last entry. -/
def upsertEntry (a : α) (default : ν) (f : ν → ν) : List (α × ν) → List (α × ν)
  | [] => [(a, f default)]
  | (b, v) :: entries =>
      if b = a then (b, f v) :: entries else (b, v) :: upsertEntry a default f entries

theorem keys_upsertEntry (a : α) (default : ν) (f : ν → ν) (entries : List (α × ν)) :
    (upsertEntry a default f entries).map Prod.fst =
      if a ∈ entries.map Prod.fst then entries.map Prod.fst
      else entries.map Prod.fst ++ [a] := by
  induction entries with
  | nil => rfl
  | cons entry entries ih =>
      obtain ⟨b, v⟩ := entry
      rw [upsertEntry]
      by_cases same : b = a
      · simp [same]
      · rw [if_neg same, List.map_cons, ih]
        by_cases there : a ∈ entries.map Prod.fst
        · simp [there]
        · simp [there, Ne.symm same]

theorem lookup_upsertEntry (a b : α) (default : ν) (f : ν → ν) (entries : List (α × ν)) :
    (upsertEntry a default f entries).lookup b =
      if b = a then some (f ((entries.lookup a).getD default)) else entries.lookup b := by
  induction entries with
  | nil =>
      by_cases same : b = a
      · simp [upsertEntry, same]
      · simp [upsertEntry, List.lookup_cons, beq_eq_false_iff_ne.mpr same, same]
  | cons entry entries ih =>
      obtain ⟨c, v⟩ := entry
      rw [upsertEntry]
      by_cases here : c = a
      · subst here
        by_cases same : b = c
        · simp [same]
        · simp [List.lookup_cons, beq_eq_false_iff_ne.mpr same, same]
      · rw [if_neg here, List.lookup_cons, ih]
        by_cases same : b = a
        · subst same
          simp [List.lookup_cons, beq_eq_false_iff_ne.mpr (Ne.symm here)]
        · simp [List.lookup_cons, same]

def upsert (m : OrdMap α ν) (a : α) (default : ν) (f : ν → ν) : OrdMap α ν where
  entries := upsertEntry a default f m.entries
  nodup := by
    have added := (m.keys.add a).nodup
    rw [keys_upsertEntry]
    split
    next there => exact m.nodup
    next new => rwa [OrdSet.items_add_of_notMem new] at added

@[simp] theorem keys_upsert (m : OrdMap α ν) (a : α) (default : ν) (f : ν → ν) :
    (m.upsert a default f).keys = m.keys.add a := by
  refine OrdSet.ext ((keys_upsertEntry a default f m.entries).trans ?_)
  by_cases there : a ∈ m.keys
  · rw [OrdSet.add_of_mem there]
    exact if_pos there
  · rw [OrdSet.items_add_of_notMem there]
    exact if_neg there

@[simp] theorem get_upsert (m : OrdMap α ν) (a b : α) (default : ν) (f : ν → ν) :
    (m.upsert a default f).get b = if b = a then some (f ((m.get a).getD default)) else m.get b :=
  lookup_upsertEntry a b default f m.entries

theorem lookup_eq_some {a : α} {v : ν} : ∀ {entries : List (α × ν)},
    (entries.map Prod.fst).Nodup → (entries.lookup a = some v ↔ (a, v) ∈ entries)
  | [], _ => by simp
  | (b, w) :: entries, nodup => by
      rw [List.map_cons, List.nodup_cons] at nodup
      obtain ⟨new, nodup⟩ := nodup
      rw [List.lookup_cons, List.mem_cons, Prod.mk.injEq]
      by_cases same : a = b
      · subst same
        have notLater : (a, v) ∉ entries := fun later =>
          new (List.mem_map.mpr ⟨(a, v), later, rfl⟩)
        simp [notLater, eq_comm]
      · simp [beq_eq_false_iff_ne.mpr same, same, lookup_eq_some nodup]

theorem get_eq_some {m : OrdMap α ν} {a : α} {v : ν} :
    m.get a = some v ↔ (a, v) ∈ m.entries :=
  lookup_eq_some m.nodup

end OrdMap

end NestifyClaw
