import Mathlib.Data.List.Nodup
import Mathlib.Data.List.Infix
import Mathlib.Data.List.Chain

/-!
# Trees kept as logs

A tree of entries is kept as the list of its entries in the order in which they were added; an
entry names its parent, which was added before it.  `Links.lineage` is the way from a root down to
an entry.

* `Rooted.lineage_append`: what is added later does not change an entry's lineage.
* `Rooted.lineage_prefix`: an entry of a lineage has the lineage up to itself.
* `Rooted.fork`: two lineages have their beginning in common and nothing behind it.
-/

namespace NestifyClaw

universe u v

/-- How entries are named and what they name as their parent. -/
structure Links (E : Type u) (K : Type v) where
  id : E → K
  parent : E → Option K

namespace Links

variable {E : Type u} {K : Type v} (links : Links E K)

def ids (log : List E) : List K := log.map links.id

/-- Every entry has a name of its own, and a parent was added before its child. -/
inductive Rooted : List E → Prop
  | nil : Rooted []
  | snoc {log : List E} {e : E} (rooted : Rooted log) (fresh : links.id e ∉ links.ids log)
      (known : ∀ p, links.parent e = some p → p ∈ links.ids log) : Rooted (log ++ [e])

variable {links} {log later : List E} {e e' : E} {k k' : K}

@[simp] theorem ids_append : links.ids (log ++ later) = links.ids log ++ links.ids later :=
  List.map_append

theorem mem_ids : k ∈ links.ids log ↔ ∃ e ∈ log, links.id e = k := List.mem_map

namespace Rooted

theorem nodup (rooted : links.Rooted log) : (links.ids log).Nodup := by
  induction rooted with
  | nil => exact List.nodup_nil
  | snoc rooted fresh known ih =>
      rw [ids_append]
      exact List.nodup_append.mpr ⟨ih, List.nodup_singleton _, fun k inLog k' isNew same =>
        fresh (List.mem_singleton.mp isNew ▸ same ▸ inLog)⟩

theorem of_concat (rooted : links.Rooted (log ++ [e])) : links.Rooted log ∧
    links.id e ∉ links.ids log ∧ ∀ p, links.parent e = some p → p ∈ links.ids log := by
  generalize whole : log ++ [e] = entries at rooted
  cases rooted with
  | nil => simp at whole
  | snoc rooted fresh known =>
      obtain ⟨rfl, last⟩ := List.append_inj' whole rfl
      cases last
      exact ⟨rooted, fresh, known⟩

theorem of_append (rooted : links.Rooted (log ++ later)) : links.Rooted log := by
  induction later using List.reverseRecOn with
  | nil => rwa [List.append_nil] at rooted
  | append_singleton later e ih =>
      rw [← List.append_assoc] at rooted
      exact ih rooted.of_concat.1

/-- An entry of the log is known by its name. -/
theorem eq_of_id (rooted : links.Rooted log) (there : e ∈ log) (there' : e' ∈ log)
    (same : links.id e = links.id e') : e = e' :=
  List.inj_on_of_nodup_map rooted.nodup there there' same

/-- A parent is in the log. -/
theorem parent_known (rooted : links.Rooted log) (there : e ∈ log) {p : K}
    (isParent : links.parent e = some p) : p ∈ links.ids log := by
  obtain ⟨before, after, rfl⟩ := List.append_of_mem there
  rw [List.append_cons] at rooted
  obtain ⟨above, isBefore, same⟩ := mem_ids.mp (rooted.of_append.of_concat.2.2 p isParent)
  exact mem_ids.mpr ⟨above, List.mem_append_left _ isBefore, same⟩

end Rooted

/-! ## Lineages -/

section Lineage

variable [DecidableEq K]

variable (links) in
/-- The lineage in a log that begins with its newest entry. -/
def lineageFrom : List E → K → List E
  | [], _ => []
  | e :: older, k =>
      if links.id e = k then
        (match links.parent e with
          | some p => lineageFrom older p
          | none => []) ++ [e]
      else lineageFrom older k

variable (links) in
/-- The entries from a root down to the one with this name. -/
def lineage (log : List E) (k : K) : List E := links.lineageFrom log.reverse k

variable (links) in
/-- The lineage of a parent, which is empty for a root. -/
def above (log : List E) : Option K → List E
  | some p => links.lineage log p
  | none => []

theorem lineage_concat : links.lineage (log ++ [e]) k =
    if links.id e = k then links.above log (links.parent e) ++ [e] else links.lineage log k := by
  rw [lineage, List.reverse_concat, lineageFrom]
  cases parent : links.parent e <;> simp [above, lineage]

theorem lineage_sublist : ∀ {log : List E} {k : K}, (links.lineage log k).Sublist log := by
  intro log
  induction log using List.reverseRecOn with
  | nil => exact fun {_} => List.Sublist.refl _
  | append_singleton log e ih =>
      intro k
      rw [lineage_concat]
      split
      · refine List.Sublist.append ?_ (List.Sublist.refl _)
        cases links.parent e with
        | none => exact List.nil_sublist _
        | some p => exact ih
      · exact ih.trans (List.sublist_append_left _ _)

theorem lineage_eq_nil_of_notMem (unknown : k ∉ links.ids log) : links.lineage log k = [] := by
  induction log using List.reverseRecOn with
  | nil => rfl
  | append_singleton log e ih =>
      rw [ids_append, List.mem_append, not_or] at unknown
      rw [lineage_concat, if_neg, ih unknown.1]
      intro same
      exact unknown.2 (List.mem_singleton.mpr same.symm)

namespace Rooted

/-- An entry's lineage stays as it is. -/
theorem lineage_append (rooted : links.Rooted (log ++ later)) (there : k ∈ links.ids log) :
    links.lineage (log ++ later) k = links.lineage log k := by
  induction later using List.reverseRecOn with
  | nil => rw [List.append_nil]
  | append_singleton later e ih =>
      rw [← List.append_assoc] at rooted ⊢
      obtain ⟨before, fresh, -⟩ := rooted.of_concat
      rw [lineage_concat, if_neg, ih before]
      intro same
      rw [same, ids_append] at fresh
      exact fresh (List.mem_append_left _ there)

/-- An entry ends its own lineage; before it comes the lineage of its parent. -/
theorem lineage_eq (rooted : links.Rooted log) (there : e ∈ log) :
    links.lineage log (links.id e) = links.above log (links.parent e) ++ [e] := by
  induction rooted with
  | nil => cases there
  | @snoc log new rooted fresh known ih =>
      have whole : links.Rooted (log ++ [new]) := .snoc rooted fresh known
      have sameAbove : ∀ e' ∈ log, links.above (log ++ [new]) (links.parent e') =
          links.above log (links.parent e') := by
        intro e' inLog
        cases parent : links.parent e' with
        | none => rfl
        | some p => exact whole.lineage_append (rooted.parent_known inLog parent)
      rcases List.mem_append.mp there with inLog | isNew
      · rw [whole.lineage_append (mem_ids.mpr ⟨e, inLog, rfl⟩), ih inLog, sameAbove e inLog]
      · rw [List.mem_singleton.mp isNew, lineage_concat, if_pos rfl]
        cases parent : links.parent new with
        | none => rfl
        | some p => rw [above, above, whole.lineage_append (known p parent)]

theorem lineage_ne_nil (rooted : links.Rooted log) (there : k ∈ links.ids log) :
    links.lineage log k ≠ [] := by
  obtain ⟨e, inLog, rfl⟩ := mem_ids.mp there
  rw [rooted.lineage_eq inLog]
  exact List.append_ne_nil_of_right_ne_nil _ (List.cons_ne_nil _ _)

theorem getLast?_lineage (rooted : links.Rooted log) (there : e ∈ log) :
    (links.lineage log (links.id e)).getLast? = some e := by
  rw [rooted.lineage_eq there, List.getLast?_concat]

/-- A lineage begins with a root. -/
theorem parent_head?_lineage (rooted : links.Rooted log)
    (first : (links.lineage log k).head? = some e) : links.parent e = none := by
  induction rooted generalizing k with
  | nil => cases first
  | @snoc log new rooted fresh known ih =>
      rw [lineage_concat] at first
      split at first
      · cases parent : links.parent new with
        | none =>
            rw [parent] at first
            cases first
            exact parent
        | some p =>
            rw [parent, above, List.head?_append_of_ne_nil _
              (rooted.lineage_ne_nil (known p parent))] at first
            exact ih first
      · exact ih first

/-- In a lineage, each entry's parent is the one before it. -/
theorem isChain_lineage (rooted : links.Rooted log) :
    (links.lineage log k).IsChain fun e e' => links.parent e' = some (links.id e) := by
  induction rooted generalizing k with
  | nil => exact .nil
  | @snoc log new rooted fresh known ih =>
      rw [lineage_concat]
      split
      · cases parent : links.parent new with
        | none => exact .singleton new
        | some p =>
            refine List.isChain_append.mpr ⟨ih, .singleton new, fun e isLast e' isNew => ?_⟩
            cases isNew
            obtain ⟨above, isAbove, rfl⟩ := mem_ids.mp (known p parent)
            rw [Links.above, rooted.getLast?_lineage isAbove] at isLast
            cases isLast
            exact parent
      · exact ih

/-- An entry of a lineage has the lineage up to itself. -/
theorem lineage_prefix (rooted : links.Rooted log) (onWay : e ∈ links.lineage log k) :
    links.lineage log (links.id e) <+: links.lineage log k := by
  induction rooted generalizing k with
  | nil => cases onWay
  | @snoc log new rooted fresh known ih =>
      have whole : links.Rooted (log ++ [new]) := .snoc rooted fresh known
      have older : ∀ {k'}, e ∈ links.lineage log k' →
          links.lineage (log ++ [new]) (links.id e) <+: links.lineage log k' := by
        intro k' onWay
        have inLog : links.id e ∈ links.ids log := mem_ids.mpr ⟨e, lineage_sublist.subset onWay, rfl⟩
        rw [whole.lineage_append inLog]
        exact ih onWay
      by_cases isNew : links.id new = k
      · rw [lineage_concat, if_pos isNew] at onWay
        rcases List.mem_append.mp onWay with above | self
        · rw [lineage_concat (k := k), if_pos isNew]
          refine List.IsPrefix.trans ?_ (List.prefix_append _ _)
          cases parent : links.parent new with
          | none =>
              rw [parent] at above
              cases above
          | some p =>
              rw [parent] at above
              exact older above
        · rw [List.mem_singleton.mp self, isNew]
      · rw [lineage_concat, if_neg isNew] at onWay
        rw [lineage_concat (k := k), if_neg isNew]
        exact older onWay

theorem nodup_lineage (rooted : links.Rooted log) : (links.ids (links.lineage log k)).Nodup :=
  rooted.nodup.sublist (lineage_sublist.map links.id)

/-- What comes before an entry of a lineage is the lineage of its parent. -/
theorem lineage_of_split (rooted : links.Rooted log) {before after : List E}
    (split : links.lineage log k = before ++ e :: after) :
    links.lineage log (links.id e) = before ++ [e] := by
  have there : e ∈ links.lineage log k := by simp [split]
  have own := rooted.lineage_eq (lineage_sublist.subset there)
  obtain ⟨rest, whole⟩ := rooted.lineage_prefix there
  rw [own, split, List.append_assoc] at whole
  have nodup := rooted.nodup_lineage (k := k)
  rw [split, ids_append] at nodup
  obtain ⟨-, inner, apart⟩ := List.nodup_append.mp nodup
  have notBefore : e ∉ before := fun inBefore =>
    apart _ (mem_ids.mpr ⟨e, inBefore, rfl⟩) _ (mem_ids.mpr ⟨e, List.mem_cons_self, rfl⟩) rfl
  have notAfter : e ∉ after := fun inAfter =>
    (List.nodup_cons.mp inner).1 (mem_ids.mpr ⟨e, inAfter, rfl⟩)
  obtain ⟨same, -, -⟩ := (List.append_cons_inj_of_notMem notBefore notAfter).mp whole.symm
  rw [own, same]

/-- Two lineages have their beginning in common, and nothing behind it. -/
theorem fork (rooted : links.Rooted log) (k k' : K) : ∃ common own own',
    links.lineage log k = common ++ own ∧ links.lineage log k' = common ++ own' ∧
      ∀ e ∈ own, ∀ e' ∈ own', links.id e ≠ links.id e' := by
  -- the common part is the longest prefix of the one that lies on the other
  have split : ∀ way : List E, (∀ e ∈ way, e ∈ log) →
      (∀ e before after, way = before ++ e :: after →
        links.lineage log (links.id e) = before ++ [e]) →
      ∃ common own, way = common ++ own ∧ (∀ e ∈ own, e ∉ links.lineage log k') ∧
        common <+: links.lineage log k' := by
    intro way
    induction way using List.reverseRecOn with
    | nil => exact fun _ _ => ⟨[], [], rfl, by simp, List.nil_prefix⟩
    | append_singleton way last ih =>
        intro inLog ways
        by_cases onWay : last ∈ links.lineage log k'
        · refine ⟨way ++ [last], [], by simp, by simp, ?_⟩
          rw [← ways last way [] rfl]
          exact rooted.lineage_prefix onWay
        · obtain ⟨common, own, rfl, apart, isPrefix⟩ :=
            ih (fun e there => inLog e (List.mem_append_left _ there))
              fun e before after here => ways e before (after ++ [last]) (by simp [here])
          refine ⟨common, own ++ [last], by simp, fun e there => ?_, isPrefix⟩
          rcases List.mem_append.mp there with inOwn | isLast
          · exact apart e inOwn
          · exact List.mem_singleton.mp isLast ▸ onWay
  obtain ⟨common, own, here, apart, own', there'⟩ :=
    split (links.lineage log k) (fun e there => lineage_sublist.subset there)
      fun e before after here => rooted.lineage_of_split here
  refine ⟨common, own, own', here, there'.symm, fun e inOwn e' inOwn' same => ?_⟩
  have onWay : e ∈ links.lineage log k := here ▸ List.mem_append_right _ inOwn
  have onOther : e' ∈ links.lineage log k' := there' ▸ List.mem_append_right _ inOwn'
  have isSame := rooted.eq_of_id (lineage_sublist.subset onWay) (lineage_sublist.subset onOther) same
  exact apart e inOwn (isSame ▸ onOther)

end Rooted

end Lineage

end Links

end NestifyClaw
