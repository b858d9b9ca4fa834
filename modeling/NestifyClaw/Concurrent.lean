import Mathlib.Data.List.Forall2
import Mathlib.Data.List.Flatten

/-!
# Programs that wait for several tasks at once

`Prog C R ε α` is an asynchronous function that may throw an `ε`: `read` asks for something that
is there at once, `call` makes a call that may be rejected, and `all` starts one task for each item
and waits for all of them, as `Promise.all` does.  `halt` never goes on; a loop that runs out of
fuel ends in it.

* `Prog.Traces` says which events a program can leave and how it can stand then, whatever its
  calls are answered and however its tasks are interleaved.  A program that has settled leaves
  no further events; what the tasks of an `all` do after one of them failed is not followed.
* `Prog.traces_andThen` takes the traces of a composed program apart.
* `Prog.run` runs a program, one task after the other; `Prog.run_traces` places its run among the
  traces.
-/

namespace NestifyClaw.Concurrent

/-! ## Shuffles -/

section Shuffle

universe u v

variable {E : Type u} {F : Type v}

/-- The last list has the elements of all the others, those of each in their order. -/
inductive Shuffle : List (List E) → List E → Prop
  | done {ls : List (List E)} (ended : ∀ l ∈ ls, l = []) : Shuffle ls []
  | step {before after : List (List E)} {l es : List E} {e : E}
      (rest : Shuffle (before ++ l :: after) es) : Shuffle (before ++ (e :: l) :: after) (e :: es)

namespace Shuffle

variable {ls ls' : List (List E)} {l es es' : List E}

theorem perm (shuffle : Shuffle ls es) : es.Perm ls.flatten := by
  induction shuffle with
  | done ended => rw [List.flatten_eq_nil_iff.mpr ended]
  | step rest ih =>
      simp only [List.flatten_append, List.flatten_cons, List.cons_append] at ih ⊢
      exact (ih.cons _).trans List.perm_middle.symm

/-- The first list may begin. -/
theorem append_head (shuffle : Shuffle (l :: ls) es) (front : List E) :
    Shuffle ((front ++ l) :: ls) (front ++ es) := by
  induction front with
  | nil => exact shuffle
  | cons e front ih => exact @step _ [] _ _ _ _ ih

theorem nil_cons (shuffle : Shuffle ls es) : Shuffle ([] :: ls) es := by
  induction shuffle with
  | done ended => exact done (List.forall_mem_cons.mpr ⟨rfl, ended⟩)
  | @step before _ _ _ _ _ ih => exact @step _ ([] :: before) _ _ _ _ ih

/-- One list after the other. -/
theorem flatten (ls : List (List E)) : Shuffle ls ls.flatten := by
  induction ls with
  | nil => exact done (by simp)
  | cons l ls ih =>
      have whole := (nil_cons ih).append_head l
      rwa [List.append_nil] at whole

/-- Where a shuffle is stopped, each of its lists is. -/
theorem of_prefix (shuffle : Shuffle ls (es ++ es')) :
    ∃ ls', List.Forall₂ (fun l' l => l' <+: l) ls' ls ∧ Shuffle ls' es := by
  induction es generalizing ls with
  | nil =>
      refine ⟨ls.map fun _ => [], ?_, done fun l there => ?_⟩
      · rw [List.forall₂_map_left_iff]
        exact List.forall₂_same.mpr fun l _ => List.nil_prefix
      · obtain ⟨_, -, rfl⟩ := List.mem_map.mp there
        rfl
  | cons e es ih =>
      obtain ⟨before, after, l, rfl, rest⟩ : ∃ before after l, ls = before ++ (e :: l) :: after ∧
          Shuffle (before ++ l :: after) (es ++ es') := by
        cases shuffle with
        | step rest => exact ⟨_, _, _, rfl, rest⟩
      obtain ⟨ls', prefixes, stopped⟩ := ih rest
      have split := (List.take_append_drop before.length ls').symm
      have fore := List.forall₂_take_append ls' before (l :: after) prefixes
      have aft := List.forall₂_drop_append ls' before (l :: after) prefixes
      rw [split] at stopped
      generalize ls'.take before.length = before' at fore stopped
      cases List.forall₂_cons_right_iff.mp aft with
      | intro l' more =>
          obtain ⟨after', here, there, same⟩ := more
          rw [same] at stopped
          refine ⟨before' ++ (e :: l') :: after', ?_, .step stopped⟩
          exact List.rel_append fore (.cons (List.cons_prefix_cons.mpr ⟨rfl, here⟩) there)

theorem zipWith_append_of_ended (ended : ∀ l ∈ ls, l = []) (long : ls.length = ls'.length) :
    List.zipWith (· ++ ·) ls ls' = ls' := by
  induction ls generalizing ls' with
  | nil =>
      cases ls' with
      | nil => rfl
      | cons l ls' => cases long
  | cons l ls ih =>
      cases ls' with
      | nil => cases long
      | cons l' ls' =>
          obtain ⟨empty, ended⟩ := List.forall_mem_cons.mp ended
          rw [List.zipWith_cons_cons, ih ended (Nat.succ.inj long), empty, List.nil_append]

/-- Every list goes on after a first part. -/
theorem zipWith_append (first : Shuffle ls es) (second : Shuffle ls' es')
    (long : ls.length = ls'.length) : Shuffle (List.zipWith (· ++ ·) ls ls') (es ++ es') := by
  induction first generalizing ls' with
  | done ended =>
      rw [zipWith_append_of_ended ended long]
      exact second
  | @step before after l _ e rest ih =>
      have long' : (before ++ l :: after).length = ls'.length := by
        rw [← long]
        simp
      have inside : before.length < ls'.length := by
        rw [← long']
        simp
      have sameLong : before.length = (ls'.take before.length).length := by
        rw [List.length_take, Nat.min_eq_left (Nat.le_of_lt inside)]
      have whole := ih second long'
      rw [← List.take_append_drop before.length ls', List.drop_eq_getElem_cons inside] at whole ⊢
      rw [List.zipWith_append sameLong, List.zipWith_cons_cons] at whole ⊢
      exact step whole

theorem filterMap (f : E → Option F) (shuffle : Shuffle ls es) :
    Shuffle (ls.map fun l => l.filterMap f) (es.filterMap f) := by
  induction shuffle with
  | done ended =>
      refine done fun l there => ?_
      obtain ⟨l', there', rfl⟩ := List.mem_map.mp there
      rw [ended l' there', List.filterMap_nil]
  | @step before after l es e rest ih =>
      rw [List.map_append, List.map_cons] at ih ⊢
      cases mapped : f e with
      | none =>
          rw [List.filterMap_cons_none mapped, List.filterMap_cons_none mapped]
          exact ih
      | some e' =>
          rw [List.filterMap_cons_some mapped, List.filterMap_cons_some mapped]
          exact step ih

end Shuffle

end Shuffle

/-! ## Programs -/

inductive Prog (C : Type) (R : C → Type) (ε : Type) : Type → Type 1
  | done {α : Type} (a : α) : Prog C R ε α
  | fail {α : Type} (e : ε) : Prog C R ε α
  | halt {α : Type} : Prog C R ε α
  | read {α : Type} (c : C) (k : R c → Prog C R ε α) : Prog C R ε α
  | call {α : Type} (c : C) (k : Except ε (R c) → Prog C R ε α) : Prog C R ε α
  | all {ι α β : Type} (items : List ι) (task : ι → Prog C R ε β)
      (k : Except ε (List β) → Prog C R ε α) : Prog C R ε α

/-- A call and its answer, if there is one yet. -/
structure Event (C : Type) (R : C → Type) (ε : Type) where
  call : C
  answer : Option (Except ε (R call))

variable {C : Type} {R : C → Type} {ε α β γ ι : Type}

namespace Prog

/-- `then`: what is done once the program has settled. -/
def andThen {α β : Type} : Prog C R ε α → (Except ε α → Prog C R ε β) → Prog C R ε β
  | done a, f => f (.ok a)
  | fail e, f => f (.error e)
  | halt, _ => halt
  | read c k, f => read c fun v => (k v).andThen f
  | call c k, f => call c fun answer => (k answer).andThen f
  | all items task k, f => all items task fun results => (k results).andThen f

def bind (p : Prog C R ε α) (f : α → Prog C R ε β) : Prog C R ε β :=
  p.andThen fun
    | .ok a => f a
    | .error e => fail e

instance : Monad (Prog C R ε) where
  pure := done
  bind := bind

/-- `try` and `catch` -/
def tryCatch (p : Prog C R ε α) (h : ε → Prog C R ε α) : Prog C R ε α :=
  p.andThen fun
    | .ok a => done a
    | .error e => h e

def ofExcept : Except ε α → Prog C R ε α
  | .ok a => done a
  | .error e => fail e

/-- Make a call, wait for the answer and throw if it is a rejection. -/
def await (c : C) : Prog C R ε (R c) := call c ofExcept

/-- What is there now. -/
def get (c : C) : Prog C R ε (R c) := read c done

/-- `Promise.all` over the tasks of the items. -/
def awaitAll (items : List ι) (task : ι → Prog C R ε β) : Prog C R ε (List β) :=
  all items task ofExcept

/-- The events that a program can leave, and how it can stand then: it goes on, returned or
threw. -/
def Traces {α : Type} : Prog C R ε α → List (Event C R ε) → Option (Except ε α) → Prop
  | done a, es, o => es = [] ∧ (o = none ∨ o = some (.ok a))
  | fail e, es, o => es = [] ∧ (o = none ∨ o = some (.error e))
  | halt, es, o => es = [] ∧ o = none
  | read c k, es, o => (es = [] ∧ o = none) ∨
      ∃ v rest, es = ⟨c, some (.ok v)⟩ :: rest ∧ (k v).Traces rest o
  | call c k, es, o => ((es = [] ∨ es = [⟨c, none⟩]) ∧ o = none) ∨
      ∃ answer rest, es = ⟨c, some answer⟩ :: rest ∧ (k answer).Traces rest o
  | all items task k, es, o => ∃ runs : List (List (Event C R ε) × Option (Except ε _)),
      List.Forall₂ (fun i r => (task i).Traces r.1 r.2) items runs ∧
        ∃ first rest, es = first ++ rest ∧ Shuffle (runs.map Prod.fst) first ∧
          (rest = [] ∧ o = none ∨
            (∃ bs, runs.map Prod.snd = bs.map (some ∘ .ok) ∧ (k (.ok bs)).Traces rest o) ∨
            ∃ e, some (.error e) ∈ runs.map Prod.snd ∧ (k (.error e)).Traces rest o)

/-! ## Taking traces apart -/

section Traces

variable {es : List (Event C R ε)}

theorem traces_nil (p : Prog C R ε α) : p.Traces [] none := by
  induction p with
  | done a => exact ⟨rfl, Or.inl rfl⟩
  | fail e => exact ⟨rfl, Or.inl rfl⟩
  | halt => exact ⟨rfl, rfl⟩
  | read c k => exact Or.inl ⟨rfl, rfl⟩
  | call c k => exact Or.inl ⟨Or.inl rfl, rfl⟩
  | all items task k each =>
      refine ⟨items.map fun _ => ([], none), ?_, [], [], rfl, .done fun l there => ?_,
        Or.inl ⟨rfl, rfl⟩⟩
      · rw [List.forall₂_map_right_iff]
        exact List.forall₂_same.mpr fun i _ => each i
      · rw [List.map_map] at there
        obtain ⟨i, -, rfl⟩ := List.mem_map.mp there
        rfl

/-- Two lists that stand in relation to the same one. -/
theorem forall₂_meet {A B D : Type*} {P : A → B → Prop} {Q : D → B → Prop} {S : A → D → Prop}
    (meet : ∀ a b d, P a b → Q d b → S a d) {as : List A} {bs : List B} {ds : List D}
    (first : List.Forall₂ P as bs) (second : List.Forall₂ Q ds bs) : List.Forall₂ S as ds := by
  induction first generalizing ds with
  | nil =>
      cases second
      exact .nil
  | cons here _ ih =>
      cases second with
      | cons here' there' => exact .cons (meet _ _ _ here here') (ih there')

/-- A program may be stopped anywhere. -/
theorem traces_of_prefix {p : Prog C R ε α} {es' : List (Event C R ε)} {o : Option (Except ε α)}
    (traces : p.Traces (es ++ es') o) : p.Traces es none := by
  induction p generalizing es es' with
  | done a => exact ⟨(List.append_eq_nil_iff.mp traces.1).1, Or.inl rfl⟩
  | fail e => exact ⟨(List.append_eq_nil_iff.mp traces.1).1, Or.inl rfl⟩
  | halt => exact ⟨(List.append_eq_nil_iff.mp traces.1).1, rfl⟩
  | read c k ih =>
      cases es with
      | nil => exact traces_nil _
      | cons e es =>
          obtain ⟨never, -⟩ | ⟨v, rest, same, traces⟩ := traces
          · cases never
          · cases same
            exact Or.inr ⟨v, es, rfl, ih v traces⟩
  | call c k ih =>
      cases es with
      | nil => exact traces_nil _
      | cons e es =>
          obtain ⟨never | same, -⟩ | ⟨answer, rest, same, traces⟩ := traces
          · cases never
          · obtain ⟨rfl, isNil⟩ := List.cons.inj same
            obtain ⟨rfl, -⟩ := List.append_eq_nil_iff.mp isNil
            exact Or.inl ⟨Or.inr rfl, rfl⟩
          · cases same
            exact Or.inr ⟨answer, es, rfl, ih answer traces⟩
  | all items task k each ih =>
      obtain ⟨runs, eachRuns, first, rest, same, shuffle, settles⟩ := traces
      rcases List.append_eq_append_iff.mp same with ⟨more, rfl, -⟩ | ⟨more, rfl, rfl⟩
      · -- stopped before all of the tasks have ended
        obtain ⟨ls', prefixes, stopped⟩ := shuffle.of_prefix
        refine ⟨ls'.map fun l => (l, none), ?_, es, [], (List.append_nil _).symm, ?_,
          Or.inl ⟨rfl, rfl⟩⟩
        · rw [List.forall₂_map_right_iff] at prefixes ⊢
          refine forall₂_meet (fun i run l here stops => ?_) eachRuns prefixes
          obtain ⟨more', same'⟩ := stops
          rw [← same'] at here
          exact each i here
        · rw [List.map_map, show Prod.fst ∘ (fun l => (l, none)) = id from rfl, List.map_id]
          exact stopped
      · refine ⟨runs, eachRuns, first, more, rfl, shuffle, ?_⟩
        rcases settles with ⟨isNil, -⟩ | ⟨bs, results, traces⟩ | ⟨e, failed, traces⟩
        · exact Or.inl ⟨(List.append_eq_nil_iff.mp isNil).1, rfl⟩
        · exact Or.inr (Or.inl ⟨bs, results, ih _ traces⟩)
        · exact Or.inr (Or.inr ⟨e, failed, ih _ traces⟩)

theorem traces_done {a : α} {o : Option (Except ε α)} (traces : (done a).Traces es o) :
    es = [] ∧ (o = none ∨ o = some (.ok a)) := traces

theorem traces_done_ok {a b : α} (traces : (done a).Traces es (some (.ok b))) :
    es = [] ∧ b = a := by
  obtain ⟨empty, none | same⟩ := traces
  · cases none
  · exact ⟨empty, Except.ok.inj (Option.some.inj same)⟩

theorem not_traces_fail_ok {e : ε} {a : α} : ¬(fail e).Traces es (some (.ok a)) := by
  rintro ⟨-, none | other⟩
  · cases none
  · cases other

theorem traces_andThen {p : Prog C R ε α} {f : Except ε α → Prog C R ε β}
    {o : Option (Except ε β)} (traces : (p.andThen f).Traces es o) :
    (∃ r first rest, es = first ++ rest ∧ p.Traces first (some r) ∧ (f r).Traces rest o) ∨
      p.Traces es none ∧ o = none := by
  induction p generalizing es with
  | done a => exact Or.inl ⟨.ok a, [], es, rfl, ⟨rfl, Or.inr rfl⟩, traces⟩
  | fail e => exact Or.inl ⟨.error e, [], es, rfl, ⟨rfl, Or.inr rfl⟩, traces⟩
  | halt => exact Or.inr ⟨⟨traces.1, rfl⟩, traces.2⟩
  | read c k ih =>
      rcases traces with ⟨rfl, rfl⟩ | ⟨v, rest, rfl, traces⟩
      · exact Or.inr ⟨Or.inl ⟨rfl, rfl⟩, rfl⟩
      · rcases ih v traces with ⟨r, first, rest, rfl, here, there⟩ | ⟨here, none⟩
        · exact Or.inl ⟨r, _ :: first, rest, rfl, Or.inr ⟨v, first, rfl, here⟩, there⟩
        · exact Or.inr ⟨Or.inr ⟨v, rest, rfl, here⟩, none⟩
  | call c k ih =>
      rcases traces with ⟨begun, rfl⟩ | ⟨answer, rest, rfl, traces⟩
      · exact Or.inr ⟨Or.inl ⟨begun, rfl⟩, rfl⟩
      · rcases ih answer traces with ⟨r, first, rest, rfl, here, there⟩ | ⟨here, none⟩
        · exact Or.inl ⟨r, _ :: first, rest, rfl, Or.inr ⟨answer, first, rfl, here⟩, there⟩
        · exact Or.inr ⟨Or.inr ⟨answer, rest, rfl, here⟩, none⟩
  | all items task k _ ih =>
      obtain ⟨runs, each, first, rest, rfl, shuffle, settled⟩ := traces
      -- the tasks are the same; what differs is how the program goes on behind them
      have further : ∀ results, (∀ {rest o}, (k results).Traces rest o →
          (all items task k).Traces (first ++ rest) o) →
          ((k results).andThen f).Traces rest o →
          (∃ r front back, first ++ rest = front ++ back ∧
            (all items task k).Traces front (some r) ∧ (f r).Traces back o) ∨
            (all items task k).Traces (first ++ rest) none ∧ o = none := by
        intro results behind traces
        rcases ih results traces with ⟨r, more, rest, rfl, here, there⟩ | ⟨here, none⟩
        · exact Or.inl ⟨r, first ++ more, rest, (List.append_assoc _ _ _).symm, behind here, there⟩
        · exact Or.inr ⟨behind here, none⟩
      rcases settled with ⟨rfl, rfl⟩ | ⟨bs, returned, traces⟩ | ⟨e, failed, traces⟩
      · exact Or.inr ⟨⟨runs, each, first, [], rfl, shuffle, Or.inl ⟨rfl, rfl⟩⟩, rfl⟩
      · exact further (.ok bs) (fun there =>
          ⟨runs, each, first, _, rfl, shuffle, Or.inr (Or.inl ⟨bs, returned, there⟩)⟩) traces
      · exact further (.error e) (fun there =>
          ⟨runs, each, first, _, rfl, shuffle, Or.inr (Or.inr ⟨e, failed, there⟩)⟩) traces

theorem traces_bind_ok {p : Prog C R ε α} {f : α → Prog C R ε β} {b : β}
    (traces : (p >>= f).Traces es (some (.ok b))) : ∃ a first rest, es = first ++ rest ∧
      p.Traces first (some (.ok a)) ∧ (f a).Traces rest (some (.ok b)) := by
  rcases traces_andThen traces with ⟨a | a, first, rest, rfl, here, there⟩ | ⟨-, none⟩
  · exact absurd there not_traces_fail_ok
  · exact ⟨a, first, rest, rfl, here, there⟩
  · cases none

theorem traces_tryCatch_ok {p : Prog C R ε α} {h : ε → Prog C R ε α} {a : α}
    (traces : (p.tryCatch h).Traces es (some (.ok a))) :
    p.Traces es (some (.ok a)) ∨ ∃ e first rest, es = first ++ rest ∧
      p.Traces first (some (.error e)) ∧ (h e).Traces rest (some (.ok a)) := by
  rcases traces_andThen traces with ⟨e | a', first, rest, rfl, here, there⟩ | ⟨-, none⟩
  · exact Or.inr ⟨e, first, rest, rfl, here, there⟩
  · obtain ⟨rfl, rfl⟩ := traces_done_ok there
    rw [List.append_nil]
    exact Or.inl here
  · cases none

theorem traces_ofExcept {r : Except ε α} {o : Except ε α}
    (traces : (ofExcept r : Prog C R ε α).Traces es (some o)) : es = [] ∧ o = r := by
  cases r with
  | error e =>
      obtain ⟨empty, none | same⟩ := traces
      · cases none
      · exact ⟨empty, Option.some.inj same⟩
  | ok a =>
      obtain ⟨empty, none | same⟩ := traces
      · cases none
      · exact ⟨empty, Option.some.inj same⟩

theorem traces_await {c : C} {r : Except ε (R c)} (traces : (await c).Traces es (some r)) :
    es = [⟨c, some r⟩] := by
  rcases traces with ⟨-, none⟩ | ⟨answer, rest, rfl, traces⟩
  · cases none
  · obtain ⟨rfl, rfl⟩ := traces_ofExcept traces
    rfl

theorem traces_get {c : C} {r : Except ε (R c)} (traces : (get c).Traces es (some r)) :
    ∃ v, r = .ok v ∧ es = [⟨c, some (.ok v)⟩] := by
  rcases traces with ⟨-, none⟩ | ⟨v, rest, rfl, rfl, none | same⟩
  · cases none
  · cases none
  · exact ⟨v, Option.some.inj same, rfl⟩

/-- All tasks returned, and their results are in the order of the items. -/
theorem traces_awaitAll_ok {items : List ι} {task : ι → Prog C R ε β} {bs : List β}
    (traces : (awaitAll items task).Traces es (some (.ok bs))) :
    ∃ runs : List (List (Event C R ε) × β), runs.map Prod.snd = bs ∧
      List.Forall₂ (fun i r => (task i).Traces r.1 (some (.ok r.2))) items runs ∧
        Shuffle (runs.map Prod.fst) es := by
  obtain ⟨runs, each, first, rest, rfl, shuffle, settled⟩ := traces
  rcases settled with ⟨-, none⟩ | ⟨bs', returned, traces⟩ | ⟨e, -, traces⟩
  · cases none
  · obtain ⟨rfl, same⟩ := traces_ofExcept traces
    cases same
    rw [List.append_nil]
    -- each task's outcome is one of the results
    have long : runs.length = bs.length := by
      simpa using congrArg List.length returned
    refine ⟨(runs.map Prod.fst).zip bs, List.map_snd_zip (by simp [long]), ?_, ?_⟩
    · rw [List.forall₂_iff_get] at each ⊢
      refine ⟨by simp [each.1, long], fun n here there => ?_⟩
      have inRuns : n < runs.length := each.1 ▸ here
      have inResults : n < bs.length := long ▸ inRuns
      have outcome : (runs.map Prod.snd).get ⟨n, by simpa using inRuns⟩ =
          (bs.map (some ∘ .ok)).get ⟨n, by simpa using inResults⟩ := by
        simp only [returned, List.get_eq_getElem]
      have task := each.2 n here inRuns
      simp only [List.get_eq_getElem, List.getElem_map, Function.comp_apply, List.getElem_zip]
        at task outcome ⊢
      rwa [outcome] at task
    · rwa [List.map_fst_zip (by simp [long])]
  · obtain ⟨-, same⟩ := traces_ofExcept traces
    cases same

end Traces

/-! ## Putting traces together -/

section Compose

variable {es es' : List (Event C R ε)}

theorem Traces.andThen {p : Prog C R ε α} {f : Except ε α → Prog C R ε β} {r : Except ε α}
    {o : Option (Except ε β)} (here : p.Traces es (some r)) (there : (f r).Traces es' o) :
    (p.andThen f).Traces (es ++ es') o := by
  induction p generalizing es with
  | done a =>
      obtain ⟨rfl, none | same⟩ := here
      · cases none
      · cases same
        exact there
  | fail e =>
      obtain ⟨rfl, none | same⟩ := here
      · cases none
      · cases same
        exact there
  | halt => cases here.2
  | read c k ih =>
      rcases here with ⟨-, none⟩ | ⟨v, rest, rfl, here⟩
      · cases none
      · exact Or.inr ⟨v, rest ++ es', rfl, ih v here there⟩
  | call c k ih =>
      rcases here with ⟨-, none⟩ | ⟨answer, rest, rfl, here⟩
      · cases none
      · exact Or.inr ⟨answer, rest ++ es', rfl, ih answer here there⟩
  | all items task k _ ih =>
      obtain ⟨runs, each, first, rest, rfl, shuffle, settled⟩ := here
      refine ⟨runs, each, first, rest ++ es', List.append_assoc _ _ _, shuffle, Or.inr ?_⟩
      rcases settled with ⟨-, none⟩ | ⟨bs, returned, here⟩ | ⟨e, failed, here⟩
      · cases none
      · exact Or.inl ⟨bs, returned, ih (.ok bs) here there⟩
      · exact Or.inr ⟨e, failed, ih (.error e) here there⟩

theorem Traces.bind {p : Prog C R ε α} {f : α → Prog C R ε β} {a : α}
    {o : Option (Except ε β)} (here : p.Traces es (some (.ok a))) (there : (f a).Traces es' o) :
    (p >>= f).Traces (es ++ es') o :=
  Traces.andThen (f := fun
    | .ok a => f a
    | .error e => fail e) here there

theorem traces_pure (a : α) : (pure a : Prog C R ε α).Traces [] (some (.ok a)) :=
  ⟨rfl, Or.inr rfl⟩

theorem traces_get_of {c : C} (v : R c) :
    (get c : Prog C R ε _).Traces [⟨c, some (.ok v)⟩] (some (.ok v)) :=
  Or.inr ⟨v, [], rfl, rfl, Or.inr rfl⟩

end Compose

/-! ## Which calls are made -/

section Makes

variable {P : C → Prop}

/-- Every call that the program makes is of the kind. -/
def Makes (P : C → Prop) (p : Prog C R ε α) : Prop :=
  ∀ es o, p.Traces es o → ∀ e ∈ es, P e.call

theorem makes_done (a : α) : Makes P (done a : Prog C R ε α) := by
  rintro es o ⟨rfl, -⟩
  simp

theorem makes_ofExcept (r : Except ε α) : Makes P (ofExcept r : Prog C R ε α) := by
  rcases r with e | a <;>
    · rintro es o ⟨rfl, -⟩
      simp

theorem makes_call {c : C} {k : Except ε (R c) → Prog C R ε α} (isKind : P c)
    (rest : ∀ answer, Makes P (k answer)) : Makes P (call c k) := by
  rintro es o (⟨rfl | rfl, -⟩ | ⟨answer, es, rfl, traces⟩)
  · simp
  · simpa using isKind
  · exact List.forall_mem_cons.mpr ⟨isKind, rest answer es o traces⟩

theorem makes_read {c : C} {k : R c → Prog C R ε α} (isKind : P c)
    (rest : ∀ v, Makes P (k v)) : Makes P (read c k) := by
  rintro es o (⟨rfl, -⟩ | ⟨v, es, rfl, traces⟩)
  · simp
  · exact List.forall_mem_cons.mpr ⟨isKind, rest v es o traces⟩

theorem makes_await {c : C} (isKind : P c) : Makes P (await c : Prog C R ε _) :=
  makes_call isKind makes_ofExcept

theorem makes_get {c : C} (isKind : P c) : Makes P (get c : Prog C R ε _) :=
  makes_read isKind makes_done

theorem Makes.mono {Q : C → Prop} {p : Prog C R ε α} (makes : Makes P p) (weaker : ∀ c, P c → Q c) :
    Makes Q p :=
  fun es o traces e there => weaker _ (makes es o traces e there)

theorem makes_awaitAll {items : List ι} {task : ι → Prog C R ε β}
    (each : ∀ i, Makes P (task i)) : Makes P (awaitAll items task) := by
  rintro es o ⟨runs, traces, first, rest, rfl, shuffle, settled⟩
  refine List.forall_mem_append.mpr ⟨fun e there => ?_, ?_⟩
  · obtain ⟨l, isPart, inPart⟩ := List.mem_flatten.mp (shuffle.perm.subset there)
    obtain ⟨run, isRun, rfl⟩ := List.mem_map.mp isPart
    obtain ⟨n, inside, rfl⟩ := List.getElem_of_mem isRun
    have inItems : n < items.length := traces.length_eq ▸ inside
    exact each _ _ _ (traces.get inItems inside) e inPart
  · rcases settled with ⟨rfl, -⟩ | ⟨bs, -, settled⟩ | ⟨e, -, settled⟩
    · simp
    · exact makes_ofExcept _ _ _ settled
    · exact makes_ofExcept _ _ _ settled

theorem Makes.andThen {p : Prog C R ε α} {f : Except ε α → Prog C R ε β} (first : Makes P p)
    (rest : ∀ r, Makes P (f r)) : Makes P (p.andThen f) := by
  intro es o traces
  rcases traces_andThen traces with ⟨r, es₁, es₂, rfl, here, there⟩ | ⟨here, -⟩
  · exact List.forall_mem_append.mpr ⟨first _ _ here, rest r _ _ there⟩
  · exact first _ _ here

theorem Makes.bind {p : Prog C R ε α} {f : α → Prog C R ε β} (first : Makes P p)
    (rest : ∀ a, Makes P (f a)) : Makes P (p >>= f) :=
  first.andThen fun
    | .ok a => rest a
    | .error e => makes_ofExcept (.error e)

theorem Makes.tryCatch {p : Prog C R ε α} {h : ε → Prog C R ε α} (first : Makes P p)
    (rest : ∀ e, Makes P (h e)) : Makes P (p.tryCatch h) :=
  first.andThen fun
    | .ok a => makes_done a
    | .error e => rest e

end Makes

/-! ## Running -/

/-- How a run went: the events, how it stands, and the callees' state. -/
structure Run (τ C : Type) (R : C → Type) (ε α : Type) where
  events : List (Event C R ε)
  outcome : Option (Except ε α)
  callees : τ

/-- Callees with a state of their own. -/
abbrev Callees (τ C : Type) (R : C → Type) (ε : Type) := τ → (c : C) → Except ε (R c) × τ

variable {τ : Type}

def Run.after (e : Event C R ε) (run : Run τ C R ε α) : Run τ C R ε α :=
  { run with events := e :: run.events }

/-- The first failure, or the results if there are all of them. -/
def gather : List (Option (Except ε β)) → Option (Except ε (List β))
  | [] => some (.ok [])
  | some (.ok b) :: os => (gather os).map fun
      | .ok bs => .ok (b :: bs)
      | .error e => .error e
  | some (.error e) :: _ => some (.error e)
  | none :: _ => none

def runEach (task : ι → τ → Run τ C R ε β) : List ι → τ → List (Run τ C R ε β) × τ
  | [], t => ([], t)
  | i :: items, t =>
      let run := task i t
      let rest := runEach task items run.callees
      (run :: rest.1, rest.2)

def run {α : Type} (callees : Callees τ C R ε) : Prog C R ε α → τ → Run τ C R ε α
  | done a, t => ⟨[], some (.ok a), t⟩
  | fail e, t => ⟨[], some (.error e), t⟩
  | halt, t => ⟨[], none, t⟩
  | read c k, t =>
      match callees t c with
      | (.ok v, t) => ((k v).run callees t).after ⟨c, some (.ok v)⟩
      | (.error _, _) => ⟨[], none, t⟩
  | call c k, t => ((k (callees t c).1).run callees (callees t c).2).after ⟨c, some (callees t c).1⟩
  | all items task k, t =>
      let each := runEach (fun i => (task i).run callees) items t
      let events := (each.1.map Run.events).flatten
      match gather (each.1.map Run.outcome) with
      | some results =>
          let rest := (k results).run callees each.2
          { rest with events := events ++ rest.events }
      | none => ⟨events, none, each.2⟩

theorem gather_ok {os : List (Option (Except ε β))} {bs : List β}
    (gathered : gather os = some (.ok bs)) : os = bs.map (some ∘ .ok) := by
  induction os generalizing bs with
  | nil =>
      cases gathered
      rfl
  | cons o os ih =>
      match o with
      | none => cases gathered
      | some (.error e) => cases gathered
      | some (.ok b) =>
          obtain ⟨rest, isRest, same⟩ := Option.map_eq_some_iff.mp gathered
          match rest with
          | .error e => cases same
          | .ok bs' =>
              cases same
              rw [ih isRest, List.map_cons, Function.comp_apply]

theorem gather_error {os : List (Option (Except ε β))} {e : ε}
    (gathered : gather os = some (.error e)) : some (.error e) ∈ os := by
  induction os with
  | nil => cases gathered
  | cons o os ih =>
      match o with
      | none => cases gathered
      | some (.error e') =>
          cases gathered
          exact List.mem_cons_self
      | some (.ok b) =>
          obtain ⟨rest, isRest, same⟩ := Option.map_eq_some_iff.mp gathered
          match rest with
          | .error e' =>
              cases same
              exact List.mem_cons_of_mem _ (ih isRest)
          | .ok bs => cases same

theorem runEach_forall₂ {P : ι → Run τ C R ε β → Prop} {task : ι → τ → Run τ C R ε β}
    (each : ∀ i t, P i (task i t)) (items : List ι) (t : τ) :
    List.Forall₂ P items (runEach task items t).1 := by
  induction items generalizing t with
  | nil => exact .nil
  | cons i items ih => exact .cons (each i t) (ih _)

/-- A run is one of the program's traces. -/
theorem run_traces (callees : Callees τ C R ε) (p : Prog C R ε α) (t : τ) :
    p.Traces (p.run callees t).events (p.run callees t).outcome := by
  induction p generalizing t with
  | done a => exact ⟨rfl, Or.inr rfl⟩
  | fail e => exact ⟨rfl, Or.inr rfl⟩
  | halt => exact ⟨rfl, rfl⟩
  | read c k ih =>
      rw [run]
      rcases callees t c with ⟨e | v, t'⟩
      · exact Or.inl ⟨rfl, rfl⟩
      · exact Or.inr ⟨v, _, rfl, ih v t'⟩
  | call c k ih => exact Or.inr ⟨_, _, rfl, ih _ _⟩
  | all items task k each ih =>
      have runs := runEach_forall₂ (P := fun i r => (task i).Traces r.events r.outcome) each items t
      refine ⟨(runEach (fun i => (task i).run callees) items t).1.map
        fun r => (r.events, r.outcome), ?_, ?_⟩
      · rwa [List.forall₂_map_right_iff]
      · have shuffle := Shuffle.flatten
          ((runEach (fun i => (task i).run callees) items t).1.map Run.events)
        rw [run, List.map_map, List.map_map]
        generalize gathered : gather _ = results
        match results with
        | none => exact ⟨_, [], (List.append_nil _).symm, shuffle, Or.inl ⟨rfl, rfl⟩⟩
        | some (.ok bs) =>
            exact ⟨_, _, rfl, shuffle, Or.inr (Or.inl ⟨bs, gather_ok gathered, ih _ _⟩)⟩
        | some (.error e) =>
            exact ⟨_, _, rfl, shuffle, Or.inr (Or.inr ⟨e, gather_error gathered, ih _ _⟩)⟩

def Run.returned (run : Run τ C R ε α) : Option α :=
  match run.outcome with
  | some (.ok a) => some a
  | _ => none

theorem traces_of_returned {callees : Callees τ C R ε} {p : Prog C R ε α} {t : τ} {a : α}
    (returned : (p.run callees t).returned = some a) :
    p.Traces (p.run callees t).events (some (.ok a)) := by
  have traces := run_traces callees p t
  rw [Run.returned] at returned
  match outcome : (p.run callees t).outcome with
  | none => simp [outcome] at returned
  | some (.error e) => simp [outcome] at returned
  | some (.ok a') =>
      rw [outcome] at returned traces
      cases returned
      exact traces

end Prog

end NestifyClaw.Concurrent
