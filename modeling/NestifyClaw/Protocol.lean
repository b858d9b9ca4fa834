import NestifyClaw.Concurrent

/-!
# Programs that keep to a protocol

A protocol says which observations may follow one another.  `Protocol.Keeps` is a judgement on
programs: from a state on, whatever its calls are answered and wherever it stops, the program
leaves a way through the protocol, and it settles only as the postcondition says.  The rules follow
the program's structure.
-/

namespace NestifyClaw.Concurrent

universe u v

variable {S : Type u} {O : Type v}

/-- A way through the states along observations. -/
inductive Walk (R : S → O → S → Prop) : S → List O → S → Prop
  | nil {s : S} : Walk R s [] s
  | cons {s s' s'' : S} {o : O} {os : List O} (step : R s o s') (rest : Walk R s' os s'') :
      Walk R s (o :: os) s''

namespace Walk

variable {R : S → O → S → Prop} {s s' s'' : S} {o : O} {os os' : List O}

theorem append (first : Walk R s os s') (rest : Walk R s' os' s'') : Walk R s (os ++ os') s'' := by
  induction first with
  | nil => exact rest
  | cons step _ ih => exact .cons step (ih rest)

theorem of_append (path : Walk R s (os ++ os') s'') : ∃ s', Walk R s os s' ∧ Walk R s' os' s'' := by
  induction os generalizing s with
  | nil => exact ⟨s, .nil, path⟩
  | cons o os ih =>
      cases path with
      | cons step rest =>
          obtain ⟨s', first, rest⟩ := ih rest
          exact ⟨s', .cons step first, rest⟩

theorem single (step : R s o s') : Walk R s [o] s' := .cons step .nil

/-- Where each step leads to one state, so does each way. -/
theorem unique (functional : ∀ {s o s' s''}, R s o s' → R s o s'' → s' = s'')
    (path : Walk R s os s') (path' : Walk R s os s'') : s' = s'' := by
  induction path with
  | nil =>
      cases path'
      rfl
  | cons step rest ih =>
      cases path' with
      | cons step' rest' => exact ih (functional step step' ▸ rest')

/-- Observations that leave every state as it is. -/
theorem still (stays : ∀ o ∈ os, ∀ s s', R s o s' → s' = s) (path : Walk R s os s') : s' = s := by
  induction path with
  | nil => rfl
  | cons step rest ih =>
      obtain ⟨here, there⟩ := List.forall_mem_cons.mp stays
      rw [ih there, here _ _ step]

/-- No way leads on from a state that no step leaves. -/
theorem of_stuck (stuck : ∀ o s', ¬R s o s') (path : Walk R s os s') : os = [] ∧ s' = s := by
  cases path with
  | nil => exact ⟨rfl, rfl⟩
  | cons step => exact absurd step (stuck _ _)

/-- Observations that keep the state. -/
theorem loops (loop : ∀ o ∈ os, R s o s) : Walk R s os s := by
  induction os with
  | nil => exact .nil
  | cons o os ih =>
      obtain ⟨here, there⟩ := List.forall_mem_cons.mp loop
      exact .cons here (ih there)

/-! ### Recorded ways -/

/-- A step, observed together with the state that it leaves. -/
def Recorded (R : S → O → S → Prop) (s : S) (p : S × O) (s' : S) : Prop := p.1 = s ∧ R s p.2 s'

theorem recorded (path : Walk R s os s') :
    ∃ ps : List (S × O), ps.map Prod.snd = os ∧ Walk (Recorded R) s ps s' := by
  induction path with
  | nil => exact ⟨[], rfl, .nil⟩
  | @cons s s' _ o _ step _ ih =>
      obtain ⟨ps, same, path⟩ := ih
      exact ⟨(s, o) :: ps, congrArg (o :: ·) same, .cons ⟨rfl, step⟩ path⟩

/-- A queue that each step takes from in front and puts to behind gives what it is given, in the
same order. -/
theorem fifo {A : Type*} {queue : S → List A} {put take : S × O → List A}
    (step : ∀ s o s', R s o s' → queue s ++ put (s, o) = take (s, o) ++ queue s')
    {ps : List (S × O)} (path : Walk (Recorded R) s ps s') :
    queue s ++ ps.flatMap put = ps.flatMap take ++ queue s' := by
  induction path with
  | nil => exact List.append_nil _
  | @cons s s' s'' p ps here _ ih =>
      obtain ⟨rfl, moves⟩ := here
      rw [List.flatMap_cons, List.flatMap_cons, ← List.append_assoc, step _ _ _ moves,
        List.append_assoc, ih, List.append_assoc]

end Walk

/-! ## Running -/

section Run

variable {C : Type} {R : C → Type} {ε α β ι τ : Type}

/-- The callees answered the call so. -/
def Prog.Answers (callees : Prog.Callees τ C R ε) (t : τ) (e : Event C R ε) (t' : τ) : Prop :=
  e.answer = some (callees t e.call).1 ∧ t' = (callees t e.call).2

variable {callees : Prog.Callees τ C R ε}

theorem Prog.runEach_walk {task : ι → τ → Prog.Run τ C R ε β}
    (each : ∀ i t, Walk (Prog.Answers callees) t (task i t).events (task i t).callees)
    (items : List ι) (t : τ) :
    Walk (Prog.Answers callees) t ((Prog.runEach task items t).1.map Prog.Run.events).flatten
      (Prog.runEach task items t).2 := by
  induction items generalizing t with
  | nil => exact .nil
  | cons i items ih => exact (each i t).append (ih _)

/-- The events of a run lead the callees through their states. -/
theorem Prog.run_walk (p : Prog C R ε α) (t : τ) :
    Walk (Prog.Answers callees) t (p.run callees t).events (p.run callees t).callees := by
  induction p generalizing t with
  | done a => exact .nil
  | fail e => exact .nil
  | halt => exact .nil
  | read c k ih =>
      rw [Prog.run]
      split
      · rename_i v t' answered
        refine .cons ⟨?_, rfl⟩ ?_
        · rw [answered]
        · rw [answered]
          exact ih v t'
      · exact .nil
  | call c k ih => exact .cons ⟨rfl, rfl⟩ (ih _ _)
  | all items task k each ih =>
      have walk := Prog.runEach_walk each items t
      rw [Prog.run]
      dsimp only
      split
      · exact walk.append (ih _ _)
      · exact walk

end Run

/-- What of a call and its answer is observed, how observations follow one another, and what is
taken for granted of the answers. -/
structure Protocol (C : Type) (R : C → Type) (ε : Type) (S : Type u) (O : Type v) where
  observe : Event C R ε → Option O
  next : S → O → S → Prop
  assumes : Event C R ε → Prop

namespace Protocol

variable {C : Type} {R : C → Type} {ε α β ι : Type}

def observed (P : Protocol C R ε S O) (es : List (Event C R ε)) : List O :=
  es.filterMap P.observe

variable {P : Protocol C R ε S O}

/-- How the program settles is said of its outcome and the state that it leaves. -/
def Keeps (P : Protocol C R ε S O) (p : Prog C R ε α) (s : S) (post : Except ε α → S → Prop) :
    Prop :=
  ∀ es o, p.Traces es o → (∀ e ∈ es, P.assumes e) →
    ∃ s', Walk P.next s (P.observed es) s' ∧ ∀ r, o = some r → post r s'

variable {s s' : S} {post mid : Except ε α → S → Prop}

theorem observed_append (es es' : List (Event C R ε)) :
    P.observed (es ++ es') = P.observed es ++ P.observed es' := List.filterMap_append

/-- A call that is observed is a step. -/
theorem step_of_observed {e : Event C R ε} {o : O} (observe : P.observe e = some o)
    (walk : Walk P.next s (P.observed [e]) s') : P.next s o s' := by
  rw [observed, List.filterMap_cons_some observe] at walk
  cases walk with
  | cons step rest =>
      cases rest
      exact step

theorem still_of_observed {e : Event C R ε} (observe : P.observe e = none)
    (walk : Walk P.next s (P.observed [e]) s') : s' = s := by
  rw [observed, List.filterMap_cons_none observe] at walk
  cases walk
  rfl

theorem keeps_ofExcept {r : Except ε α} (holds : post r s) :
    P.Keeps (Prog.ofExcept r) s post := by
  intro es o traces _
  have settled : es = [] ∧ (o = none ∨ o = some r) := by
    cases r <;> exact traces
  obtain ⟨rfl, rfl | rfl⟩ := settled
  · exact ⟨s, .nil, fun r' some => by cases some⟩
  · refine ⟨s, .nil, fun r' some => ?_⟩
    cases some
    exact holds

theorem keeps_done {a : α} (holds : post (.ok a) s) : P.Keeps (.done a) s post :=
  show P.Keeps (Prog.ofExcept (.ok a)) s post from keeps_ofExcept holds

theorem keeps_fail {e : ε} (holds : post (.error e) s) :
    P.Keeps (.fail e : Prog C R ε α) s post :=
  show P.Keeps (Prog.ofExcept (.error e)) s post from keeps_ofExcept holds

theorem keeps_halt : P.Keeps (.halt : Prog C R ε α) s post := by
  rintro es o ⟨rfl, rfl⟩ -
  exact ⟨s, .nil, fun r some => by cases some⟩

theorem Keeps.mono {p : Prog C R ε α} (keeps : P.Keeps p s mid)
    (weaker : ∀ r s', mid r s' → post r s') : P.Keeps p s post := by
  intro es o traces assumed
  obtain ⟨s', path, holds⟩ := keeps es o traces assumed
  exact ⟨s', path, fun r some => weaker r s' (holds r some)⟩

/-- A call, whatever is observed of it and its answer. -/
theorem keeps_call {c : C} {post : Except ε (R c) → S → Prop}
    (goesOn : ∀ answer, P.assumes ⟨c, answer⟩ →
      ∃ s', Walk P.next s (P.observed [⟨c, answer⟩]) s' ∧ ∀ r, answer = some r → post r s') :
    P.Keeps (Prog.await c) s post := by
  rintro es outcome (⟨rfl | rfl, rfl⟩ | ⟨answer, rest, rfl, traces⟩) assumed
  · exact ⟨s, .nil, fun r some => by cases some⟩
  · obtain ⟨s', path, -⟩ := goesOn none (assumed _ List.mem_cons_self)
    exact ⟨s', path, fun r some => by cases some⟩
  · obtain ⟨here, there⟩ := List.forall_mem_cons.mp assumed
    obtain ⟨s', path, holds⟩ := goesOn (some answer) here
    obtain ⟨s'', path', settles⟩ := keeps_ofExcept (holds answer rfl) _ _ traces there
    exact ⟨s'', observed_append [_] rest ▸ path.append path', settles⟩

/-- A call that is observed, whatever the answer. -/
theorem keeps_await {c : C} {o : O} {post : Except ε (R c) → S → Prop}
    (observed : ∀ answer, P.observe ⟨c, answer⟩ = some o) (step : P.next s o s')
    (holds : ∀ answer, P.assumes ⟨c, some answer⟩ → post answer s') :
    P.Keeps (Prog.await c) s post := by
  refine keeps_call fun answer assumed => ⟨s', ?_, fun r isAnswer => ?_⟩
  · simpa [Protocol.observed, observed] using Walk.single step
  · subst isAnswer
    exact holds r assumed

theorem Keeps.andThen {p : Prog C R ε α} {f : Except ε α → Prog C R ε β}
    {post : Except ε β → S → Prop} (first : P.Keeps p s mid)
    (rest : ∀ r s', mid r s' → P.Keeps (f r) s' post) : P.Keeps (p.andThen f) s post := by
  intro es o traces assumed
  rcases Prog.traces_andThen traces with ⟨r, front, back, rfl, here, there⟩ | ⟨here, rfl⟩
  · obtain ⟨before, after⟩ := List.forall_mem_append.mp assumed
    obtain ⟨s', path, holds⟩ := first _ _ here before
    obtain ⟨s'', path', holds'⟩ := rest r s' (holds r rfl) _ _ there after
    exact ⟨s'', observed_append _ _ ▸ path.append path', holds'⟩
  · obtain ⟨s', path, -⟩ := first _ _ here assumed
    exact ⟨s', path, fun r some => by cases some⟩

theorem Keeps.bind {p : Prog C R ε α} {f : α → Prog C R ε β} {post : Except ε β → S → Prop}
    (first : P.Keeps p s mid) (rest : ∀ a s', mid (.ok a) s' → P.Keeps (f a) s' post)
    (fails : ∀ e s', mid (.error e) s' → post (.error e) s') : P.Keeps (p >>= f) s post :=
  first.andThen fun r s' holds => match r with
    | .ok a => rest a s' holds
    | .error e => keeps_fail (fails e s' holds)

/-- A program all of whose observations keep the state, in whatever order they come. -/
theorem keeps_of_makes {p : Prog C R ε α}
    (makes : p.Makes fun c => ∀ answer o, P.observe ⟨c, answer⟩ = some o → P.next s o s)
    (holds : ∀ r, post r s) : P.Keeps p s post := by
  intro es outcome traces _
  refine ⟨s, .loops fun o there => ?_, fun r _ => holds r⟩
  obtain ⟨e, isEvent, shows⟩ := List.mem_filterMap.mp there
  exact makes es outcome traces e isEvent e.answer o shows

/-! ## What a program leaves where it returns -/

/-- Of the value that is returned and the state that it leaves; a program that throws may leave
any. -/
def Leaves (F : α → S → Prop) : Except ε α → S → Prop
  | .ok a, s => F a s
  | .error _, _ => True

/-- Nothing of the program is observed. -/
def Quiet (P : Protocol C R ε S O) (p : Prog C R ε α) : Prop :=
  p.Makes fun c => ∀ answer, P.observe ⟨c, answer⟩ = none

section Leaves

variable {p : Prog C R ε α} {f : α → Prog C R ε β} {F : α → S → Prop} {G : β → S → Prop}

theorem leaves_pure {a : α} (holds : F a s) : P.Keeps (pure a : Prog C R ε α) s (Leaves F) :=
  keeps_done (by exact holds)

theorem leaves_bind (first : P.Keeps p s (Leaves F))
    (rest : ∀ a s', F a s' → P.Keeps (f a) s' (Leaves G)) : P.Keeps (p >>= f) s (Leaves G) :=
  first.bind rest fun _ _ _ => trivial

theorem leaves_quiet (quiet : P.Quiet p) : P.Keeps p s (Leaves fun _ s' => s' = s) := by
  intro es o traces _
  have none : P.observed es = [] :=
    List.filterMap_eq_nil_iff.mpr fun e there => quiet es o traces e there e.answer
  rw [none]
  refine ⟨s, .nil, fun r _ => ?_⟩
  cases r with
  | ok a => rfl
  | error e => trivial

/-- A quiet part after which nothing is known but where the program stands. -/
theorem leaves_skip (quiet : P.Quiet p) (rest : ∀ a, P.Keeps (f a) s (Leaves G)) :
    P.Keeps (p >>= f) s (Leaves G) :=
  leaves_bind (leaves_quiet quiet) fun a _ same => same ▸ rest a

/-- What the program's traces say of its value. -/
theorem leaves_traces {H : α → Prop} (keeps : P.Keeps p s (Leaves F))
    (law : ∀ es a, p.Traces es (some (.ok a)) → H a) :
    P.Keeps p s (Leaves fun a s' => F a s' ∧ H a) := by
  intro es o traces assumed
  obtain ⟨s', walk, holds⟩ := keeps es o traces assumed
  refine ⟨s', walk, fun r isResult => ?_⟩
  subst isResult
  cases r with
  | ok a => exact ⟨holds _ rfl, law es a traces⟩
  | error e => trivial

/-- A call that is observed, whatever the answer. -/
theorem leaves_await {c : C} {o : O} (observed : ∀ answer, P.observe ⟨c, answer⟩ = some o)
    (step : P.next s o s') : P.Keeps (Prog.await c) s (Leaves fun _ s'' => s'' = s') := by
  refine keeps_await observed step fun answer _ => ?_
  cases answer with
  | ok a => rfl
  | error e => trivial

/-- A call that is not observed, and what its answer is taken to be. -/
theorem leaves_ask {c : C} {F : R c → S → Prop} (quiet : ∀ answer, P.observe ⟨c, answer⟩ = none)
    (answers : ∀ a, P.assumes ⟨c, some (.ok a)⟩ → F a s) :
    P.Keeps (Prog.await c) s (Leaves F) := by
  refine keeps_call fun answer assumed => ⟨s, ?_, fun r isAnswer => ?_⟩
  · rw [observed, List.filterMap_cons_none (quiet answer)]
    exact .nil
  · subst isAnswer
    cases r with
    | ok a => exact answers a assumed
    | error e => trivial

end Leaves

end Protocol

end NestifyClaw.Concurrent
