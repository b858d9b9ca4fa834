import NestifyClaw.Gateway.Models

/-!
# Effects on the shared objects

The gateway shares its session objects with the ports and with every other holder of the session
store.  Each of these acts on the world in the five ways of `Effect`, on objects that exist: what
`load` hands out is the stored object, so its properties can be assigned like the fields of its
data.  One lemma says what an effect does to the session object stored under a key and its `data`
(`World.found_apply`), one what it does to a field of a data object (`World.field_apply`);
everything about sessions is derived from the two.
-/

namespace NestifyClaw.Gateway

variable {V : Type}

inductive Effect (V : Type)
  /-- `data[field] = value`, or `delete data[field]` for `none`. -/
  | put (data : Ref (Record V)) (field : String) (value : Option (Unknown V))
  /-- A new `{}`. -/
  | create
  /-- `session.data = state.data`, and the other properties of a session object likewise. -/
  | assign (session : Ref (SessionState V)) (state : SessionState V)
  /-- `sessions.save(state)` -/
  | save (state : SessionState V)
  /-- Time passes. -/
  | tick (elapsed : Nat)

namespace Effect

def apply : Effect V → World V → World V
  | .put data field value, w =>
      { w with records := w.records.modify data (·.put field value) }
  | .create, w => { w with records := (w.records.alloc Record.empty).2 }
  | .assign session state, w => { w with sessions := w.sessions.modify session fun _ => state }
  | .save state, w => SessionsService.save w state
  | .tick elapsed, w => { w with now := w.now + elapsed }

/-- The objects the effect names exist. -/
def Possible (w : World V) : Effect V → Prop
  | .put data _ _ => w.records.Valid data
  | .create => True
  | .assign session state => w.sessions.Valid session ∧ w.records.Valid state.data
  | .save state => w.records.Valid state.data
  | .tick _ => True

instance (w : World V) (e : Effect V) : Decidable (e.Possible w) := by
  cases e <;> unfold Possible <;> infer_instance

/-- A session object and its `data`, after an assignment to the `data` of `session`. -/
def assigned (session : Ref (SessionState V)) (data : Ref (Record V))
    (f : Ref (SessionState V) × Ref (Record V)) : Ref (SessionState V) × Ref (Record V) :=
  if f.1 = session then (f.1, data) else f

/-- The session object that the effect leaves stored under a key, and its `data`; beside it the
number of session objects there are, which is where the next one goes. -/
def stored (key : String) : Effect V → Nat × Option (Ref (SessionState V) × Ref (Record V)) →
    Nat × Option (Ref (SessionState V) × Ref (Record V))
  | .save state, (n, f) => (n + 1, if key = state.sessionKey then some (⟨n⟩, state.data) else f)
  | .assign session state, (n, f) => (n, f.map (assigned session state.data))
  | _, f => f

/-- The value that the effect leaves in a field of a data object. -/
def value (data : Ref (Record V)) (field : String) :
    Effect V → Option (Unknown V) → Option (Unknown V)
  | .put data' field' v, old => if data' = data ∧ field' = field then v else old
  | _, old => old

def applyAll (es : List (Effect V)) (w : World V) : World V := es.foldl (fun w e => e.apply w) w

def storedAll (key : String) (es : List (Effect V))
    (f : Nat × Option (Ref (SessionState V) × Ref (Record V))) :
    Nat × Option (Ref (SessionState V) × Ref (Record V)) :=
  es.foldl (fun f e => e.stored key f) f

def valueAll (data : Ref (Record V)) (field : String) (es : List (Effect V))
    (old : Option (Unknown V)) : Option (Unknown V) :=
  es.foldl (fun old e => e.value data field old) old

/-- Each effect is possible where it happens. -/
def PossibleAll : World V → List (Effect V) → Prop
  | _, [] => True
  | w, e :: es => e.Possible w ∧ PossibleAll (e.apply w) es

/-- The effects of a list that are possible where they would happen. -/
def performed : World V → List (Effect V) → List (Effect V)
  | _, [] => []
  | w, e :: es =>
      if e.Possible w then e :: performed (e.apply w) es else performed w es

theorem possibleAll_performed (w : World V) (es : List (Effect V)) :
    PossibleAll w (performed w es) := by
  induction es generalizing w with
  | nil => trivial
  | cons e es ih =>
      unfold performed
      split
      · rename_i possible
        exact ⟨possible, ih _⟩
      · exact ih w

theorem applyAll_append (es es' : List (Effect V)) (w : World V) :
    applyAll (es ++ es') w = applyAll es' (applyAll es w) :=
  List.foldl_append

theorem possibleAll_append {w : World V} {es es' : List (Effect V)} :
    PossibleAll w (es ++ es') ↔ PossibleAll w es ∧ PossibleAll (applyAll es w) es' := by
  induction es generalizing w with
  | nil => exact (true_and _).to_iff.symm
  | cons e es ih => exact (and_congr_right fun _ => ih).trans and_assoc.symm

end Effect

namespace World

/-- A field of a data object. -/
def field (w : World V) (data : Ref (Record V)) (f : String) : Option (Unknown V) :=
  (w.records.read data).bind (· f)

/-- No reference dangles: what is stored is a session object, and its `data` a record. -/
structure Closed (w : World V) : Prop where
  stored : ∀ key s, SessionsService.load w key = some s → ∃ st, w.sessions.read s = some st
  data : ∀ s st, w.sessions.read s = some st → w.records.Valid st.data

theorem closed_new (now : Nat) : (World.new now : World V).Closed :=
  ⟨fun _ _ found => (nomatch found), fun _ _ found => nomatch found⟩

theorem Closed.valid {w : World V} (closed : w.Closed) {key : String} {data : Ref (Record V)}
    (found : w.storedData key = some data) : w.records.Valid data := by
  rcases Option.map_eq_some_iff.mp found with ⟨st, isStored, rfl⟩
  rcases Option.bind_eq_some_iff.mp isStored with ⟨s, _, isSession⟩
  exact closed.data s st isSession

theorem Closed.found_eq {w : World V} (closed : w.Closed) (key : String) :
    (w.found key).map Prod.fst = SessionsService.load w key := by
  unfold found
  cases loaded : SessionsService.load w key with
  | none => rfl
  | some s =>
      obtain ⟨st, isSession⟩ := closed.stored key s loaded
      rw [Option.bind_some, isSession]
      rfl

/-- A key holds a session exactly when it holds a session object. -/
theorem Closed.storedSession_eq {w : World V} (closed : w.Closed) {key : String}
    {s : Ref (SessionState V)} (loaded : SessionsService.load w key = some s) :
    ∃ st, w.sessions.read s = some st ∧ w.storedSession key = some st := by
  obtain ⟨st, isSession⟩ := closed.stored key s loaded
  refine ⟨st, isSession, ?_⟩
  rw [storedSession, loaded, Option.bind_some, isSession]

theorem storedSession_save {w : World V} (closed : w.Closed) (st : SessionState V)
    (key : String) :
    (SessionsService.save w st).storedSession key =
      if key = st.sessionKey then some { st with updatedAt := w.now }
      else w.storedSession key := by
  unfold storedSession
  rw [SessionsService.load_save]
  split
  · exact SessionsService.read_save_new w st
  · cases loaded : SessionsService.load w key with
    | none => rfl
    | some s =>
        obtain ⟨_, isSession⟩ := closed.stored key s loaded
        exact SessionsService.read_save (Heap.valid_of_read isSession) st

theorem storedData_save {w : World V} (closed : w.Closed) (st : SessionState V) (key : String) :
    (SessionsService.save w st).storedData key =
      if key = st.sessionKey then some st.data else w.storedData key := by
  unfold storedData
  rw [storedSession_save closed, apply_ite (Option.map SessionState.data)]
  rfl

theorem found_save {w : World V} (closed : w.Closed) (st : SessionState V) (key : String) :
    (SessionsService.save w st).found key =
      if key = st.sessionKey then some (SessionsService.saved w, st.data) else w.found key := by
  unfold found
  rw [SessionsService.load_save]
  split
  · rw [Option.bind_some, SessionsService.read_save_new]
    rfl
  · cases loaded : SessionsService.load w key with
    | none => rfl
    | some s =>
        obtain ⟨_, isSession⟩ := closed.stored key s loaded
        rw [Option.bind_some, Option.bind_some,
          SessionsService.read_save (Heap.valid_of_read isSession) st]

theorem closed_save {w : World V} (closed : w.Closed) {st : SessionState V}
    (valid : w.records.Valid st.data) : (SessionsService.save w st).Closed := by
  constructor
  · intro key s found
    rw [SessionsService.load_save] at found
    split at found
    · cases found
      exact ⟨_, SessionsService.read_save_new w st⟩
    · rcases closed.stored key s found with ⟨st', isSession⟩
      rw [SessionsService.read_save (Heap.valid_of_read isSession)]
      exact ⟨st', isSession⟩
  · intro s st' isSession
    rcases Heap.read_alloc_eq_some isSession with old | ⟨rfl, rfl⟩
    · exact closed.data s st' old
    · exact valid

section Apply

variable {w : World V} {e : Effect V}

theorem Closed.apply (closed : w.Closed) (possible : e.Possible w) : (e.apply w).Closed := by
  cases e with
  | put data field value =>
      exact ⟨closed.stored, fun s st isSession =>
        Heap.valid_modify.mpr (closed.data s st isSession)⟩
  | create =>
      exact ⟨closed.stored, fun s st isSession => (closed.data s st isSession).alloc _⟩
  | assign session state =>
      refine ⟨fun key s loaded => ?_, fun s st isSession => ?_⟩
      · obtain ⟨st, isSession⟩ := closed.stored key s loaded
        exact Heap.Valid.exists_read (Heap.valid_modify.mpr (Heap.valid_of_read isSession))
      · simp only [Effect.apply, Heap.read_modify] at isSession
        split at isSession
        · obtain ⟨_, _, rfl⟩ := Option.map_eq_some_iff.mp isSession
          exact possible.2
        · exact closed.data s st isSession
  | save state => exact closed_save closed possible
  | tick elapsed => exact ⟨closed.stored, closed.data⟩

/-- The session objects there are, and the one stored under a key with its `data`. -/
def cell (w : World V) (key : String) : Nat × Option (Ref (SessionState V) × Ref (Record V)) :=
  (w.sessions.cells.length, w.found key)

theorem cell_apply (closed : w.Closed) (e : Effect V) (key : String) :
    (e.apply w).cell key = e.stored key (w.cell key) := by
  cases e with
  | put data field value => rfl
  | create => rfl
  | assign session state =>
      refine Prod.ext (List.length_modify ..) ?_
      show (Effect.apply _ w).found key = (w.found key).map (Effect.assigned session state.data)
      have loads : SessionsService.load ((Effect.assign session state).apply w) key =
        SessionsService.load w key := rfl
      unfold found
      rw [loads]
      cases loaded : SessionsService.load w key with
      | none => rfl
      | some s =>
          obtain ⟨st, isSession⟩ := closed.stored key s loaded
          simp only [Option.bind_some, Effect.apply, Heap.read_modify, isSession]
          by_cases same : session = s
          · subst same
            simp [Effect.assigned]
          · simp [same, Effect.assigned, Ne.symm same]
  | save state => exact Prod.ext (List.length_append ..) (found_save closed state key)
  | tick elapsed => rfl

theorem field_apply (possible : e.Possible w) (data : Ref (Record V)) (f : String) :
    (e.apply w).field data f = e.value data f (w.field data f) := by
  cases e with
  | put data' field' value =>
      unfold field
      simp only [Effect.apply, Effect.value, Heap.read_modify]
      rcases Heap.Valid.exists_read possible with ⟨r, content⟩
      by_cases same : data' = data
      · subst same
        rw [if_pos rfl, content, Option.map_some, Option.bind_some, Option.bind_some, Record.put]
        simp [eq_comm]
      · rw [if_neg same, if_neg fun both => same both.1]
  | create => exact Heap.bind_read_alloc rfl _ _
  | assign session state => rfl
  | save state => rfl
  | tick elapsed => rfl

end Apply

section ApplyAll

variable {w : World V} {es : List (Effect V)}

theorem Closed.applyAll (closed : w.Closed) (possible : Effect.PossibleAll w es) :
    (Effect.applyAll es w).Closed := by
  induction es generalizing w with
  | nil => exact closed
  | cons e es ih => exact ih (closed.apply possible.1) possible.2

theorem cell_applyAll (closed : w.Closed) (possible : Effect.PossibleAll w es) (key : String) :
    (Effect.applyAll es w).cell key = Effect.storedAll key es (w.cell key) := by
  induction es generalizing w with
  | nil => rfl
  | cons e es ih =>
      have step := cell_apply closed e key
      exact (ih (closed.apply possible.1) possible.2).trans
        (congrArg (Effect.storedAll key es) step)

theorem field_applyAll (possible : Effect.PossibleAll w es) (data : Ref (Record V))
    (f : String) :
    (Effect.applyAll es w).field data f = Effect.valueAll data f es (w.field data f) := by
  induction es generalizing w with
  | nil => rfl
  | cons e es ih =>
      have step := field_apply possible.1 data f
      exact (ih possible.2).trans (congrArg (Effect.valueAll data f es) step)

end ApplyAll

/-- The content of a closed world's sessions, field by field. -/
theorem Closed.sessionData_eq {w : World V} (closed : w.Closed) (key : String) :
    w.sessionData key = (w.storedData key).map w.field := by
  unfold sessionData
  cases found : w.storedData key with
  | none => rfl
  | some data =>
      rcases (closed.valid found).exists_read with ⟨r, content⟩
      rw [Option.bind_some, Option.map_some, content]
      refine congrArg some (funext fun f => ?_)
      rw [field, content]
      rfl

end World

end NestifyClaw.Gateway
