import NestifyClaw.Gateway.Interleaving

/-!
# Which session data a trailing save overwrites

`overwrites_lastSaved` says it for every interleaving: the data of the session object that was
saved last under the key since the run's load, or that the load found if there was none.  Two
overlapping first messages of a conversation therefore lose an update (`not_overwritesOwnLoad`).
A key is out of danger once one data object is stored under it and no run in progress has loaded
anything else (`Settled`): from then on runs overwrite only their own data object, however many
overlap.
-/

namespace NestifyClaw.Gateway

open Await GatewayService Transition

variable {V ε : Type}

/-! ## Steps keep the invariant -/

namespace World

theorem data_save (w : World V) (st : SessionState V) (o : Ref (SessionState V)) :
    ((SessionsService.save w st).sessions.read o).map SessionState.data =
      if SessionsService.saved w = o then some st.data
      else (w.sessions.read o).map SessionState.data := by
  show ((w.sessions.alloc _).2.read o).map _ = _
  rw [Heap.read_alloc_eq, apply_ite (Option.map SessionState.data)]
  rfl

theorem data_assign {w : World V} {session : Ref (SessionState V)} {state : SessionState V}
    (possible : (Effect.assign session state).Possible w) (o : Ref (SessionState V)) :
    (((Effect.assign session state).apply w).sessions.read o).map SessionState.data =
      if session = o then some state.data else (w.sessions.read o).map SessionState.data := by
  obtain ⟨st, isSession⟩ := Heap.Valid.exists_read possible.1
  simp only [Effect.apply, Heap.read_modify]
  split
  · rename_i same
    rw [← same, isSession]
    rfl
  · rfl

end World

/-- The state that the trailing save passes on, and the world it does so from. -/
theorem trailingSave_spec {w : World V} (closed : w.Closed)
    {session : Option (Ref (SessionState V))}
    (loaded : ∀ o, session = some o → ∃ st, w.sessions.read o = some st) (route : RouteTarget) :
    let state := (trailingSave route session w).1
    let w' := (trailingSave route session w).2
    state.sessionKey = route.sessionKey ∧
      (∀ o, session = some o → (w.sessions.read o).map SessionState.data = some state.data) ∧
      w'.Closed ∧ w'.records.Valid state.data ∧ w'.sessions = w.sessions ∧ w'.state = w.state := by
  cases session with
  | none =>
      refine ⟨rfl, fun o never => by (cases never),
        World.Closed.apply closed (show Effect.Possible w .create from trivial),
        Heap.valid_alloc_new _ _, rfl, rfl⟩
  | some s =>
      obtain ⟨st, isSession⟩ := loaded s rfl
      have reads : trailingSave route (some s) w =
          ({ sessionKey := route.sessionKey, data := st.data, updatedAt := w.now }, w) := by
        simp [trailingSave, isSession]
      rw [reads]
      refine ⟨rfl, fun o same => ?_, closed, closed.data s st isSession, rfl, rfl⟩
      cases same
      rw [isSession]
      rfl

section Steps

variable {s : System V}

theorem getElem?_set_eq_some {l : List (RunStatus V)} {i j : Nat} {a b : RunStatus V}
    (found : (l.set i a)[j]? = some b) : j = i ∧ b = a ∨ j ≠ i ∧ l[j]? = some b := by
  rw [List.getElem?_set] at found
  by_cases same : i = j
  · rw [if_pos same] at found
    split at found
    · exact Or.inl ⟨same.symm, (Option.some.inj found).symm⟩
    · cases found
  · rw [if_neg same] at found
    exact Or.inr ⟨Ne.symm same, found⟩

theorem filter_by_cons {e : StoreAccess V} {j : Nat} (other : ¬ e.By j)
    (log : List (StoreAccess V)) : (e :: log).filter (·.By j) = log.filter (·.By j) :=
  List.filter_cons_of_neg other

theorem System.Consistent.found (c : s.Consistent) (key : String) :
    s.world.found key = lastFound key s.log := by
  unfold World.found lastFound
  rw [c.stored]
  refine congrArg _ (funext fun o => ?_)
  rw [← c.objects, Option.map_map]
  rfl

theorem System.Consistent.storedData (c : s.Consistent) (key : String) :
    s.world.storedData key = (lastFound key s.log).map Prod.snd := by
  rw [World.storedData_eq, c.found]

/-- The session that a run has loaded is there. -/
theorem System.Consistent.loaded (c : s.Consistent) {i : Nat} {key : String}
    {found : Option (Ref (SessionState V) × Ref (Record V))} (isLoad : .load i key found ∈ s.log) :
    ∀ o, found.map Prod.fst = some o → ∃ st, s.world.sessions.read o = some st := by
  intro o isObject
  obtain ⟨⟨o', d⟩, isFound, rfl⟩ := Option.map_eq_some_iff.mp isObject
  obtain ⟨newer, older, split⟩ := List.append_of_mem isLoad
  have sees := c.sees (.load i key found) older (split ▸ List.suffix_append _ _)
  have isLast : lastFound key older = some (o', d) := sees.symm.trans isFound
  obtain ⟨o'', -, isData⟩ := Option.bind_eq_some_iff.mp isLast
  obtain ⟨d', isData, same⟩ := Option.map_eq_some_iff.mp isData
  cases same
  obtain ⟨d'', now⟩ := dataOf_append isData (newer ++ [.load i key found])
  rw [List.append_assoc, List.singleton_append, ← split, ← c.objects] at now
  obtain ⟨st, isSession, -⟩ := Option.map_eq_some_iff.mp now
  exact ⟨st, isSession⟩

/-- A step that makes no access. -/
theorem System.Consistent.quiet (c : s.Consistent) {i : Nat} {status : RunStatus V}
    (phase : Phase (s.log.filter (·.By i)) i status) :
    (⟨s.world, s.runs.set i status, s.log⟩ : System V).Consistent := by
  refine ⟨c.closed, c.stored, c.objects, fun j status' found => ?_, fun e member j by_j => ?_,
    c.sees, c.savesOwn⟩
  · rcases getElem?_set_eq_some found with ⟨rfl, rfl⟩ | ⟨_, found⟩
    · exact phase
    · exact c.phases j status' found
  · rw [List.length_set]
    exact c.started e member j by_j

/-- A step that makes one access and leaves everything else consistent. -/
theorem System.Consistent.logs (c : s.Consistent) {w : World V} {runs : List (RunStatus V)}
    {e : StoreAccess V} (closed : w.Closed)
    (stored : ∀ key, SessionsService.load w key = lastObject key none (e :: s.log))
    (objects : ∀ o, (w.sessions.read o).map SessionState.data = dataOf o (e :: s.log))
    (phases : ∀ i status, runs[i]? = some status → Phase ((e :: s.log).filter (·.By i)) i status)
    (length : runs.length = s.runs.length) (started : ∀ i, e.By i → i < s.runs.length)
    (sees : e.Sees s.log)
    (savesOwn : ∀ i key session data before, e = .save (some i) key session data before →
      SavesOwnLoad i key data s.log) :
    (⟨w, runs, e :: s.log⟩ : System V).Consistent := by
  refine ⟨closed, stored, objects, phases, fun e' member i by_i => ?_,
    fun e' older isSuffix => ?_, fun i key session data before older isSuffix => ?_⟩
  · rw [length]
    rcases List.mem_cons.mp member with rfl | member
    · exact started i by_i
    · exact c.started e' member i by_i
  · rcases List.suffix_cons_iff.mp isSuffix with same | isSuffix
    · cases same
      exact sees
    · exact c.sees e' older isSuffix
  · rcases List.suffix_cons_iff.mp isSuffix with same | isSuffix
    · cases same
      exact savesOwn i key session data before rfl
    · exact c.savesOwn i key session data before older isSuffix

theorem savesOwnLoad_of_filter {log : List (StoreAccess V)} {i : Nat} {key : String}
    {found : Option (Ref (SessionState V) × Ref (Record V))} {data : Ref (Record V)}
    (own : log.filter (·.By i) = [.load i key found])
    (isData : ∀ session d, found = some (session, d) → dataOf session log = some data) :
    SavesOwnLoad i key data log := by
  obtain ⟨since, earlier, split, noneSince, _, noneEarlier⟩ := List.filter_eq_cons_iff.mp own
  refine ⟨since, found, earlier, split, fun e member => ?_, isData⟩
  rcases List.mem_append.mp member with member | member
  · exact noneSince e member
  · exact List.filter_eq_nil_iff.mp noneEarlier e member

theorem System.proceed_external {i : Nat} {c : PortCall V} (external : c.IsExternal)
    (k : c.Result → GatewayM V Unit) :
    s.proceed i (.await c k) = ⟨s.world, s.runs.set i (.waiting c k), s.log⟩ := by
  cases c with
  | load key => exact external.elim
  | save state => exact external.elim
  | _ => rfl

theorem System.proceed_saveSession (i : Nat) (route : RouteTarget)
    (session : Option (Ref (SessionState V))) :
    s.proceed i (saveSession route session) =
      let state := (trailingSave route session s.world).1
      let w := (trailingSave route session s.world).2
      ⟨SessionsService.save w state, s.runs.set i (.ready (.done ())),
        .save (some i) state.sessionKey (SessionsService.saved w) state.data
          (w.storedData state.sessionKey) :: s.log⟩ := by
  unfold System.proceed
  rw [advance_saveSession]
  rfl

theorem System.Consistent.load (c : s.Consistent) {i : Nat} (inRange : i < s.runs.length)
    {key : String} {k : Option (Ref (SessionState V)) → GatewayM V Unit}
    (unloaded : s.log.filter (·.By i) = [])
    (next : ∀ session, Loaded key session (k session)) :
    (s.proceed i (.await (.load key) k)).Consistent := by
  refine c.logs c.closed (fun key' => c.stored key') (fun o => c.objects o)
    (fun j status found => ?_) List.length_set (fun j by_j => ?_) (c.found key)
    (fun _ _ _ _ _ same => nomatch same)
  · rcases getElem?_set_eq_some found with ⟨rfl, rfl⟩ | ⟨other, found⟩
    · refine @Phase.loaded _ _ _ _ key (s.world.found key) ?_ ?_
      · rw [List.filter_cons_of_pos (by simp [StoreAccess.By]), unloaded]
      · rw [c.closed.found_eq]
        exact next _
    · rw [filter_by_cons (by simpa [StoreAccess.By] using other.symm)]
      exact c.phases j status found
  · have same : i = j := by simpa [StoreAccess.By] using by_j
    exact same ▸ inRange

/-- What a save leaves of the session objects is what the log says. -/
theorem System.Consistent.saves (c : s.Consistent) {w : World V}
    (sessions : w.sessions = s.world.sessions) (state : w.state = s.world.state)
    (run : Option Nat) (st : SessionState V) :
    let e : StoreAccess V := .save run st.sessionKey (SessionsService.saved w) st.data
      (w.storedData st.sessionKey)
    (∀ key, SessionsService.load (SessionsService.save w st) key =
      lastObject key none (e :: s.log)) ∧
      (∀ o, ((SessionsService.save w st).sessions.read o).map SessionState.data =
        dataOf o (e :: s.log)) ∧ e.Sees s.log := by
  have loads (key : String) : SessionsService.load w key = SessionsService.load s.world key :=
    congrArg (StateStoreService.get · SessionsService.SESSIONS_NAMESPACE key) state
  refine ⟨fun key => ?_, fun o => ?_, ?_, ?_⟩
  · rw [SessionsService.load_save, loads, c.stored]
    rfl
  · rw [World.data_save, sessions, c.objects]
    rfl
  · rw [← c.storedData]
    unfold World.storedData World.storedSession
    rw [loads, sessions]
  · rw [← c.objects, SessionsService.saved, sessions]
    exact Option.map_eq_none_iff.mpr (List.getElem?_eq_none (Nat.le_refl _))

theorem System.Consistent.save (c : s.Consistent) {i : Nat} (inRange : i < s.runs.length)
    {route : RouteTarget} {found : Option (Ref (SessionState V) × Ref (Record V))}
    (own : s.log.filter (·.By i) = [.load i route.sessionKey found]) :
    (s.proceed i (saveSession route (found.map Prod.fst))).Consistent := by
  rw [System.proceed_saveSession]
  have isLoad : .load i route.sessionKey found ∈ s.log :=
    (List.mem_filter.mp (own ▸ List.mem_singleton_self _)).1
  obtain ⟨sameKey, sameData, closed, valid, sessions, state⟩ :=
    trailingSave_spec c.closed (c.loaded isLoad) route
  obtain ⟨stored, objects, sees⟩ := c.saves sessions state (some i)
    (trailingSave route (found.map Prod.fst) s.world).1
  refine c.logs (World.closed_save closed valid) stored objects (fun j status isRun => ?_)
    List.length_set (fun j by_j => ?_) sees (fun j key session data before same => ?_)
  · rcases getElem?_set_eq_some isRun with ⟨rfl, rfl⟩ | ⟨other, isRun⟩
    · exact .finished rfl
    · rw [filter_by_cons (by simpa [StoreAccess.By] using other.symm)]
      exact c.phases j status isRun
  · have same : i = j := by simpa [StoreAccess.By] using by_j
    exact same ▸ inRange
  · cases same
    rw [← sameKey] at own
    refine savesOwnLoad_of_filter own fun session d isFound => ?_
    rw [← c.objects]
    exact sameData session (by rw [isFound]; rfl)

theorem System.Consistent.proceed (c : s.Consistent) {i : Nat} (inRange : i < s.runs.length)
    {p : GatewayM V Unit} (phase : Phase (s.log.filter (·.By i)) i (.ready p)) :
    (s.proceed i p).Consistent := by
  cases phase with
  | unloaded none next =>
      cases (next : Unloaded p) with
      | done => exact c.quiet (.finished trivial)
      | await external next =>
          rw [System.proceed_external external]
          exact c.quiet (.unloaded none next)
      | loads next => exact c.load inRange none next
  | @loaded key found one next =>
      have isNext : Loaded key (found.map Prod.fst) p := next
      generalize isSession : found.map Prod.fst = session at isNext
      cases isNext with
      | await external rest =>
          rw [System.proceed_external external]
          subst isSession
          exact c.quiet (.loaded one rest)
      | saves sameKey =>
          subst sameKey
          rw [← isSession]
          exact c.save inRange one
  | finished next =>
      obtain rfl : p = .done () := next
      exact c.quiet (.finished trivial)

theorem System.Consistent.effect (c : s.Consistent) {e : Effect V}
    (possible : e.Possible s.world) :
    (⟨e.apply s.world, s.runs, System.accesses s.world e ++ s.log⟩ : System V).Consistent := by
  cases e with
  | save state =>
      obtain ⟨stored, objects, sees⟩ := c.saves rfl rfl none state
      refine c.logs (c.closed.apply possible) stored objects (fun i status isRun => ?_) rfl
        (fun i by_i => ?_) sees (fun _ _ _ _ _ same => nomatch same)
      · rw [filter_by_cons (by simp [StoreAccess.By])]
        exact c.phases i status isRun
      · simp [StoreAccess.By] at by_i
  | assign session state =>
      refine c.logs (c.closed.apply possible) c.stored (fun o => ?_) (fun i status isRun => ?_) rfl
        (fun i by_i => ?_) trivial (fun _ _ _ _ _ same => nomatch same)
      · rw [World.data_assign possible, c.objects]
        rfl
      · rw [filter_by_cons (by simp [StoreAccess.By])]
        exact c.phases i status isRun
      · simp [StoreAccess.By] at by_i
  | _ =>
      exact ⟨c.closed.apply possible, c.stored, c.objects, c.phases, c.started, c.sees, c.savesOwn⟩

/-- When the awaited call settles, the run stays in its phase. -/
theorem Phase.next {own : List (StoreAccess V)} {i : Nat} {call : PortCall V}
    {k : call.Result → GatewayM V Unit} (phase : Phase own i (.waiting call k))
    (v : call.Result) : Phase own i (.ready (k v)) := by
  cases phase with
  | unloaded none next => exact .unloaded none (next v)
  | loaded one next => exact .loaded one (next v)
  | finished next => exact .finished (next v)

theorem System.consistent_new (now : Nat) : (System.new now : System V).Consistent := by
  refine ⟨World.closed_new now, fun _ => rfl, fun _ => rfl, fun i status found => ?_,
    fun e member => ?_, fun e older isSuffix => ?_,
    fun i key session data before older isSuffix => ?_⟩
  · cases found
  · cases member
  · cases List.suffix_nil.mp isSuffix
  · cases List.suffix_nil.mp isSuffix

/-- One step, whoever takes it, keeps the invariant. -/
theorem System.Consistent.step {a : System.Label V ε} {s' : System V} (c : s.Consistent)
    (taken : System.step s a = some s') : s'.Consistent := by
  cases a with
  | arrive message =>
      cases taken
      have fresh : s.log.filter (·.By s.runs.length) = [] :=
        List.filter_eq_nil_iff.mpr fun e member by_new =>
          Nat.lt_irrefl _ (c.started e member _ by_new)
      have spawned : ({ s with runs := s.runs ++ [.ended] } : System V).Consistent := by
        refine ⟨c.closed, c.stored, c.objects, fun i status found => ?_,
          fun e member i by_i => ?_, c.sees, c.savesOwn⟩
        · rw [List.getElem?_append] at found
          split at found
          · exact c.phases i status found
          · cases List.mem_singleton.mp (List.mem_of_getElem? found)
            exact .finished trivial
        · have before := c.started e member i by_i
          simp only [List.length_append, List.length_singleton]
          omega
      refine spawned.proceed ?_ (.unloaded fresh (unloaded_handleInbound message))
      simp
  | settle i answer =>
      simp only [System.step] at taken
      cases at_i : s.runs[i]? with
      | none => rw [at_i] at taken; cases taken
      | some status =>
          rw [at_i] at taken
          have phase := c.phases i status at_i
          cases status with
          | waiting call k =>
              cases settled : answer call with
              | ok v =>
                  simp only [settled] at taken
                  cases taken
                  exact c.quiet (phase.next v)
              | error e =>
                  simp only [settled] at taken
                  cases taken
                  exact c.quiet (.finished trivial)
          | ready p => cases taken
          | ended => cases taken
  | resume i =>
      simp only [System.step] at taken
      cases at_i : s.runs[i]? with
      | none => rw [at_i] at taken; cases taken
      | some status =>
          rw [at_i] at taken
          cases status with
          | ready p =>
              cases taken
              exact c.proceed (List.getElem?_eq_some_iff.mp at_i).1 (c.phases i _ at_i)
          | waiting call k => cases taken
          | ended => cases taken
  | effect e =>
      simp only [System.step] at taken
      split at taken
      · rename_i possible
        cases taken
        exact c.effect possible
      · cases taken

theorem System.Consistent.reachable {now : Nat} {labels : List (System.Label V ε)}
    (reach : run System.step (System.new now) labels = some s) : s.Consistent :=
  run_invariant (fun _ _ _ c taken => c.step taken) (System.consistent_new now) reach

end Steps

/-! ## What one step can do to the log -/

/-- The accesses one step can make, and by whom. -/
inductive Accesses (s : System V) (a : System.Label V ε) : List (StoreAccess V) → Prop
  | none : Accesses s a s.log
  | load (i : Nat) (key : String) (found : Option (Ref (SessionState V) × Ref (Record V))) :
      Accesses s a (.load i key found :: s.log)
  | save {i : Nat} (key : String) (session : Ref (SessionState V)) (data : Ref (Record V))
      (before : Option (Ref (Record V))) :
      s.runs[i]? ≠ some .ended → Accesses s a (.save (some i) key session data before :: s.log)
  | other {state : SessionState V} (session : Ref (SessionState V))
      (before : Option (Ref (Record V))) : a = .effect (.save state) →
        Accesses s a (.save none state.sessionKey session state.data before :: s.log)
  | assign {session : Ref (SessionState V)} {state : SessionState V} :
      a = .effect (.assign session state) → Accesses s a (.assign session state.data :: s.log)

section Accesses

variable {s s' : System V} {a : System.Label V ε}

theorem accesses_proceed {i : Nat} (p : GatewayM V Unit) (running : s.runs[i]? ≠ some .ended) :
    Accesses s a (s.proceed i p).log := by
  unfold System.proceed
  split
  · exact .none
  · exact .load _ _ _
  · exact .save _ _ _ _ running
  · exact .none

theorem runs_proceed_ne {i j : Nat} (p : GatewayM V Unit) (other : j ≠ i) :
    (s.proceed i p).runs[j]? = s.runs[j]? := by
  unfold System.proceed
  split <;> exact List.getElem?_set_ne other.symm

theorem System.accesses_step (taken : System.step s a = some s') : Accesses s a s'.log := by
  cases a with
  | arrive message => cases taken; exact .none
  | settle i answer =>
      simp only [System.step] at taken
      split at taken
      · split at taken <;> cases taken <;> exact .none
      · cases taken
  | resume i =>
      simp only [System.step] at taken
      split at taken
      · rename_i p at_i
        cases taken
        exact accesses_proceed p (by rw [at_i]; simp)
      · cases taken
  | effect e =>
      simp only [System.step] at taken
      split at taken
      · cases taken
        cases e with
        | save state => exact .other _ _ rfl
        | assign session state => exact .assign rfl
        | _ => exact .none
      · cases taken

/-- A run that has ended stays so. -/
theorem System.ended_step (taken : System.step s a = some s') {j : Nat}
    (ended : s.runs[j]? = some .ended) : s'.runs[j]? = some .ended := by
  have inRange : j < s.runs.length := (List.getElem?_eq_some_iff.mp ended).1
  cases a with
  | arrive message =>
      cases taken
      rw [runs_proceed_ne _ (Nat.ne_of_lt inRange)]
      exact (List.getElem?_append_left inRange).trans ended
  | settle i answer =>
      simp only [System.step] at taken
      split at taken
      · rename_i c k at_i
        have other : i ≠ j := by
          rintro rfl
          rw [at_i] at ended
          cases ended
        split at taken <;> cases taken <;> exact (List.getElem?_set_ne other).trans ended
      · cases taken
  | resume i =>
      simp only [System.step] at taken
      split at taken
      · rename_i p at_i
        have other : j ≠ i := by
          rintro rfl
          rw [at_i] at ended
          cases ended
        cases taken
        exact (runs_proceed_ne p other).trans ended
      · cases taken
  | effect e =>
      simp only [System.step] at taken
      split at taken
      · cases taken
        exact ended
      · cases taken

end Accesses

/-! ## Settled keys -/

/-- The session object has been saved under the key. -/
def SavedUnder (key : String) (log : List (StoreAccess V)) (session : Ref (SessionState V)) :
    Prop :=
  ∃ run data before, .save run key session data before ∈ log

theorem SavedUnder.mono {key : String} {older log : List (StoreAccess V)}
    {session : Ref (SessionState V)} (under : SavedUnder key older session)
    (grows : older <:+ log) : SavedUnder key log session := by
  obtain ⟨run, data, before, member⟩ := under
  exact ⟨run, data, before, grows.subset member⟩

theorem savedUnder_lastObject {key : String} {log : List (StoreAccess V)}
    {session : Ref (SessionState V)} (isLast : lastObject key none log = some session) :
    SavedUnder key log session := by
  induction log with
  | nil => cases isLast
  | cons e older ih =>
      cases e with
      | save run key' made data before =>
          unfold lastObject at isLast
          split at isLast
          · rename_i same
            cases isLast
            exact ⟨run, data, before, same ▸ List.mem_cons_self⟩
          · exact (ih isLast).mono (List.suffix_cons _ _)
      | _ => exact (ih isLast).mono (List.suffix_cons _ _)

/-- A session that has been saved has some data. -/
theorem SavedUnder.data {key : String} {log : List (StoreAccess V)} {session : Ref (SessionState V)}
    (under : SavedUnder key log session) : ∃ d, dataOf session log = some d := by
  obtain ⟨run, data, before, member⟩ := under
  obtain ⟨newer, older, rfl⟩ := List.append_of_mem member
  have isData : dataOf session (.save run key session data before :: older) = some data :=
    if_pos rfl
  exact dataOf_append isData newer

theorem lastFound_fst (key : String) (log : List (StoreAccess V)) :
    (lastFound key log).map Prod.fst = lastObject key none log := by
  rw [lastFound]
  cases isLast : lastObject key none log with
  | none => rfl
  | some session =>
      obtain ⟨d, isData⟩ := (savedUnder_lastObject isLast).data
      rw [Option.bind_some, isData]
      rfl

/-- What is found under a key has been saved under it. -/
theorem lastFound_spec {key : String} {log : List (StoreAccess V)} {session : Ref (SessionState V)}
    {d : Ref (Record V)} (isFound : lastFound key log = some (session, d)) :
    lastObject key none log = some session ∧ dataOf session log = some d ∧
      SavedUnder key log session := by
  obtain ⟨session', isLast, isData⟩ := Option.bind_eq_some_iff.mp isFound
  obtain ⟨d', isData, same⟩ := Option.map_eq_some_iff.mp isData
  cases same
  exact ⟨isLast, isData, savedUnder_lastObject isLast⟩

/-- One data object is stored under the key, and every run in progress that has loaded the key
and not saved yet has loaded that object, with a session that still holds it. -/
structure Settled (key : String) (d : Ref (Record V)) (s : System V) : Prop where
  stored : s.world.storedData key = some d
  loads : ∀ i found, .load i key found ∈ s.log → s.runs[i]? ≠ some .ended →
    (∀ key' session data before, .save (some i) key' session data before ∉ s.log) →
      ∃ session, found = some (session, d) ∧ dataOf session s.log = some d

/-- Another party that saves under the key, or assigns the data of a session saved under it, does
so with the data object `d`. -/
def Resaves (key : String) (d : Ref (Record V)) (s : System V) : System.Label V ε → Prop
  | .effect (.save state) => state.sessionKey = key → state.data = d
  | .effect (.assign session state) => SavedUnder key s.log session → state.data = d
  | _ => True

/-- The access puts no data but `d` into a session of the key. -/
def StoreAccess.Spares (key : String) (d : Ref (Record V)) (log : List (StoreAccess V)) :
    StoreAccess V → Prop
  | .load _ _ _ => True
  | .save _ key' made data _ => dataOf made log = none ∧ (key = key' → data = d)
  | .assign session data => SavedUnder key log session → data = d

section Settled

variable {key : String} {d : Ref (Record V)} {s s' : System V} {a : System.Label V ε}
  {e : StoreAccess V} {log : List (StoreAccess V)} {session : Ref (SessionState V)}

theorem dataOf_spared (spares : e.Spares key d log) (under : SavedUnder key log session)
    (isData : dataOf session log = some d) : dataOf session (e :: log) = some d := by
  cases e with
  | load run key' found => exact isData
  | save run key' made data before =>
      refine (if_neg ?_).trans isData
      rintro rfl
      cases spares.1.symm.trans isData
  | assign session' data =>
      by_cases same : session' = session
      · subst same
        exact (if_pos rfl).trans (congrArg some (spares under))
      · exact (if_neg same).trans isData

theorem lastFound_spared (spares : e.Spares key d log)
    (isFound : lastFound key log = some (session, d)) :
    ∃ session', lastFound key (e :: log) = some (session', d) := by
  obtain ⟨isLast, isData, under⟩ := lastFound_spec isFound
  have kept : lastObject key none (e :: log) = some session →
      ∃ session', lastFound key (e :: log) = some (session', d) := by
    intro stays
    refine ⟨session, ?_⟩
    rw [lastFound, stays, Option.bind_some, dataOf_spared spares under isData]
    rfl
  cases e with
  | save run key' made data before =>
      by_cases same : key = key'
      · refine ⟨made, ?_⟩
        rw [lastFound, lastObject, if_pos same, Option.bind_some, dataOf, if_pos rfl, spares.2 same]
        rfl
      · exact kept ((if_neg same).trans isLast)
  | _ => exact kept isLast

/-- The data that a run in progress saves under a settled key. -/
theorem Settled.data_eq (settled : Settled key d s) {i : Nat} {data : Ref (Record V)}
    (running : s.runs[i]? ≠ some .ended) (own : SavesOwnLoad i key data s.log) :
    data = d ∧ ∃ session, .load i key (some (session, d)) ∈ s.log := by
  obtain ⟨since, found, earlier, split, others, isData⟩ := own
  have loaded : .load i key found ∈ s.log := by simp [split]
  obtain ⟨session, rfl, held⟩ :=
    settled.loads i found loaded running fun key' session data before saved => by
      rw [split, List.mem_append, List.mem_cons] at saved
      rcases saved with saved | saved | saved
      · exact others _ (List.mem_append_left _ saved) (by simp [StoreAccess.By])
      · cases saved
      · exact others _ (List.mem_append_right _ saved) (by simp [StoreAccess.By])
  exact ⟨Option.some.inj ((isData session d rfl).symm.trans held), session, loaded⟩

theorem Settled.lastFound (settled : Settled key d s) (c : s.Consistent) :
    ∃ session, lastFound key s.log = some (session, d) := by
  obtain ⟨⟨session, d'⟩, isFound, same⟩ :=
    Option.map_eq_some_iff.mp ((c.storedData key).symm.trans settled.stored)
  cases same
  exact ⟨session, isFound⟩

/-- The step makes no access, or one that spares the key; a trailing save of the key is one of the
object that its run has loaded. -/
theorem Settled.access (settled : Settled key d s) (c : s.Consistent)
    (taken : System.step s a = some s') (resaves : Resaves key d s a) :
    s'.log = s.log ∨ ∃ e, s'.log = e :: s.log ∧ e.Spares key d s.log ∧ e.Sees s.log ∧
      ∀ i session data before, e = .save (some i) key session data before →
        ∃ session', .load i key (some (session', d)) ∈ s.log := by
  have c' := c.step taken
  have accesses := System.accesses_step taken
  generalize logged : s'.log = log at accesses
  cases accesses with
  | none => exact Or.inl rfl
  | load i key' found =>
      have sees := c'.sees (.load i key' found) s.log (logged ▸ List.suffix_refl _)
      exact Or.inr ⟨_, rfl, trivial, sees, fun _ _ _ _ same => nomatch same⟩
  | @save i key' made data before running =>
      have isSave : .save (some i) key' made data before :: s.log <:+ s'.log :=
        logged ▸ List.suffix_refl _
      have sees := c'.sees _ s.log isSave
      have own := c'.savesOwn i key' made data before s.log isSave
      refine Or.inr ⟨_, rfl, ⟨sees.2, ?_⟩, sees, ?_⟩
      · rintro rfl
        exact (settled.data_eq running own).1
      · intro j session data' before' same
        cases same
        exact (settled.data_eq running own).2
  | @other state made before isSave =>
      subst isSave
      have newest : .save none state.sessionKey made state.data before :: s.log <:+ s'.log :=
        logged ▸ List.suffix_refl _
      have sees := c'.sees _ s.log newest
      exact Or.inr ⟨_, rfl, ⟨sees.2, fun same => resaves same.symm⟩, sees,
        fun _ _ _ _ same => nomatch same⟩
  | assign isAssign =>
      subst isAssign
      exact Or.inr ⟨_, rfl, resaves, trivial, fun _ _ _ _ same => nomatch same⟩

theorem Settled.step (settled : Settled key d s) (c : s.Consistent)
    (taken : System.step s a = some s') (resaves : Resaves key d s a) :
    Settled key d s' ∧ ∀ i session data before,
      s'.log = .save (some i) key session data before :: s.log →
        before = some d ∧ ∃ session', .load i key (some (session', d)) ∈ s.log := by
  have c' := c.step taken
  obtain ⟨session₀, here⟩ := settled.lastFound c
  have stays : ∀ i, s'.runs[i]? ≠ some RunStatus.ended → s.runs[i]? ≠ some RunStatus.ended :=
    fun i running ended => running (System.ended_step taken ended)
  rcases settled.access c taken resaves with same | ⟨e, logged, spares, sees, own⟩
  · refine ⟨⟨?_, fun i found loaded running unsaved => ?_⟩, fun i session data before longer => ?_⟩
    · rw [c'.storedData, same, here]
      rfl
    · rw [same] at loaded unsaved ⊢
      exact settled.loads i found loaded (stays i running) unsaved
    · have length := congrArg List.length (same.symm.trans longer)
      simp at length
  · refine ⟨⟨?_, fun i found loaded running unsaved => ?_⟩, fun i session data before isSave => ?_⟩
    · obtain ⟨session, now⟩ := lastFound_spared spares here
      rw [c'.storedData, logged, now]
      rfl
    · rw [logged] at loaded unsaved ⊢
      rcases List.mem_cons.mp loaded with rfl | loaded
      · -- a run that loads the key now finds what is stored there
        obtain ⟨-, isData, -⟩ := lastFound_spec here
        exact ⟨session₀, sees.trans here, isData⟩
      · obtain ⟨session, rfl, isData⟩ := settled.loads i found loaded (stays i running)
          fun key' session data before saved =>
            unsaved key' session data before (List.mem_cons_of_mem _ saved)
        refine ⟨session, rfl, dataOf_spared spares ?_ isData⟩
        obtain ⟨newer, older, split⟩ := List.append_of_mem loaded
        have isOlder : .load i key (some (session, d)) :: older <:+ s.log :=
          split ▸ List.suffix_append _ _
        obtain ⟨-, -, under⟩ := lastFound_spec (c.sees _ older isOlder).symm
        exact under.mono ((List.suffix_cons _ _).trans isOlder)
    · cases logged.symm.trans isSave
      refine ⟨?_, own i session data before rfl⟩
      rw [sees.1, here]
      rfl

/-- From a settled state on, every trailing save under the key overwrites the run's own data
object. -/
theorem Settled.run (settled : Settled key d s) (c : s.Consistent)
    {labels : List (System.Label V ε)} (reach : Transition.run System.step s labels = some s')
    (resaves : Meets System.step (Resaves key d) s labels) :
    (s'.Consistent ∧ Settled key d s') ∧ ∀ i session data before older,
      .save (some i) key session data before :: older <:+ s'.log → s.log <:+ older →
        before = some d ∧ ∃ session', .load i key (some (session', d)) ∈ older := by
  induction labels using List.reverseRecOn generalizing s' with
  | nil =>
      cases reach
      refine ⟨⟨c, settled⟩, fun i session data before older isSuffix since => ?_⟩
      have longer := isSuffix.length_le
      have shorter := since.length_le
      simp only [List.length_cons] at longer
      omega
  | append_singleton labels a ih =>
      rw [run_append] at reach
      obtain ⟨u, reach, last⟩ := Option.bind_eq_some_iff.mp reach
      obtain ⟨t, taken, done⟩ := Option.bind_eq_some_iff.mp last
      cases done
      obtain ⟨⟨cu, settled_u⟩, before_u⟩ := ih reach fun pre b v w isPre =>
        resaves pre b v w (isPre.trans (List.prefix_append _ _))
      have allowed : Resaves key d u a := resaves labels a u s' (List.prefix_refl _) reach taken
      obtain ⟨settled_t, newest⟩ := settled_u.step cu taken allowed
      refine ⟨⟨cu.step taken, settled_t⟩, fun i session data before older isSuffix since => ?_⟩
      rcases settled_u.access cu taken allowed with same | ⟨e, logged, -⟩
      · exact before_u i session data before older (same ▸ isSuffix) since
      · rw [logged] at isSuffix
        rcases List.suffix_cons_iff.mp isSuffix with same | isSuffix
        · obtain ⟨rfl, rfl⟩ := List.cons.inj same
          exact newest i session data before logged
        · exact before_u i session data before older isSuffix since

end Settled

/-! ## Lost updates -/

/-- Every trailing save under a key finds the data object there that its run has loaded. -/
def OverwritesOwnLoad (log : List (StoreAccess V)) : Prop :=
  ∀ i key session data before older, .save (some i) key session data before :: older <:+ log →
    ∀ found, .load i key found ∈ older → before = found.map Prod.snd

/-- In every interleaving a trailing save overwrites the data of the session that was saved last
under the key since the run's own load, or of the one which that load found, and saves the data
that the session it has loaded holds then.  Once a key is settled, and as long as other parties put
no other data object into a session of it, both are the data object which the run has loaded. -/
theorem overwrites_lastSaved (now : Nat) (labels : List (System.Label V ε)) (s : System V)
    (reach : run System.step (System.new now) labels = some s) :
    (∀ i key session data before older,
      .save (some i) key session data before :: older <:+ s.log →
      ∃ since found earlier, older = since ++ .load i key found :: earlier ∧
        (∀ e ∈ since ++ earlier, ¬ e.By i) ∧
        before = (lastObject key (found.map Prod.fst) since).bind (dataOf · older) ∧
        ∀ session' d, found = some (session', d) →
          dataOf session' earlier = some d ∧ dataOf session' older = some data) ∧
    ∀ key d, Settled key d s → ∀ (labels' : List (System.Label V ε)) (s' : System V),
      run System.step s labels' = some s' → Meets System.step (Resaves key d) s labels' →
        ∀ i session data before older,
          .save (some i) key session data before :: older <:+ s'.log → s.log <:+ older →
            before = some d ∧ ∃ session', .load i key (some (session', d)) ∈ older := by
  have c : s.Consistent := System.Consistent.reachable reach
  constructor
  · intro i key session data before older isSave
    obtain ⟨since, found, earlier, split, others, isData⟩ :=
      c.savesOwn i key session data before older isSave
    have loads : .load i key found :: earlier <:+ s.log :=
      ((List.suffix_append since _).trans (split ▸ List.suffix_cons _ _)).trans isSave
    have isFound : found = lastFound key earlier := c.sees _ _ loads
    have overwritten : before = (lastFound key older).map Prod.snd := (c.sees _ _ isSave).1
    refine ⟨since, found, earlier, split, others, ?_, fun session' d same =>
      ⟨(lastFound_spec (isFound.symm.trans same)).2.1, isData session' d same⟩⟩
    have last : lastObject key none older = lastObject key (found.map Prod.fst) since := by
      rw [split, lastObject_append, isFound, lastFound_fst]
      rfl
    rw [overwritten, lastFound, last]
    cases lastObject key (found.map Prod.fst) since with
    | none => rfl
    | some o => cases h : dataOf o older <;> simp [h]
  · intro key d settled labels' s' reach' resaves
    exact (settled.run c reach' resaves).2

/-! ## Two first messages -/

/-- Every port succeeds, with no reply to deliver; all messages go to session `"k"`. -/
def obligingAnswer (c : PortCall Nat) : Except String c.Result :=
  match c with
  | .tryHandle _ => .ok false
  | .classify _ => .ok ⟨.respond, none⟩
  | .resolve _ => .ok ⟨"main", "k", .agent⟩
  | .load _ => .ok none
  | .resolveInbound _ => .ok .undefined
  | .runTurn _ => .ok ⟨[]⟩
  | .prepareOutbound reply => .ok reply
  | .deliver _ _ => .ok ()
  | .save _ => .ok ()

/-- Run `i` goes on through `n` calls. -/
def goOn (i n : Nat) : List (System.Label Nat String) :=
  (List.replicate n [.settle i obligingAnswer, .resume i]).flatten

/-- The first two messages of a conversation: both runs load before either saves. -/
def twoFirstMessages : List (System.Label Nat String) :=
  let message : IncomingChannelMessage Nat := ⟨"telegram", "7", none, none, some "m", .undefined⟩
  [.arrive message, .arrive message] ++ goOn 0 3 ++ goOn 1 3 ++
    .resume 0 :: goOn 0 2 ++ .resume 1 :: goOn 1 2

/-- Run 1, which found no session, saves over the session of run 0. -/
def twoFirstLog : List (StoreAccess Nat) :=
  [.save (some 1) "k" ⟨1⟩ ⟨1⟩ (some ⟨0⟩), .save (some 0) "k" ⟨0⟩ ⟨0⟩ none, .load 1 "k" none,
    .load 0 "k" none]

theorem run_twoFirstMessages :
    ∃ s, run System.step (System.new 0) twoFirstMessages = some s ∧ s.log = twoFirstLog :=
  Option.map_eq_some_iff.mp (by decide +kernel)

/-- After the race the key is settled on the data object of run 1, the session of run 0 is lost. -/
theorem settled_twoFirst {s : System Nat}
    (reach : run System.step (System.new 0) twoFirstMessages = some s)
    (logged : s.log = twoFirstLog) : Settled "k" ⟨1⟩ s := by
  have c : s.Consistent := System.Consistent.reachable reach
  constructor
  · rw [c.storedData, logged]
    rfl
  · intro i found loaded running unsaved
    rw [logged] at loaded unsaved
    have saved : ∀ j, j < 2 → .save (some j) "k" ⟨j⟩ ⟨j⟩ (if j = 0 then none else some ⟨0⟩) ∈
        twoFirstLog := by decide
    have first : i < 2 := by
      simp only [twoFirstLog, List.mem_cons, StoreAccess.load.injEq, List.not_mem_nil,
        reduceCtorEq, false_or, or_false] at loaded
      omega
    exact absurd (saved i first) (unsaved _ _ _ _)

/-- The law at the save of run 1, which overwrites the data of run 0. -/
theorem overwrites_twoFirst :
    ∃ s, run System.step (System.new 0) twoFirstMessages = some s ∧ Settled "k" ⟨1⟩ s ∧
      ∃ since found earlier, twoFirstLog.tail = since ++ .load 1 "k" found :: earlier ∧
        (∀ e ∈ since ++ earlier, ¬ e.By 1) ∧
        some ⟨0⟩ =
          (lastObject "k" (found.map Prod.fst) since).bind (dataOf · twoFirstLog.tail) := by
  obtain ⟨s, reach, logged⟩ := run_twoFirstMessages
  refine ⟨s, reach, settled_twoFirst reach logged, ?_⟩
  have law := (overwrites_lastSaved 0 twoFirstMessages s reach).1
  rw [logged] at law
  obtain ⟨since, found, earlier, split, others, before, -⟩ :=
    law 1 "k" ⟨1⟩ ⟨1⟩ (some ⟨0⟩) _ (List.suffix_refl _)
  exact ⟨since, found, earlier, split, others, before⟩

/-- Trailing saves do overwrite data newer than what their run loaded. -/
theorem not_overwritesOwnLoad :
    ¬ ∀ (now : Nat) (labels : List (System.Label Nat String)) (s : System Nat),
      run System.step (System.new now) labels = some s → OverwritesOwnLoad s.log := by
  intro kept
  obtain ⟨s, reach, logged⟩ := run_twoFirstMessages
  have own := kept 0 twoFirstMessages s reach
  rw [logged] at own
  have lost := own 1 "k" ⟨1⟩ ⟨1⟩ (some ⟨0⟩) _ (List.suffix_refl _) none (by decide)
  cases lost

end NestifyClaw.Gateway
