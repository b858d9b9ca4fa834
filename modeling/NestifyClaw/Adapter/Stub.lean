import NestifyClaw.JavaScript

/-!
# The stub

`makeStub` makes a function and a proxy before it.  `IsStub` says what of the two its uses depend
on, in any later state of the objects; each operation of the language that can be applied to a
stub then has one lemma.
-/

namespace NestifyClaw.Adapter

open NestifyClaw.JavaScript

variable {N D : Type}

/-! ## The functions of `makeStub` -/

/-- The code of a function: one of the module's, with the values it has from its surroundings, or
some other one. -/
inductive Code (D : Type)
  | nestifyStub (stub : ObjectId)
  | get (label : String) (stub : ObjectId)
  | apply (stub : ObjectId)
  | construct (stub : ObjectId)
  /-- `() => undefined` -/
  | arrow
  | outside (d : D)

/-- The function object of `() => undefined`. -/
def arrowFunction (engine : Engine N (Code D)) : Obj N (Code D) :=
  .ordinary (some engine.functionPrototype) (engine.functionProperties "")
    (some (.function .arrow false))

def isSymbol : Value N → Bool
  | .primitive p => p.isSymbol
  | .object _ => false

/-- The handler's `get` -/
def getTrap [DecidableEq N] (engine : Engine N (Code D)) (label : String) (stub : ObjectId)
    (prop : Value N) : Js N (Code D) (Value N) :=
  if prop = .string "then" then return .undefined
  else if prop = .string "__nestifyStub" then return .primitive (.boolean true)
  else if prop = .primitive (.symbol .toPrimitive) then do
    return .object (← Js.alloc (arrowFunction engine))
  else if isSymbol prop then return .undefined
  else if prop = .string "name" then return .string label
  else return .object stub

/-- The engine that knows the module's functions. -/
def withStubs [DecidableEq N] (engine : Engine N (Code D)) : Engine N (Code D) :=
  { engine with
    body := fun
      | .nestifyStub stub, _, _ => return .object stub
      | .get label stub, _, args => getTrap engine label stub ((args[1]?).getD .undefined)
      | .apply stub, _, _ => return .object stub
      | .construct stub, _, _ => return .object stub
      | .arrow, _, _ => return .undefined
      | .outside d, this, args => engine.body (.outside d) this args }

/-- What `Object.defineProperty(target, key, { value, configurable: true })` does to a property
that is there and can be redefined: the other attributes stay. -/
def redefine (key : PropertyKey) (v : Value N) : Obj N (Code D) → Obj N (Code D)
  | .ordinary proto properties callable =>
      .ordinary proto (properties.map fun p =>
        if p.1 = key then (key, { p.2 with value := v, configurable := true }) else p) callable
  | .proxy target handler isCallable isConstructor =>
      .proxy target handler isCallable isConstructor

def handler (label : String) (stub : ObjectId) : Handler (Code D) where
  get := some (.get label stub)
  apply := some (.apply stub)
  construct := some (.construct stub)

/-- The mode is that of the module's code: what `makeStub` makes a proxy of is a function in it. -/
def makeStub (engine : Engine N (Code D)) (mode : Mode) (label : String) :
    Js N (Code D) (Value N) := fun h =>
  -- the closures know the proxy that is allocated behind the function and its prototype object
  let stub : ObjectId := ⟨h.cells.length + 2⟩
  let make : Js N (Code D) (Value N) := do
    let target ← engine.makeConstructor mode (some engine.functionPrototype)
      (.function (.nestifyStub stub) true) "nestifyStub" (some engine.objectPrototype) true
    Js.modify target (redefine (.string "name") (.string label))
    return .object (← Js.alloc (.proxy target (handler label stub) true true))
  make h

/-! ## What its uses depend on -/

/-- The properties of a function with sloppy code that can be neither changed nor redefined. -/
def fixedName : Mode → String → Bool
  | .strict, _ => false
  | .sloppy, name => name = "arguments" || name = "caller"

/-- A property of the function behind the stub: null for good, or such that a trap may say anything
of it. -/
def Harmless (mode : Mode) (properties : Properties N) (key : PropertyKey) : Prop :=
  ∀ p, properties.lookup key = some p →
    (∃ name, key = .string name ∧ fixedName mode name = true) ∨
      p.configurable = true ∨ p.writable = true

/-- A proxy with the module's traps before a function whose properties are never listed and
contradict the traps for the fixed names only. -/
def IsStub (mode : Mode) (label : String) (stub : ObjectId) (h : Objects N (Code D)) : Prop :=
  ∃ target proto properties callable,
    h.read ⟨stub.addr⟩ = some (.proxy target (handler label stub) true true) ∧
    h.read ⟨target.addr⟩ = some (.ordinary proto properties callable) ∧
    (∀ entry ∈ properties, entry.2.enumerable = false) ∧
    (∀ key, Harmless mode properties key) ∧
    ∀ name, fixedName mode name = true →
      properties.lookup (.string name) = some ⟨.primitive .null, false, false, false⟩

theorem IsStub.grows {mode : Mode} {label : String} {stub : ObjectId} {h h' : Objects N (Code D)}
    (isStub : IsStub mode label stub h) (grows : h.Grows h') : IsStub mode label stub h' := by
  obtain ⟨target, proto, properties, callable, proxy, function, rest⟩ := isStub
  exact ⟨target, proto, properties, callable, grows.read proxy, grows.read function, rest⟩

/-- The objects that came between two states are in a third one as in the second. -/
def Kept {N C : Type} (before made h : Objects N C) : Prop :=
  ∀ r, ¬ before.Valid r → made.Valid r → h.read r = made.read r

/-- The properties of the function that `makeStub` makes. -/
def targetProperties (engine : Engine N (Code D)) (mode : Mode) (label : String)
    (prototype : ObjectId) : Properties N :=
  engine.functionProperties label ++ Engine.sloppyProperties mode ++
    [(.string "prototype", ⟨.object prototype, true, false, false⟩)]

section

variable {engine : Engine N (Code D)} {mode : Mode} {label : String} {prototype : ObjectId}

theorem not_enumerable_targetProperties :
    ∀ entry ∈ targetProperties engine mode label prototype, entry.2.enumerable = false := by
  cases mode <;> simp [targetProperties, Engine.functionProperties, Engine.sloppyProperties]

theorem harmless_targetProperties (key : PropertyKey) :
    Harmless mode (targetProperties engine mode label prototype) key := by
  intro p found
  obtain ⟨before, later, split, -⟩ := List.lookup_eq_some_iff.mp found
  have inside : (key, p) ∈ targetProperties engine mode label prototype := by simp [split]
  cases mode with
  | strict =>
      simp only [targetProperties, Engine.functionProperties, Engine.sloppyProperties,
        List.mem_append, List.mem_cons, Prod.mk.injEq, List.not_mem_nil, or_false] at inside
      obtain (⟨-, rfl⟩ | ⟨-, rfl⟩) | ⟨-, rfl⟩ := inside
      · exact .inr (.inl rfl)
      · exact .inr (.inl rfl)
      · exact .inr (.inr rfl)
  | sloppy =>
      simp only [targetProperties, Engine.functionProperties, Engine.sloppyProperties,
        List.mem_append, List.mem_cons, Prod.mk.injEq, List.not_mem_nil, or_false] at inside
      obtain ((⟨-, rfl⟩ | ⟨-, rfl⟩) | ⟨rfl, -⟩ | ⟨rfl, -⟩) | ⟨-, rfl⟩ := inside
      · exact .inr (.inl rfl)
      · exact .inr (.inl rfl)
      · exact .inl ⟨_, rfl, rfl⟩
      · exact .inl ⟨_, rfl, rfl⟩
      · exact .inr (.inr rfl)

theorem lookup_targetProperties {name : String} (fixed : fixedName mode name = true) :
    (targetProperties engine mode label prototype).lookup (.string name) =
      some ⟨.primitive .null, false, false, false⟩ := by
  cases mode with
  | strict => cases fixed
  | sloppy =>
      simp only [fixedName, Bool.or_eq_true, decide_eq_true_eq] at fixed
      rcases fixed with rfl | rfl <;> rfl

/-- Naming the function changes none of its other properties. -/
theorem redefine_function (proto : Option ObjectId) (callable : Option (Callable (Code D))) :
    redefine (.string "name") (.string label)
        (.ordinary proto (targetProperties engine mode "nestifyStub" prototype) callable) =
      .ordinary proto (targetProperties engine mode label prototype) callable := by
  cases mode <;> rfl

end

theorem makeStub_spec (engine : Engine N (Code D)) (mode : Mode) (label : String)
    (h₀ : Objects N (Code D)) :
    ∃ stub h₁, makeStub engine mode label h₀ = (.ok (.object stub), h₁) ∧
      ∀ h, Kept h₀ h₁ h → IsStub mode label stub h := by
  let stub : ObjectId := ⟨h₀.cells.length + 2⟩
  let target : ObjectId := ⟨h₀.cells.length⟩
  let properties (name : String) : Properties N :=
    targetProperties engine mode name ⟨h₀.cells.length + 1⟩
  let function (name : String) : Obj N (Code D) := .ordinary (some engine.functionPrototype)
    (properties name) (some (.function (.nestifyStub stub) true))
  let prototype : Obj N (Code D) := .ordinary (some engine.objectPrototype)
    [(.string "constructor", ⟨.object target, true, false, true⟩)] none
  let h₁ : Objects N (Code D) := ⟨h₀.cells ++ [function "nestifyStub", prototype]⟩
  let h₂ : Objects N (Code D) := h₁.modify ⟨target.addr⟩ (redefine (.string "name") (.string label))
  let proxy : Obj N (Code D) := .proxy target (handler label stub) true true
  have length : h₂.cells.length = h₀.cells.length + 2 := by
    simp [h₂, h₁, Heap.modify]
  have run : makeStub engine mode label h₀ =
      (.ok (.object ⟨h₂.cells.length⟩), (h₂.alloc proxy).2) := rfl
  rw [length] at run
  refine ⟨stub, (h₂.alloc proxy).2, run, fun h kept => ?_⟩
  have isNew : ∀ id : ObjectId, h₀.cells.length ≤ id.addr → id.addr ≤ h₀.cells.length + 2 →
      h.read ⟨id.addr⟩ = (h₂.alloc proxy).2.read ⟨id.addr⟩ := by
    intro id notBefore notBehind
    refine kept ⟨id.addr⟩ (Nat.not_lt.mpr notBefore) ?_
    unfold Heap.Valid
    simp only [Heap.alloc, List.length_append, List.length_singleton, length]
    omega
  have readProxy : (h₂.alloc proxy).2.read ⟨stub.addr⟩ = some proxy := by
    have atEnd : (h₂.alloc proxy).1 = ⟨stub.addr⟩ := Ref.ext length
    rw [← atEnd]
    exact Heap.read_alloc_new h₂ proxy
  have readTarget : (h₂.alloc proxy).2.read ⟨target.addr⟩ =
      some (function label) := by
    have valid : h₂.Valid ⟨target.addr⟩ := by
      unfold Heap.Valid
      simp only [length, target]
      omega
    rw [Heap.read_alloc valid, Heap.read_modify, if_pos rfl]
    simp [h₁, Heap.read, target, function, properties, redefine_function]
  refine ⟨target, _, _, _, (isNew stub (by simp [stub]) (by simp [stub])).trans readProxy,
    (isNew target (by simp [target]) (by simp [target])).trans readTarget,
    not_enumerable_targetProperties, harmless_targetProperties,
    fun _ fixed => lookup_targetProperties fixed⟩

/-! ## The operations on a stub -/

section

variable [DecidableEq N] {engine : Engine N (Code D)} {mode : Mode} {label name : String}
  {stub : ObjectId}
  {h h' : Objects N (Code D)} {v receiver this : Value N} {args : List (Value N)}

/-- What the trap says is the value of the property, unless the name is fixed. -/
theorem IsStub.get_eq (isStub : IsStub mode label stub h) {key : PropertyKey}
    (notFixed : ∀ name, key = .string name → fixedName mode name = false)
    (trap : getTrap engine label stub key.value h = (.ok v, h')) (grows : h.Grows h') :
    (withStubs engine).get stub key receiver h = (.ok v, h') := by
  obtain ⟨target, proto, properties, callable, proxy, function, -, harmless, -⟩ := isStub
  rw [Engine.get, Engine.getAt, bind_eq_of_ok (fetch_eq proxy)]
  have body : (withStubs engine).body (.get label stub) .undefined
      [.object target, key.value, receiver] h = (.ok v, h') := trap
  simp only [handler]
  rw [bind_eq_of_ok body, bind_eq_of_ok (ownProperties_eq (grows.read function))]
  refine checkGet_eq fun p found => (harmless key p found).resolve_left ?_
  rintro ⟨name, rfl, fixed⟩
  exact Bool.noConfusion ((notFixed name rfl).symm.trans fixed)

theorem getTrap_name (notThen : name ≠ "then") (notMark : name ≠ "__nestifyStub")
    (notName : name ≠ "name") :
    getTrap engine label stub (PropertyKey.string name).value h = (.ok (.object stub), h) := by
  simp [getTrap, PropertyKey.value, Value.string, isSymbol, notThen, notMark, notName]
  rfl

theorem IsStub.get_name (isStub : IsStub mode label stub h) (notThen : name ≠ "then")
    (notMark : name ≠ "__nestifyStub") (notName : name ≠ "name")
    (notFixed : fixedName mode name = false) :
    (withStubs engine).get stub (.string name) receiver h = (.ok (.object stub), h) := by
  refine isStub.get_eq ?_ (getTrap_name notThen notMark notName) (.refl h)
  rintro _ ⟨⟩
  exact notFixed

/-- The trap says the stub, and the target's own property says null. -/
theorem IsStub.get_fixedName (isStub : IsStub mode label stub h) (notThen : name ≠ "then")
    (notMark : name ≠ "__nestifyStub") (notName : name ≠ "name")
    (fixed : fixedName mode name = true) :
    Throws h ((withStubs engine).get stub (.string name) receiver) := by
  obtain ⟨target, proto, properties, callable, proxy, function, -, -, own⟩ := isStub
  have body : (withStubs engine).body (.get label stub) .undefined
      [.object target, (PropertyKey.string name).value, receiver] h = (.ok (.object stub), h) :=
    getTrap_name notThen notMark notName
  obtain ⟨h', failed⟩ := checkGet_throws (h := h) (own name fixed)
    (v := .object stub) (nofun : Value.primitive .null ≠ .object stub)
  refine ⟨h', ?_⟩
  rw [Engine.get, Engine.getAt, bind_eq_of_ok (fetch_eq proxy)]
  simp only [handler]
  rw [bind_eq_of_ok body, bind_eq_of_ok (ownProperties_eq function)]
  exact failed

theorem IsStub.get_then (isStub : IsStub mode label stub h) :
    (withStubs engine).get stub (.string "then") receiver h = (.ok .undefined, h) := by
  refine isStub.get_eq ?_ rfl (.refl h)
  rintro _ ⟨⟩
  cases mode <;> rfl

theorem IsStub.get_iterator (isStub : IsStub mode label stub h) :
    (withStubs engine).get stub (.symbol .iterator) receiver h = (.ok .undefined, h) :=
  isStub.get_eq nofun rfl (.refl h)

theorem IsStub.get_toPrimitive (isStub : IsStub mode label stub h) :
    (withStubs engine).get stub (.symbol .toPrimitive) receiver h =
      (.ok (.object ⟨h.cells.length⟩), (h.alloc (arrowFunction engine)).2) :=
  isStub.get_eq nofun rfl (Heap.grows_alloc h _)

omit [DecidableEq N] in
theorem IsStub.asFunction (isStub : IsStub mode label stub h) :
    Engine.asFunction (.object stub) h = (.ok (some stub), h) := by
  obtain ⟨target, proto, properties, callable, proxy, -⟩ := isStub
  rw [Engine.asFunction, bind_eq_of_ok (fetch_eq proxy)]
  rfl

theorem IsStub.call (isStub : IsStub mode label stub h) :
    Outcome h ((withStubs engine).call stub this args) false (· = .object stub) := by
  obtain ⟨target, proto, properties, callable, proxy, -⟩ := isStub
  change Outcome h ((withStubs engine).callAt (h.cells.length + 1) stub this args) false _
  rw [Engine.callAt]
  refine .after (fetch_eq proxy) (.refl h) ?_
  exact .after rfl (Heap.grows_alloc h _) (.pure rfl)

theorem IsStub.callValue (isStub : IsStub mode label stub h) :
    Outcome h ((withStubs engine).callValue (.object stub) this args) false (· = .object stub) :=
  .after isStub.asFunction (.refl h) isStub.call

theorem IsStub.constructAt (isStub : IsStub mode label stub h) (depth : Nat)
    (newTarget : ObjectId) :
    Outcome h ((withStubs engine).constructAt (depth + 1) stub args newTarget) false
      (· = .object stub) := by
  obtain ⟨target, proto, properties, callable, proxy, -⟩ := isStub
  rw [Engine.constructAt]
  refine .after (fetch_eq proxy) (.refl h) ?_
  exact .after rfl (Heap.grows_alloc h _) (.after rfl (.refl _) (.pure rfl))

theorem IsStub.newValue (isStub : IsStub mode label stub h) :
    Outcome h ((withStubs engine).newValue (.object stub) args) false (· = .object stub) := by
  have isStub' := isStub
  obtain ⟨target, proto, properties, callable, proxy, -⟩ := isStub'
  exact .after (fetch_eq proxy) (.refl h) (isStub.constructAt h.cells.length stub)

/-- A class that extends the stub. -/
def Extends (stub id : ObjectId) (h : Objects N (Code D)) : Prop :=
  ∃ properties, h.read ⟨id.addr⟩ = some (.ordinary (some stub) properties (some .derivedClass))

omit [DecidableEq N] in
theorem Extends.grows {id : ObjectId} (isClass : Extends stub id h) (grows : h.Grows h') :
    Extends stub id h' := by
  obtain ⟨properties, found⟩ := isClass
  exact ⟨properties, grows.read found⟩

theorem IsStub.classExtends (isStub : IsStub mode label stub h) (engine : Engine N (Code D)) :
    ∃ id h', (withStubs engine).classExtends (.object stub) h = (.ok id, h') ∧ h.Grows h' ∧
      Extends stub id h' := by
  have isPrototype : (withStubs engine).get stub (.string "prototype") (.object stub) h =
      (.ok (.object stub), h) :=
    isStub.get_name (by decide) (by decide) (by decide) (by cases mode <;> rfl)
  obtain ⟨target, -, -, -, proxy, -⟩ := isStub
  obtain ⟨id, h', properties, made, grows, found⟩ := makeConstructor_spec (withStubs engine)
    .strict (some stub) .derivedClass "" (some stub) false h
  refine ⟨id, h', ?_, grows, properties, found⟩
  rw [Engine.classExtends, bind_eq_of_ok (fetch_eq proxy)]
  exact (bind_eq_of_ok isPrototype).trans made

/-- An instance of a class that extends the stub is the stub. -/
theorem IsStub.newClass (isStub : IsStub mode label stub h) {id : ObjectId}
    (isClass : Extends stub id h) :
    Outcome h ((withStubs engine).newValue (.object id) args) false (· = .object stub) := by
  obtain ⟨properties, found⟩ := isClass
  obtain ⟨depth, more⟩ := Nat.exists_eq_add_one.mpr (Nat.zero_lt_of_lt (Heap.valid_of_read found))
  have isSuper : Outcome h ((withStubs engine).constructAt (depth + 1) stub args id) false
      (· = .object stub) := isStub.constructAt depth id
  obtain ⟨target, -, -, -, proxy, -⟩ := isStub
  refine .after (fetch_eq found) (.refl h) ?_
  change Outcome h ((withStubs engine).constructAt (h.cells.length + 1) id args id) false _
  rw [Engine.constructAt, more]
  exact .after (fetch_eq found) (.refl h) (.after (fetch_eq proxy) (.refl h) isSuper)

theorem IsStub.await (isStub : IsStub mode label stub h) :
    Outcome h ((withStubs engine).await (.object stub)) false (· = .object stub) :=
  .after isStub.get_then (.refl h) (.after rfl (.refl h) (.pure rfl))

/-- The `get` trap answers for no symbol but one, so there is no iterator. -/
theorem IsStub.getIterator (isStub : IsStub mode label stub h) :
    Throws h ((withStubs engine).getIterator (.object stub)) := by
  have noMethod : (withStubs engine).getMethod (.object stub) (.symbol .iterator) h =
      (.ok none, h) :=
    bind_eq_of_ok isStub.get_iterator
  exact ⟨h, bind_eq_of_ok noMethod⟩

theorem IsStub.toPrimitive (isStub : IsStub mode label stub h) (hint : Hint) :
    Outcome h ((withStubs engine).toPrimitive hint (.object stub)) false (· = .undefined) := by
  have added := Heap.grows_alloc h (arrowFunction engine)
  have found := Heap.read_alloc_new h (arrowFunction engine)
  have isFunction : Engine.asFunction (.object ⟨h.cells.length⟩)
      (h.alloc (arrowFunction engine)).2 =
        (.ok (some ⟨h.cells.length⟩), (h.alloc (arrowFunction engine)).2) := by
    rw [Engine.asFunction, bind_eq_of_ok (fetch_eq found)]
    rfl
  have isMethod : (withStubs engine).getMethod (.object stub) (.symbol .toPrimitive) h =
      (.ok (some ⟨h.cells.length⟩), (h.alloc (arrowFunction engine)).2) := by
    rw [Engine.getMethod, Engine.getV, bind_eq_of_ok isStub.get_toPrimitive]
    exact (bind_eq_of_ok isFunction).trans rfl
  have returned : (withStubs engine).call ⟨h.cells.length⟩ (.object stub) [.string hint.text]
      (h.alloc (arrowFunction engine)).2 =
        (.ok .undefined, (h.alloc (arrowFunction engine)).2) := by
    rw [Engine.call, Engine.callAt, bind_eq_of_ok (fetch_eq found)]
    rfl
  exact .after isMethod added (.after returned (.refl _) (.pure rfl))

theorem IsStub.copyEach (isStub : IsStub mode label stub h) (keys : List PropertyKey) :
    (withStubs engine).copyEach stub keys h = (.ok [], h) := by
  obtain ⟨target, proto, properties, callable, proxy, function, notListed, -⟩ := isStub
  have own : ownProperties stub h = (.ok properties, h) := ownProperties_proxy_eq proxy function
  induction keys with
  | nil => rfl
  | cons key keys ih =>
      rw [Engine.copyEach, bind_eq_of_ok own]
      cases found : properties.lookup key with
      | none => exact ih
      | some p =>
          obtain ⟨before, later, split, -⟩ := List.lookup_eq_some_iff.mp found
          have inside : (key, p) ∈ properties := by simp [split]
          obtain ⟨v, writable, enumerable, configurable⟩ := p
          cases notListed _ inside
          exact ih

theorem IsStub.copyDataProperties (isStub : IsStub mode label stub h)
    (excluded : List PropertyKey) :
    Outcome h ((withStubs engine).copyDataProperties (.object stub) excluded) false
      fun _ => True := by
  have nothing : ∀ keys, (withStubs engine).copyEach stub keys h = (.ok [], h) := isStub.copyEach
  obtain ⟨target, proto, properties, callable, proxy, function, -⟩ := isStub
  have own : ownProperties stub h = (.ok properties, h) := ownProperties_proxy_eq proxy function
  refine .after own (.refl h) (.after (nothing _) (.refl h) ?_)
  exact .after rfl (Heap.grows_alloc h _) (.pure trivial)

end

end NestifyClaw.Adapter
