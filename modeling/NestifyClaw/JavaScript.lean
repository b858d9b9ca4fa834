import NestifyClaw.Heap

/-!
# Objects, functions and proxies

The part of JavaScript's meaning that a program meets when it uses a proxy: objects with data
properties and a prototype, functions, derived classes and proxies, and the language's operations
on them (`get`, `call`, `construct`, `toPrimitive`, `getIterator`, and so on), with the steps in
the order of the language's specification.  What the number values are, what the bodies of
functions do and how iterators and thenables go on is the business of an `Engine`; accessors and
bigints are left out.

An operation that passes from object to object takes more steps than there are objects only when
it goes in a circle; then it ends as the engine's stack overflow does (`RangeError`).
-/

namespace NestifyClaw.JavaScript

/-! ## Values -/

inductive Symbol
  | iterator
  | toPrimitive
  | other (description : String)
  deriving DecidableEq

inductive Primitive (N : Type)
  | undefined
  | null
  | boolean (b : Bool)
  | number (n : N)
  | string (text : String)
  | symbol (s : Symbol)
  deriving DecidableEq

def Primitive.isSymbol {N : Type} : Primitive N → Bool
  | .symbol _ => true
  | _ => false

structure ObjectId where
  addr : Nat
  deriving DecidableEq

inductive Value (N : Type)
  | primitive (p : Primitive N)
  | object (id : ObjectId)
  deriving DecidableEq

inductive PropertyKey
  | string (name : String)
  | symbol (s : Symbol)
  deriving DecidableEq

variable {N C α β : Type}

def Value.undefined : Value N := .primitive .undefined

def Value.string (text : String) : Value N := .primitive (.string text)

/-- The value by which a trap is told of a property. -/
def PropertyKey.value : PropertyKey → Value N
  | .string name => .string name
  | .symbol s => .primitive (.symbol s)

inductive UnaryOp
  | plus
  | minus
  | bitwiseNot

inductive BinaryOp
  | add
  | subtract
  | multiply
  | divide
  | remainder
  | exponentiate
  | leftShift
  | rightShift
  | unsignedRightShift
  | bitwiseAnd
  | bitwiseOr
  | bitwiseXor

/-- The number values and the operators on them. -/
structure Numbers (N : Type) where
  nan : N
  ofNat : Nat → N
  ofString : String → N
  toString : N → String
  unary : UnaryOp → N → N
  binary : BinaryOp → N → N → N

/-! ## Objects -/

/-- A data property. -/
structure Property (N : Type) where
  value : Value N
  writable : Bool
  enumerable : Bool
  configurable : Bool

abbrev Properties (N : Type) := List (PropertyKey × Property N)

/-- Whether a function's code is strict, as that of modules and classes is. -/
inductive Mode
  | strict
  | sloppy
  deriving DecidableEq

/-- What a function does: its code runs, and `new` may be applied to it or not; or it is a class
that extends another one and has no constructor of its own. -/
inductive Callable (C : Type)
  | function (code : C) (isConstructor : Bool)
  | derivedClass

/-- A proxy's traps.  Where there is none the target's own operation is done. -/
structure Handler (C : Type) where
  get : Option C
  apply : Option C
  construct : Option C

inductive Obj (N C : Type)
  | ordinary (proto : Option ObjectId) (properties : Properties N) (callable : Option (Callable C))
  | proxy (target : ObjectId) (handler : Handler C) (isCallable isConstructor : Bool)

def Obj.isCallable : Obj N C → Bool
  | .ordinary _ _ callable => callable.isSome
  | .proxy _ _ isCallable _ => isCallable

def Obj.isConstructor : Obj N C → Bool
  | .ordinary _ _ (some (.function _ isConstructor)) => isConstructor
  | .ordinary _ _ (some .derivedClass) => true
  | .ordinary _ _ none => false
  | .proxy _ _ _ isConstructor => isConstructor

abbrev Objects (N C : Type) := Heap (Obj N C)

/-- The object of an identity.  Every identity comes from an allocation, so there is one. -/
def Objects.at (h : Objects N C) (id : ObjectId) : Obj N C :=
  (h.read ⟨id.addr⟩).getD (.ordinary none [] none)

/-! ## Computations -/

inductive Err
  | TypeError
  | RangeError

/-- A computation returns or throws, and leaves the objects. -/
def Js (N C α : Type) : Type := Objects N C → Except Err α × Objects N C

namespace Js

instance : Monad (Js N C) where
  pure a := fun h => (.ok a, h)
  bind x f := fun h =>
    match x h with
    | (.ok a, h') => f a h'
    | (.error err, h') => (.error err, h')

def throw (err : Err) : Js N C α := fun h => (.error err, h)

def fetch (id : ObjectId) : Js N C (Obj N C) := fun h => (.ok (h.at id), h)

def alloc (o : Obj N C) : Js N C ObjectId := fun h => (.ok ⟨h.cells.length⟩, (h.alloc o).2)

def modify (id : ObjectId) (f : Obj N C → Obj N C) : Js N C Unit :=
  fun h => (.ok (), Heap.modify h ⟨id.addr⟩ f)

end Js

/-- What a program is run on: the intrinsic objects, the numbers, the bodies of functions, and how
the language goes on where this development does not follow it. -/
structure Engine (N C : Type) where
  objectPrototype : ObjectId
  functionPrototype : ObjectId
  arrayPrototype : ObjectId
  numbers : Numbers N
  /-- run a function's code with `this` and arguments -/
  body : C → Value N → List (Value N) → Js N C (Value N)
  /-- a property of a primitive value, from the prototype of its wrapper -/
  primitiveGet : Primitive N → PropertyKey → Js N C (Value N)
  /-- the enumerable properties of a primitive value's wrapper -/
  primitiveEntries : Primitive N → Properties N
  /-- wait for an object with a `then` method -/
  settle : ObjectId → ObjectId → Js N C (Value N)
  /-- take so many values, or all, from an iterator by its `next` method -/
  consume : Value N → Value N → Option Nat → Js N C (List (Value N))
  /-- run a loop's body for each value of an iterator -/
  loop : Value N → Value N → (Value N → Js N C Unit) → Js N C Unit

/-! ## Properties -/

/-- A proxy passes the question for its own properties on to its target. -/
def ownPropertiesAt (h : Objects N C) : Nat → ObjectId → Except Err (Properties N)
  | 0, _ => .error .RangeError
  | depth + 1, id =>
      match h.at id with
      | .ordinary _ properties _ => .ok properties
      | .proxy target _ _ _ => ownPropertiesAt h depth target

def ownProperties (id : ObjectId) : Js N C (Properties N) :=
  fun h => (ownPropertiesAt h (h.cells.length + 1) id, h)

namespace Engine

variable (engine : Engine N C)

/-- `CreateArrayFromList` -/
def createArray (values : List (Value N)) : Js N C ObjectId :=
  .alloc (.ordinary (some engine.arrayPrototype)
    (values.zipIdx.map (fun v => (.string (toString v.2), ⟨v.1, true, true, true⟩)) ++
      [(.string "length", ⟨.primitive (.number (engine.numbers.ofNat values.length)),
        true, false, false⟩)]) none)

/-- The properties with which a function starts. -/
def functionProperties (name : String) : Properties N :=
  [(.string "length", ⟨.primitive (.number (engine.numbers.ofNat 0)), false, false, true⟩),
    (.string "name", ⟨.string name, false, false, true⟩)]

/-- The properties that a function with sloppy code has besides.  While it is not running they are
null. -/
def sloppyProperties : Mode → Properties N
  | .strict => []
  | .sloppy =>
      [(.string "arguments", ⟨.primitive .null, false, false, false⟩),
        (.string "caller", ⟨.primitive .null, false, false, false⟩)]

/-- A constructor and the object in its `prototype` property. -/
def makeConstructor (mode : Mode) (proto : Option ObjectId) (callable : Callable C) (name : String)
    (protoParent : Option ObjectId) (writablePrototype : Bool) : Js N C ObjectId := fun h =>
  let id : ObjectId := ⟨h.cells.length⟩
  let prototype : ObjectId := ⟨h.cells.length + 1⟩
  (.ok id, ⟨h.cells ++
    [.ordinary proto (engine.functionProperties name ++ sloppyProperties mode ++
        [(.string "prototype", ⟨.object prototype, writablePrototype, false, false⟩)])
      (some callable),
    .ordinary protoParent [(.string "constructor", ⟨.object id, true, false, true⟩)] none]⟩)

variable [DecidableEq N]

/-- What the trap says of a property that the target can neither change nor redefine must be its
value. -/
def checkGet (properties : Properties N) (key : PropertyKey) (result : Value N) :
    Js N C (Value N) :=
  match properties.lookup key with
  | some p =>
      if p.configurable = false ∧ p.writable = false ∧ p.value ≠ result then Js.throw .TypeError
      else return result
  | none => return result

def getAt : Nat → ObjectId → PropertyKey → Value N → Js N C (Value N)
  | 0, _, _, _ => .throw .RangeError
  | depth + 1, id, key, receiver => do
      match ← Js.fetch id with
      | .ordinary proto properties _ =>
          match properties.lookup key, proto with
          | some p, _ => return p.value
          | none, some parent => getAt depth parent key receiver
          | none, none => return .undefined
      | .proxy target handler _ _ =>
          match handler.get with
          | none => getAt depth target key receiver
          | some trap =>
              let result ← engine.body trap .undefined [.object target, key.value, receiver]
              let properties ← ownProperties target
              checkGet properties key result

/-- `[[Get]]` -/
def get (id : ObjectId) (key : PropertyKey) (receiver : Value N) : Js N C (Value N) :=
  fun h => engine.getAt (h.cells.length + 1) id key receiver h

def getV : Value N → PropertyKey → Js N C (Value N)
  | .object id, key => engine.get id key (.object id)
  | .primitive .undefined, _ | .primitive .null, _ => .throw .TypeError
  | .primitive p, key => engine.primitiveGet p key

/-- The value's identity, when it can be called. -/
def asFunction : Value N → Js N C (Option ObjectId)
  | .primitive _ => return none
  | .object id => do return if (← Js.fetch id).isCallable then some id else none

def getMethod (v : Value N) (key : PropertyKey) : Js N C (Option ObjectId) := do
  match ← engine.getV v key with
  | .primitive .undefined | .primitive .null => return none
  | func =>
      match ← asFunction func with
      | some f => return some f
      | none => .throw .TypeError

/-! ## Calls -/

def callAt : Nat → ObjectId → Value N → List (Value N) → Js N C (Value N)
  | 0, _, _, _ => .throw .RangeError
  | depth + 1, id, this, args => do
      match ← Js.fetch id with
      | .ordinary _ _ (some (.function code _)) => engine.body code this args
      | .ordinary _ _ _ => .throw .TypeError
      | .proxy target handler isCallable _ =>
          if isCallable then
            match handler.apply with
            | none => callAt depth target this args
            | some trap =>
                let list ← engine.createArray args
                engine.body trap .undefined [.object target, this, .object list]
          else .throw .TypeError

/-- `[[Call]]` -/
def call (id : ObjectId) (this : Value N) (args : List (Value N)) : Js N C (Value N) :=
  fun h => engine.callAt (h.cells.length + 1) id this args h

def constructAt : Nat → ObjectId → List (Value N) → ObjectId → Js N C (Value N)
  | 0, _, _, _ => .throw .RangeError
  | depth + 1, id, args, newTarget => do
      match ← Js.fetch id with
      | .ordinary _ _ (some (.function code true)) =>
          let proto ← engine.get newTarget (.string "prototype") (.object newTarget)
          let this ← Js.alloc (.ordinary (some (match proto with
            | .object id => id
            | .primitive _ => engine.objectPrototype)) [] none)
          match ← engine.body code (.object this) args with
          | .object result => return .object result
          | .primitive _ => return .object this
      | .ordinary (some parent) _ (some .derivedClass) =>
          -- the constructor that a class has by default passes its arguments to `super`
          if (← Js.fetch parent).isConstructor then constructAt depth parent args newTarget
          else .throw .TypeError
      | .ordinary _ _ _ => .throw .TypeError
      | .proxy target handler _ isConstructor =>
          if isConstructor then
            match handler.construct with
            | none => constructAt depth target args newTarget
            | some trap =>
                let list ← engine.createArray args
                match ← engine.body trap .undefined
                    [.object target, .object list, .object newTarget] with
                | .object result => return .object result
                | .primitive _ => .throw .TypeError
          else .throw .TypeError

/-- `[[Construct]]` -/
def construct (id : ObjectId) (args : List (Value N)) (newTarget : ObjectId) : Js N C (Value N) :=
  fun h => engine.constructAt (h.cells.length + 1) id args newTarget h

/-- A call of a value. -/
def callValue (func this : Value N) (args : List (Value N)) : Js N C (Value N) := do
  match ← asFunction func with
  | some f => engine.call f this args
  | none => .throw .TypeError

/-- `new` applied to a value. -/
def newValue (constructor : Value N) (args : List (Value N)) : Js N C (Value N) :=
  match constructor with
  | .primitive _ => .throw .TypeError
  | .object id => do
      if (← Js.fetch id).isConstructor then engine.construct id args id else .throw .TypeError

/-- `class extends superclass {}` -/
def classExtends : Value N → Js N C ObjectId
  | .primitive .null =>
      engine.makeConstructor .strict (some engine.functionPrototype) .derivedClass "" none false
  | .primitive _ => .throw .TypeError
  | .object parent => do
      if (← Js.fetch parent).isConstructor then
        match ← engine.get parent (.string "prototype") (.object parent) with
        | .object proto =>
            engine.makeConstructor .strict (some parent) .derivedClass "" (some proto) false
        | .primitive .null =>
            engine.makeConstructor .strict (some parent) .derivedClass "" none false
        | .primitive _ => .throw .TypeError
      else .throw .TypeError

/-! ## Conversions -/

end Engine

inductive Hint
  | default
  | string
  | number
  deriving DecidableEq

def Hint.text : Hint → String
  | .default => "default"
  | .string => "string"
  | .number => "number"

namespace Engine

variable (engine : Engine N C) [DecidableEq N]

/-- The first primitive value that one of the methods returns. -/
def firstPrimitive (id : ObjectId) : List String → Js N C (Primitive N)
  | [] => .throw .TypeError
  | name :: names => do
      let method ← engine.get id (.string name) (.object id)
      match ← asFunction method with
      | none => firstPrimitive id names
      | some f =>
          match ← engine.call f (.object id) [] with
          | .primitive p => return p
          | .object _ => firstPrimitive id names

def toPrimitive (hint : Hint) : Value N → Js N C (Primitive N)
  | .primitive p => return p
  | .object id => do
      match ← engine.getMethod (.object id) (.symbol .toPrimitive) with
      | some exotic =>
          match ← engine.call exotic (.object id) [.string hint.text] with
          | .primitive p => return p
          | .object _ => .throw .TypeError
      | none =>
          engine.firstPrimitive id
            (if hint = .string then ["toString", "valueOf"] else ["valueOf", "toString"])

def primitiveToString : Primitive N → Js N C String
  | .undefined => return "undefined"
  | .null => return "null"
  | .boolean b => return if b then "true" else "false"
  | .number n => return engine.numbers.toString n
  | .string text => return text
  | .symbol _ => .throw .TypeError

def primitiveToNumber : Primitive N → Js N C N
  | .undefined => return engine.numbers.nan
  | .null => return engine.numbers.ofNat 0
  | .boolean b => return engine.numbers.ofNat (if b then 1 else 0)
  | .number n => return n
  | .string text => return engine.numbers.ofString text
  | .symbol _ => .throw .TypeError

def toNumber (v : Value N) : Js N C N := do
  engine.primitiveToNumber (← engine.toPrimitive .number v)

def toText (v : Value N) : Js N C String := do
  engine.primitiveToString (← engine.toPrimitive .string v)

def unary (op : UnaryOp) (v : Value N) : Js N C (Value N) := do
  return .primitive (.number (engine.numbers.unary op (← engine.toNumber v)))

/-- `+` on primitive values -/
def plus : Primitive N → Primitive N → Js N C (Value N)
  | .string left, right => do return .string (left ++ (← engine.primitiveToString right))
  | left, .string right => do return .string ((← engine.primitiveToString left) ++ right)
  | left, right => do
      let left ← engine.primitiveToNumber left
      let right ← engine.primitiveToNumber right
      return .primitive (.number (engine.numbers.binary .add left right))

def binary (op : BinaryOp) (left right : Value N) : Js N C (Value N) :=
  match op with
  | .add => do
      let left ← engine.toPrimitive .default left
      let right ← engine.toPrimitive .default right
      engine.plus left right
  | op => do
      let left ← engine.toNumber left
      let right ← engine.toNumber right
      return .primitive (.number (engine.numbers.binary op left right))

/-! ## Awaiting, iterating, copying -/

def await : Value N → Js N C (Value N)
  | .primitive p => return .primitive p
  | .object id => do
      let method ← engine.get id (.string "then") (.object id)
      match ← asFunction method with
      | none => return .object id
      | some f => engine.settle id f

/-- The iterator of a value, and its `next` method. -/
def getIterator (v : Value N) : Js N C (Value N × Value N) := do
  match ← engine.getMethod v (.symbol .iterator) with
  | none => .throw .TypeError
  | some method =>
      match ← engine.call method v [] with
      | .primitive _ => .throw .TypeError
      | .object iterator =>
          let next ← engine.get iterator (.string "next") (.object iterator)
          return (.object iterator, next)

def iterate (v : Value N) (limit : Option Nat) : Js N C (List (Value N)) := do
  let (iterator, next) ← engine.getIterator v
  engine.consume iterator next limit

def copyEach (id : ObjectId) : List PropertyKey → Js N C (Properties N)
  | [] => return []
  | key :: keys => do
      match (← ownProperties id).lookup key with
      | some ⟨_, _, true, _⟩ =>
          let value ← engine.get id key (.object id)
          let rest ← copyEach id keys
          return (key, ⟨value, true, true, true⟩) :: rest
      | _ => copyEach id keys

/-- `CopyDataProperties` into a new object -/
def copyDataProperties (source : Value N) (excluded : List PropertyKey) : Js N C (Value N) := do
  let properties ← match source with
    | .object id => do
        let properties ← ownProperties id
        engine.copyEach id ((properties.map Prod.fst).filter (· ∉ excluded))
    | .primitive p => pure ((engine.primitiveEntries p).filter (·.1 ∉ excluded))
  return .object (← Js.alloc (.ordinary (some engine.objectPrototype) properties none))

end Engine

/-! ## Outcomes -/

def Throws (h : Objects N C) (x : Js N C α) : Prop := ∃ h', x h = (.error .TypeError, h')

/-- The computation throws a `TypeError`, or it returns a value with the property and has only
added objects. -/
def Outcome (h : Objects N C) (x : Js N C α) (throws : Bool) (post : α → Prop) : Prop :=
  match throws with
  | true => Throws h x
  | false => ∃ a h', x h = (.ok a, h') ∧ h.Grows h' ∧ post a

section

variable {h h' : Objects N C} {x : Js N C α} {f : α → Js N C β} {throws throws' : Bool}
  {post : α → Prop} {post' : β → Prop} {a : α}

theorem bind_eq_of_ok (done : x h = (.ok a, h')) : (x >>= f) h = f a h' := by
  change (match x h with | (.ok a, h') => f a h' | (.error err, h') => (.error err, h')) = f a h'
  rw [done]

theorem bind_eq_of_error {err : Err} (failed : x h = (.error err, h')) :
    (x >>= f) h = (.error err, h') := by
  change (match x h with | (.ok a, h') => f a h' | (.error err, h') => (.error err, h')) = _
  rw [failed]

theorem Outcome.of_eq (done : x h = (.ok a, h')) (grows : h.Grows h') (holds : post a) :
    Outcome h x false post :=
  ⟨a, h', done, grows, holds⟩

theorem Outcome.pure (holds : post a) : Outcome h (pure a : Js N C α) false post :=
  .of_eq rfl (.refl h) holds

theorem Outcome.imp {post' : α → Prop} (outcome : Outcome h x throws post)
    (weaker : ∀ a, post a → post' a) : Outcome h x throws post' := by
  cases throws with
  | true => exact outcome
  | false =>
      obtain ⟨a, h', done, grows, holds⟩ := outcome
      exact ⟨a, h', done, grows, weaker a holds⟩

/-- What follows a computation that is known to return. -/
theorem Outcome.after (done : x h = (.ok a, h')) (grows : h.Grows h')
    (next : Outcome h' (f a) throws post') : Outcome h (x >>= f) throws post' := by
  cases throws with
  | true =>
      obtain ⟨h'', failed⟩ := next
      exact ⟨h'', (bind_eq_of_ok done).trans failed⟩
  | false =>
      obtain ⟨b, h'', done', grows', holds⟩ := next
      exact ⟨b, h'', (bind_eq_of_ok done).trans done', grows.trans grows', holds⟩

theorem Throws.bind (first : Throws h x) : Throws h (x >>= f) := by
  obtain ⟨h', failed⟩ := first
  exact ⟨h', bind_eq_of_error failed⟩

theorem Outcome.andThen (first : Outcome h x false post)
    (second : ∀ a h', h.Grows h' → post a → Outcome h' (f a) throws post') :
    Outcome h (x >>= f) throws post' := by
  obtain ⟨a, h', done, grows, holds⟩ := first
  exact .after done grows (second a h' grows holds)

/-- One computation after another throws when one of them does. -/
theorem Outcome.bind (first : Outcome h x throws post)
    (second : ∀ a h', h.Grows h' → post a → Outcome h' (f a) throws' post') :
    Outcome h (x >>= f) (throws || throws') post' := by
  cases throws with
  | true => exact Throws.bind first
  | false => exact first.andThen second

theorem Outcome.last (first : Outcome h x throws post)
    (second : ∀ a h', h.Grows h' → post a → Outcome h' (f a) false post') :
    Outcome h (x >>= f) throws post' := by
  have both := first.bind second
  rwa [Bool.or_false] at both

theorem Outcome.fails (first : Outcome h x throws post)
    (second : ∀ a h', h.Grows h' → post a → Throws h' (f a)) : Throws h (x >>= f) := by
  cases throws with
  | true => exact Throws.bind first
  | false =>
      obtain ⟨a, h', done, grows, holds⟩ := first
      obtain ⟨h'', failed⟩ := second a h' grows holds
      exact ⟨h'', (bind_eq_of_ok done).trans failed⟩

/-! ## Reading objects -/

theorem fetch_eq {id : ObjectId} {o : Obj N C} (found : h.read ⟨id.addr⟩ = some o) :
    Js.fetch id h = (.ok o, h) := by
  rw [Js.fetch, Objects.at, found, Option.getD_some]

theorem ownProperties_eq {id : ObjectId} {proto : Option ObjectId} {properties : Properties N}
    {callable : Option (Callable C)}
    (found : h.read ⟨id.addr⟩ = some (.ordinary proto properties callable)) :
    ownProperties id h = (.ok properties, h) := by
  rw [ownProperties, ownPropertiesAt, Objects.at, found, Option.getD_some]

theorem ownProperties_proxy_eq {id target : ObjectId} {handler : Handler C}
    {isCallable isConstructor : Bool} {proto : Option ObjectId} {properties : Properties N}
    {callable : Option (Callable C)}
    (found : h.read ⟨id.addr⟩ = some (.proxy target handler isCallable isConstructor))
    (behind : h.read ⟨target.addr⟩ = some (.ordinary proto properties callable)) :
    ownProperties id h = (.ok properties, h) := by
  obtain ⟨depth, some_⟩ := Nat.exists_eq_add_one.mpr
    (Nat.zero_lt_of_lt (Heap.valid_of_read found))
  rw [ownProperties, some_, ownPropertiesAt, Objects.at, found, Option.getD_some]
  simp only [ownPropertiesAt, Objects.at, behind, Option.getD_some]

theorem makeConstructor_spec (engine : Engine N C) (mode : Mode) (proto : Option ObjectId)
    (callable : Callable C) (name : String) (protoParent : Option ObjectId)
    (writablePrototype : Bool) (h : Objects N C) :
    ∃ id h' properties,
      engine.makeConstructor mode proto callable name protoParent writablePrototype h =
          (.ok id, h') ∧
        h.Grows h' ∧ h'.read ⟨id.addr⟩ = some (.ordinary proto properties (some callable)) := by
  refine ⟨_, _, engine.functionProperties name ++ Engine.sloppyProperties mode ++
    [(.string "prototype", ⟨.object ⟨h.cells.length + 1⟩, writablePrototype, false, false⟩)], rfl,
    List.prefix_append .., ?_⟩
  rw [Heap.read, List.getElem?_append_right (Nat.le_refl _), Nat.sub_self]
  rfl

/-- A property that can be changed or redefined contradicts no trap. -/
theorem checkGet_eq [DecidableEq N] {properties : Properties N} {key : PropertyKey} {v : Value N}
    (harmless : ∀ p, properties.lookup key = some p → p.configurable = true ∨ p.writable = true) :
    Engine.checkGet properties key v h = (.ok v, h) := by
  unfold Engine.checkGet
  cases found : properties.lookup key with
  | none => rfl
  | some p =>
      have allowed : ¬ (p.configurable = false ∧ p.writable = false ∧ p.value ≠ v) := by
        rintro ⟨notConfigurable, notWritable, -⟩
        rcases harmless p found with configurable | writable
        · exact Bool.noConfusion (notConfigurable.symm.trans configurable)
        · exact Bool.noConfusion (notWritable.symm.trans writable)
      simp only [if_neg allowed]
      rfl

/-- Another value of a property that can be neither changed nor redefined does. -/
theorem checkGet_throws [DecidableEq N] {properties : Properties N} {key : PropertyKey}
    {fixed v : Value N} {enumerable : Bool}
    (found : properties.lookup key = some ⟨fixed, false, enumerable, false⟩) (other : fixed ≠ v) :
    Throws h (Engine.checkGet properties key v) := by
  refine ⟨h, ?_⟩
  simp only [Engine.checkGet, found, ne_eq, other, not_false_eq_true, and_self, if_true]
  rfl

/-! ## Conversions of primitive values -/

theorem primitiveToString_outcome {p : Primitive N} (engine : Engine N C)
    (noSymbol : p.isSymbol = false) :
    Outcome h (engine.primitiveToString p) false fun _ => True := by
  cases p with
  | symbol s => cases noSymbol
  | undefined | null | boolean | number | string => exact .pure trivial

theorem primitiveToNumber_outcome {p : Primitive N} (engine : Engine N C)
    (noSymbol : p.isSymbol = false) :
    Outcome h (engine.primitiveToNumber p) false fun _ => True := by
  cases p with
  | symbol s => cases noSymbol
  | undefined | null | boolean | number | string => exact .pure trivial

theorem plus_outcome {left right : Primitive N} (engine : Engine N C)
    (noSymbol : left.isSymbol = false) (noSymbol' : right.isSymbol = false) :
    Outcome h (engine.plus left right) false
      fun v => ∃ p : Primitive N, v = .primitive p ∧ p.isSymbol = false := by
  unfold Engine.plus
  split
  · exact (primitiveToString_outcome engine noSymbol').andThen fun _ _ _ _ => .pure ⟨_, rfl, rfl⟩
  · exact (primitiveToString_outcome engine noSymbol).andThen fun _ _ _ _ => .pure ⟨_, rfl, rfl⟩
  · exact (primitiveToNumber_outcome engine noSymbol).andThen fun _ _ _ _ =>
      (primitiveToNumber_outcome engine noSymbol').andThen fun _ _ _ _ => .pure ⟨_, rfl, rfl⟩

end

end NestifyClaw.JavaScript
