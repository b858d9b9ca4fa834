import NestifyClaw.Adapter.Stub

/-!
# Uses of a stub

Expressions that are built from a stub by the operations that code loaded with the adapter applies
to it.  An expression's scope and shape say which variables it may use and what is known of its
value, so that only what has to be a stub again is used as one.  `eval_outcome` says how an
expression ends: it throws exactly when something in it asks the stub for an iterator or, where the
stub's module is sloppy code, reads one of the two fixed properties of the function behind it.
-/

namespace NestifyClaw.Adapter

open NestifyClaw.JavaScript

/-! ## Syntax -/

/-- What is known of a value: that it is the stub, that it is a primitive value, or nothing. -/
inductive Shape
  | stub
  | primitive
  | other
  deriving DecidableEq

/-- The shapes of the variables, the last one bound first. -/
abbrev Scope := List Shape

inductive Variable : Scope → Shape → Type
  | here {scope : Scope} {s : Shape} : Variable (s :: scope) s
  | there {scope : Scope} {s s' : Shape} (x : Variable scope s) : Variable (s' :: scope) s

/-- A name that the handler's `get` does not treat in its own way. -/
def PropertyName : Type :=
  { name : String // name ≠ "then" ∧ name ≠ "__nestifyStub" ∧ name ≠ "name" }

/-- It is the name of a property that is null for good. -/
def PropertyName.isFixed (mode : Mode) (name : PropertyName) : Bool := fixedName mode name.1

inductive Literal (N : Type)
  | undefined
  | null
  | boolean (b : Bool)
  | number (n : N)
  | string (text : String)

mutual

/-- A pattern, from the scope before it to the scope behind it. -/
inductive Pattern (N : Type) : Scope → Scope → Type
  | identifier {scope : Scope} : Pattern N scope (.stub :: scope)
  /-- `p = initializer` -/
  | withDefault {scope scope' : Scope} {s : Shape} (p : Pattern N scope scope')
      (initializer : Expr N scope s) : Pattern N scope scope'
  | object {scope scope' : Scope} (properties : PropertyPatterns N scope scope') :
      Pattern N scope scope'
  | objectRest {scope scope' : Scope} (properties : PropertyPatterns N scope scope') :
      Pattern N scope (.other :: scope')
  | array {scope scope' : Scope} (elements : ElementPatterns N scope scope') :
      Pattern N scope scope'
  | arrayRest {scope scope' : Scope} (elements : ElementPatterns N scope scope') :
      Pattern N scope (.other :: scope')

inductive PropertyPatterns (N : Type) : Scope → Scope → Type
  | nil {scope : Scope} : PropertyPatterns N scope scope
  | cons {scope inner scope' : Scope} (name : PropertyName) (p : Pattern N scope inner)
      (properties : PropertyPatterns N inner scope') : PropertyPatterns N scope scope'

inductive ElementPatterns (N : Type) : Scope → Scope → Type
  | nil {scope : Scope} : ElementPatterns N scope scope
  | cons {scope inner scope' : Scope} (p : Pattern N scope inner)
      (elements : ElementPatterns N inner scope') : ElementPatterns N scope scope'

inductive Expr (N : Type) : Scope → Shape → Type
  | identifier {scope : Scope} {s : Shape} (x : Variable scope s) : Expr N scope s
  | literal {scope : Scope} (l : Literal N) : Expr N scope .primitive
  /-- `e.name` and `e["name"]` -/
  | member {scope : Scope} (e : Expr N scope .stub) (name : PropertyName) : Expr N scope .stub
  | call {scope : Scope} (e : Expr N scope .stub) (args : Arguments N scope) : Expr N scope .stub
  /-- `e.name(args)` -/
  | methodCall {scope : Scope} (e : Expr N scope .stub) (name : PropertyName)
      (args : Arguments N scope) : Expr N scope .stub
  | new {scope : Scope} (e : Expr N scope .stub) (args : Arguments N scope) : Expr N scope .stub
  | await {scope : Scope} (e : Expr N scope .stub) : Expr N scope .stub
  /-- `new (class extends e {})(args)` -/
  | instantiate {scope : Scope} (e : Expr N scope .stub) (args : Arguments N scope) :
      Expr N scope .stub
  /-- `const p = e;` before `body` -/
  | destructure {scope inner : Scope} {s : Shape} (p : Pattern N scope inner)
      (e : Expr N scope .stub) (body : Expr N inner s) : Expr N scope s
  | template {scope : Scope} (parts : TemplateParts N scope) : Expr N scope .primitive
  | unary {scope : Scope} {s : Shape} (op : UnaryOp) (e : Expr N scope s) (operand : s ≠ .other) :
      Expr N scope .primitive
  | binary {scope : Scope} {s s' : Shape} (op : BinaryOp) (left : Expr N scope s)
      (right : Expr N scope s') (operand : s ≠ .other) (operand' : s' ≠ .other) :
      Expr N scope .primitive
  /-- `{ ...e }` -/
  | objectSpread {scope : Scope} (e : Expr N scope .stub) : Expr N scope .other
  /-- `[elements]` -/
  | array {scope : Scope} (elements : Arguments N scope) : Expr N scope .other
  /-- `for (const x of e) body` -/
  | forOf {scope : Scope} {s : Shape} (e : Expr N scope .stub)
      (body : Expr N (.other :: scope) s) : Expr N scope .primitive

/-- Arguments of a call, or elements of an array: `e` or `...e`. -/
inductive Arguments (N : Type) : Scope → Type
  | nil {scope : Scope} : Arguments N scope
  | plain {scope : Scope} {s : Shape} (e : Expr N scope s) (args : Arguments N scope) :
      Arguments N scope
  | spread {scope : Scope} (e : Expr N scope .stub) (args : Arguments N scope) :
      Arguments N scope

/-- The text of a template up to its end, or up to an expression in it. -/
inductive TemplateParts (N : Type) : Scope → Type
  | tail {scope : Scope} (text : String) : TemplateParts N scope
  | part {scope : Scope} {s : Shape} (text : String) (e : Expr N scope s) (operand : s ≠ .other)
      (parts : TemplateParts N scope) : TemplateParts N scope

end

/-! ## Evaluation -/

def Literal.value {N : Type} : Literal N → Primitive N
  | .undefined => .undefined
  | .null => .null
  | .boolean b => .boolean b
  | .number n => .number n
  | .string text => .string text

inductive Env (N : Type) : Scope → Type
  | nil : Env N []
  | cons {scope : Scope} {s : Shape} (v : Value N) (env : Env N scope) : Env N (s :: scope)

def Env.get {N : Type} : {scope : Scope} → {s : Shape} → Env N scope → Variable scope s → Value N
  | _, _, .cons v _, .here => v
  | _, _, .cons _ env, .there x => env.get x

def PropertyPatterns.keys {N : Type} : {scope scope' : Scope} → PropertyPatterns N scope scope' →
    List PropertyKey
  | _, _, .nil => []
  | _, _, .cons name _ properties => .string name.1 :: properties.keys

def ElementPatterns.length {N : Type} : {scope scope' : Scope} → ElementPatterns N scope scope' →
    Nat
  | _, _, .nil => 0
  | _, _, .cons _ elements => elements.length + 1

section

variable {N C : Type} [DecidableEq N] (engine : Engine N C)

def requireObjectCoercible : Value N → Js N C Unit
  | .primitive .undefined | .primitive .null => .throw .TypeError
  | _ => return ()

mutual

def bindPattern : {scope scope' : Scope} → Pattern N scope scope' → Value N → Env N scope →
    Js N C (Env N scope')
  | _, _, .identifier, v, env => return .cons v env
  | _, _, .withDefault p initializer, v, env => do
      let value ← if v = .undefined then eval initializer env else pure v
      bindPattern p value env
  | _, _, .object properties, v, env => do
      requireObjectCoercible v
      bindProperties properties v env
  | _, _, .objectRest properties, v, env => do
      requireObjectCoercible v
      let env ← bindProperties properties v env
      let rest ← engine.copyDataProperties v properties.keys
      return .cons rest env
  | _, _, .array elements, v, env => do
      let values ← engine.iterate v (some elements.length)
      bindElements elements values env
  | _, _, .arrayRest elements, v, env => do
      let values ← engine.iterate v none
      let env ← bindElements elements values env
      return .cons (.object (← engine.createArray (values.drop elements.length))) env

def bindProperties : {scope scope' : Scope} → PropertyPatterns N scope scope' → Value N →
    Env N scope → Js N C (Env N scope')
  | _, _, .nil, _, env => return env
  | _, _, .cons name p properties, v, env => do
      let value ← engine.getV v (.string name.1)
      let env ← bindPattern p value env
      bindProperties properties v env

def bindElements : {scope scope' : Scope} → ElementPatterns N scope scope' → List (Value N) →
    Env N scope → Js N C (Env N scope')
  | _, _, .nil, _, env => return env
  | _, _, .cons p elements, values, env => do
      let env ← bindPattern p (values.headD .undefined) env
      bindElements elements values.tail env

def eval : {scope : Scope} → {s : Shape} → Expr N scope s → Env N scope → Js N C (Value N)
  | _, _, .identifier x, env => return env.get x
  | _, _, .literal l, _ => return .primitive l.value
  | _, _, .member e name, env => do
      let v ← eval e env
      engine.getV v (.string name.1)
  | _, _, .call e args, env => do
      let func ← eval e env
      let args ← evalArguments args env
      engine.callValue func .undefined args
  | _, _, .methodCall e name args, env => do
      let this ← eval e env
      let func ← engine.getV this (.string name.1)
      let args ← evalArguments args env
      engine.callValue func this args
  | _, _, .new e args, env => do
      let constructor ← eval e env
      let args ← evalArguments args env
      engine.newValue constructor args
  | _, _, .await e, env => do
      let v ← eval e env
      engine.await v
  | _, _, .instantiate e args, env => do
      let superclass ← eval e env
      let id ← engine.classExtends superclass
      let args ← evalArguments args env
      engine.newValue (.object id) args
  | _, _, .destructure p e body, env => do
      let v ← eval e env
      let inner ← bindPattern p v env
      eval body inner
  | _, _, .template parts, env => do
      let text ← evalParts parts env
      return .string text
  | _, _, .unary op e _, env => do
      let v ← eval e env
      engine.unary op v
  | _, _, .binary op left right _ _, env => do
      let left ← eval left env
      let right ← eval right env
      engine.binary op left right
  | _, _, .objectSpread e, env => do
      let v ← eval e env
      engine.copyDataProperties v []
  | _, _, .array elements, env => do
      let values ← evalArguments elements env
      return .object (← engine.createArray values)
  | _, _, .forOf e body, env => do
      let v ← eval e env
      let (iterator, next) ← engine.getIterator v
      engine.loop iterator next fun x => do
        let _ ← eval body (.cons x env)
        return ()
      return .undefined

def evalArguments : {scope : Scope} → Arguments N scope → Env N scope → Js N C (List (Value N))
  | _, .nil, _ => return []
  | _, .plain e args, env => do
      let v ← eval e env
      let values ← evalArguments args env
      return v :: values
  | _, .spread e args, env => do
      let v ← eval e env
      let spread ← engine.iterate v none
      let values ← evalArguments args env
      return spread ++ values

def evalParts : {scope : Scope} → TemplateParts N scope → Env N scope → Js N C String
  | _, .tail text, _ => return text
  | _, .part text e _ parts, env => do
      let v ← eval e env
      let inserted ← engine.toText v
      let rest ← evalParts parts env
      return text ++ inserted ++ rest

end

end

/-! ## What throws -/

mutual

def Pattern.throws {N : Type} (mode : Mode) : {scope scope' : Scope} → Pattern N scope scope' → Bool
  | _, _, .identifier => false
  -- no property of a stub is undefined
  | _, _, .withDefault p _ => p.throws mode
  | _, _, .object properties => properties.throws mode
  | _, _, .objectRest properties => properties.throws mode
  | _, _, .array _ => true
  | _, _, .arrayRest _ => true

def PropertyPatterns.throws {N : Type} (mode : Mode) : {scope scope' : Scope} →
    PropertyPatterns N scope scope' → Bool
  | _, _, .nil => false
  | _, _, .cons name p properties =>
      name.isFixed mode || (p.throws mode || properties.throws mode)

end

mutual

/-- An array pattern, a spread into arguments or an array, a loop, or one of the fixed names occurs
in what is evaluated of the expression. -/
def Expr.throws {N : Type} (mode : Mode) : {scope : Scope} → {s : Shape} → Expr N scope s → Bool
  | _, _, .identifier _ => false
  | _, _, .literal _ => false
  | _, _, .member e name => e.throws mode || name.isFixed mode
  | _, _, .call e args => e.throws mode || args.throws mode
  | _, _, .methodCall e name args => e.throws mode || (name.isFixed mode || args.throws mode)
  | _, _, .new e args => e.throws mode || args.throws mode
  | _, _, .await e => e.throws mode
  | _, _, .instantiate e args => e.throws mode || args.throws mode
  | _, _, .destructure p e body => e.throws mode || (p.throws mode || body.throws mode)
  | _, _, .template parts => parts.throws mode
  | _, _, .unary _ e _ => e.throws mode
  | _, _, .binary _ left right _ _ => left.throws mode || right.throws mode
  | _, _, .objectSpread e => e.throws mode
  | _, _, .array elements => elements.throws mode
  | _, _, .forOf _ _ => true

def Arguments.throws {N : Type} (mode : Mode) : {scope : Scope} → Arguments N scope → Bool
  | _, .nil => false
  | _, .plain e args => e.throws mode || args.throws mode
  | _, .spread _ _ => true

def TemplateParts.throws {N : Type} (mode : Mode) : {scope : Scope} → TemplateParts N scope → Bool
  | _, .tail _ => false
  | _, .part _ e _ parts => e.throws mode || parts.throws mode

end

/-! ## How an expression ends -/

/-- A value has a shape, for this stub. -/
def HasShape {N : Type} (stub : ObjectId) : Shape → Value N → Prop
  | .stub, v => v = .object stub
  | .primitive, v => ∃ p : Primitive N, v = .primitive p ∧ p.isSymbol = false
  | .other, _ => True

def Env.Fits {N : Type} (stub : ObjectId) : {scope : Scope} → Env N scope → Prop
  | _, .nil => True
  | s :: _, .cons v env => HasShape stub s v ∧ env.Fits stub

section

variable {N D : Type} [DecidableEq N] {engine : Engine N (Code D)} {mode : Mode} {label : String}
  {stub : ObjectId} {h : Objects N (Code D)} {scope scope' : Scope} {s s' : Shape}
  {v v' : Value N}

omit [DecidableEq N] in
theorem Env.Fits.get : ∀ {scope : Scope} {env : Env N scope}, env.Fits stub →
    ∀ x : Variable scope s, HasShape stub s (env.get x)
  | _, .cons _ _, fits, .here => fits.1
  | _, .cons _ _, fits, .there x => Env.Fits.get fits.2 x

omit [DecidableEq N] in
theorem noSymbol_literal (l : Literal N) : l.value.isSymbol = false := by
  cases l <;> rfl

/-! Operands of an operator and expressions in a template. -/

theorem toPrimitive_outcome (isStub : IsStub mode label stub h) (operand : s ≠ .other)
    (fits : HasShape stub s v) (hint : Hint) :
    Outcome h ((withStubs engine).toPrimitive hint v) false (·.isSymbol = false) := by
  cases s with
  | stub =>
      cases fits
      exact (isStub.toPrimitive hint).imp fun p isUndefined => isUndefined ▸ rfl
  | primitive =>
      obtain ⟨p, rfl, noSymbol⟩ := fits
      exact .pure noSymbol
  | other => exact absurd rfl operand

theorem toNumber_outcome (isStub : IsStub mode label stub h) (operand : s ≠ .other)
    (fits : HasShape stub s v) : Outcome h ((withStubs engine).toNumber v) false fun _ => True :=
  (toPrimitive_outcome isStub operand fits .number).andThen fun _ _ _ noSymbol =>
    primitiveToNumber_outcome _ noSymbol

theorem toText_outcome (isStub : IsStub mode label stub h) (operand : s ≠ .other)
    (fits : HasShape stub s v) : Outcome h ((withStubs engine).toText v) false fun _ => True :=
  (toPrimitive_outcome isStub operand fits .string).andThen fun _ _ _ noSymbol =>
    primitiveToString_outcome _ noSymbol

theorem unary_outcome (op : UnaryOp) (isStub : IsStub mode label stub h) (operand : s ≠ .other)
    (fits : HasShape stub s v) :
    Outcome h ((withStubs engine).unary op v) false (HasShape stub .primitive) :=
  (toNumber_outcome isStub operand fits).andThen fun _ _ _ _ => .pure ⟨_, rfl, rfl⟩

theorem binary_outcome (op : BinaryOp) (isStub : IsStub mode label stub h) (operand : s ≠ .other)
    (operand' : s' ≠ .other) (fits : HasShape stub s v) (fits' : HasShape stub s' v') :
    Outcome h ((withStubs engine).binary op v v') false (HasShape stub .primitive) := by
  unfold Engine.binary
  split
  · refine (toPrimitive_outcome isStub operand fits .default).andThen fun p h' grows noSymbol => ?_
    exact (toPrimitive_outcome (isStub.grows grows) operand' fits' .default).andThen
      fun p' h'' _ noSymbol' => plus_outcome _ noSymbol noSymbol'
  · refine (toNumber_outcome isStub operand fits).andThen fun n h' grows _ => ?_
    exact (toNumber_outcome (isStub.grows grows) operand' fits').andThen
      fun _ _ _ _ => .pure ⟨_, rfl, rfl⟩

theorem throws_iterate (isStub : IsStub mode label stub h) (limit : Option Nat) :
    Throws h ((withStubs engine).iterate (.object stub) limit) :=
  isStub.getIterator.bind

theorem getV_outcome (isStub : IsStub mode label stub h) (name : PropertyName) :
    Outcome h ((withStubs engine).getV (.object stub) (.string name.1)) (name.isFixed mode)
      (HasShape stub .stub) := by
  obtain ⟨name, notThen, notMark, notName⟩ := name
  unfold PropertyName.isFixed
  cases fixed : fixedName mode name with
  | true => exact isStub.get_fixedName notThen notMark notName fixed
  | false => exact .of_eq (isStub.get_name notThen notMark notName fixed) (.refl h) rfl

/-! Patterns. -/

mutual

theorem bindPattern_outcome : ∀ {scope scope' : Scope} (p : Pattern N scope scope')
    {env : Env N scope} {h : Objects N (Code D)}, IsStub mode label stub h → env.Fits stub →
    Outcome h (bindPattern (withStubs engine) p (.object stub) env) (p.throws mode) (Env.Fits stub)
  | _, _, .identifier, _, _, _, fits => .pure ⟨rfl, fits⟩
  | _, _, .withDefault p _, _, _, isStub, fits =>
      .after rfl (.refl _) (bindPattern_outcome p isStub fits)
  | _, _, .object properties, _, _, isStub, fits =>
      .after rfl (.refl _) (bindProperties_outcome properties isStub fits)
  | _, _, .objectRest properties, _, _, isStub, fits => by
      refine .after rfl (.refl _) ?_
      refine (bindProperties_outcome properties isStub fits).last fun env' h' grows fits' => ?_
      exact ((isStub.grows grows).copyDataProperties _).andThen
        fun _ _ _ _ => .pure ⟨trivial, fits'⟩
  | _, _, .array elements, _, _, isStub, _ =>
      (throws_iterate isStub (some elements.length)).bind
  | _, _, .arrayRest _, _, _, isStub, _ => (throws_iterate isStub none).bind

theorem bindProperties_outcome : ∀ {scope scope' : Scope}
    (properties : PropertyPatterns N scope scope') {env : Env N scope} {h : Objects N (Code D)},
    IsStub mode label stub h → env.Fits stub →
    Outcome h (bindProperties (withStubs engine) properties (.object stub) env)
      (properties.throws mode) (Env.Fits stub)
  | _, _, .nil, _, _, _, fits => .pure fits
  | _, _, .cons name p properties, _, _, isStub, fits => by
      refine (getV_outcome isStub name).bind fun value h' grows isSame => ?_
      cases isSame
      refine (bindPattern_outcome p (isStub.grows grows) fits).bind fun env' h'' grows' fits' => ?_
      exact bindProperties_outcome properties ((isStub.grows grows).grows grows') fits'

end

/-! Expressions. -/

mutual

/-- An expression throws when it asks for an iterator or reads a fixed property, and else it ends
with a value of its shape. -/
theorem eval_outcome : ∀ {scope : Scope} {s : Shape} (e : Expr N scope s) {env : Env N scope}
    {h : Objects N (Code D)}, IsStub mode label stub h → env.Fits stub →
    Outcome h (eval (withStubs engine) e env) (e.throws mode) (HasShape stub s)
  | _, _, .identifier x, _, _, _, fits => .pure (fits.get x)
  | _, _, .literal l, _, _, _, _ => .pure ⟨l.value, rfl, noSymbol_literal l⟩
  | _, _, .member e name, _, _, isStub, fits => by
      refine (eval_outcome e isStub fits).bind fun v h' grows isSame => ?_
      cases isSame
      exact getV_outcome (isStub.grows grows) name
  | _, _, .call e args, _, _, isStub, fits => by
      refine (eval_outcome e isStub fits).bind fun v h' grows isSame => ?_
      cases isSame
      have isStub' := isStub.grows grows
      refine (evalArguments_outcome args isStub' fits).last fun values h'' grows' _ => ?_
      exact (isStub'.grows grows').callValue
  | _, _, .methodCall e name args, _, _, isStub, fits => by
      refine (eval_outcome e isStub fits).bind fun v h' grows isSame => ?_
      cases isSame
      have isStub' := isStub.grows grows
      refine (getV_outcome isStub' name).bind fun func h'' grows' isSame => ?_
      cases isSame
      have isStub'' := isStub'.grows grows'
      refine (evalArguments_outcome args isStub'' fits).last fun values h₃ grows'' _ => ?_
      exact (isStub''.grows grows'').callValue
  | _, _, .new e args, _, _, isStub, fits => by
      refine (eval_outcome e isStub fits).bind fun v h' grows isSame => ?_
      cases isSame
      have isStub' := isStub.grows grows
      refine (evalArguments_outcome args isStub' fits).last fun values h'' grows' _ => ?_
      exact (isStub'.grows grows').newValue
  | _, _, .await e, _, _, isStub, fits => by
      refine (eval_outcome e isStub fits).last fun v h' grows isSame => ?_
      cases isSame
      exact (isStub.grows grows).await
  | _, _, .instantiate e args, _, _, isStub, fits => by
      refine (eval_outcome e isStub fits).bind fun v h' grows isSame => ?_
      cases isSame
      have isStub' := isStub.grows grows
      obtain ⟨id, h'', made, grows', isClass⟩ := isStub'.classExtends engine
      refine .after made grows' ?_
      have isStub'' := isStub'.grows grows'
      refine (evalArguments_outcome args isStub'' fits).last fun values h₃ grows'' _ => ?_
      exact (isStub''.grows grows'').newClass (isClass.grows grows'')
  | _, _, .destructure p e body, _, _, isStub, fits => by
      refine (eval_outcome e isStub fits).bind fun v h' grows isSame => ?_
      cases isSame
      have isStub' := isStub.grows grows
      refine (bindPattern_outcome p isStub' fits).bind fun inner h'' grows' fits' => ?_
      exact eval_outcome body (isStub'.grows grows') fits'
  | _, _, .template parts, _, _, isStub, fits =>
      (evalParts_outcome parts isStub fits).last fun _ _ _ _ => .pure ⟨_, rfl, rfl⟩
  | _, _, .unary op e operand, _, _, isStub, fits =>
      (eval_outcome e isStub fits).last fun _ _ grows shape =>
        unary_outcome op (isStub.grows grows) operand shape
  | _, _, .binary op left right operand operand', _, _, isStub, fits => by
      refine (eval_outcome left isStub fits).bind fun v h' grows shape => ?_
      have isStub' := isStub.grows grows
      refine (eval_outcome right isStub' fits).last fun v' h'' grows' shape' => ?_
      exact binary_outcome op (isStub'.grows grows') operand operand' shape shape'
  | _, _, .objectSpread e, _, _, isStub, fits => by
      refine (eval_outcome e isStub fits).last fun v h' grows isSame => ?_
      cases isSame
      exact ((isStub.grows grows).copyDataProperties []).imp fun _ _ => trivial
  | _, _, .array elements, _, _, isStub, fits =>
      (evalArguments_outcome elements isStub fits).last fun _ _ _ _ =>
        .after rfl (Heap.grows_alloc _ _) (.pure trivial)
  | _, _, .forOf e body, _, _, isStub, fits => by
      refine (eval_outcome e isStub fits).fails fun v h' grows isSame => ?_
      cases isSame
      exact (isStub.grows grows).getIterator.bind

theorem evalArguments_outcome : ∀ {scope : Scope} (args : Arguments N scope) {env : Env N scope}
    {h : Objects N (Code D)}, IsStub mode label stub h → env.Fits stub →
    Outcome h (evalArguments (withStubs engine) args env) (args.throws mode) fun _ => True
  | _, .nil, _, _, _, _ => .pure trivial
  | _, .plain e args, _, _, isStub, fits =>
      (eval_outcome e isStub fits).bind fun _ _ grows _ =>
        (evalArguments_outcome args (isStub.grows grows) fits).last fun _ _ _ _ => .pure trivial
  | _, .spread e args, _, _, isStub, fits => by
      refine (eval_outcome e isStub fits).fails fun v h' grows isSame => ?_
      cases isSame
      exact (throws_iterate (isStub.grows grows) none).bind

theorem evalParts_outcome : ∀ {scope : Scope} (parts : TemplateParts N scope) {env : Env N scope}
    {h : Objects N (Code D)}, IsStub mode label stub h → env.Fits stub →
    Outcome h (evalParts (withStubs engine) parts env) (parts.throws mode) fun _ => True
  | _, .tail _, _, _, _, _ => .pure trivial
  | _, .part _ e operand parts, _, _, isStub, fits =>
      (eval_outcome e isStub fits).bind fun _ _ grows shape =>
        (toText_outcome (isStub.grows grows) operand shape).andThen fun _ _ grows' _ =>
          (evalParts_outcome parts ((isStub.grows grows).grows grows') fits).last
            fun _ _ _ _ => .pure trivial

end

omit [DecidableEq N] in
theorem not_throws_of_ok {C : Type} {h h' : Objects N C} {x : Js N C (Value N)}
    (done : x h = (.ok v, h')) : ¬ Throws h x := by
  rintro ⟨h'', failed⟩
  rw [done] at failed
  cases failed

end

/-! ## Every expression on a stub -/

section

variable {N D : Type} [DecidableEq N]

/-- No expression on the stub throws, and what is formed as a stub is the stub. -/
def Tolerant (engine : Engine N (Code D)) (stub : Value N) (h : Objects N (Code D)) : Prop :=
  ∀ (s : Shape) (e : Expr N [.stub] s), ∃ v h',
    eval (withStubs engine) e (.cons stub .nil) h = (.ok v, h') ∧ (s = .stub → v = stub)

/-- `makeStub` returns, and as long as its objects are kept an expression on the stub throws
exactly when it asks for an iterator or, in sloppy code, reads a property named `arguments` or
`caller`; else it returns, and what is formed as a stub is the stub. -/
theorem makeStub_throws_iff (engine : Engine N (Code D)) (mode : Mode) (label : String)
    (h₀ : Objects N (Code D)) :
    ∃ stub h₁, makeStub engine mode label h₀ = (.ok stub, h₁) ∧
      ∀ h, Kept h₀ h₁ h → ∀ (s : Shape) (e : Expr N [.stub] s),
        (Throws h (eval (withStubs engine) e (.cons stub .nil)) ↔ e.throws mode = true) ∧
          (e.throws mode = false → ∃ v h',
            eval (withStubs engine) e (.cons stub .nil) h = (.ok v, h') ∧
              (s = .stub → v = stub)) := by
  obtain ⟨stub, h₁, made, isStub⟩ := makeStub_spec engine mode label h₀
  refine ⟨.object stub, h₁, made, fun h kept s e => ?_⟩
  have outcome : Outcome h (eval (withStubs engine) e (.cons (.object stub) .nil)) (e.throws mode)
      (HasShape stub s) := eval_outcome e (isStub h kept) ⟨rfl, trivial⟩
  cases throws : e.throws mode with
  | true =>
      rw [throws] at outcome
      exact ⟨iff_of_true outcome rfl, nofun⟩
  | false =>
      rw [throws] at outcome
      obtain ⟨v, h', done, -, shape⟩ := outcome
      refine ⟨iff_of_false (not_throws_of_ok done) nofun, fun _ => ⟨v, h', done, ?_⟩⟩
      rintro rfl
      exact shape

end

/-! ## A bare engine -/

/-- Integers and NaN. -/
def integers : Numbers (Option Int) where
  nan := none
  ofNat n := some n
  ofString text := text.toInt?
  toString
    | some n => toString n
    | none => "NaN"
  unary
    | .plus, n => n
    | .minus, n => n.map fun n => -n
    | .bitwiseNot, n => some (-(n.getD 0) - 1)
  binary
    | .add, some m, some n => some (m + n)
    | .subtract, some m, some n => some (m - n)
    | .multiply, some m, some n => some (m * n)
    | _, _, _ => none

def bareEngine : Engine (Option Int) (Code Empty) where
  objectPrototype := ⟨0⟩
  functionPrototype := ⟨1⟩
  arrayPrototype := ⟨2⟩
  numbers := integers
  body _ _ _ := return .undefined
  primitiveGet _ _ := return .undefined
  primitiveEntries _ := []
  settle _ _ := return .undefined
  consume _ _ _ := return []
  loop _ _ _ := return ()

/-- The intrinsic objects. -/
def intrinsics : Objects (Option Int) (Code Empty) :=
  ⟨[.ordinary none [] none, .ordinary (some ⟨0⟩) [] none, .ordinary (some ⟨0⟩) [] none]⟩

/-- `x` -/
def theStub : Expr (Option Int) [.stub] .stub := .identifier .here

/-- `new (class extends (await x.runtime.load(x.version + 1, {...x})) {})(x)` -/
def loading : Expr (Option Int) [.stub] .stub :=
  .instantiate (.await (.methodCall (.member theStub ⟨"runtime", by decide⟩) ⟨"load", by decide⟩
    (.plain (.binary .add (.member theStub ⟨"version", by decide⟩) (.literal (.number (some 1)))
      (by decide) (by decide)) (.plain (.objectSpread theStub) .nil)))) (.plain theStub .nil)

/-- Loading through the stub leads back to it. -/
theorem makeStub_throws_iff_loading :
    ∃ stub h₁, makeStub bareEngine .sloppy "openclaw/x#a" intrinsics = (.ok stub, h₁) ∧
      ∃ h', eval (withStubs bareEngine) loading (.cons stub .nil) h₁ = (.ok stub, h') := by
  obtain ⟨stub, h₁, made, all⟩ := makeStub_throws_iff bareEngine .sloppy "openclaw/x#a" intrinsics
  obtain ⟨v, h', done, same⟩ := (all h₁ (fun _ _ _ => rfl) .stub loading).2 rfl
  exact ⟨stub, h₁, made, h', same rfl ▸ done⟩

/-- `[...x]` throws. -/
theorem not_tolerant :
    ∃ stub h₁, makeStub bareEngine .sloppy "openclaw/x#a" intrinsics = (.ok stub, h₁) ∧
      ¬ Tolerant bareEngine stub h₁ := by
  refine ⟨_, _, rfl, fun tolerant => ?_⟩
  obtain ⟨v, h', done, -⟩ := tolerant .other (.array (.spread theStub .nil))
  cases done

end NestifyClaw.Adapter
