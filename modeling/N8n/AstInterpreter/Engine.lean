import N8n.AstInterpreter.Validators
import N8n.Lib.Stateful

/-!
# The script engine below the interpreter

What the interpreter does not do itself the script language does for it: objects and their members,
operators, conversions, the functions that are called.  All of this is one parameter, `Engine`.  An
operation of the engine can have functions run (a getter, a setter, a conversion method of an
operand) before it is done; the interpreter is told of each of them.

* `AstInterpreter.Script`, `Engine`: the operations;
* `AstInterpreter.Invocation`: the calls of functions, by where in the interpreter they are made;
* `AstInterpreter.State`: the state of an evaluation, with what has been called and read so far;
* `AstInterpreter.call`, `perform`, `applyFunction`: a function called, an operation of the engine,
  `func.apply(thisArg, args)`.
-/

namespace N8n

namespace AstInterpreter

inductive PropertyKey
  | name (s : String)
  | literal (v : LiteralValue)
  | symbol (id : ℕ)
  deriving DecidableEq

/-- An operation of the engine: it is done, or has a function run and goes on with its result. -/
inductive Script (H α : Type)
  | done (result : Except Thrown α) (heap : H)
  | invoke (f : Ref) (thisArg : Value) (args : List Value) (heap : H)
      (next : Value → H → Script H α)

/-- The script language, over heaps of objects `H`. -/
structure Engine (H : Type) where
  getProperty : Value → PropertyKey → H → Script H Value
  setProperty : Value → PropertyKey → Value → H → Script H Unit
  /-- The keys of the own enumerable properties. -/
  ownKeys : Ref → H → List PropertyKey
  isArray : Ref → H → Bool
  /-- The values that a loop over an array goes through. -/
  items : Ref → H → Script H (List Value)
  newObject : H → Ref × H
  newArray : List Value → H → Ref × H
  /-- `String(value)`. -/
  toText : Value → H → Script H String
  /-- The unary operators that calculate. -/
  unary : UnaryOperator → Value → H → Script H Primitive
  /-- The binary operators that calculate or compare. -/
  binary : BinaryOperator → Value → Value → H → Script H Primitive
  /-- What a function does. -/
  apply : Ref → Value → List Value → H → Except Thrown Value × H
  /-- `JSON.stringify`. -/
  stringify : List Value → H → Except Thrown Primitive × H
  /-- `String.prototype.repeat`. -/
  repeatText : String → List Value → H → Except Thrown String × H
  /-- `Function.prototype.apply`. -/
  functionApply : Ref
  /-- `String(literal)`. -/
  literalText : LiteralValue → String
  /-- `JSON.stringify(literal)`, which throws on a `bigint`. -/
  literalJSON : LiteralValue → Except Thrown String

/-- A call that the interpreter makes. -/
inductive Invocation
  /-- `name(...)`, of the function that the name stands for. -/
  | named (name : String) (f : Ref)
  /-- `JSON.stringify(...)`. -/
  | stringify
  /-- `"...".repeat(...)`. -/
  | repeatText
  /-- A method on `JSON` or a text, found above the table of safe methods. -/
  | inherited (methodName : String) (f : Ref)
  /-- A method of an object, which comes from the SDK or was made by the program. -/
  | method (fromSdk : Bool) (methodName : String) (f : Ref)
  /-- What was put in the place of the `apply` of a function that is called. -/
  | substitute (f apply : Ref)
  /-- A function that an operation of the engine has run. -/
  | implicit (f : Ref)
  deriving DecidableEq

/-- A read of a property, by a member expression or where an object is spread. -/
inductive PropertyRead
  | member (key : PropertyKey)
  | spread (key : PropertyKey)
  deriving DecidableEq

/-- The state of an evaluation: the heap and the variables, and what has happened so far. -/
structure State (H : Type) where
  heap : H
  variableMap : Dict String Value := Dict.empty
  renamedVariables : Dict String String := Dict.empty
  /-- The calls made so far. -/
  invocations : List Invocation := []
  /-- The properties read so far. -/
  reads : List PropertyRead := []
  /-- The functions that a member access or a call gave so far. -/
  obtained : List Ref := []
  /-- The objects that literals of the program made. -/
  made : List Ref := []

namespace State

variable {H : Type}

def setHeap (heap : H) (s : State H) : State H := { s with heap := heap }

def addInvocation (i : Invocation) (s : State H) : State H :=
  { s with invocations := s.invocations ++ [i] }

def addRead (r : PropertyRead) (s : State H) : State H := { s with reads := s.reads ++ [r] }

def addObtained (v : Value) (s : State H) : State H :=
  match v with
  | .function f => { s with obtained := s.obtained ++ [f] }
  | _ => s

def addMade (v : Value) (s : State H) : State H :=
  match v with
  | .object r => { s with made := s.made ++ [r] }
  | _ => s

def setVariable (name : String) (v : Value) (s : State H) : State H :=
  { s with variableMap := s.variableMap.set name v }

def setRenamed (name safeName : String) (s : State H) : State H :=
  { s with renamedVariables := s.renamedVariables.set name safeName }

/-- The name that a variable is kept under. -/
def resolvedName (name : String) (s : State H) : String := (s.renamedVariables.get? name).getD name

end State

/-- An evaluation. -/
abbrev Eval (H : Type) := Stateful (State H) Thrown

/-- What an interpreter is given: the engine, the functions of the SDK, the tables of safe methods,
and the source text of an expression that is written on one line. -/
structure Interpreter (H : Type) where
  engine : Engine H
  sdkFunctions : Dict String Ref
  safeJSONMethods : Ref
  safeStringMethods : Ref
  sourceText : Expr → String

section Operations

variable {H : Type} (interpreter : Interpreter H)

/-- What the engine does in one go. -/
def onHeap {α : Type} (op : H → Except Thrown α × H) : Eval H α := fun s =>
  ((op s.heap).1, s.setHeap (op s.heap).2)

/-- A value that a member access or a call gives. -/
def receive (v : Value) : Eval H Value := do
  Stateful.change (State.addObtained v)
  pure v

/-- A function is called. -/
def call (i : Invocation) (f : Ref) (thisArg : Value) (args : List Value) : Eval H Value := do
  Stateful.change (State.addInvocation i)
  let v ← onHeap (interpreter.engine.apply f thisArg args)
  receive v

def runScript {α : Type} : Script H α → Eval H α
  | .done result heap => do
    Stateful.change (State.setHeap heap)
    Stateful.lift result
  | .invoke f thisArg args heap next => do
    Stateful.change (State.setHeap heap)
    let v ← call interpreter (.implicit f) f thisArg args
    let heap ← Stateful.reading State.heap
    runScript (next v heap)

/-- An operation of the engine. -/
def perform {α : Type} (op : H → Script H α) : Eval H α := do
  let heap ← Stateful.reading State.heap
  runScript interpreter (op heap)

def makeObject (new : H → Ref × H) : Eval H Value := do
  let r ← onHeap fun heap => (.ok (new heap).1, (new heap).2)
  Stateful.change (State.addMade (.object r))
  pure (.object r)

/-- `func.apply(thisArg, args)`; the `apply` of a function may have been replaced. -/
def applyFunction (i : Invocation) (f : Ref) (thisArg : Value) (args : List Value) :
    Eval H Value := do
  let method ← perform interpreter (interpreter.engine.getProperty (.function f) (.name "apply"))
  match method with
  | .function g =>
    if g = interpreter.engine.functionApply then call interpreter i f thisArg args
    else do
      let array ← onHeap fun heap =>
        (.ok (interpreter.engine.newArray args heap).1, (interpreter.engine.newArray args heap).2)
      call interpreter (.substitute f g) g (.function f) [thisArg, .object array]
  | _ => Stateful.fail .typeError

end Operations

end AstInterpreter

end N8n
