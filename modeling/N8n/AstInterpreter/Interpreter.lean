import N8n.AstInterpreter.Engine
import N8n.Lib.Fresh

/-!
# The interpreter of SDK programs

The class `SDKInterpreter` of `ast-interpreter/interpreter.ts`.  The methods that evaluate are given
the evaluation of the expressions inside; `evaluate` ties them together and counts the nesting down.

* `AstInterpreter.visitCallExpression`, `visitMemberExpression` and so on: one for each node type;
* `AstInterpreter.evaluate`: an expression, nested no deeper than a limit;
* `AstInterpreter.interpret`, `interpretSDKCode`: a program, and its text.
-/

namespace N8n

namespace AstInterpreter

/-! ### Expressions as texts -/

/-- Whether a template holds a variable of a running workflow. -/
def isN8nRuntimeVariable : Expr → Bool
  | .identifier name => name.startsWith "$"
  | .memberExpression object _ _ => isN8nRuntimeVariable object
  | .callExpression (.identifier name) _ => name.startsWith "$"
  | .callExpression (.memberExpression object _ _) _ => isN8nRuntimeVariable object
  | _ => false

section Text

variable {H : Type} (interpreter : Interpreter H)

/-- The text after the dot of a member. -/
def dotName : Expr → String
  | .identifier name => name
  | _ => ""

mutual

/-- The text of an expression that a template keeps. -/
def expressionToString : Expr → Except Thrown String
  | .identifier name => pure name
  | .memberExpression object (.literal v) true => do
    let obj ← expressionToString object
    let key ← interpreter.engine.literalJSON v
    pure (obj ++ "[" ++ key ++ "]")
  | .memberExpression object property true => do
    let obj ← expressionToString object
    let key ← expressionToString property
    pure (obj ++ "[" ++ key ++ "]")
  | .memberExpression object property false => do
    let obj ← expressionToString object
    pure (obj ++ "." ++ dotName property)
  | .callExpression callee arguments => do
    let callee ← expressionToString callee
    let args ← argumentTexts arguments
    pure (callee ++ "(" ++ ", ".intercalate args ++ ")")
  | .literal (.string s) => interpreter.engine.literalJSON (.string s)
  | .literal v => pure (interpreter.engine.literalText v)
  | .binaryExpression operator left right => do
    let l ← expressionToString left
    let r ← expressionToString right
    pure (l ++ " " ++ operator.text ++ " " ++ r)
  | .logicalExpression operator left right => do
    let l ← expressionToString left
    let r ← expressionToString right
    pure (l ++ " " ++ operator.text ++ " " ++ r)
  | .conditionalExpression test consequent alternate => do
    let t ← expressionToString test
    let c ← expressionToString consequent
    let a ← expressionToString alternate
    pure (t ++ " ? " ++ c ++ " : " ++ a)
  | .unaryExpression operator argument => do
    let arg ← expressionToString argument
    pure (operator.text ++ arg)
  | e => pure (interpreter.sourceText e)

/-- The texts of the arguments of a call. -/
def argumentTexts : List Expr → Except Thrown (List String)
  | [] => pure []
  | .spreadElement argument :: arguments => do
    let text ← expressionToString argument
    let texts ← argumentTexts arguments
    pure (("..." ++ text) :: texts)
  | argument :: arguments => do
    let text ← expressionToString argument
    let texts ← argumentTexts arguments
    pure (text :: texts)

end

end Text

section Evaluation

variable {H : Type} (interpreter : Interpreter H) (eval : Expr → Eval H Value)

/-! ### Calls -/

/-- What a table of safe methods has under a name: its own method, or what is found above it. -/
inductive SafeMethod
  | own
  | above (v : Value)

/-- `table[methodName]`, for a table with one method, where this is no falsy value. -/
def safeMethod? (table : Ref) (own methodName : String) : Eval H (Option SafeMethod) :=
  if methodName = own then pure (some .own)
  else do
    Stateful.change (State.addRead (.member (.name methodName)))
    let v ← perform interpreter (interpreter.engine.getProperty (.object table) (.name methodName))
    pure (if v.truthy then some (.above v) else none)

/-- `getSafeJSONMethod`. -/
def getSafeJSONMethod (objectName methodName : String) : Eval H (Option SafeMethod) :=
  if objectName ≠ "JSON" then pure none
  else safeMethod? interpreter interpreter.safeJSONMethods "stringify" methodName

/-- `getSafeStringMethod`. -/
def getSafeStringMethod (value : Value) (methodName : String) :
    Eval H (Option (String × SafeMethod)) :=
  match value with
  | .primitive (.string s) => do
    let safe ← safeMethod? interpreter interpreter.safeStringMethods "repeat" methodName
    pure (safe.map fun m => (s, m))
  | _ => pure none

/-- What was found above a table is called like its own method. -/
def callAbove (methodName : String) (v : Value) (args : List Value) : Eval H Value :=
  match v with
  | .function f => call interpreter (.inherited methodName f) f .undefined args
  | _ => Stateful.fail .typeError

def callSafeJSON (safe : SafeMethod) (methodName : String) (args : List Value) : Eval H Value :=
  match safe with
  | .own => do
    Stateful.change (State.addInvocation .stringify)
    let p ← onHeap (interpreter.engine.stringify args)
    pure (.primitive p)
  | .above v => callAbove interpreter methodName v args

def callSafeString (s : String) (safe : SafeMethod) (methodName : String) (args : List Value) :
    Eval H Value :=
  match safe with
  | .own => do
    Stateful.change (State.addInvocation .repeatText)
    let text ← onHeap (interpreter.engine.repeatText s args)
    pure (.string text)
  | .above v => callAbove interpreter methodName v (.string s :: args)

/-- The end of a call: the arguments are evaluated and the function is applied. -/
def callFunction (i : Ref → Invocation) (func thisArg : Value) (arguments : List Expr) :
    Eval H Value :=
  match func with
  | .function f => do
    let args ← Stateful.all eval arguments
    applyFunction interpreter (i f) f thisArg args
  | _ => Stateful.fail (.interpreter "Cannot call non-function")

/-- What a name in front of a call stands for: a function of the SDK, or a variable. -/
def calleeOf (name : String) : Eval H Value :=
  match interpreter.sdkFunctions.get? name with
  | some f => pure (.function f)
  | none => do
    let v? ← Stateful.reading fun s : State H => s.variableMap.get? (s.resolvedName name)
    match v? with
    | some v => pure v
    | none => Stateful.fail (.unknownIdentifier name)

/-- A call of `methodName` on an object that has been evaluated. -/
def callMethod (thisArg : Value) (methodName : String) (arguments : List Expr) : Eval H Value :=
  if !isAllowedMethod methodName then
    Stateful.fail (.security ("Method '" ++ methodName ++ "' is not an allowed SDK method"))
  else
    match thisArg with
    | .object r => do
      let fromSdk ← Stateful.reading fun s : State H => decide (r ∉ s.made)
      Stateful.change (State.addRead (.member (.name methodName)))
      let func ← perform interpreter (interpreter.engine.getProperty thisArg (.name methodName))
      callFunction interpreter eval (.method fromSdk methodName) func thisArg arguments
    | _ => Stateful.fail (.interpreter "Cannot call non-function")

/-- A call of a method on the value of an expression. -/
def visitMethodCall (object : Expr) (methodName : String) (arguments : List Expr) :
    Eval H Value := do
  let thisArg ← eval object
  let safe? ← getSafeStringMethod interpreter thisArg methodName
  match safe? with
  | some (s, safe) => do
    let args ← Stateful.all eval arguments
    callSafeString interpreter s safe methodName args
  | none => callMethod interpreter eval thisArg methodName arguments

/-- The name of an object that is a plain identifier. -/
def identifierName : Expr → String
  | .identifier name => name
  | _ => ""

def visitMemberCall (object property : Expr) (computed : Bool) (arguments : List Expr) :
    Eval H Value := do
  Stateful.lift (validateMemberExpression property computed)
  match object, memberName? property with
  | .super, _ => Stateful.fail (.unsupportedNode "super keyword is not supported in SDK code")
  | _, none => Stateful.fail (.unsupportedNode "Dynamic method name")
  | object, some methodName => do
    let safe? ← getSafeJSONMethod interpreter (identifierName object) methodName
    match safe? with
    | some safe => do
      let args ← Stateful.all eval arguments
      callSafeJSON interpreter safe methodName args
    | none => visitMethodCall interpreter eval object methodName arguments

def visitCallExpression (callee : Expr) (arguments : List Expr) : Eval H Value := do
  Stateful.lift (validateCallExpression callee)
  match callee with
  | .identifier name => do
    let func ← calleeOf interpreter name
    callFunction interpreter eval (.named name) func .undefined arguments
  | .memberExpression object property computed =>
    visitMemberCall interpreter eval object property computed arguments
  | _ => Stateful.fail (.unsupportedNode ("Callee type " ++ callee.type))

/-! ### Members -/

/-- The key of a member that is not computed at run time. -/
def propertyKey? (property : Expr) (computed : Bool) : Option PropertyKey :=
  match property with
  | .identifier name => if computed then none else some (.name name)
  | .literal (.string s) => some (.name s)
  | .literal v => some (.literal v)
  | _ => none

def nullishText : Value → String
  | .primitive .null => "null"
  | _ => "undefined"

def visitMemberExpression (object property : Expr) (computed : Bool) : Eval H Value := do
  Stateful.lift (validateMemberExpression property computed)
  match object with
  | .super => Stateful.fail (.unsupportedNode "super keyword is not supported in SDK code")
  | _ => do
    let obj ← eval object
    if obj.isNullish then
      Stateful.fail (.interpreter ("Cannot access property on " ++ nullishText obj))
    else
      match propertyKey? property computed with
      | none => Stateful.fail (.unsupportedNode "Dynamic property access")
      | some key => do
        Stateful.change (State.addRead (.member key))
        let v ← perform interpreter (interpreter.engine.getProperty obj key)
        receive v

def visitAssignmentExpression (operator : String) (left right : Expr) : Eval H Value :=
  if operator ≠ "=" then
    Stateful.fail (.unsupportedNode
      ("Assignment operator '" ++ operator ++ "' is not allowed. Only '=' is permitted."))
  else
    match left with
    | .memberExpression object property computed => do
      Stateful.lift (validateMemberExpression property computed)
      match object with
      | .super => Stateful.fail (.unsupportedNode "super keyword is not supported in SDK code")
      | _ => do
        let obj ← eval object
        if obj.isNullish then
          Stateful.fail (.interpreter ("Cannot assign property on " ++ nullishText obj))
        else
          match propertyKey? property computed with
          | none => Stateful.fail (.unsupportedNode "Dynamic property assignment")
          | some key => do
            let value ← eval right
            perform interpreter (interpreter.engine.setProperty obj key value)
            pure value
    | _ => Stateful.fail (.unsupportedNode ("Only property assignment (e.g., obj.prop = value) " ++
        "is allowed. Variable reassignment is not permitted."))

/-! ### Objects and arrays -/

/-- `Object.assign(result, source)`. -/
def objectAssign (result : Value) (source : Ref) : Eval H Unit := do
  let keys ← Stateful.reading fun s : State H => interpreter.engine.ownKeys source s.heap
  Stateful.each (fun key => do
    Stateful.change (State.addRead (.spread key))
    let v ← perform interpreter (interpreter.engine.getProperty (.object source) key)
    perform interpreter (interpreter.engine.setProperty result key v)) keys

/-- The key of an entry of an object literal. -/
def objectKey? : Expr → Option PropertyKey
  | .identifier name => some (.name name)
  | .literal (.string s) => some (.name s)
  | .literal (.number x) => some (.literal (.number x))
  | _ => none

def visitProperty (result : Value) : Property Expr → Eval H Unit
  | .spread argument => do
    let spreadValue ← eval argument
    match spreadValue with
    | .object source => objectAssign interpreter result source
    | _ => pure ()
  | .property key value =>
    match objectKey? key with
    | none => Stateful.fail (.unsupportedNode ("Object key type " ++ key.type))
    | some k => do
      let v ← eval value
      perform interpreter (interpreter.engine.setProperty result k v)

def visitObjectExpression (properties : List (Property Expr)) : Eval H Value := do
  let result ← makeObject interpreter.engine.newObject
  Stateful.each (visitProperty interpreter eval result) properties
  pure result

/-- The values that an element of an array literal stands for. -/
def visitElement : Option Expr → Eval H (List Value)
  | none => pure [.undefined]
  | some (.spreadElement argument) => do
    let spreadValue ← eval argument
    match spreadValue with
    | .object r => do
      let isArray ← Stateful.reading fun s : State H => interpreter.engine.isArray r s.heap
      if isArray then perform interpreter (interpreter.engine.items r) else pure []
    | _ => pure []
  | some e => do
    let v ← eval e
    pure [v]

def visitArrayExpression (elements : List (Option Expr)) : Eval H Value := do
  let parts ← Stateful.all (visitElement interpreter eval) elements
  makeObject (interpreter.engine.newArray parts.flatten)

/-! ### Names and texts -/

/-- Names of values that no variable is needed for. -/
def builtin? (name : String) : Option Value :=
  match name with
  | "undefined" => some .undefined
  | "null" => some (.primitive .null)
  | "true" => some (.primitive (.bool true))
  | "false" => some (.primitive (.bool false))
  | "NaN" => some (.primitive (.number .nan))
  | "Infinity" => some (.primitive (.number (.infinity false)))
  | _ => none

def visitIdentifier (name : String) : Eval H Value := do
  Stateful.lift (validateIdentifier name)
  let v? ← Stateful.reading fun s : State H => s.variableMap.get? (s.resolvedName name)
  match v? with
  | some v => pure v
  | none =>
    match interpreter.sdkFunctions.get? name with
    | some f => pure (.function f)
    | none =>
      match builtin? name with
      | some v => pure v
      | none => Stateful.fail (.unknownIdentifier name)

def evaluateTemplateExpression (e : Expr) : Eval H String :=
  if isN8nRuntimeVariable e then do
    let text ← Stateful.lift (expressionToString interpreter e)
    pure ("$\x7b" ++ text ++ "\x7d")
  else do
    let v ← eval e
    perform interpreter (interpreter.engine.toText v)

def visitQuasis : List (Option String × String) → List Expr → Eval H String
  | [], _ => pure ""
  | quasi :: quasis, [] => do
    let text ← visitQuasis quasis []
    pure (quasi.1.getD quasi.2 ++ text)
  | quasi :: quasis, e :: expressions => do
    let value ← evaluateTemplateExpression interpreter eval e
    let text ← visitQuasis quasis expressions
    pure (quasi.1.getD quasi.2 ++ value ++ text)

def visitTemplateLiteral (quasis : List (Option String × String)) (expressions : List Expr) :
    Eval H Value := do
  let text ← visitQuasis interpreter eval quasis expressions
  pure (.string text)

/-! ### Operators -/

def visitUnaryExpression (operator : UnaryOperator) (argument : Expr) : Eval H Value := do
  let arg ← eval argument
  match operator with
  | .minus | .plus => do
    let p ← perform interpreter (interpreter.engine.unary operator arg)
    pure (.primitive p)
  | .not => pure (.primitive (.bool !arg.truthy))
  | .typeof => pure (.string arg.typeof)
  | .void => pure .undefined
  | .other text => Stateful.fail (.unsupportedNode ("Unary operator " ++ text))

def isText : Value → Bool
  | .primitive (.string _) => true
  | _ => false

def visitBinaryExpression (operator : BinaryOperator) (left right : Expr) : Eval H Value := do
  let l ← eval left
  let r ← eval right
  match operator with
  | .add =>
    if isText l || isText r then do
      let leftText ← perform interpreter (interpreter.engine.toText l)
      let rightText ← perform interpreter (interpreter.engine.toText r)
      pure (.string (leftText ++ rightText))
    else do
      let p ← perform interpreter (interpreter.engine.binary .add l r)
      pure (.primitive p)
  | .strictEq => pure (.primitive (.bool (l.strictEquals r)))
  | .strictNe => pure (.primitive (.bool !l.strictEquals r))
  | .other text => Stateful.fail (.unsupportedNode ("Binary operator " ++ text))
  | operator => do
    let p ← perform interpreter (interpreter.engine.binary operator l r)
    pure (.primitive p)

def visitLogicalExpression (operator : LogicalOperator) (left right : Expr) : Eval H Value := do
  let l ← eval left
  match operator with
  | .and => if l.truthy then eval right else pure l
  | .or => if l.truthy then pure l else eval right
  | .nullish => if l.isNullish then eval right else pure l

def visitConditionalExpression (test consequent alternate : Expr) : Eval H Value := do
  let t ← eval test
  if t.truthy then eval consequent else eval alternate

/-! ### Expressions and programs -/

/-- The value of a literal; the object of a regular expression was made by the program. -/
def visitLiteral (v : LiteralValue) : Eval H Value := do
  Stateful.change (State.addMade v.value)
  pure v.value

def evaluateNode (node : Expr) : Eval H Value := do
  Stateful.lift (validateNodeType node.type)
  match node with
  | .callExpression callee arguments => visitCallExpression interpreter eval callee arguments
  | .memberExpression object property computed =>
    visitMemberExpression interpreter eval object property computed
  | .objectExpression properties => visitObjectExpression interpreter eval properties
  | .arrayExpression elements => visitArrayExpression interpreter eval elements
  | .identifier name => visitIdentifier interpreter name
  | .literal v => visitLiteral v
  | .templateLiteral quasis expressions => visitTemplateLiteral interpreter eval quasis expressions
  | .spreadElement argument => eval argument
  | .unaryExpression operator argument => visitUnaryExpression interpreter eval operator argument
  | .binaryExpression operator left right =>
    visitBinaryExpression interpreter eval operator left right
  | .logicalExpression operator left right => visitLogicalExpression eval operator left right
  | .conditionalExpression test consequent alternate =>
    visitConditionalExpression eval test consequent alternate
  | .assignmentExpression operator left right =>
    visitAssignmentExpression interpreter eval operator left right
  | node => Stateful.fail (.unsupportedNode node.type)

end Evaluation

def MAX_EVAL_DEPTH : ℕ := 500

section Programs

variable {H : Type} (interpreter : Interpreter H)

/-- An expression, with the nesting that is left. -/
def evaluateWithin : ℕ → Expr → Eval H Value
  | 0, _ => Stateful.fail
    (.interpreter "Expression nesting too deep (possible cycle in method chain)")
  | depth + 1, node => evaluateNode interpreter (evaluateWithin depth) node

def evaluate (node : Expr) : Eval H Value := evaluateWithin interpreter MAX_EVAL_DEPTH node

/-- The name with `my` in front and its first letter a capital. -/
def myName (name : String) : String := "my" ++ name.capitalize

def generateSafeName (name : String) : Eval H String :=
  Stateful.reading fun s : State H =>
    firstFree (numberedName (myName name)) (s.variableMap.keys ++ interpreter.sdkFunctions.keys)

/-- The initial value of a variable. -/
def initialValue (init : Option Expr) : Eval H Value :=
  match init with
  | some e => evaluate interpreter e
  | none => pure .undefined

def visitDeclarator (declarator : Declarator) : Eval H Unit :=
  match declarator.name with
  | none => Stateful.fail (.unsupportedNode "Destructuring in variable declaration")
  | some name =>
    if isAllowedSDKFunction name then
      if isAutoRenameableSDKFunction name then do
        let safeName ← generateSafeName interpreter name
        let value ← initialValue interpreter declarator.init
        Stateful.change (State.setRenamed name safeName)
        Stateful.change (State.setVariable safeName value)
      else
        Stateful.fail (.security ("'" ++ name ++ "' is a reserved SDK function name and cannot " ++
          "be used as a variable name. Use a different name like '" ++ myName name ++ "'."))
    else do
      let value ← initialValue interpreter declarator.init
      Stateful.change (State.setVariable name value)

def visitVariableDeclaration (kind : String) (declarations : List Declarator) : Eval H Unit :=
  if kind ≠ "const" then
    Stateful.fail (.security
      ("'" ++ kind ++ "' declarations are not allowed. Use 'const' only."))
  else Stateful.each (visitDeclarator interpreter) declarations

/-- The statements, with the value of the last expression so far. -/
def interpretFrom : Value → Program → Eval H Value
  | result, [] => pure result
  | result, stmt :: body => do
    Stateful.lift (validateNodeType stmt.type)
    match stmt with
    | .variableDeclaration kind declarations => do
      visitVariableDeclaration interpreter kind declarations
      interpretFrom result body
    | .expressionStatement expression => do
      let v ← evaluate interpreter expression
      interpretFrom v body
    | .exportDefaultDeclaration declaration => evaluate interpreter declaration
    | stmt => Stateful.fail (.unsupportedNode stmt.type)

def interpret (ast : Program) : Eval H Value := interpretFrom interpreter .undefined ast

/-- `interpretSDKCode`, started with a heap; the parser gives a tree or the message of an error. -/
def interpretSDKCode (parse : String → Except String Program) (code : String) (heap : H) :
    Except Thrown Value × State H :=
  match parse code with
  | .error message => (.error (.interpreter ("Syntax error: " ++ message)), { heap := heap })
  | .ok ast => interpret interpreter ast { heap := heap }

end Programs

end AstInterpreter

end N8n
