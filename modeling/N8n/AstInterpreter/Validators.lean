import N8n.AstInterpreter.Syntax

/-!
# What the interpreter allows

The tables and checks of `ast-interpreter/validators.ts`.

* `AstInterpreter.validateNodeType`, `validateIdentifier`: node types and globals that are refused;
* `AstInterpreter.validateCallExpression`, `validateMemberExpression`: names that are refused;
* `AstInterpreter.isAllowedSDKFunction`, `isAllowedMethod`: the lists of allowed names.
-/

namespace N8n

namespace AstInterpreter

/-- Functions that can be called at the top level. -/
def ALLOWED_SDK_FUNCTIONS : List String :=
  ["workflow", "node", "trigger", "sticky", "placeholder", "newCredential", "ifElse", "switchCase",
    "merge", "splitInBatches", "nextBatch", "languageModel", "memory", "tool", "outputParser",
    "embedding", "embeddings", "vectorStore", "retriever", "documentLoader", "textSplitter",
    "reranker", "fromAi"]

/-- Names of functions that a variable may take and that are then changed. -/
def AUTO_RENAMEABLE_SDK_FUNCTIONS : List String :=
  ["languageModel", "memory", "tool", "outputParser", "embedding", "embeddings", "vectorStore",
    "retriever", "documentLoader", "textSplitter", "reranker"]

def isAutoRenameableSDKFunction (name : String) : Bool := name ∈ AUTO_RENAMEABLE_SDK_FUNCTIONS

/-- Methods that can be called on objects of the SDK. -/
def ALLOWED_METHODS : List String :=
  ["add", "to", "input", "output", "onError", "onTrue", "onFalse", "onCase", "onEachBatch",
    "onDone", "connect", "toJSON", "validate"]

def DANGEROUS_GLOBALS : List String :=
  ["eval", "Function", "require", "import", "process", "global", "globalThis", "window", "document",
    "setTimeout", "setInterval", "setImmediate", "clearTimeout", "clearInterval", "clearImmediate",
    "__dirname", "__filename", "module", "exports", "Buffer", "Reflect", "Proxy", "Object", "Array",
    "String", "Number", "Boolean", "Symbol", "BigInt", "JSON", "Math", "Date", "RegExp", "Promise",
    "WeakRef", "WeakMap", "WeakSet", "Map", "Set", "ArrayBuffer", "SharedArrayBuffer", "DataView",
    "Atomics", "WebAssembly", "fetch", "XMLHttpRequest", "queueMicrotask", "structuredClone",
    "Error", "TypeError", "RangeError", "console"]

def ALLOWED_NODE_TYPES : List String :=
  ["Program", "VariableDeclaration", "VariableDeclarator", "ExpressionStatement",
    "ExportDefaultDeclaration", "CallExpression", "MemberExpression", "ObjectExpression",
    "ArrayExpression", "Identifier", "Literal", "TemplateLiteral", "TemplateElement",
    "SpreadElement", "Property", "AssignmentExpression", "UnaryExpression", "BinaryExpression",
    "LogicalExpression", "ConditionalExpression"]

/-- Node types that are refused with a text of their own. -/
def FORBIDDEN_NODE_TYPES : List (String × String) :=
  [("ArrowFunctionExpression",
      "Arrow functions are not allowed. Use fromAi() directly instead of ($) => $.fromAi()"),
    ("FunctionExpression", "Function expressions are not allowed in SDK code"),
    ("FunctionDeclaration", "Function declarations are not allowed in SDK code"),
    ("ClassDeclaration", "Class declarations are not allowed in SDK code"),
    ("ClassExpression", "Class expressions are not allowed in SDK code"),
    ("ForStatement", "For loops are not allowed in SDK code"),
    ("ForInStatement", "For-in loops are not allowed in SDK code"),
    ("ForOfStatement", "For-of loops are not allowed in SDK code"),
    ("WhileStatement", "While loops are not allowed in SDK code"),
    ("DoWhileStatement", "Do-while loops are not allowed in SDK code"),
    ("TryStatement", "Try-catch is not allowed in SDK code"),
    ("ThrowStatement", "Throw statements are not allowed in SDK code"),
    ("WithStatement", "With statements are not allowed in SDK code"),
    ("UpdateExpression", "Update expressions (++, --) are not allowed in SDK code"),
    ("NewExpression", "new expressions are not allowed. Use SDK factory functions instead."),
    ("ImportDeclaration", "Import declarations are not allowed in SDK code"),
    ("ImportExpression", "Dynamic imports are not allowed in SDK code"),
    ("ExportNamedDeclaration", "Named exports are not allowed. Use export default only."),
    ("ExportAllDeclaration", "Re-exports are not allowed in SDK code"),
    ("AwaitExpression", "Await expressions are not allowed in SDK code"),
    ("YieldExpression", "Yield expressions are not allowed in SDK code")]

def validateNodeType (type : String) : Except Thrown Unit :=
  match FORBIDDEN_NODE_TYPES.lookup type with
  | some text => .error (.unsupportedNode (type ++ ": " ++ text))
  | none => if type ∈ ALLOWED_NODE_TYPES then .ok () else .error (.unsupportedNode type)

def validateIdentifier (name : String) : Except Thrown Unit :=
  if name ∈ DANGEROUS_GLOBALS then .error (.security ("Access to '" ++ name ++ "' is not allowed"))
  else .ok ()

def validateCallExpression (callee : Expr) : Except Thrown Unit :=
  match callee with
  | .identifier name =>
    if name = "eval" then .error (.security "eval()")
    else if name = "Function" then .error (.security "Function()")
    else if name = "require" then .error (.security "require()")
    else .ok ()
  | .memberExpression _ (.identifier "constructor") _ => .error (.security "constructor access")
  | _ => .ok ()

/-- The names that no member may have. -/
def Dangerous (propName : String) : Prop :=
  propName = "__proto__" ∨ propName = "prototype" ∨ propName = "constructor"

instance (propName : String) : Decidable (Dangerous propName) :=
  inferInstanceAs (Decidable (_ ∨ _))

/-- The name of a member, where the check finds one. -/
def memberName? : Expr → Option String
  | .identifier name => some name
  | .literal (.string s) => some s
  | _ => none

def isLiteral : Expr → Bool
  | .literal _ => true
  | _ => false

def validateMemberExpression (property : Expr) (computed : Bool) : Except Thrown Unit :=
  if computed && !isLiteral property then
    .error (.security "Dynamic property access is not allowed. Use static property names.")
  else
    match memberName? property with
    | none => .ok ()
    | some propName =>
      if Dangerous propName then
        .error (.security ("Access to '" ++ propName ++ "' is not allowed"))
      else .ok ()

def isAllowedSDKFunction (name : String) : Bool := name ∈ ALLOWED_SDK_FUNCTIONS

def isAllowedMethod (name : String) : Bool := name ∈ ALLOWED_METHODS

/-- A member that passes the check has no dangerous name. -/
theorem not_dangerous_of_validate {property : Expr} {computed : Bool}
    (h : validateMemberExpression property computed = .ok ()) {name : String}
    (hname : memberName? property = some name) : ¬ Dangerous name := by
  unfold validateMemberExpression at h
  rw [hname] at h
  intro hdangerous
  split_ifs at h
  dsimp only at h
  rw [if_pos hdangerous] at h
  cases h

end AstInterpreter

end N8n
