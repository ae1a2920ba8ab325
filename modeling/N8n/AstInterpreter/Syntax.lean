import N8n.Data.JsNumber

/-!
# Programs of the workflow SDK

The syntax trees that `ast-interpreter/interpreter.ts` walks, and the values that it works with.

* `AstInterpreter.Expr`, `Statement`, `Program`: trees as the parser builds them;
* `AstInterpreter.Value`: the values of the script language;
* `AstInterpreter.Thrown`: what an evaluation throws.
-/

namespace N8n

namespace AstInterpreter

/-- Tells objects and functions apart from one another. -/
abbrev Ref := ℕ

inductive Primitive
  | undefined
  | null
  | bool (b : Bool)
  | number (x : JsNumber)
  | bigint (n : ℤ)
  | symbol (id : ℕ)
  | string (s : String)
  deriving DecidableEq

inductive Value
  | primitive (p : Primitive)
  | object (r : Ref)
  | function (f : Ref)
  deriving DecidableEq

namespace Value

abbrev undefined : Value := primitive .undefined

abbrev string (s : String) : Value := primitive (.string s)

def isNullish : Value → Bool
  | primitive .undefined | primitive .null => true
  | _ => false

/-- Whether a condition on the value holds. -/
def truthy : Value → Bool
  | primitive .undefined | primitive .null => false
  | primitive (.bool b) => b
  | primitive (.number x) => x ≠ .finite 0 ∧ x ≠ .nan
  | primitive (.bigint n) => n ≠ 0
  | primitive (.string s) => s ≠ ""
  | _ => true

/-- `typeof`. -/
def typeof : Value → String
  | primitive .undefined => "undefined"
  | primitive .null => "object"
  | primitive (.bool _) => "boolean"
  | primitive (.number _) => "number"
  | primitive (.bigint _) => "bigint"
  | primitive (.symbol _) => "symbol"
  | primitive (.string _) => "string"
  | object _ => "object"
  | function _ => "function"

/-- `===`. -/
def strictEquals (v w : Value) : Bool :=
  v = w ∧ v ≠ primitive (.number .nan)

end Value

/-- The value of a literal; a regular expression is an object that the parser made. -/
inductive LiteralValue
  | string (s : String)
  | number (x : JsNumber)
  | bool (b : Bool)
  | null
  | bigint (n : ℤ)
  | regex (r : Ref) (text : String)
  deriving DecidableEq

def LiteralValue.value : LiteralValue → Value
  | .string s => .string s
  | .number x => .primitive (.number x)
  | .bool b => .primitive (.bool b)
  | .null => .primitive .null
  | .bigint n => .primitive (.bigint n)
  | .regex r _ => .object r

inductive UnaryOperator
  | minus
  | plus
  | not
  | typeof
  | void
  | other (text : String)

def UnaryOperator.text : UnaryOperator → String
  | .minus => "-"
  | .plus => "+"
  | .not => "!"
  | .typeof => "typeof"
  | .void => "void"
  | .other text => text

/-- The operators on two values that the interpreter leaves to the script language. -/
inductive BinaryOperator
  | add
  | sub
  | mul
  | div
  | mod
  | pow
  | looseEq
  | looseNe
  | strictEq
  | strictNe
  | lt
  | le
  | gt
  | ge
  | other (text : String)

def BinaryOperator.text : BinaryOperator → String
  | .add => "+"
  | .sub => "-"
  | .mul => "*"
  | .div => "/"
  | .mod => "%"
  | .pow => "**"
  | .looseEq => "=="
  | .looseNe => "!="
  | .strictEq => "==="
  | .strictNe => "!=="
  | .lt => "<"
  | .le => "<="
  | .gt => ">"
  | .ge => ">="
  | .other text => text

inductive LogicalOperator
  | and
  | or
  | nullish

def LogicalOperator.text : LogicalOperator → String
  | .and => "&&"
  | .or => "||"
  | .nullish => "??"

/-- An entry of an object literal. -/
inductive Property (ε : Type)
  | spread (argument : ε)
  | property (key value : ε)

/-- An expression.  Of an expression that no interpreter method is for, the type is kept. -/
inductive Expr
  | callExpression (callee : Expr) (arguments : List Expr)
  | memberExpression (object property : Expr) (computed : Bool)
  | objectExpression (properties : List (Property Expr))
  | arrayExpression (elements : List (Option Expr))
  | identifier (name : String)
  | literal (value : LiteralValue)
  | templateLiteral (quasis : List (Option String × String)) (expressions : List Expr)
  | spreadElement (argument : Expr)
  | unaryExpression (operator : UnaryOperator) (argument : Expr)
  | binaryExpression (operator : BinaryOperator) (left right : Expr)
  | logicalExpression (operator : LogicalOperator) (left right : Expr)
  | conditionalExpression (test consequent alternate : Expr)
  | assignmentExpression (operator : String) (left right : Expr)
  | super
  | other (type : String)

/-- `node.type`. -/
def Expr.type : Expr → String
  | callExpression _ _ => "CallExpression"
  | memberExpression _ _ _ => "MemberExpression"
  | objectExpression _ => "ObjectExpression"
  | arrayExpression _ => "ArrayExpression"
  | identifier _ => "Identifier"
  | literal _ => "Literal"
  | templateLiteral _ _ => "TemplateLiteral"
  | spreadElement _ => "SpreadElement"
  | unaryExpression _ _ => "UnaryExpression"
  | binaryExpression _ _ _ => "BinaryExpression"
  | logicalExpression _ _ _ => "LogicalExpression"
  | conditionalExpression _ _ _ => "ConditionalExpression"
  | assignmentExpression _ _ _ => "AssignmentExpression"
  | super => "Super"
  | other type => type

/-- A declared name, or a pattern, and its initial value. -/
structure Declarator where
  name : Option String
  init : Option Expr

inductive Statement
  | variableDeclaration (kind : String) (declarations : List Declarator)
  | expressionStatement (expression : Expr)
  | exportDefaultDeclaration (declaration : Expr)
  | other (type : String)

def Statement.type : Statement → String
  | variableDeclaration _ _ => "VariableDeclaration"
  | expressionStatement _ => "ExpressionStatement"
  | exportDefaultDeclaration _ => "ExportDefaultDeclaration"
  | other type => type

abbrev Program := List Statement

/-- What is thrown: the errors of the interpreter, with their own texts, those of the script
language, and values. -/
inductive Thrown
  | interpreter (message : String)
  | unsupportedNode (nodeType : String)
  | unknownIdentifier (identifier : String)
  | security (pattern : String)
  | typeError
  | value (v : Value)
  deriving DecidableEq

end AstInterpreter

end N8n
