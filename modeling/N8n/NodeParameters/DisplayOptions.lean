import N8n.Data.Interfaces
import Mathlib.Data.List.Infix

/-!
# Display options

`displayParameter` (`packages/workflow/src/node-helpers.ts`) decides from the values of other
parameters whether a parameter is shown.

* `JsValue.truthy`, `JsValue.prop`, `JsValue.keys`: reading values of any kind;
* `DisplayCondition`, `DisplayOptions`: the rules of a parameter;
* `DisplayContext`: what the rules can ask about besides parameter values;
* `checkConditions`, `getPropertyValues`, `displayParameter`.

The path lookup of lodash, regular expressions and the order of values of different types are
arguments of the model.
-/

namespace N8n

/-! ### Values -/

namespace JsValue

/-- Whether a value counts as true. -/
def truthy : JsValue → Bool
  | .undefined | .null => false
  | .bool b => b
  | .num q => q ≠ 0
  | .str s => s ≠ ""
  | .arr _ | .obj _ => true

/-- `typeof value === 'object'`. -/
def isObject : JsValue → Bool
  | .null | .arr _ | .obj _ => true
  | _ => false

/-- `value[key]`, `undefined` for a value without properties. -/
def prop (value : JsValue) (key : String) : JsValue :=
  match value with
  | .obj props => JsObject.get props key
  | .arr xs => ((numeral? key).bind fun i => xs[i]?).getD .undefined
  | _ => .undefined

/-- `Object.keys(value || {})`; that numerals come first cannot be seen in what is made of them. -/
def keys : JsValue → List String
  | .obj props => props.map Prod.fst
  | .arr xs => (List.range xs.length).map toString
  | .str s => (List.range s.length).map toString
  | _ => []

end JsValue

/-- `isExpression`. -/
def isExpression : JsValue → Bool
  | .str s => s.toList.head? = some '='
  | _ => false

/-! ### Conditions -/

/-- A value that is to be there, or a comparison under the key `_cnd`. -/
inductive DisplayCondition
  | value (v : JsValue)
  | eq (target : JsValue)
  | not (target : JsValue)
  | gte (target : JsValue)
  | lte (target : JsValue)
  | gt (target : JsValue)
  | lt (target : JsValue)
  | between (lower upper : JsValue)
  | includes (target : String)
  | startsWith (target : String)
  | endsWith (target : String)
  | regex (target : String)
  | exists

/-- `IDisplayOptions`: the conditions of each rule, in the order in which its keys are enumerated. -/
structure DisplayOptions where
  showRules : Option (List (String × List DisplayCondition)) := none
  hideRules : Option (List (String × List DisplayCondition)) := none

/-- What `displayParameter` reads besides parameter values: the version of the node, the name and the
features of its type with their conditions on `@version`, lodash `get`, `new RegExp(target).test` and
how the operators `<` and `>` compare two values, if they do. -/
structure DisplayContext where
  typeVersion : Option ℚ
  nodeTypeName : Option String
  features : Option (List (String × List DisplayCondition))
  get : JsValue → String → JsValue
  test : String → JsValue → Except JsError Bool
  compare : JsValue → JsValue → Option Ordering

namespace DisplayContext

variable (ctx : DisplayContext)

/-- A comparison for one value; the methods of strings are missing on other values. -/
def checkCondition (propertyValue : JsValue) : DisplayCondition → Except JsError Bool
  | .value _ => .ok false
  | .eq target => .ok (isEqual propertyValue target)
  | .not target => .ok (!isEqual propertyValue target)
  | .gte target => .ok (ctx.compare propertyValue target ∈ [some .gt, some .eq])
  | .lte target => .ok (ctx.compare propertyValue target ∈ [some .lt, some .eq])
  | .gt target => .ok (ctx.compare propertyValue target = some .gt)
  | .lt target => .ok (ctx.compare propertyValue target = some .lt)
  | .between lower upper =>
    .ok (ctx.compare propertyValue lower ∈ [some .gt, some .eq] &&
      ctx.compare propertyValue upper ∈ [some .lt, some .eq])
  | .includes target =>
    match propertyValue with
    | .str s => .ok (target.toList <:+: s.toList)
    | .arr xs => .ok (JsValue.str target ∈ xs)
    | _ => .error .typeError
  | .startsWith target =>
    match propertyValue with
    | .str s => .ok (target.toList <+: s.toList)
    | _ => .error .typeError
  | .endsWith target =>
    match propertyValue with
    | .str s => .ok (target.toList <:+ s.toList)
    | _ => .error .typeError
  | .regex target => ctx.test target propertyValue
  | .exists => .ok (propertyValue ∉ [.null, .undefined, .str ""])

/-- `checkConditions`: whether some condition is met. -/
def checkConditions (conditions : List DisplayCondition) (actualValues : List JsValue) :
    Except JsError Bool :=
  conditions.anyM fun condition =>
    match condition with
    -- objects are looked up by identity, so a condition never finds one
    | .value v => .ok (decide (v ∈ actualValues) && (v = .null || !v.isObject))
    | .not _ => if actualValues = [] then .ok true
      else actualValues.allM fun propertyValue => ctx.checkCondition propertyValue condition
    | _ => if actualValues = [] then .ok false
      else actualValues.allM fun propertyValue => ctx.checkCondition propertyValue condition

/-- `node?.typeVersion`, unless it is missing or zero. -/
def nodeVersion : Option ℚ := ctx.typeVersion.filter fun q => q ≠ 0

/-- The names of the features that are enabled for a version. -/
def enabledFeatures (features : List (String × List DisplayCondition)) (version : ℚ) :
    Except JsError (List String) := do
  let enabled ← features.filterM fun feature => ctx.checkConditions feature.2 [.num version]
  return enabled.map Prod.fst

/-- A resource locator stands for its value. -/
def locatedValue (value : JsValue) : JsValue :=
  match value with
  | .obj props => if (JsObject.get props "__rl").truthy then JsObject.get props "value" else value
  | _ => value

/-- The elements of an array, or the value itself. -/
def valueList : JsValue → List JsValue
  | .arr xs => xs
  | v => [v]

/-- `getPropertyValues`: the values that a rule is about. -/
def getPropertyValues (nodeValues nodeValuesRoot : JsValue) (propertyName : String) :
    Except JsError (List JsValue) :=
  if propertyName.toList.head? = some '/' then
    .ok (valueList (locatedValue
      (ctx.get nodeValuesRoot (String.ofList (propertyName.toList.drop 1)))))
  else if propertyName = "@version" then .ok [.num (ctx.typeVersion.getD 0)]
  else if propertyName = "@tool" then
    .ok [.bool (ctx.nodeTypeName.any fun name => "Tool".toList <:+ name.toList)]
  else if propertyName = "@feature" then
    match ctx.features, ctx.nodeVersion with
    | some features, some version => (·.map .str) <$> ctx.enabledFeatures features version
    | _, _ => .ok []
  else .ok (valueList (locatedValue (ctx.get nodeValues propertyName)))

/-- The loop over the rules `show`: `some` when it decides. -/
def checkShow (nodeValues nodeValuesRoot : JsValue) :
    List (String × List DisplayCondition) → Except JsError (Option Bool)
  | [] => .ok none
  | (propertyName, conditions) :: rules => do
    let values ← ctx.getPropertyValues nodeValues nodeValuesRoot propertyName
    if values.any isExpression then return some true
    if ← ctx.checkConditions conditions values then checkShow nodeValues nodeValuesRoot rules
    else return some false

/-- The loop over the rules `hide`: whether none hides the parameter. -/
def checkHide (nodeValues nodeValuesRoot : JsValue) :
    List (String × List DisplayCondition) → Except JsError Bool
  | [] => .ok true
  | (propertyName, conditions) :: rules => do
    let values ← ctx.getPropertyValues nodeValues nodeValuesRoot propertyName
    if values = [] then checkHide nodeValues nodeValuesRoot rules
    else if ← ctx.checkConditions conditions values then return false
    else checkHide nodeValues nodeValuesRoot rules

/-- `displayParameter`, for the display options of a parameter. -/
def displayParameter (nodeValues : JsValue) (displayOptions : Option DisplayOptions)
    (nodeValuesRoot : JsValue) : Except JsError Bool :=
  match displayOptions with
  | none => .ok true
  | some options => do
    match ← ctx.checkShow nodeValues nodeValuesRoot (options.showRules.getD []) with
    | some displayed => return displayed
    | none => ctx.checkHide nodeValues nodeValuesRoot (options.hideRules.getD [])

end DisplayContext

end N8n
