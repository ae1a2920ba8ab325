import N8n.Data.JsNumber

/-!
# Filters

`filter-parameter.ts` runs the conditions of a filter, and checks them before they run.

* `FilterData`, `FilterEngine`: the values of conditions, and what the language and its libraries do
  with them;
* `validateFieldType`: the conversions to the types of the operators;
* `parseFilterConditionValues`: both values of a condition, or a `FilterError`;
* `executeFilterCondition`, `executeFilter`: the conditions, run;
* `validateFilterParameter`: the conditions, checked;
* `validateFilterParameter_agrees_iff`: when the two agree.
-/

namespace N8n

namespace Filters

/-! ### Values -/

/-- A value of a condition; `O` are the objects other than arrays, and the functions. -/
inductive FilterData (O : Type)
  | undefined
  | null
  | bool (b : Bool)
  | number (x : JsNumber)
  | text (s : String)
  | array (xs : List (FilterData O))
  | object (o : O)

/-- What the language and its libraries do; `none` is where they throw. -/
structure FilterEngine (O : Type) where
  isFunction : O → Bool
  /-- `String` of an array or object. -/
  objectText : FilterData O → Option String
  /-- `Number` of an object. -/
  objectNumber : O → Option JsNumber
  /-- `JSON.stringify` of an array or object. -/
  stringify : FilterData O → Option (FilterData O)
  /-- `JSON.parse`, and `jsonParse` with `acceptJSObject`. -/
  parseJson : String → Option (FilterData O)
  parseJsObject : String → Option (FilterData O)
  /-- The object is a valid `DateTime`. -/
  isDateTime : O → Bool
  /-- The valid `DateTime` that a `Date`, or a text in one of the formats, stands for. -/
  fromJSDate : O → Option O
  fromISO : String → Option O
  fromHTTP : String → Option O
  fromRFC2822 : String → Option O
  fromSQL : String → Option O
  /-- `DateTime.fromMillis(Date.parse(text))`. -/
  fromParsedMillis : String → Option O
  toMillis : O → Option JsNumber
  toLocaleLowerCase : String → String
  /-- `===`, `includes` of an array, `<` and `<=`. -/
  strictEquals : FilterData O → FilterData O → Bool
  sameValueZero : FilterData O → FilterData O → Bool
  less : FilterData O → FilterData O → Option Bool
  lessEq : FilterData O → FilterData O → Option Bool
  /-- `object.length` and `Object.keys(object).length`. -/
  length : O → FilterData O
  keysLength : O → ℕ
  /-- `new RegExp(source, flags).test(text)`. -/
  testRegExp : String → String → String → Option Bool

def isSpaceChar (c : Char) : Bool := c.toNat < 65536 && JsString.isSpace (UInt16.ofNat c.toNat)

/-- `text.trim()`. -/
def trimText (s : String) : String :=
  String.ofList ((s.toList.dropWhile isSpaceChar).reverse.dropWhile isSpaceChar).reverse

namespace FilterData

variable {O : Type}

def truthy : FilterData O → Bool
  | undefined | null => false
  | bool b => b
  | number x => x ≠ .nan ∧ x ≠ .finite 0
  | text s => s ≠ ""
  | array _ | object _ => true

def isNullish : FilterData O → Bool
  | undefined | null => true
  | _ => false

def isNaN : FilterData O → Bool
  | number .nan => true
  | _ => false

/-- An empty array, or a text of blanks only. -/
def isEmpty : FilterData O → Bool
  | text s => trimText s = ""
  | array [] => true
  | _ => false

/-- The value is a text that starts with the sign of an expression. -/
def isExpression : FilterData O → Bool
  | text s => s.toList.head? = some '='
  | _ => false

end FilterData

namespace FilterEngine

variable {O : Type} (engine : FilterEngine O)

/-- `typeof value`. -/
def typeOf : FilterData O → String
  | .undefined => "undefined"
  | .null | .array _ => "object"
  | .bool _ => "boolean"
  | .number _ => "number"
  | .text _ => "string"
  | .object o => if engine.isFunction o then "function" else "object"

/-- `String(value)`. -/
def toText : FilterData O → Option String
  | .undefined => some "undefined"
  | .null => some "null"
  | .bool b => some (if b then "true" else "false")
  | .number x => some (String.ofList (x.toText.map fun u => Char.ofNat u.toNat))
  | .text s => some s
  | v => engine.objectText v

/-- `Number(value)`. -/
def toNumber : FilterData O → Option JsNumber
  | .undefined => some .nan
  | .null => some (.finite 0)
  | .bool b => some (.finite (if b then 1 else 0))
  | .number x => some x
  | .text s => some (JsNumber.ofText (JsString.ofString s))
  | .array xs => (engine.objectText (.array xs)).map fun s => JsNumber.ofText (JsString.ofString s)
  | .object o => engine.objectNumber o

end FilterEngine

/-! ### Types of fields -/

/-- `FilterOperatorType`. -/
inductive FilterOperatorType
  | string
  | number
  | boolean
  | array
  | object
  | dateTime
  | any
  deriving DecidableEq

def FilterOperatorType.text : FilterOperatorType → String
  | string => "string"
  | number => "number"
  | boolean => "boolean"
  | array => "array"
  | object => "object"
  | dateTime => "dateTime"
  | any => "any"

/-- `ValidationResult`, without the message, which no filter reads. -/
inductive ValidationResult (O : Type)
  | valid (newValue : FilterData O)
  | invalid

def ValidationResult.isValid {O : Type} : ValidationResult O → Bool
  | valid _ => true
  | invalid => false

/-- The new value, unless there is none. -/
def ValidationResult.newValue {O : Type} : ValidationResult O → FilterData O
  | valid v => v
  | invalid => .undefined

/-- A conversion that is tried: what it throws makes the value invalid. -/
def validated {O : Type} : Option (FilterData O) → ValidationResult O
  | some v => .valid v
  | none => .invalid

section Parse

variable {O : Type} (engine : FilterEngine O)

def tryToParseNumber (value : FilterData O) : Option (FilterData O) :=
  match engine.toNumber value with
  | none | some .nan => none
  | some x => some (.number x)

def tryToParseString (value : FilterData O) : Option (FilterData O) :=
  if engine.typeOf value = "object" then engine.stringify value
  else if value matches .undefined then some (.text "")
  else (engine.toText value).map .text

def tryToParseBoolean (value : FilterData O) : Option (FilterData O) :=
  let fromNumber := match engine.toNumber value with
    | some (.finite q) => if q = 0 then some (.bool false) else if q = 1 then some (.bool true) else none
    | _ => none
  match value with
  | .bool b => some (.bool b)
  | .text s =>
    if s.toLower = "true" then some (.bool true)
    else if s.toLower = "false" then some (.bool false)
    else if trimText s = "" then none
    else fromNumber
  | _ => fromNumber

def tryToParseDateTime (value : FilterData O) : Option (FilterData O) :=
  let fromText := ((engine.toText value).map trimText).bind fun dateString =>
    ((((engine.fromISO dateString).or (engine.fromHTTP dateString)).or
      (engine.fromRFC2822 dateString)).or (engine.fromSQL dateString)).or
        (engine.fromParsedMillis dateString)
  match value with
  | .object o =>
    if engine.isDateTime o then some (.object o)
    else ((engine.fromJSDate o).or fromText).map .object
  | _ => fromText.map .object

def tryToParseArray (value : FilterData O) : Option (FilterData O) :=
  match value with
  | .array xs => some (.array xs)
  | _ =>
    let parsed := (engine.toText value).bind fun s =>
      (engine.parseJson s).or
        (engine.parseJson (s.replace "'" "\""))
    match parsed with
    | some (.array xs) => some (.array xs)
    | _ => none

def tryToParseObject (value : FilterData O) : Option (FilterData O) :=
  let parsed := match (engine.toText value).bind engine.parseJsObject with
    | some (.array _) => none
    | some o => if engine.typeOf o = "object" then some o else none
    | none => none
  match value with
  | .object o => if engine.isFunction o then parsed else some (.object o)
  | _ => parsed

/-- `validateFieldType('filter', value, type, { strict, parseStrings })`. -/
def validateFieldType (strict parseStrings : Bool) (value : FilterData O) (type : FilterOperatorType) :
    ValidationResult O :=
  if value.isNullish then .valid .undefined
  else
    match type with
    | .string =>
      if !parseStrings then .valid value
      else if strict && engine.typeOf value ≠ "string" then .invalid
      else validated (tryToParseString engine value)
    | .number =>
      if strict && engine.typeOf value ≠ "number" then .invalid
      else validated (tryToParseNumber engine value)
    | .boolean =>
      if strict && engine.typeOf value ≠ "boolean" then .invalid
      else validated (tryToParseBoolean engine value)
    | .dateTime => validated (tryToParseDateTime engine value)
    | .object =>
      if strict && !(value matches .array _ | .object _) then .invalid
      else validated (tryToParseObject engine value)
    | .array =>
      if strict && !(value matches .array _) then .invalid
      else validated (tryToParseArray engine value)
    | .any => .valid value

/-- One value of a condition. -/
def parseSingleFilterValue (value : FilterData O) (type : FilterOperatorType) (strict : Bool)
    (version : ℕ) : ValidationResult O :=
  if type = .any || value.isNullish then .valid value
  else if type = .boolean && !strict then
    match if 2 ≤ version then validateFieldType engine false false value type else .invalid with
    | .valid newValue => .valid newValue
    | .invalid => .valid (.bool value.truthy)
  else if type = .number && value.isNaN then .valid value
  else if type = .number && value.isEmpty && 3 ≤ version then .valid .null
  else validateFieldType engine strict true value type

end Parse

/-! ### Conditions -/

structure FilterOperatorValue where
  type : FilterOperatorType
  operation : String
  rightType : Option FilterOperatorType := none
  singleValue : Bool := false

structure FilterConditionValue (O : Type) where
  leftValue : FilterData O
  operator : FilterOperatorValue
  rightValue : FilterData O

structure FilterOptionsValue where
  caseSensitive : Bool := true
  typeValidation : String := "loose"
  version : Option ℕ := none

inductive ErrorFormat
  | full
  | inline
  deriving DecidableEq

structure FilterConditionMetadata where
  index : Option ℕ := none
  unresolvedExpressions : Bool := false
  itemIndex : Option ℕ := none
  errorFormat : Option ErrorFormat := none

structure FilterError where
  message : String
  description : String
  deriving DecidableEq

/-- What the functions throw: a `FilterError`, or an error of the language. -/
inductive Thrown
  | filterError (e : FilterError)
  | other

def FilterOptionsValue.strict (options : FilterOptionsValue) : Bool :=
  options.typeValidation = "strict"

def FilterOperatorValue.typeOfRight (operator : FilterOperatorValue) : FilterOperatorType :=
  operator.rightType.getD operator.type

def withIndefiniteArticle (noun : String) : String :=
  let article := if noun.toList.head?.any fun c => "aeiou".toList.contains c then "an" else "a"
  article ++ " " ++ noun

/-- Names of types (`fromType`) are in lower case. -/
def composeInvalidTypeMessage (strict : Bool) (suffix type fromType value : String) : String :=
  if strict then
    "Wrong type: '" ++ value ++ "' is " ++ withIndefiniteArticle fromType ++ " but was expecting " ++
      withIndefiniteArticle type ++ " " ++ suffix
  else
    "Conversion error: the " ++ fromType ++ " '" ++ value ++ "' can't be converted to " ++
      withIndefiniteArticle type ++ " " ++ suffix

def getTypeDescription (strict : Bool) : String :=
  if strict then
    "Try changing the type of comparison. " ++
      "Alternatively you can enable 'Convert types where required'."
  else "Try changing the type of the comparison."

def composeInvalidTypeDescription (strict : Bool) (type : FilterOperatorType) (valuePosition : String) :
    String :=
  let convertionFunction := match type with
    | .string => ".toString()"
    | .number => ".toNumber()"
    | .boolean => ".toBoolean()"
    | _ => ""
  if strict && convertionFunction ≠ "" then
    "\n<p>Try either:</p>\n<ol>\n  <li>Enabling 'Convert types where required'</li>\n" ++
      "  <li>Converting the " ++ valuePosition ++ " field to " ++ withIndefiniteArticle type.text ++
      " by adding <code>" ++ convertionFunction ++ "</code></li>\n</ol>\n\t\t\t"
  else getTypeDescription strict

section Conditions

variable {O : Type} (engine : FilterEngine O)

/-- The left value is valid, or an expression that is not resolved yet. -/
def leftValid (condition : FilterConditionValue O) (options : FilterOptionsValue)
    (unresolvedExpressions : Bool) : Bool :=
  (parseSingleFilterValue engine condition.leftValue condition.operator.type options.strict
    (options.version.getD 1)).isValid ||
  (unresolvedExpressions && condition.leftValue.isExpression)

/-- The right value is valid, or not read, or an expression that is not resolved yet. -/
def rightValid (condition : FilterConditionValue O) (options : FilterOptionsValue)
    (unresolvedExpressions : Bool) : Bool :=
  (parseSingleFilterValue engine condition.rightValue condition.operator.typeOfRight options.strict
    (options.version.getD 1)).isValid ||
  condition.operator.singleValue || (unresolvedExpressions && condition.rightValue.isExpression)

/-- Both values of a condition, in a result; it throws where a value has no text. -/
def parseFilterConditionValues (condition : FilterConditionValue O) (options : FilterOptionsValue)
    (metadata : FilterConditionMetadata) :
    Except Thrown (Except FilterError (FilterData O × FilterData O)) :=
  let index := metadata.index.getD 0
  let itemIndex := metadata.itemIndex.getD 0
  let strict := options.strict
  let version := options.version.getD 1
  let operator := condition.operator
  let rightType := operator.typeOfRight
  let parsedLeftValue :=
    parseSingleFilterValue engine condition.leftValue operator.type strict version
  let parsedRightValue :=
    parseSingleFilterValue engine condition.rightValue rightType strict version
  let leftValid := leftValid engine condition options metadata.unresolvedExpressions
  let rightValid := rightValid engine condition options metadata.unresolvedExpressions
  match engine.toText condition.leftValue, engine.toText condition.rightValue with
  | some leftValueString, some rightValueString =>
    let suffix :=
      if metadata.errorFormat.getD .full = .full then
        "[condition " ++ toString index ++ ", item " ++ toString itemIndex ++ "]"
      else "[item " ++ toString itemIndex ++ "]"
    let typeOfLeft := engine.typeOf condition.leftValue
    let typeOfRight := engine.typeOf condition.rightValue
    .ok <|
      if !leftValid && !rightValid && typeOfLeft = typeOfRight then
        .error
          { message := "Comparison type expects " ++ withIndefiniteArticle operator.type.text ++
              " but both fields are " ++ withIndefiniteArticle typeOfLeft
            description := getTypeDescription strict }
      else if !leftValid then
        .error
          { message := composeInvalidTypeMessage strict suffix operator.type.text typeOfLeft
              leftValueString
            description := composeInvalidTypeDescription strict operator.type "first" }
      else if !rightValid then
        .error
          { message := composeInvalidTypeMessage strict suffix rightType.text typeOfRight
              rightValueString
            description := composeInvalidTypeDescription strict rightType "second" }
      else .ok (parsedLeftValue.newValue, parsedRightValue.newValue)
  | _, _ => .error .other

/-! ### Conditions that are run -/

/-- The source and the flags of `/source/flags`, or else the whole text. -/
def parseRegexPattern (pattern : String) : String × String :=
  match pattern.toList with
  | '/' :: rest =>
    let flags := (rest.reverse.takeWhile fun c => c ≠ '/').reverse
    let source := (rest.reverse.dropWhile fun c => c ≠ '/').tail.reverse
    if rest.contains '/' && (flags.all fun c => "gimusy".toList.contains c) &&
        !(source.any fun c => ['\n', '\r', '\u2028', '\u2029'].contains c) then
      (String.ofList source, String.ofList flags)
    else (pattern, "")
  | _ => (pattern, "")

/-- `left.length`. -/
def lengthOf : FilterData O → FilterData O
  | .text s => .number (.finite (JsString.ofString s).length)
  | .array xs => .number (.finite xs.length)
  | .object o => engine.length o
  | _ => .undefined

/-- `text.includes(part)`. -/
def includes (s part : String) : Bool := s.toList.tails.any fun t => part.toList.isPrefixOf t

def arrayContainsValue (array value : FilterData O) (ignoreCase : Bool) : Option Bool :=
  match array, ignoreCase, value with
  | .array xs, true, .text s =>
    some (xs.any fun item => match item with
      | .text s' => engine.toLocaleLowerCase s' = engine.toLocaleLowerCase s
      | _ => false)
  | .array xs, _, value => some (xs.any fun item => engine.sameValueZero item value)
  | _, _, _ => none

/-- `case 'string'`. -/
def executeString (operation left : String) (right : FilterData O) : Option Bool :=
  let right := if right.isNullish then .text "" else right
  let rightText := engine.toText right
  let regex := match right with
    | .text pattern =>
      engine.testRegExp (parseRegexPattern pattern).1 (parseRegexPattern pattern).2 left
    | _ => if right.truthy then none else engine.testRegExp "" "" left
  match operation with
  | "empty" => some (left = "")
  | "notEmpty" => some (left ≠ "")
  | "equals" => some (engine.strictEquals (.text left) right)
  | "notEquals" => some (!engine.strictEquals (.text left) right)
  | "contains" => rightText.map fun right => includes left right
  | "notContains" => rightText.map fun right => !includes left right
  | "startsWith" => rightText.map fun right => right.toList.isPrefixOf left.toList
  | "notStartsWith" => rightText.map fun right => !right.toList.isPrefixOf left.toList
  | "endsWith" => rightText.map fun right => right.toList.isSuffixOf left.toList
  | "notEndsWith" => rightText.map fun right => !right.toList.isSuffixOf left.toList
  | "regex" => regex
  | "notRegex" => regex.map (!·)
  -- an unknown operation is logged
  | _ => some false

/-- `case 'object'`. -/
def executeObject (operation : String) (left : FilterData O) : Option Bool :=
  let hasKeys := match left with
    | .array xs => xs ≠ []
    | .object o => engine.keysLength o ≠ 0
    | .text s => s ≠ ""
    | _ => false
  match operation with
  | "empty" => some (!left.truthy || !hasKeys)
  | "notEmpty" => some (left.truthy && hasKeys)
  | _ => some false

/-- `case 'array'`, which goes on with the next case. -/
def executeArray (operation : String) (left right : FilterData O) (ignoreCase : Bool) : Option Bool :=
  let array := if left.isNullish then .array [] else left
  let length := lengthOf engine array
  let zero : FilterData O := .number (.finite 0)
  match operation with
  | "contains" => arrayContainsValue engine array right ignoreCase
  | "notContains" => (arrayContainsValue engine array right ignoreCase).map (!·)
  | "lengthEquals" => some (engine.strictEquals length right)
  | "lengthNotEquals" => some (!engine.strictEquals length right)
  | "lengthGt" => engine.less right length
  | "lengthLt" => engine.less length right
  | "lengthGte" => engine.lessEq right length
  | "lengthLte" => engine.lessEq length right
  | "empty" => some (engine.strictEquals length zero)
  | "notEmpty" => some (!engine.strictEquals length zero)
  | _ => executeObject engine operation left

/-- `case 'boolean'`, which goes on with the next case; its values count as conditions do. -/
def executeBoolean (operation : String) (left right : FilterData O) (exists_ ignoreCase : Bool) :
    Option Bool :=
  match operation with
  | "empty" => some (!exists_)
  | "notEmpty" => some exists_
  | "true" => some left.truthy
  | "false" => some (!left.truthy)
  | "equals" => some (engine.strictEquals left right)
  | "notEquals" => some (!engine.strictEquals left right)
  | _ => executeArray engine operation left right ignoreCase

/-- `value.toMillis()`. -/
def toMillis : FilterData O → Option (FilterData O)
  | .object o => (engine.toMillis o).map .number
  | _ => none

/-- `case 'dateTime'`, which goes on with the next case. -/
def executeDateTime (operation : String) (left right : FilterData O) (exists_ ignoreCase : Bool) :
    Option Bool :=
  let compare (f : FilterData O → FilterData O → Option Bool) : Option Bool :=
    (toMillis engine left).bind fun l => (toMillis engine right).bind fun r => f l r
  if operation = "empty" then some (!exists_)
  else if operation = "notEmpty" then some exists_
  else if !left.truthy || !right.truthy then some false
  else
    match operation with
    | "equals" => compare fun l r => some (engine.strictEquals l r)
    | "notEquals" => compare fun l r => some (!engine.strictEquals l r)
    | "after" => compare fun l r => engine.less r l
    | "before" => compare fun l r => engine.less l r
    | "afterOrEquals" => compare fun l r => engine.lessEq r l
    | "beforeOrEquals" => compare fun l r => engine.lessEq l r
    | _ => executeBoolean engine operation left right exists_ ignoreCase

/-- `case 'number'`, which goes on with the next case. -/
def executeNumber (operation : String) (left right : FilterData O) (exists_ ignoreCase : Bool) :
    Option Bool :=
  match operation with
  | "empty" => some (!exists_)
  | "notEmpty" => some exists_
  | "equals" => some (engine.strictEquals left right)
  | "notEquals" => some (!engine.strictEquals left right)
  | "gt" => engine.less right left
  | "lt" => engine.less left right
  | "gte" => engine.lessEq right left
  | "lte" => engine.lessEq left right
  | _ => executeDateTime engine operation left right exists_ ignoreCase

/-- The operation on the two values. -/
def executeOperation (operator : FilterOperatorValue) (left right : FilterData O) (ignoreCase : Bool) :
    Option Bool :=
  let exists_ := !left.isNullish && !left.isNaN
  let lowerCase (v : FilterData O) : FilterData O := match v with
    | .text s => .text (engine.toLocaleLowerCase s)
    | v => v
  if operator.operation = "exists" then some exists_
  else if operator.operation = "notExists" then some (!exists_)
  else
    match operator.type with
    | .string =>
      let isRegex := operator.operation = "regex" || operator.operation = "notRegex"
      let left := if ignoreCase then lowerCase left else left
      let right := if ignoreCase && !isRegex then lowerCase right else right
      let left := match left with
        | .text s => s
        | _ => ""
      executeString engine operator.operation left right
    | .number => executeNumber engine operator.operation left right exists_ ignoreCase
    | .dateTime => executeDateTime engine operator.operation left right exists_ ignoreCase
    | .boolean => executeBoolean engine operator.operation left right exists_ ignoreCase
    | .array => executeArray engine operator.operation left right ignoreCase
    | .object => executeObject engine operator.operation left
    | .any => some false

def executeFilterCondition (condition : FilterConditionValue O) (filterOptions : FilterOptionsValue)
    (metadata : FilterConditionMetadata) : Except Thrown Bool := do
  let ignoreCase := !filterOptions.caseSensitive
  match ← parseFilterConditionValues engine condition filterOptions metadata with
  | .error e => .error (.filterError e)
  | .ok (left, right) =>
    match executeOperation engine condition.operator left right ignoreCase with
    | some result => .ok result
    | none => .error .other

inductive FilterTypeCombinator
  | and
  | or
  deriving DecidableEq

structure FilterValue (O : Type) where
  options : FilterOptionsValue
  conditions : List (FilterConditionValue O)
  combinator : FilterTypeCombinator

/-- `every` and `some`, up to the first that decides. -/
def untilDecided {α : Type} (decides : Bool) (f : α → Except Thrown Bool) : List α → Except Thrown Bool
  | [] => .ok !decides
  | a :: l => do if (← f a) = decides then .ok decides else untilDecided decides f l

def executeFilter (value : FilterValue O) (itemIndex : Option ℕ) : Except Thrown Bool :=
  let conditionPass (e : FilterConditionValue O × ℕ) : Except Thrown Bool :=
    executeFilterCondition engine e.1 value.options { index := some e.2, itemIndex := itemIndex }
  match value.combinator with
  | .and => untilDecided false conditionPass value.conditions.zipIdx
  | .or => untilDecided true conditionPass value.conditions.zipIdx

/-! ### Conditions that are checked -/

/-- What a condition is checked with. -/
def checkedWith (index : ℕ) : FilterConditionMetadata :=
  { index := some index, unresolvedExpressions := true, errorFormat := some .inline }

def issueKey (name : String) (index : ℕ) : String := name ++ "." ++ toString index

/-- One turn: the result of the parser is not looked at, only what it throws. -/
def collectIssue (name : String) (options : FilterOptionsValue) (issues : Dict String (List String))
    (e : FilterConditionValue O × ℕ) : Except Thrown (Dict String (List String)) :=
  match parseFilterConditionValues engine e.1 options (checkedWith e.2) with
  | .ok _ => .ok issues
  | .error (.filterError error) =>
    match issues.get? (issueKey name e.2) with
    | some messages => .ok (issues.set (issueKey name e.2) (messages ++ [error.message]))
    | none => .error .other
  | .error .other => .ok issues

def validateFilterParameter (name : String) (value : FilterValue O) :
    Except Thrown (Dict String (List String)) :=
  value.conditions.zipIdx.foldlM (collectIssue engine name value.options) .empty

end Conditions

/-! ### The two uses of the parser -/

section Agreement

variable {O : Type} (engine : FilterEngine O)

/-- Both values of the condition convert to their types, are expressions that are not resolved yet, or
are not read; and both can be written as texts. -/
def Converts (options : FilterOptionsValue) (condition : FilterConditionValue O) : Prop :=
  leftValid engine condition options true = true ∧ rightValid engine condition options true = true ∧
    (engine.toText condition.leftValue).isSome ∧ (engine.toText condition.rightValue).isSome

/-- An issue is reported for the condition with the index. -/
def Reports (issues : Dict String (List String)) (name : String) (index : ℕ) : Prop :=
  ∃ messages, issues.get? (issueKey name index) = some messages ∧ messages ≠ []

/-- The parser has no result with both values. -/
def ParserFails (options : FilterOptionsValue) (condition : FilterConditionValue O)
    (metadata : FilterConditionMetadata) : Prop :=
  ∀ values, parseFilterConditionValues engine condition options metadata ≠ .ok (.ok values)

/-- One of the values is an expression. -/
def HasExpression (condition : FilterConditionValue O) : Prop :=
  condition.leftValue.isExpression = true ∨ condition.rightValue.isExpression = true

/-- The check throws nothing, reports the conditions for which the parser fails, and lets no filter
without expressions pass that throws a `FilterError`. -/
def AgreesWithExecution (name : String) (value : FilterValue O) : Prop :=
  ∃ issues, validateFilterParameter engine name value = .ok issues ∧
    (∀ index condition, value.conditions[index]? = some condition →
      (Reports issues name index ↔
        ParserFails engine value.options condition (checkedWith index))) ∧
    ((∀ index, ¬ Reports issues name index) →
      (∀ condition ∈ value.conditions, ¬ HasExpression condition) →
      ∀ itemIndex e, executeFilter engine value itemIndex ≠ .error (.filterError e))

variable {engine} {options : FilterOptionsValue} {condition : FilterConditionValue O}
  {metadata : FilterConditionMetadata}

/-- The parser returns its errors. -/
theorem parseFilterConditionValues_ne_filterError (e : FilterError) :
    parseFilterConditionValues engine condition options metadata ≠ .error (.filterError e) := by
  unfold parseFilterConditionValues
  split
  · exact fun h => by cases h
  · exact fun h => by cases h

theorem parserFails_iff : ParserFails engine options condition metadata ↔
    ¬ (leftValid engine condition options metadata.unresolvedExpressions = true ∧
      rightValid engine condition options metadata.unresolvedExpressions = true ∧
      (engine.toText condition.leftValue).isSome ∧ (engine.toText condition.rightValue).isSome) := by
  unfold ParserFails parseFilterConditionValues
  cases engine.toText condition.leftValue with
  | none => simp
  | some left =>
    cases engine.toText condition.rightValue with
    | none => simp
    | some right =>
      generalize leftValid engine condition options metadata.unresolvedExpressions = validLeft
      generalize rightValid engine condition options metadata.unresolvedExpressions = validRight
      cases validLeft <;> cases validRight <;> dsimp only <;> split_ifs <;> simp_all

theorem parserFails_checkedWith_iff (index : ℕ) :
    ParserFails engine options condition (checkedWith index) ↔ ¬ Converts engine options condition :=
  parserFails_iff

/-- Without expressions it makes no difference whether they may be unresolved. -/
theorem converts_of_no_expression (h : ¬ HasExpression condition)
    (hconverts : Converts engine options condition) (hmetadata : metadata.unresolvedExpressions = false) :
    ¬ ParserFails engine options condition metadata := by
  rw [parserFails_iff, not_not, hmetadata]
  obtain ⟨hleft, hright, htexts⟩ := hconverts
  have hexpr := not_or.1 h
  refine ⟨?_, ?_, htexts⟩
  · simpa [leftValid, hexpr.1] using hleft
  · simpa [rightValid, hexpr.2] using hright

/-- A turn changes nothing. -/
theorem collectIssue_eq (name : String) (issues : Dict String (List String))
    (e : FilterConditionValue O × ℕ) : collectIssue engine name options issues e = .ok issues := by
  unfold collectIssue
  split
  · rfl
  · rename_i h
    exact absurd h (parseFilterConditionValues_ne_filterError _)
  · rfl

/-- **The check reports nothing**, whatever the conditions are. -/
theorem validateFilterParameter_eq (name : String) (value : FilterValue O) :
    validateFilterParameter engine name value = .ok .empty := by
  unfold validateFilterParameter
  induction value.conditions.zipIdx with
  | nil => rfl
  | cons e l ih => rw [List.foldlM_cons, collectIssue_eq]; exact ih

/-- A condition that throws a `FilterError` is one for which the parser fails. -/
theorem parserFails_of_executeFilterCondition {e : FilterError}
    (h : executeFilterCondition engine condition options metadata = .error (.filterError e)) :
    ParserFails engine options condition metadata := by
  intro values hvalues
  unfold executeFilterCondition at h
  rw [hvalues] at h
  change (match executeOperation engine condition.operator values.1 values.2 _ with
    | some result => Except.ok result
    | none => Except.error Thrown.other) = _ at h
  split at h <;> cases h

theorem exists_of_untilDecided {α : Type} {decides : Bool} {f : α → Except Thrown Bool} {l : List α}
    {e : Thrown} (h : untilDecided decides f l = .error e) : ∃ a ∈ l, f a = .error e := by
  induction l with
  | nil => cases h
  | cons a l ih =>
    cases hfirst : f a with
    | error e' =>
      rw [untilDecided, hfirst] at h
      exact ⟨a, List.mem_cons_self, hfirst.trans h⟩
    | ok b =>
      rw [untilDecided, hfirst] at h
      change (if b = decides then Except.ok decides else untilDecided decides f l) = _ at h
      split_ifs at h
      obtain ⟨c, hc, hfc⟩ := ih h
      exact ⟨c, List.mem_cons_of_mem _ hc, hfc⟩

/-- A filter throws a `FilterError` for one of its conditions. -/
theorem exists_of_executeFilter {value : FilterValue O} {itemIndex : Option ℕ} {e : FilterError}
    (h : executeFilter engine value itemIndex = .error (.filterError e)) :
    ∃ condition ∈ value.conditions, ∃ index, ParserFails engine value.options condition
      { index := some index, itemIndex := itemIndex } := by
  have hsome : ∀ decides, untilDecided decides
      (fun e : FilterConditionValue O × ℕ => executeFilterCondition engine e.1 value.options
        { index := some e.2, itemIndex := itemIndex }) value.conditions.zipIdx =
        .error (.filterError e) → ∃ condition ∈ value.conditions, ∃ index,
          ParserFails engine value.options condition { index := some index, itemIndex := itemIndex } := by
    intro decides h
    obtain ⟨c, hc, herror⟩ := exists_of_untilDecided h
    exact ⟨c.1, List.fst_mem_of_mem_zipIdx hc, c.2, parserFails_of_executeFilterCondition herror⟩
  unfold executeFilter at h
  cases hcombinator : value.combinator with
  | and =>
    rw [hcombinator] at h
    exact hsome false h
  | or =>
    rw [hcombinator] at h
    exact hsome true h

/-- **The check of filters agrees with their execution** exactly when all conditions convert. -/
theorem validateFilterParameter_agrees_iff {O : Type} (engine : FilterEngine O) (name : String)
    (value : FilterValue O) : AgreesWithExecution engine name value ↔
      ∀ condition ∈ value.conditions, Converts engine value.options condition := by
  have hnone : ∀ index, ¬ Reports .empty name index := by
    rintro index ⟨messages, hmessages, -⟩
    cases hmessages
  constructor
  · rintro ⟨issues, hissues, hreports, -⟩ condition hcondition
    rw [validateFilterParameter_eq] at hissues
    obtain rfl := Except.ok.inj hissues
    obtain ⟨index, hindex⟩ := List.getElem?_of_mem hcondition
    by_contra hconverts
    exact hnone index ((hreports index condition hindex).2
      ((parserFails_checkedWith_iff index).2 hconverts))
  · intro h
    refine ⟨.empty, validateFilterParameter_eq name value, fun index condition hindex => ?_,
      fun _ hexpr itemIndex e herror => ?_⟩
    · rw [parserFails_checkedWith_iff]
      exact iff_of_false (hnone index) (not_not_intro (h condition (List.mem_of_getElem? hindex)))
    · obtain ⟨condition, hcondition, index, hfails⟩ := exists_of_executeFilter herror
      exact converts_of_no_expression (hexpr condition hcondition) (h condition hcondition) rfl hfails

end Agreement

/-- An engine for texts and numbers. -/
def plainEngine : FilterEngine Empty where
  isFunction := Empty.elim
  objectText := fun _ => none
  objectNumber := Empty.elim
  stringify := fun _ => none
  parseJson := fun _ => none
  parseJsObject := fun _ => none
  isDateTime := Empty.elim
  fromJSDate := Empty.elim
  fromISO := fun _ => none
  fromHTTP := fun _ => none
  fromRFC2822 := fun _ => none
  fromSQL := fun _ => none
  fromParsedMillis := fun _ => none
  toMillis := Empty.elim
  toLocaleLowerCase := String.toLower
  strictEquals := fun _ _ => false
  sameValueZero := fun _ _ => false
  less := fun _ _ => some false
  lessEq := fun _ _ => some false
  length := Empty.elim
  keysLength := Empty.elim
  testRegExp := fun _ _ _ => none

/-- A text that is compared with a number. -/
def textAsNumber : FilterConditionValue Empty where
  leftValue := .text "abc"
  operator := { type := .number, operation := "equals" }
  rightValue := .number (.finite 1)

def textAsNumberFilter : FilterValue Empty where
  options := { version := some 2 }
  conditions := [textAsNumber]
  combinator := .and

/-- No issue is reported for it, and its execution throws a `FilterError`. -/
theorem textAsNumber_passes :
    validateFilterParameter plainEngine "conditions" textAsNumberFilter = .ok .empty ∧
      ParserFails plainEngine textAsNumberFilter.options textAsNumber (checkedWith 0) ∧
      ¬ HasExpression textAsNumber ∧
      ∃ e, executeFilter plainEngine textAsNumberFilter none = .error (.filterError e) := by
  refine ⟨validateFilterParameter_eq _ _, ?_, by simp [HasExpression, textAsNumber,
    FilterData.isExpression], ?_⟩
  · rw [parserFails_iff]
    have hleft : leftValid plainEngine textAsNumber textAsNumberFilter.options true = false := by
      decide +kernel
    simp [checkedWith, hleft]
  · exact ⟨_, rfl⟩

end Filters

end N8n
