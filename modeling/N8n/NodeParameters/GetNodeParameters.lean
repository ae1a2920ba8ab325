import N8n.NodeParameters.Schema

/-!
# The parameters of a node

`getNodeParameters` (`packages/workflow/src/node-helpers.ts`) fills the default values in for a
schema of properties, or leaves them out.

* `CallOptions`, `Frame`: the arguments of a call and the objects it fills;
* `writeSimple`: what is set for a simple property;
* `collectionValue`, `fixedCollectionItems`: what is set for the two kinds of collections;
* `visit`, `visitAll`, `runLevel`: the loop over the properties of one level;
* `getNodeParameters`: all levels.

The call that resolves the simple values for the display options is `displayCheckValues`.  The
dependencies it is passed are those that it would compute itself.
-/

namespace N8n

/-- The type of the property whose options are visited. -/
inductive ParentType
  | collection
  | fixedCollection
  deriving DecidableEq

/-- The arguments of `getNodeParameters` that its loop reads. -/
structure CallOptions where
  returnDefaults : Bool
  returnNoneDisplayed : Bool
  onlySimpleTypes : Bool := false
  nodeValuesRoot : Option JsObject := none
  parentType : Option ParentType := none

/-- `nodeParameters` and `nodeParametersFull`. -/
structure Frame where
  nodeParameters : JsObject := []
  nodeParametersFull : JsObject := []

/-- Write a property of both objects. -/
def Frame.set (s : Frame) (name : String) (value : JsValue) : Frame where
  nodeParameters := EntryList.write name value s.nodeParameters
  nodeParametersFull := EntryList.write name value s.nodeParametersFull

/-! ### Simple properties -/

/-- `value ?? fallback`. -/
def nullish (value fallback : JsValue) : JsValue :=
  if value = .undefined ∨ value = .null then fallback else value

/-- The own properties of a value, in some order: a copy is enumerated like the original. -/
def ownProperties : JsValue → JsObject
  | .obj props => props
  | .arr xs => xs.zipIdx.map fun e => (toString e.2, e.1)
  | .str s => s.toList.zipIdx.map fun e => (toString e.2, .str (String.ofList [e.1]))
  | _ => []

/-- `{ ...base, ...value }`. -/
def spreadInto (base : JsObject) (value : JsValue) : JsObject :=
  (ownProperties value).foldl (fun o e => EntryList.write e.1 e.2 o) base

/-- The options of a filter that are filled in. -/
def defaultFilterOptions : JsObject :=
  [("caseSensitive", .bool true), ("leftValue", .str ""), ("typeValidation", .str "strict"),
    ("version", .num 1)]

/-- A filter with its `combinator` and `options` filled in. -/
def patchFilter (filter : JsObject) : JsObject :=
  let filter := EntryList.write "combinator"
    (nullish (JsObject.get filter "combinator") (.str "and")) filter
  EntryList.write "options" (.obj (spreadInto defaultFilterOptions (JsObject.get filter "options")))
    filter

/-- What a simple property is set to when defaults are returned. -/
def defaultedValue (type : SimpleType) (default value : JsValue) : JsValue :=
  match type with
  | .boolean | .number | .options => if value ≠ .undefined then value else default
  | .resourceLocator =>
    if default.isObject then
      if value ≠ .undefined then value else .obj (spreadInto [("__rl", .bool true)] default)
    else nullish value default
  | .filter =>
    match value with
    | .obj filter => .obj (patchFilter filter)
    | _ => nullish value default
  | _ => nullish value default

/-- Whether the value of a simple property is kept when defaults are left out. -/
def differsFromDefault (parentType : Option ParentType) (default value : JsValue) : Bool :=
  (!value.isObject && value ≠ default) || (value.isObject && !isEqual value default) ||
    (value ≠ .undefined && parentType = some .collection)

/-- Strip the expression prefix of a property that takes no expressions. -/
def stripExpression (info : PropertyInfo) (s : Frame) : Frame :=
  match JsObject.get s.nodeParameters info.name with
  | .str text =>
    if info.noDataExpression && text.toList.head? = some '=' then
      s.set info.name (.str (String.ofList (text.toList.drop 1)))
    else s
  | _ => s

/-- What the visit of a simple property sets. -/
def writeSimple (o : CallOptions) (info : PropertyInfo) (type : SimpleType) (value : JsValue)
    (s : Frame) : Frame :=
  if o.returnDefaults then
    stripExpression info (s.set info.name (defaultedValue type info.default value))
  else if differsFromDefault o.parentType info.default value then s.set info.name value
  else stripExpression info s

/-! ### Collections -/

/-- A call of `getNodeParameters` for the properties of a lower level. -/
abbrev LevelCall := JsValue → CallOptions → Except JsError JsValue

/-- The calls for the lower levels of a property. -/
inductive Nested
  | none
  | options (call : LevelCall)
  | groups (groups : List (String × List INodeProperties × LevelCall))

/-- The arguments of a call for a lower level. -/
def CallOptions.lower (o : CallOptions) (root : JsObject) (parentType : ParentType) :
    CallOptions where
  returnDefaults := o.returnDefaults
  returnNoneDisplayed := o.returnNoneDisplayed
  nodeValuesRoot := some root
  parentType := some parentType

/-- What a collection is set to, if it is set. -/
def collectionValue (o : CallOptions) (multipleValues : Option Bool) (default value : JsValue)
    (root : JsObject) (call : LevelCall) : Except JsError (Option JsValue) :=
  if multipleValues = some true then
    if value ≠ .undefined then .ok (some value)
    else if o.returnDefaults then
      match default with
      | .arr xs => .ok (some (.arr xs))
      | _ => .ok (some (.arr []))
    else .ok none
  else if value ≠ .undefined then some <$> call value (o.lower root .collection)
  else if o.returnDefaults then .ok (some default)
  else .ok none

/-- The elements of what `for … of` iterates over. -/
def elementsOf : JsValue → Except JsError (List JsValue)
  | .arr xs => .ok xs
  | .str s => .ok (s.toList.map fun c => .str (String.ofList [c]))
  | _ => .error .typeError

/-- `value[key]`, which throws for `undefined` and `null`. -/
def propOrThrow (value : JsValue) (key : String) : Except JsError JsValue :=
  if value = .undefined ∨ value = .null then .error .typeError else .ok (value.prop key)

/-- `nodeProperties.options.find(…)` by name. -/
def findGroup (groups : List (String × List INodeProperties × LevelCall)) (itemName : String) :
    Option (List INodeProperties × LevelCall) :=
  EntryList.lookup itemName groups

/-- Whether some value of an item differs from the default of its field. -/
def hasNonDefaultValues (values : List INodeProperties) (itemNodeValues : JsValue) : Bool :=
  itemNodeValues.truthy && itemNodeValues.keys.any fun key =>
    (values.find? fun f => f.name = key).any fun field =>
      !isEqual (itemNodeValues.prop key) field.info.default

/-- The variables of the loop over the items of a fixed collection. -/
structure Items where
  collectionValues : JsObject := []
  hadAnyVisibleFields : Bool := false

section FixedCollection

variable (o : CallOptions) (root : JsObject)
  (groups : List (String × List INodeProperties × LevelCall))

/-- The values of one item that holds an array. -/
def multipleItem (propertyValues : JsValue) (itemName : String) : Except JsError JsValue := do
  let nodeValues ← elementsOf (propertyValues.prop itemName)
  let values ← nodeValues.mapM fun nodeValue =>
    match findGroup groups itemName with
    | none => .error (.applicationError "Could not find property option")
    | some group => group.2 nodeValue (o.lower root .fixedCollection)
  return .arr values

/-- One item that holds a single object: its values, and whether it had visible fields. -/
def singleItem (value : JsValue) (itemName : String) : Except JsError (JsObject × Bool) :=
  match findGroup groups itemName with
  | none => .ok ([], false)
  | some group => do
    let itemNodeValues ← propOrThrow value itemName
    let tempValue ← group.2 itemNodeValues (o.lower root .fixedCollection)
    return (ownProperties tempValue,
      ownProperties tempValue ≠ [] || !hasNonDefaultValues group.1 itemNodeValues)

/-- The loop over the items of a fixed collection. -/
def fixedCollectionItems (multipleValues : Option Bool) (value propertyValues : JsValue) :
    List String → Items → Except JsError Items
  | [], items => .ok items
  | itemName :: itemNames, items =>
    if multipleValues = some true then
      match propertyValues with
      | .obj _ => do
        let item ← multipleItem o root groups propertyValues itemName
        fixedCollectionItems multipleValues value propertyValues itemNames
          { items with collectionValues := EntryList.write itemName item items.collectionValues }
      | _ => fixedCollectionItems multipleValues value propertyValues itemNames items
    else do
      let (tempNodeParameters, hadVisibleFields) ← singleItem o root groups value itemName
      let kept := tempNodeParameters ≠ [] ∨ (o.returnDefaults = false ∧ hadVisibleFields = true ∧
        propertyValues.truthy = true ∧ propertyValues.prop itemName ≠ .undefined)
      fixedCollectionItems multipleValues value propertyValues itemNames {
        collectionValues :=
          if kept then EntryList.write itemName (.obj tempNodeParameters) items.collectionValues
          else items.collectionValues
        hadAnyVisibleFields := items.hadAnyVisibleFields || hadVisibleFields }

end FixedCollection

/-- `propertyValues?.constructor.name === 'Object'`, for a value without a key `constructor`. -/
def isPlainObject : JsValue → Bool
  | .obj _ => true
  | _ => false

/-! ### One level -/

/-- How the loop over the properties goes on: with the next property, or with a `return`. -/
inductive Flow
  | next (s : Frame)
  | done (value : JsValue)

/-- What the visit of a fixed collection does. -/
def visitFixedCollection (o : CallOptions) (info : PropertyInfo) (multipleValues : Option Bool)
    (root : JsObject) (groups : List (String × List INodeProperties × LevelCall))
    (nodeValues value : JsValue) (s : Frame) : Except JsError Flow := do
  let propertyValues :=
    if o.returnDefaults ∧ value = .undefined then info.default else value
  if o.returnDefaults = false ∧ multipleValues = some false ∧ propertyValues.truthy ∧
      propertyValues.keys = [] then
    -- an empty value is kept by keeping all the values of the level
    return .done nodeValues
  let items ← fixedCollectionItems o root groups multipleValues value propertyValues
    propertyValues.keys {}
  let returnValue := JsValue.obj (propertyValues.keys.map fun key => (key, .obj []))
  let s :=
    if o.returnDefaults = false ∧ items.hadAnyVisibleFields ∧ multipleValues = some false ∧
        items.collectionValues = [] ∧ propertyValues.truthy ∧ isPlainObject propertyValues ∧
        propertyValues.keys ≠ [] then
      { s with nodeParameters := EntryList.write info.name returnValue s.nodeParameters }
    else s
  if items.collectionValues ≠ [] ∨ o.returnDefaults then
    return .next (s.set info.name (.obj items.collectionValues))
  return .next s

section Level

variable (ctx : DisplayContext) (o : CallOptions) (duplicateParameterNames : List String)
  (nodeValues : JsValue) (check : Option JsObject)

/-- `nodeValuesDisplayCheck`, which is `nodeParametersFull` unless it was resolved before. -/
def displayCheckOf (s : Frame) : JsObject := check.getD s.nodeParametersFull

/-- `nodeValuesRoot`, which is `nodeValuesDisplayCheck` unless it was given. -/
def rootOf (s : Frame) : JsObject := o.nodeValuesRoot.getD (displayCheckOf check s)

/-- Whether a property is displayed. -/
def isDisplayed (s : Frame) (p : INodeProperties) : Except JsError Bool :=
  ctx.displayParameter (.obj (displayCheckOf check s)) p.info.displayOptions
    (.obj (rootOf o check s))

/-- The turn of the loop for a property. -/
def visit (p : INodeProperties × Nested) (s : Frame) : Except JsError Flow := do
  let value := nodeValues.prop p.1.name
  if nodeValues.truthy = false ∨ (value = .undefined ∧
      (o.returnDefaults = false ∨ o.parentType = some .collection)) then
    return .next s
  if o.returnNoneDisplayed = false then
    if (← isDisplayed ctx o check s p.1) = false then return .next s
  match p with
  | (.simple info type, _) =>
    if info.name ∈ duplicateParameterNames then
      if (← isDisplayed ctx o check s p.1) = false then return .next s
    return .next (writeSimple o info type value s)
  | (.collection info multipleValues _, .options call) =>
    if o.onlySimpleTypes then return .next s
    match ← collectionValue o multipleValues info.default value (rootOf o check s) call with
    | some v => return .next (s.set info.name v)
    | none => return .next s
  | (.fixedCollection info multipleValues _, .groups groups) =>
    if o.onlySimpleTypes then return .next s
    visitFixedCollection o info multipleValues (rootOf o check s) groups nodeValues value s
  | _ => return .next s

/-- The loop over the properties in the order of their dependencies. -/
def visitAll (ps : List (INodeProperties × Nested)) : List ℕ → Frame → Except JsError JsValue
  | [], s => .ok (.obj s.nodeParameters)
  | index :: order, s => do
    let p ← orTypeError ps[index]?
    match ← visit ctx o duplicateParameterNames nodeValues check p s with
    | .next s => visitAll ps order s
    | .done value => return value

end Level

/-- `duplicateParameterNames`. -/
def duplicateNames (nodePropertiesArray : List INodeProperties) : List String :=
  let names := nodePropertiesArray.map INodeProperties.name
  (names.filter fun name => 1 < names.count name).dedup

/-- The call of `getNodeParameters` for the simple types only, with all defaults and all parameters
that are not displayed. -/
def displayCheckValues (ctx : DisplayContext) (nodePropertiesArray : List INodeProperties)
    (nodeValues : JsValue) (o : CallOptions) : Except JsError JsValue := do
  let order ← getParameterResolveOrder nodePropertiesArray
    (getParameterDependencies nodePropertiesArray)
  visitAll ctx { o with returnDefaults := true, returnNoneDisplayed := true, onlySimpleTypes := true }
    (duplicateNames nodePropertiesArray) nodeValues none
    (nodePropertiesArray.map fun p => (p, .none)) order {}

/-- `getNodeParameters` for the properties of one level and the calls for their lower levels. -/
def runLevel (ctx : DisplayContext) (ps : List (INodeProperties × Nested)) : LevelCall :=
  fun nodeValues o => do
    let nodePropertiesArray := ps.map Prod.fst
    let check ←
      if o.returnNoneDisplayed then pure none
      else
        match ← displayCheckValues ctx nodePropertiesArray nodeValues o with
        | .obj check => pure (some check)
        | _ => pure none
    let order ← getParameterResolveOrder nodePropertiesArray
      (getParameterDependencies nodePropertiesArray)
    visitAll ctx o (duplicateNames nodePropertiesArray) nodeValues check ps order {}

/-! ### All levels -/

section Levels

variable (ctx : DisplayContext)

mutual

/-- The properties of a level, each with the calls for its lower levels. -/
def levelOf : List INodeProperties → List (INodeProperties × Nested)
  | [] => []
  | p :: ps => (p, nestedOf p) :: levelOf ps

def nestedOf : INodeProperties → Nested
  | .simple _ _ => .none
  | .collection _ _ options => .options (runLevel ctx (levelOf options))
  | .fixedCollection _ _ options => .groups (groupsOf options)

def groupsOf :
    List (String × List INodeProperties) → List (String × List INodeProperties × LevelCall)
  | [] => []
  | (name, values) :: options => (name, values, runLevel ctx (levelOf values)) :: groupsOf options

end

/-- `getNodeParameters`. -/
def getNodeParameters (nodePropertiesArray : List INodeProperties) (nodeValues : JsValue)
    (o : CallOptions) : Except JsError JsValue :=
  runLevel ctx (levelOf ctx nodePropertiesArray) nodeValues o

end Levels

end N8n
