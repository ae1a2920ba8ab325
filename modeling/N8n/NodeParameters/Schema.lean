import N8n.NodeParameters.DisplayOptions

/-!
# Properties of a node and the order of their resolution

* `INodeProperties`: a property, simple or a collection of properties;
* `getParameterDependencies`: the parameters that the display options of a parameter name;
* `getParameterResolveOrder`: the order in which `getNodeParameters` visits the properties.
-/

namespace N8n

/-- The values of `NodePropertyTypes`, without the two kinds of collections. -/
inductive SimpleType
  | boolean
  | button
  | color
  | dateTime
  | hidden
  | icon
  | json
  | callout
  | notice
  | multiOptions
  | number
  | options
  | string
  | credentialsSelect
  | resourceLocator
  | curlImport
  | resourceMapper
  | filter
  | assignmentCollection
  | credentials
  | workflowSelector
  deriving DecidableEq

/-- What all kinds of properties have. -/
structure PropertyInfo where
  name : String
  default : JsValue
  displayOptions : Option DisplayOptions := none
  noDataExpression : Bool := false

/-- `INodeProperties`: the options of a collection are properties, those of a fixed collection are
named groups of properties (`INodePropertyCollection`).  `multipleValues` is in `typeOptions`. -/
inductive INodeProperties where
  | simple (info : PropertyInfo) (type : SimpleType)
  | collection (info : PropertyInfo) (multipleValues : Option Bool) (options : List INodeProperties)
  | fixedCollection (info : PropertyInfo) (multipleValues : Option Bool)
      (options : List (String × List INodeProperties))

def INodeProperties.info : INodeProperties → PropertyInfo
  | simple info _ | collection info _ _ | fixedCollection info _ _ => info

def INodeProperties.name (p : INodeProperties) : String := p.info.name

/-! ### The order -/

/-- The names of the parameters in the rules, without those that start with `@`. -/
def ruleNames (displayOptions : DisplayOptions) : List String :=
  ((displayOptions.showRules.getD [] ++ displayOptions.hideRules.getD []).map Prod.fst).filter
    fun parameterName => parameterName.toList.head? ≠ some '@'

/-- `getParameterDependencies`. -/
def getParameterDependencies (nodePropertiesArray : List INodeProperties) :
    Dict String (List String) :=
  nodePropertiesArray.foldl (fun dependencies p =>
    let known := (dependencies.get? p.name).getD []
    dependencies.set p.name ((p.info.displayOptions.elim [] ruleNames).foldl
      (fun names name => if name ∈ names then names else names ++ [name]) known))
    Dict.empty

/-- The error of `getParameterResolveOrder`. -/
def maxIterationsError : JsError :=
  .applicationError ("Could not resolve parameter dependencies. Max iterations reached! Hint: If " ++
    "\x60displayOptions\x60 are specified in any child parameter of a parent \x60collection\x60 or " ++
    "\x60fixedCollection\x60, remove the \x60displayOptions\x60 from the child parameter.")

/-- The variables of the loop of `getParameterResolveOrder`. -/
structure ResolveState where
  executionOrder : List ℕ
  indexToResolve : List ℕ
  resolvedParameters : List String
  lastIndexLength : ℕ
  lastIndexReduction : ℤ
  iterations : ℕ

/-- The loop; each turn takes the first index.  `n` bounds the turns: when it is used up, the check
on the iterations would have thrown. -/
def resolveLoop (nodePropertiesArray : List INodeProperties)
    (parameterDependencies : Dict String (List String)) :
    ℕ → ResolveState → Except JsError (List ℕ)
  | 0, _ => .error maxIterationsError
  | n + 1, s =>
    match s.indexToResolve with
    | [] => .ok s.executionOrder
    | index :: rest => do
      let iterations := s.iterations + 1
      let property ← orTypeError nodePropertiesArray[index]?
      let dependencies ← orTypeError (parameterDependencies.get? property.name)
      if dependencies = [] then
        resolveLoop nodePropertiesArray parameterDependencies n { s with
          executionOrder := s.executionOrder ++ [index]
          indexToResolve := rest
          resolvedParameters := s.resolvedParameters ++ [property.name]
          iterations := iterations }
      else
        -- the index is put back once for each dependency that is missing, and added all the same
        let missing := dependencies.filter fun dependency =>
          dependency ∉ s.resolvedParameters ∧ dependency.toList.head? ≠ some '/'
        let indexToResolve := rest ++ missing.map fun _ => index
        let lastIndexReduction :=
          if indexToResolve.length < s.lastIndexLength then (iterations : ℤ)
          else s.lastIndexReduction
        if (iterations : ℤ) > lastIndexReduction + nodePropertiesArray.length then
          .error maxIterationsError
        else
          resolveLoop nodePropertiesArray parameterDependencies n {
            executionOrder := s.executionOrder ++ [index]
            indexToResolve := indexToResolve
            resolvedParameters := s.resolvedParameters ++ [property.name]
            lastIndexLength := indexToResolve.length
            lastIndexReduction := lastIndexReduction
            iterations := iterations }

/-- `getParameterResolveOrder`.  After as many turns as there are properties every name is resolved,
and after as many turns as indices were put back until then the queue shrinks no more. -/
def getParameterResolveOrder (nodePropertiesArray : List INodeProperties)
    (parameterDependencies : Dict String (List String)) : Except JsError (List ℕ) :=
  let putBack := (nodePropertiesArray.map fun p =>
    ((parameterDependencies.get? p.name).getD []).length).sum
  resolveLoop nodePropertiesArray parameterDependencies (2 * nodePropertiesArray.length + putBack + 3)
    { executionOrder := []
      indexToResolve := List.range nodePropertiesArray.length
      resolvedParameters := []
      lastIndexLength := nodePropertiesArray.length
      lastIndexReduction := -1
      iterations := 0 }

end N8n
