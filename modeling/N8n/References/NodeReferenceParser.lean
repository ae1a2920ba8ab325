import N8n.Lib.Fresh
import N8n.Lib.Substring
import N8n.Expressions.FromAi

/-!
# References to nodes in expressions

The parser of `packages/workflow/src/node-reference-parser-utils.ts`: it finds the places where an
expression reads the data of another node, and decides under which name a sub-workflow gets it.

* `AccessPattern`, `matchAll`: the ways to name a node, and where an expression uses them;
* `extractExpressionCandidate`, `parseExpressionMapping`: the expression that starts at such a place,
  and what it is to be replaced by;
* `parseReferencingExpressions`: all of them for one expression;
* `convertToUniqueJsDotName`: a node name that may stand after a dot.

A string is the list of its characters; the patterns only ask for ASCII characters.
-/

namespace N8n

/-- `ExpressionMapping`: a reference, and the variable that takes its place. -/
structure ExpressionMapping where
  nodeNameInExpression : Option (List Char)
  originalExpression : List Char
  replacementPrefix : List Char
  replacementName : List Char
  deriving DecidableEq

/-- `/\w[\w\d_\$]*/.test(part)`, which is not anchored: some character is a word character. -/
def isDotReferenceable (part : List Char) : Bool := part.any isIdentifierChar

/-- `/[^\w\d_\$]/.test(c)`, negated. -/
def isJsDotNameChar (c : Char) : Bool := isIdentifierChar c || c = '$'

/-- `/[^\.\w\d_\$]/.test(c)`, negated. -/
def isJsDotPathChar (c : Char) : Bool := c = '.' || isJsDotNameChar c

/-- `` `${name}` `` for a value that may be null. -/
def nullable (name : Option (List Char)) : List Char := name.getD "null".toList

/-! ### Accessors -/

/-- The length of the match of a pattern without special characters at the start of a text. -/
def matchLiteral (pat s : List Char) : Option ℕ := if pat <+: s then some pat.length else none

/-- `/^itemMatching\(\d+\)/`. -/
def matchItemMatching (s : List Char) : Option ℕ :=
  (matchLiteral "itemMatching(".toList s).bind fun n =>
    let digits := (s.drop n).takeWhile Char.isDigit
    if digits ≠ [] ∧ (s.drop (n + digits.length)).head? = some ')' then some (n + digits.length + 1)
    else none

/-- `ITEM_TO_DATA_ACCESSORS`: the length of the match of each pattern. -/
def ITEM_TO_DATA_ACCESSORS : List (List Char → Option ℕ) :=
  [matchLiteral "first()".toList, matchLiteral "last()".toList, matchLiteral "all()".toList,
    matchItemMatching, matchLiteral "item".toList]

/-- The match of the first accessor that matches. -/
def matchItemAccessor (s : List Char) : Option ℕ := ITEM_TO_DATA_ACCESSORS.findSome? fun x => x s

def ITEM_ACCESSORS : List (List Char) := ["params".toList, "isExecuted".toList]

def DATA_ACCESSORS : List (List Char) := ["json".toList, "binary".toList]

/-- `allNodeNames.indexOf(nodeName)` as text. -/
def indexText (nodeName : List Char) (allNodeNames : List (List Char)) : List Char :=
  if nodeName ∈ allNodeNames then Nat.toDigits 10 (allNodeNames.idxOf nodeName) else "-1".toList

/-- A node name made fit to stand after a dot, and different from all node names unless it is one
as it is. -/
def convertToUniqueJsDotName (nodeName : List Char) (allNodeNames : List (List Char)) : List Char :=
  let jsLegal := (nodeName.map fun c => if c = ' ' then '_' else c).filter isJsDotNameChar
  if nodeName = jsLegal then jsLegal
  else
    whileDo (fun s => decide (s ∈ allNodeNames)) (fun s => s ++ '_' :: indexText nodeName allNodeNames)
      allNodeNames.length jsLegal

def convertDataAccessorName (name : List Char) : List Char :=
  let pieces := name.splitOn '('
  let fnName := pieces.head?.getD []
  let key := fnName.map Char.toLower
  if key = "item".toList then fnName
  else if key = "first".toList ∨ key = "last".toList then fnName ++ "Item".toList
  else if key = "all".toList then fnName ++ "Items".toList
  else
    fnName ++ '_' :: ((pieces.drop 1).head?.map List.dropLast).getD "unknown".toList

/-! ### Expressions -/

/-- `parts.join(separator)`. -/
def joinParts (separator : Char) (parts : List (List Char)) : List Char :=
  [separator].intercalate parts

/-- `$('startNodeName').accessor`. -/
def startAccess (startNodeName accessor : List Char) : List Char :=
  "$('".toList ++ startNodeName ++ "').".toList ++ accessor

/-- What replaces an expression that starts at a reference to a node, or at `$json`. -/
def parseExpressionMapping (isolatedExpression : List Char)
    (nodeNameInExpression nodeNamePlainJs : Option (List Char)) (startNodeName : List Char) :
    Option ExpressionMapping :=
  let splitExpr := isolatedExpression.splitOn '.'
  let dotsInName := (nodeNameInExpression.getD []).count '.'
  let dotInAccessorsOffset := if "$node.".toList <+: isolatedExpression then 1 else 0
  let exprStart := joinParts '.' (splitExpr.take (dotInAccessorsOffset + dotsInName + 1))
  let parts := splitExpr.drop (dotInAccessorsOffset + dotsInName + 1)
  if exprStart = "$json".toList then
    let path := parts.takeWhile isDotReferenceable
    some {
      nodeNameInExpression := none
      originalExpression := exprStart ++ '.' :: joinParts '.' (parts.take (path.length + 1))
      replacementPrefix := exprStart
      replacementName := joinParts '_' path }
  else
    match parts with
    | [] => none
    | accessor :: rest =>
      let accessorPrefix := if accessor = "all()".toList then "first()".toList else accessor
      -- the whole item, as a variable that is named after the node
      let itemMapping : ExpressionMapping := {
        nodeNameInExpression := nodeNameInExpression
        originalExpression := exprStart ++ '.' :: accessor
        replacementPrefix := startAccess startNodeName accessorPrefix ++ ".json".toList
        replacementName := nullable nodeNamePlainJs ++ '_' :: convertDataAccessorName accessor }
      if (matchItemAccessor accessor).isSome then
        match rest with
        | [] => some itemMapping
        | data :: fields =>
          if data ∈ DATA_ACCESSORS then
            let path := fields.takeWhile isDotReferenceable
            let replacementPostfix :=
              if accessor = "item".toList then [] else '_' :: convertDataAccessorName accessor
            some {
              nodeNameInExpression := nodeNameInExpression
              originalExpression := exprStart ++ '.' :: joinParts '.' (parts.take (path.length + 3))
              replacementPrefix := startAccess startNodeName accessorPrefix ++ '.' :: data
              replacementName := joinParts '_' path ++ replacementPostfix }
          else some itemMapping
      else if accessor ∈ ITEM_ACCESSORS then
        some {
          nodeNameInExpression := nodeNameInExpression
          originalExpression := exprStart ++ '.' :: accessor
          replacementPrefix := startAccess startNodeName "first().json".toList
          replacementName := nullable nodeNamePlainJs ++ '_' :: accessor }
      else none

/-- `$('NodeName').item.json.path.to.x` in `{{ $('NodeName').item.json.path.to.x[someFunction()] }}`;
`endIndex` is positive. -/
def extractExpressionCandidate (expression : List Char) (startIndex endIndex : ℕ) :
    Option (List Char) :=
  let afterAccessorIdx :=
    match matchItemAccessor (expression.drop endIndex) with
    | some length => endIndex + length
    | none => endIndex - 1
  -- skip `.` to continue, but halt before other symbols like `[` in `all()[0]`
  let afterAccessorIdx :=
    if expression[afterAccessorIdx + 1]? = some '.' then afterAccessorIdx + 1 else afterAccessorIdx
  ((expression.drop afterAccessorIdx).findIdx? fun c => !isJsDotPathChar c).map fun index =>
    (expression.take (afterAccessorIdx + index)).drop startIndex

/-! ### Access patterns -/

/-- A match of an access pattern: where it starts, how long it is, and the node name in it. -/
structure AccessMatch where
  index : ℕ
  length : ℕ
  nodeName : List Char
  deriving DecidableEq

/-- An access pattern: the text to look for first, and the length of what it matches before and after
a node name. -/
structure AccessPattern where
  checkPattern : List Char
  opening : List Char → Option ℕ
  closing : List Char → Option ℕ

/-- `/['"]/`. -/
def isNameQuote (c : Char) : Bool := c = '\'' || c = '"'

/-- A text, and a quote after it. -/
def matchQuoted (pat s : List Char) : Option ℕ :=
  (matchLiteral pat s).bind fun n => if (s.drop n).head?.any isNameQuote then some (n + 1) else none

/-- A quote, and one of the characters `cs` after it. -/
def matchUnquoted (cs : List Char) : List Char → Option ℕ
  | quote :: c :: _ => if isNameQuote quote && c ∈ cs then some 2 else none
  | _ => none

/-- `/\.?/`. -/
def matchOptionalDot (s : List Char) : Option ℕ := if s.head? = some '.' then some 1 else some 0

def ACCESS_PATTERNS : List AccessPattern :=
  [{ checkPattern := "$(".toList
     opening := matchQuoted "$(".toList
     closing := matchUnquoted [')'] },
   { checkPattern := "$node[".toList
     opening := matchQuoted "$node[".toList
     closing := matchUnquoted [']'] },
   { checkPattern := "$node.".toList
     opening := matchLiteral "$node.".toList
     closing := matchOptionalDot },
   { checkPattern := "$items(".toList
     opening := matchQuoted "$items(".toList
     closing := matchUnquoted [',', ')'] }]

/-- The match of a pattern at the start of a text, where the names are tried in their order. -/
def AccessPattern.matchStart (pattern : AccessPattern) (nodeNames : List (List Char))
    (s : List Char) : Option (ℕ × List Char) :=
  (pattern.opening s).bind fun n =>
    nodeNames.findSome? fun name =>
      (matchLiteral name (s.drop n)).bind fun k =>
        (pattern.closing (s.drop (n + k))).map fun j => (n + k + j, name)

/-- `expression.matchAll(regexp)`: `skip` characters of the last match are still to be passed. -/
def matchAll (matchStart : List Char → Option (ℕ × List Char)) :
    ℕ → ℕ → List Char → List AccessMatch
  | _, _, [] => []
  | index, skip + 1, _ :: s => matchAll matchStart (index + 1) skip s
  | index, 0, c :: s =>
    match matchStart (c :: s) with
    | some (length, name) =>
      ⟨index, length, name⟩ :: matchAll matchStart (index + 1) (length - 1) s
    | none => matchAll matchStart (index + 1) 0 s

/-- `/\$json/i` at the start of a text. -/
def matchJson (s : List Char) : Option (ℕ × List Char) :=
  if (s.take 5).map Char.toLower = "$json".toList then some (5, []) else none

def parseCandidateMatch (expression : List Char) (nodeNames : List (List Char))
    (startNodeName : List Char) (m : AccessMatch) : Option ExpressionMapping :=
  if m.nodeName ∈ nodeNames then
    (extractExpressionCandidate expression m.index (m.index + m.length + 1)).bind fun candidate =>
      parseExpressionMapping candidate (some m.nodeName)
        (some (convertToUniqueJsDotName m.nodeName nodeNames)) startNodeName
  else none

def parseJsonMatch (expression startNodeName : List Char) (m : AccessMatch) :
    Option ExpressionMapping :=
  (extractExpressionCandidate expression m.index (m.index + m.length + 1)).bind fun candidate =>
    parseExpressionMapping candidate none none startNodeName

/-- The references of one expression, by pattern. -/
def parseReferencingExpressions (nodeNames : List (List Char)) (startNodeName : List Char)
    (parseJson : Bool) (expression : List Char) : List ExpressionMapping :=
  (ACCESS_PATTERNS.flatMap fun pattern =>
    if includes pattern.checkPattern expression then
      (matchAll (pattern.matchStart nodeNames) 0 0 expression).filterMap
        (parseCandidateMatch expression nodeNames startNodeName)
    else []) ++
  if parseJson && includes "$json".toList expression then
    (matchAll matchJson 0 0 expression).filterMap (parseJsonMatch expression startNodeName)
  else []

end N8n
