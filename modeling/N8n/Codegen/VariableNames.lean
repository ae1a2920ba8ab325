import N8n.Codegen.SemanticNames
import N8n.Lib.Fresh
import Mathlib.Data.Nat.Digits.Defs

/-!
# Variable names of nodes

`packages/@n8n/workflow-sdk/src/codegen/variable-names.ts`.

* `toVarName`: the name that the name of a node is turned into;
* `getVarName`, `getUniqueVarName`: looking a name up, and giving each node a name of its own;
* `Codegen.Separate`, `separate_getUniqueVarName`: two nodes never have one variable name.
-/

namespace N8n

namespace Codegen

def RESERVED_KEYWORDS : List String :=
  ["break", "case", "catch", "class", "const", "continue", "debugger", "default", "delete", "do",
    "else", "export", "extends", "finally", "for", "function", "if", "import", "in", "instanceof",
    "let", "new", "return", "static", "super", "switch", "this", "throw", "try", "typeof", "var",
    "void", "while", "with", "yield", "null", "true", "false", "undefined", "workflow", "trigger",
    "node", "merge", "ifElse", "switchCase", "splitInBatches", "sticky", "languageModel", "tool",
    "memory", "outputParser", "textSplitter", "embeddings", "vectorStore", "retriever", "document",
    "eval", "Function", "require", "process", "global", "globalThis", "window", "setTimeout",
    "setInterval", "setImmediate", "clearTimeout", "clearInterval", "clearImmediate", "module",
    "exports", "Buffer", "Reflect", "Proxy"]

/-! ### Names -/

/-- The value of `x | 0`. -/
def toInt32 (x : ℤ) : ℤ := (x + 2 ^ 31) % 2 ^ 32 - 2 ^ 31

def radix36Digit (d : ℕ) : Char :=
  Char.ofNat (if d < 10 then '0'.toNat + d else 'a'.toNat + (d - 10))

/-- `n.toString(36)`. -/
def radix36Text (n : ℕ) : String :=
  if n = 0 then "0" else String.ofList ((Nat.digits 36 n).reverse.map radix36Digit)

/-- A name made from a hash of the name of the node. -/
def hashFallbackName (nodeName : String) : String :=
  let hash := (JsString.ofString nodeName).foldl
    (fun hash unit => toInt32 (toInt32 (hash * 2 ^ 5) - hash + unit.toNat)) 0
  "node_" ++ radix36Text hash.natAbs

def isNameChar (c : Char) : Bool := c.isAlpha || c.isDigit

/-- One underscore in place of several. -/
def collapseUnderscores : List Char → List Char
  | [] => []
  | c :: l =>
    if c = '_' ∧ l.head? = some '_' then collapseUnderscores l else c :: collapseUnderscores l

def dropTrailingUnderscore (l : List Char) : List Char :=
  if l.getLast? = some '_' then l.dropLast else l

def lowerFirst : List Char → List Char
  | c :: l => (if c.isUpper then c.toLower else c) :: l
  | [] => []

/-- An underscore before a digit at the start, none before a letter. -/
def fixStart : List Char → List Char
  | '_' :: c :: l => if c.isAlpha then c :: l else '_' :: c :: l
  | c :: l => if c.isDigit then '_' :: c :: l else c :: l
  | [] => []

/-- The variable name that the name of a node is turned into. -/
def toVarName (nodeName : String) : String :=
  let replaced := nodeName.toList.map fun c => if isNameChar c then c else '_'
  let varName := lowerFirst (dropTrailingUnderscore (collapseUnderscores replaced))
  if varName = [] ∨ varName = ['_'] then hashFallbackName nodeName
  else
    let name := String.ofList (fixStart varName)
    if name ∈ RESERVED_KEYWORDS then name ++ "_node" else name

structure VarNameContext where
  nodeNameToVarName : Dict String String := Dict.empty
  usedVarNames : List String := []

/-- The variable name of a node, which may be another node's when none was given to it. -/
def getVarName (nodeName : String) (ctx : VarNameContext) : String :=
  (ctx.nodeNameToVarName.get? nodeName).getD (toVarName nodeName)

/-- The variable name of a node, given to it when it has none yet. -/
def getUniqueVarName (nodeName : String) (ctx : VarNameContext) : String × VarNameContext :=
  match ctx.nodeNameToVarName.get? nodeName with
  | some varName => (varName, ctx)
  | none =>
    let varName := firstFree (numberedName (toVarName nodeName)) ctx.usedVarNames
    (varName, ⟨ctx.nodeNameToVarName.set nodeName varName, ctx.usedVarNames ++ [varName]⟩)

/-- Names are given to all of the nodes. -/
def registerAll (nodeNames : List String) (ctx : VarNameContext) : VarNameContext :=
  nodeNames.foldl (fun ctx nodeName => (getUniqueVarName nodeName ctx).2) ctx

/-! ### Each node has a name of its own -/

theorem numberedName_injective (base : String) : Function.Injective (numberedName base) := by
  intro i j h
  cases i with
  | zero =>
    cases j with
    | zero => rfl
    | succ j => exact absurd h (ne_append_toString base (j + 1))
  | succ i =>
    cases j with
    | zero => exact absurd h.symm (ne_append_toString base (i + 1))
    | succ j => exact append_toString_injective base h

/-- No variable name belongs to two nodes, and the ones given are marked as used. -/
structure Separate (ctx : VarNameContext) : Prop where
  injective : ∀ n n' v, ctx.nodeNameToVarName.get? n = some v →
    ctx.nodeNameToVarName.get? n' = some v → n = n'
  used : ∀ n v, ctx.nodeNameToVarName.get? n = some v → v ∈ ctx.usedVarNames
  ne_empty : ∀ n v, ctx.nodeNameToVarName.get? n = some v → v ≠ ""

theorem separate_empty : Separate {} :=
  ⟨(fun _ _ _ h => by cases h), (fun _ _ h => by cases h), (fun _ _ h => by cases h)⟩

theorem append_ne_empty {s t : String} (h : s ≠ "") : s ++ t ≠ "" := by
  intro heq
  exact h (String.append_eq_empty_iff.1 heq).1

theorem fixStart_ne_nil {l : List Char} (h : l ≠ []) : fixStart l ≠ [] := by
  unfold fixStart
  split
  · split_ifs <;> simp
  · split_ifs <;> simp
  · exact h

theorem toVarName_ne_empty (nodeName : String) : toVarName nodeName ≠ "" := by
  unfold toVarName
  dsimp only
  split_ifs with hempty
  · unfold hashFallbackName
    exact append_ne_empty (by decide)
  · exact append_ne_empty fun h => fixStart_ne_nil (fun hnil => hempty (.inl hnil))
      (String.ofList_inj.1 (h.trans rfl))
  · exact fun h => fixStart_ne_nil (fun hnil => hempty (.inl hnil))
      (String.ofList_inj.1 (h.trans rfl))

theorem numberedName_ne_empty {base : String} (h : base ≠ "") (i : ℕ) :
    numberedName base i ≠ "" := by
  cases i with
  | zero => exact h
  | succ i => exact append_ne_empty h

theorem separate_getUniqueVarName {ctx : VarNameContext} (h : Separate ctx) (nodeName : String) :
    Separate (getUniqueVarName nodeName ctx).2 := by
  unfold getUniqueVarName
  cases hname : ctx.nodeNameToVarName.get? nodeName with
  | some varName => exact h
  | none =>
    have hfree := firstFree_not_mem (numberedName_injective (toVarName nodeName)) ctx.usedVarNames
    have hne : firstFree (numberedName (toVarName nodeName)) ctx.usedVarNames ≠ "" :=
      numberedName_ne_empty (toVarName_ne_empty nodeName) _
    generalize firstFree (numberedName (toVarName nodeName)) ctx.usedVarNames = varName at hfree hne
    have hget : ∀ n v, (ctx.nodeNameToVarName.set nodeName varName).get? n = some v →
        n = nodeName ∧ v = varName ∨ n ≠ nodeName ∧ ctx.nodeNameToVarName.get? n = some v := by
      intro n v hv
      rw [Dict.get?_set] at hv
      split_ifs at hv with hn
      · exact .inl ⟨hn, (Option.some.inj hv).symm⟩
      · exact .inr ⟨hn, hv⟩
    constructor
    · intro n n' v hv hv'
      rcases hget n v hv with ⟨rfl, rfl⟩ | ⟨-, hold⟩
      · rcases hget n' v hv' with ⟨rfl, -⟩ | ⟨-, hold'⟩
        · rfl
        · exact absurd (h.used n' v hold') hfree
      · rcases hget n' v hv' with ⟨rfl, rfl⟩ | ⟨-, hold'⟩
        · exact absurd (h.used n v hold) hfree
        · exact h.injective n n' v hold hold'
    · intro n v hv
      rcases hget n v hv with ⟨-, rfl⟩ | ⟨-, hold⟩
      · simp
      · exact List.mem_append_left _ (h.used n v hold)
    · intro n v hv
      rcases hget n v hv with ⟨-, rfl⟩ | ⟨-, hold⟩
      · exact hne
      · exact h.ne_empty n v hold

/-- A name that was given is not given again. -/
theorem getUniqueVarName_of_get? {ctx : VarNameContext} {nodeName varName : String}
    (h : ctx.nodeNameToVarName.get? nodeName = some varName) :
    getUniqueVarName nodeName ctx = (varName, ctx) := by
  unfold getUniqueVarName
  rw [h]

theorem isSome_getUniqueVarName (ctx : VarNameContext) (nodeName n : String) :
    ((getUniqueVarName nodeName ctx).2.nodeNameToVarName.get? n).isSome ↔
      n = nodeName ∨ (ctx.nodeNameToVarName.get? n).isSome := by
  unfold getUniqueVarName
  cases hname : ctx.nodeNameToVarName.get? nodeName with
  | some varName =>
    refine ⟨.inr, fun h => h.elim (fun heq => ?_) id⟩
    rw [heq, hname]
    rfl
  | none =>
    rw [Dict.get?_set]
    split_ifs with hn
    · simp [hn]
    · simp [hn]

/-- All nodes have names after names were given to them. -/
theorem registerAll_spec (nodeNames : List String) {ctx : VarNameContext} (h : Separate ctx) :
    Separate (registerAll nodeNames ctx) ∧ ∀ n,
      ((registerAll nodeNames ctx).nodeNameToVarName.get? n).isSome ↔
        n ∈ nodeNames ∨ (ctx.nodeNameToVarName.get? n).isSome := by
  induction nodeNames generalizing ctx with
  | nil => exact ⟨h, fun n => by simp [registerAll]⟩
  | cons nodeName nodeNames ih =>
    obtain ⟨hseparate, hsome⟩ := ih (separate_getUniqueVarName h nodeName)
    refine ⟨hseparate, fun n => ?_⟩
    change ((registerAll nodeNames (getUniqueVarName nodeName ctx).2).nodeNameToVarName.get? n).isSome
      ↔ _
    rw [hsome, isSome_getUniqueVarName, List.mem_cons]
    tauto

end Codegen

end N8n
