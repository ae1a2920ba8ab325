import N8n.Codegen.BuiltGraphs

/-!
# Which generated code declares before it uses

* `Codegen.DeclaresBeforeUse`: the variables of an initial value are declared before it;
* `Codegen.Referenced`, `Orderly`: the sub-nodes that the code of a node names, and a condition on
  the graph and the nodes that are declared;
* `Codegen.generateCode_declares`: orderly graphs give such code, and other graphs do not, unless the
  code leaves connections out.
-/

namespace N8n

namespace Codegen

/-- Every variable of an initial value is declared by an earlier declaration. -/
def DeclaresBeforeUse (declarations : List Declaration) : Prop :=
  ∀ pre d post, declarations = pre ++ d :: post → ∀ v ∈ d.initializer.variableNames,
    v ∈ pre.map Declaration.varName

/-! ### The sub-nodes that the code of a node names -/

/-- The sub-nodes of one type that the code of a node names: all of them where an array can stand,
else the first one. -/
def referencedOf (node : SemanticNode) (connType : String) : List String :=
  let subs := (node.subnodes.filter fun sub =>
    sub.subnodeName ≠ node.name ∧ sub.connectionType = connType).map SubnodeConnection.subnodeName
  if connType ∈ aiAlwaysArrayTypes ∨ connType ∈ aiOptionalArrayTypes then subs else subs.take 1

def Referenced (node : SemanticNode) (d : String) : Prop := ∃ connType, d ∈ referencedOf node connType

theorem Referenced.ne_name {node : SemanticNode} {d : String} (h : Referenced node d) :
    d ≠ node.name ∧ ∃ sub ∈ node.subnodes, sub.subnodeName = d := by
  obtain ⟨connType, h⟩ := h
  have hmem : d ∈ (node.subnodes.filter fun sub =>
      sub.subnodeName ≠ node.name ∧ sub.connectionType = connType).map
        SubnodeConnection.subnodeName := by
    unfold referencedOf at h
    dsimp only at h
    split_ifs at h
    · exact h
    · exact List.mem_of_mem_take h
  obtain ⟨sub, hsub, rfl⟩ := List.mem_map.1 hmem
  obtain ⟨hsub, hprop⟩ := List.mem_filter.1 hsub
  exact ⟨(of_decide_eq_true hprop).1, sub, hsub, rfl⟩

section Config

variable {α : Type}

theorem get?_groupSubnodes (f : SubnodeConnection → α) (node : SemanticNode) (connType : String) :
    ((groupSubnodes (fun sub => some (f sub)) node).get? connType).getD [] =
      (node.subnodes.filter fun sub =>
        sub.subnodeName ≠ node.name ∧ sub.connectionType = connType).map
          fun sub => (f sub, sub.index) := by
  have hfold : ∀ (subs : List SubnodeConnection) (grouped : Dict String (List (α × ℕ))),
      ((subs.foldl (fun grouped sub =>
        if sub.subnodeName = node.name then grouped
        else grouped.set sub.connectionType
          ((grouped.get? sub.connectionType).getD [] ++ [(f sub, sub.index)])) grouped).get?
            connType).getD [] =
        (grouped.get? connType).getD [] ++ (subs.filter fun sub =>
          sub.subnodeName ≠ node.name ∧ sub.connectionType = connType).map
            fun sub => (f sub, sub.index) := by
    intro subs
    induction subs with
    | nil => simp
    | cons sub subs ih =>
      intro grouped
      rw [List.foldl_cons, ih]
      by_cases hself : sub.subnodeName = node.name
      · simp [hself]
      · by_cases htype : sub.connectionType = connType
        · subst htype
          simp [hself]
        · rw [if_neg hself, Dict.get?_set_ne _ _ (Ne.symm htype)]
          simp [hself, htype]
  have hstart := hfold node.subnodes Dict.empty
  rw [Dict.get?_empty, Option.getD_none, List.nil_append] at hstart
  exact hstart

/-- The values under one key. -/
theorem values_configValue? (connType : String) (entries : List (α × ℕ)) :
    ((configValue? connType entries).elim [] ConfigValue.values) =
      if connType ∈ aiAlwaysArrayTypes ∨ connType ∈ aiOptionalArrayTypes then entries.map Prod.fst
      else (entries.map Prod.fst).take 1 := by
  cases entries with
  | nil => simp [configValue?]
  | cons first rest =>
    unfold configValue?
    dsimp only
    by_cases halways : connType ∈ aiAlwaysArrayTypes
    · simp [halways, ConfigValue.values]
    · by_cases hoptional : connType ∈ aiOptionalArrayTypes
      · rw [if_neg halways, if_pos hoptional, if_pos (Or.inr hoptional)]
        by_cases hrest : rest = []
        · simp [hrest, ConfigValue.values]
        · rw [if_neg hrest]
          split_ifs <;> simp [ConfigValue.values]
      · simp [halways, hoptional, ConfigValue.values]

theorem mem_configEntries {grouped : Dict String (List (α × ℕ))} {a : α} :
    a ∈ (configEntries grouped.entries).flatMap (fun e => e.2.values) ↔ ∃ connType,
      a ∈ (configValue? connType ((grouped.get? connType).getD [])).elim [] ConfigValue.values := by
  constructor
  · intro h
    obtain ⟨e, he, ha⟩ := List.mem_flatMap.1 h
    obtain ⟨⟨connType, entries⟩, hentry, hvalue⟩ := List.mem_filterMap.1 he
    obtain ⟨value, hsome, rfl⟩ := Option.map_eq_some_iff.1 hvalue
    refine ⟨connType, ?_⟩
    rw [(grouped.mem_entries_iff connType entries).1 hentry, Option.getD_some, hsome]
    exact ha
  · rintro ⟨connType, ha⟩
    cases hentry : grouped.get? connType with
    | none =>
      rw [hentry] at ha
      cases ha
    | some entries =>
      rw [hentry, Option.getD_some] at ha
      cases hvalue : configValue? connType entries with
      | none =>
        rw [hvalue] at ha
        cases ha
      | some value =>
        rw [hvalue] at ha
        refine List.mem_flatMap.2 ⟨(aiConnectionToConfigKey connType, value), ?_, ha⟩
        refine List.mem_filterMap.2 ⟨(connType, entries), ?_, ?_⟩
        · exact (grouped.mem_entries_iff connType entries).2 hentry
        · exact Option.map_eq_some_iff.2 ⟨value, hvalue, rfl⟩

end Config

/-- **The variables that the code of a node holds for its sub-nodes.** -/
theorem mem_generateSubnodesConfigWithVarRefs {node : SemanticNode} {names : VarNameContext}
    {v : String} :
    v ∈ (generateSubnodesConfigWithVarRefs node names).flatMap (fun e => e.2.values) ↔
      ∃ d, Referenced node d ∧ v = getVarName d names := by
  have htype : ∀ connType, (configValue? connType (((groupSubnodes
      (fun sub => some (getVarName sub.subnodeName names)) node).get? connType).getD [])).elim []
        ConfigValue.values = (referencedOf node connType).map fun d => getVarName d names := by
    intro connType
    rw [values_configValue?, get?_groupSubnodes, referencedOf]
    split_ifs
    · simp [List.map_map, Function.comp_def]
    · rw [List.map_take, List.map_map, List.map_map]
      rfl
  unfold generateSubnodesConfigWithVarRefs Referenced
  rw [mem_configEntries]
  simp only [htype, List.mem_map]
  constructor
  · rintro ⟨connType, d, hd, rfl⟩
    exact ⟨d, ⟨connType, hd⟩, rfl⟩
  · rintro ⟨d, ⟨connType, hd⟩, rfl⟩
    exact ⟨connType, d, hd, rfl⟩

/-! ### The order of collecting -/

section Collected

variable (graph : WorkflowGraph) (variableNodes : Dict String SemanticNode)

/-- The sub-nodes of the node of this name. -/
def subnodesOf (name : String) : List SubnodeConnection :=
  (graph.nodes.get? name).elim [] (·.subnodes)

/-- The names of these sub-nodes. -/
def subnodeNames (name : String) : List String :=
  PostOrder.ends (subnodesOf graph) SubnodeConnection.subnodeName name

/-- A sub-node that is no node of the main flow. -/
def Collected (d : String) : Prop :=
  variableNodes.has d = false ∧ ∃ a, d ∈ subnodeNames graph a

variable {graph variableNodes}

theorem mem_subnodeNames {a d : String} : d ∈ subnodeNames graph a ↔
    ∃ node, graph.nodes.get? a = some node ∧ ∃ sub ∈ node.subnodes, sub.subnodeName = d := by
  unfold subnodeNames PostOrder.ends subnodesOf
  cases graph.nodes.get? a with
  | none => simp
  | some node => simp

theorem has_of_mem_subnodeNames {a d : String} (h : d ∈ subnodeNames graph a) :
    graph.nodes.has a = true ∧ graph.nodes.has d = true := by
  obtain ⟨node, hnode, sub, hsub, rfl⟩ := mem_subnodeNames.1 h
  exact ⟨by simp [Dict.has, hnode], graph.subnodes_exist a node hnode sub hsub⟩

theorem mem_keys_iff_has {name : String} : name ∈ graph.nodes.keys ↔ graph.nodes.has name = true :=
  Dict.mem_keys_iff _ _

/-- **The collected sub-nodes**: each comes after those of its own sub-nodes that are collected and
do not reach it. -/
theorem collectSubnodesAsVariables_spec :
    (∀ d, d ∈ (collectSubnodesAsVariables graph variableNodes).keys ↔
      Collected graph variableNodes d) ∧
    ∀ pre n post, (collectSubnodesAsVariables graph variableNodes).keys = pre ++ n :: post →
      ∀ d ∈ subnodeNames graph n, variableNodes.has d = false →
        d ∈ pre ∨ Dfs.Reaches (subnodeNames graph) d n := by
  have hclosed : ∀ a ∈ graph.nodes.keys, ∀ d ∈ subnodeNames graph a, d ∈ graph.nodes.keys :=
    fun a _ d hd => mem_keys_iff_has.2 (has_of_mem_subnodeNames hd).2
  obtain ⟨hordered, hmem⟩ : PostOrder.Ordered (subnodesOf graph) SubnodeConnection.subnodeName
      (fun name => !graph.nodes.has name || variableNodes.has name)
      (collectSubnodesAsVariables graph variableNodes).keys ∧
      ∀ d, d ∈ (collectSubnodesAsVariables graph variableNodes).keys ↔
        (!graph.nodes.has d || variableNodes.has d) = false ∧
          ∃ a ∈ graph.nodes.keys, d ∈ subnodeNames graph a := by
    refine PostOrder.collectAll_spec (fun b t hskip => ?_) hclosed (Nat.lt_succ_self _) rfl
    have hhas : graph.nodes.has b.subnodeName = true := by
      simpa using (Bool.or_eq_false_iff.1 hskip).1
    obtain ⟨node, hnode⟩ := Option.isSome_iff_exists.1 hhas
    rw [hnode, Dict.keys_set]
  constructor
  · intro d
    refine (hmem d).trans ⟨?_, ?_⟩
    · rintro ⟨hskip, a, -, hd⟩
      exact ⟨(Bool.or_eq_false_iff.1 hskip).2, a, hd⟩
    · rintro ⟨hnot, a, hd⟩
      obtain ⟨ha, hhas⟩ := has_of_mem_subnodeNames hd
      exact ⟨by simp [hnot, hhas], a, mem_keys_iff_has.2 ha, hd⟩
  · intro pre n post heq d hd hnot
    refine hordered pre n post heq d hd ?_
    simp [hnot, (has_of_mem_subnodeNames hd).2]

/-- A collected sub-node is the node of its name. -/
theorem get?_of_collectSubnodesAsVariables {d : String} {entry : SemanticNode × String}
    (h : (collectSubnodesAsVariables graph variableNodes).get? d = some entry) :
    graph.nodes.get? d = some entry.1 := by
  unfold collectSubnodesAsVariables at h
  revert d entry
  refine PostOrder.collectAll_induction
    (fun t : Dict String (SemanticNode × String) => ∀ {d entry}, t.get? d = some entry →
      graph.nodes.get? d = some entry.1) (fun b t ht d entry h => ?_) _ _ ?_
  · cases hnode : graph.nodes.get? b.subnodeName with
    | none =>
      rw [hnode] at h
      exact ht h
    | some node =>
      rw [hnode, Dict.get?_set] at h
      split_ifs at h with hname
      · cases h
        rw [hname, hnode]
      · exact ht h
  · intro d entry h
    cases h

end Collected

/-! ### The declarations, node by node -/

section Declarations

variable {graph : WorkflowGraph}

/-- The names given to the nodes of a graph. -/
def graphNames (graph : WorkflowGraph) : VarNameContext := registerAll graph.nodes.keys {}

theorem getUniqueVarName_graphNames {name : String} (h : graph.nodes.has name = true) :
    getUniqueVarName name (graphNames graph) = (getVarName name (graphNames graph), graphNames graph) ∧
      (graphNames graph).nodeNameToVarName.get? name = some (getVarName name (graphNames graph)) := by
  have hsome := ((registerAll_spec graph.nodes.keys separate_empty).2 name).2
    (.inl (mem_keys_iff_has.2 h))
  obtain ⟨v, hv⟩ := Option.isSome_iff_exists.1 hsome
  have hname : getVarName name (graphNames graph) = v := by
    unfold getVarName graphNames
    rw [hv]
    rfl
  rw [hname]
  exact ⟨getUniqueVarName_of_get? hv, hv⟩

theorem getVarName_inj {n n' : String} (hn : graph.nodes.has n = true)
    (hn' : graph.nodes.has n' = true)
    (h : getVarName n (graphNames graph) = getVarName n' (graphNames graph)) : n = n' := by
  refine (registerAll_spec graph.nodes.keys separate_empty).1.injective n n' _
    (getUniqueVarName_graphNames hn).2 ?_
  rw [h]
  exact (getUniqueVarName_graphNames hn').2

theorem getVarName_ne_empty {n : String} (hn : graph.nodes.has n = true) :
    getVarName n (graphNames graph) ≠ "" :=
  (registerAll_spec graph.nodes.keys separate_empty).1.ne_empty n _
    (getUniqueVarName_graphNames hn).2

theorem generateSubnodeVariableDeclarations_eq (entries : List (String × SemanticNode × String))
    (h : ∀ e ∈ entries, graph.nodes.has e.1 = true) :
    generateSubnodeVariableDeclarations entries (graphNames graph) =
      (entries.map fun e => ⟨getVarName e.1 (graphNames graph), .subnode e.2.2 e.2.1.type
        (generateSubnodesConfigWithVarRefs e.2.1 (graphNames graph))⟩, graphNames graph) := by
  induction entries with
  | nil => rfl
  | cons e entries ih =>
    obtain ⟨nodeName, node, builderName⟩ := e
    have hname := (getUniqueVarName_graphNames (h _ List.mem_cons_self)).1
    unfold generateSubnodeVariableDeclarations
    rw [hname]
    dsimp only
    rw [ih fun e he => h e (List.mem_cons_of_mem _ he)]
    rfl

/-- The declarations of nodes, one for each. -/
theorem forall₂_generateVariableDeclarations {stack : ℕ}
    {subnodeVariables : Dict String (SemanticNode × String)}
    {entries : List (String × SemanticNode)} {declarations : List Declaration}
    (hhas : ∀ e ∈ entries, graph.nodes.has e.1 = true)
    (h : generateVariableDeclarations graph stack subnodeVariables entries (graphNames graph) =
      .ok declarations) :
    List.Forall₂ (fun e d => d.varName = getVarName e.1 (graphNames graph) ∧
      generateNodeCall graph stack subnodeVariables e.2 (graphNames graph) = .ok d.initializer)
      entries declarations := by
  induction entries generalizing declarations with
  | nil =>
    cases h
    exact .nil
  | cons e entries ih =>
    obtain ⟨nodeName, node⟩ := e
    have hname := (getUniqueVarName_graphNames (hhas _ List.mem_cons_self)).1
    unfold generateVariableDeclarations at h
    rw [hname] at h
    dsimp only at h
    obtain ⟨call, hcall, h⟩ := Except.bind_eq_ok_iff.1 h
    obtain ⟨rest, hrest, h⟩ := Except.bind_eq_ok_iff.1 h
    cases h
    exact .cons ⟨rfl, hcall⟩ (ih (fun e he => hhas e (List.mem_cons_of_mem _ he)) hrest)

end Declarations

/-! ### From declarations to nodes -/

/-- What a node uses comes before it in the list. -/
def UsedBefore (uses : String → String → Prop) (names : List String) : Prop :=
  ∀ pre n post, names = pre ++ n :: post → ∀ u, uses n u → u ∈ pre

/-- A declaration stands for a node: it has the variable of the node and holds those of the nodes
that the node uses. -/
def StandsFor (graph : WorkflowGraph) (uses : String → String → Prop)
    (p : String × Declaration) : Prop :=
  graph.nodes.has p.1 = true ∧ p.2.varName = getVarName p.1 (graphNames graph) ∧
    ∀ v, v ∈ p.2.initializer.variableNames ↔
      ∃ u, uses p.1 u ∧ v = getVarName u (graphNames graph)

section Uses

variable {graph : WorkflowGraph} {uses : String → String → Prop} {l : List (String × Declaration)}

omit graph in
/-- What a member uses comes before it. -/
theorem UsedBefore.idxOf_lt {names : List String} (h : UsedBefore uses names) {n u : String}
    (hn : n ∈ names) (hu : uses n u) : names.idxOf u < names.idxOf n := by
  obtain ⟨pre, post, rfl, hpre⟩ := List.eq_append_cons_of_mem hn
  have hmem := h pre n post rfl u hu
  rw [List.idxOf_append_of_mem hmem, List.idxOf_append_of_notMem hpre, List.idxOf_cons_self]
  exact Nat.lt_of_lt_of_le (List.idxOf_lt_length_of_mem hmem) (Nat.le_add_right _ _)

omit graph in
theorem UsedBefore.mem {names : List String} (h : UsedBefore uses names) {n u : String}
    (hn : n ∈ names) (hu : uses n u) : u ∈ names := by
  obtain ⟨pre, post, rfl⟩ := List.append_of_mem hn
  exact List.mem_append_left _ (h pre n post rfl u hu)

/-- A list of declarations that stand for nodes, and the declaration of the workflow. -/
theorem declaresBeforeUse_iff (huses : ∀ n u, uses n u → graph.nodes.has u = true)
    (hl : ∀ p ∈ l, StandsFor graph uses p) :
    DeclaresBeforeUse (l.map Prod.snd ++ [⟨"wf", .workflow⟩]) ↔
      UsedBefore uses (l.map Prod.fst) := by
  constructor
  · intro h pre n post heq u hu
    obtain ⟨l₁, l₂, rfl, rfl, hcons⟩ := List.map_eq_append_iff.1 heq
    obtain ⟨p, l₃, rfl, rfl, rfl⟩ := List.map_eq_cons_iff.1 hcons
    obtain ⟨-, -, hvars⟩ := hl p (by simp)
    have hmem := h (l₁.map Prod.snd) p.2 (l₃.map Prod.snd ++ [⟨"wf", .workflow⟩]) (by simp) _
      ((hvars _).2 ⟨u, hu, rfl⟩)
    rw [List.map_map] at hmem
    obtain ⟨q, hq, hqu⟩ := List.mem_map.1 hmem
    obtain ⟨hqhas, hqname, -⟩ := hl q (by simp [hq])
    have hsame : q.1 = u := getVarName_inj hqhas (huses _ u hu) (hqname.symm.trans hqu)
    exact hsame ▸ List.mem_map_of_mem hq
  · intro h pre d post heq v hv
    rcases List.eq_nil_or_concat post with rfl | ⟨post, last, rfl⟩
    · -- the last declaration uses no variables
      obtain ⟨-, hd⟩ := List.append_inj' heq rfl
      cases hd
      cases hv
    · rw [List.concat_eq_append, ← List.cons_append, ← List.append_assoc] at heq
      obtain ⟨heq, -⟩ := List.append_inj' heq rfl
      obtain ⟨l₁, l₂, rfl, rfl, hcons⟩ := List.map_eq_append_iff.1 heq
      obtain ⟨p, l₃, rfl, rfl, rfl⟩ := List.map_eq_cons_iff.1 hcons
      obtain ⟨-, -, hvars⟩ := hl p (by simp)
      obtain ⟨u, hu, rfl⟩ := (hvars v).1 hv
      have hmem := h (l₁.map Prod.fst) p.1 (l₃.map Prod.fst) (by simp) u hu
      obtain ⟨q, hq, rfl⟩ := List.mem_map.1 hmem
      rw [List.map_map]
      exact List.mem_map.2 ⟨q, hq, (hl q (by simp [hq])).2.1⟩

omit graph in
theorem usedBefore_append {names names' : List String} :
    UsedBefore uses (names ++ names') ↔ UsedBefore uses names ∧
      ∀ pre n post, names' = pre ++ n :: post → ∀ u, uses n u → u ∈ names ∨ u ∈ pre := by
  constructor
  · intro h
    refine ⟨fun pre n post heq u hu => ?_, fun pre n post heq u hu => ?_⟩
    · exact h pre n (post ++ names') (by rw [heq]; simp) u hu
    · exact List.mem_append.1 (h (names ++ pre) n post (by rw [heq]; simp) u hu)
  · rintro ⟨hfirst, hsecond⟩ pre n post heq u hu
    rcases List.append_eq_append_iff.1 heq with ⟨l, rfl, hl⟩ | ⟨l, rfl, hl⟩
    · exact List.mem_append.2 (hsecond l n post hl u hu)
    · cases l with
      | nil =>
        have hmem := hsecond [] n post (by simpa using hl.symm) u hu
        simpa using hmem
      | cons x l =>
        obtain ⟨rfl, rfl⟩ := List.cons.inj hl
        exact hfirst pre n l rfl u hu

end Uses

/-! ### The theorem -/

section Theorem

variable (graph : WorkflowGraph) (tree : CompositeVariables graph)

/-- The nodes whose variables occur in the declaration of a node of the main flow. -/
def NodeUses (node : SemanticNode) (u : String) : Prop :=
  if isStickyNote node.type then ∃ l, nodesInsideSticky graph node = .ok l ∧ u ∈ l
  else if isMergeType node.type then False
  else (∃ d, Collected graph tree.entries d) ∧ Referenced node u

/-- The nodes whose variables occur in the declaration of a node. -/
def Uses (n u : String) : Prop :=
  ∃ node, graph.nodes.get? n = some node ∧
    if tree.entries.has n = true then NodeUses graph tree node u
    else Collected graph tree.entries n ∧ Referenced node u

/-- Sub-nodes name no node of the main flow, and no sub-node that they belong to in turn; if there
are such sub-nodes, a node of the main flow names only earlier nodes of it; and a sticky note has
around only such sub-nodes and earlier nodes of the main flow. -/
structure Orderly : Prop where
  dual : ∀ n node, graph.nodes.get? n = some node → Collected graph tree.entries n →
    ∀ d, Referenced node d → tree.entries.has d = false
  acyclic : ∀ n node, graph.nodes.get? n = some node → Collected graph tree.entries n →
    ∀ d, Referenced node d → ¬ Dfs.Reaches (subnodeNames graph) d n
  nodes : (∃ d, Collected graph tree.entries d) → ∀ pre n node post,
    tree.entries.keys = pre ++ n :: post → graph.nodes.get? n = some node →
      isStickyNote node.type = false → isMergeType node.type = false →
        ∀ d, Referenced node d → tree.entries.has d = true → d ∈ pre
  stickies : ∀ pre n node post, tree.entries.keys = pre ++ n :: post →
    graph.nodes.get? n = some node → isStickyNote node.type = true →
      ∀ l, nodesInsideSticky graph node = .ok l →
        ∀ d ∈ l, Collected graph tree.entries d ∨ d ∈ pre

/-- The code of a sub-node leaves none of its own sub-nodes out. -/
def AllReferenced : Prop :=
  ∀ n node, graph.nodes.get? n = some node → Collected graph tree.entries n →
    ∀ d ∈ subnodeNames graph n, d ≠ n → Referenced node d

variable {graph tree}

variable {n u : String} {node : SemanticNode}

theorem Referenced.has {d : String} (hnode : graph.nodes.get? n = some node)
    (h : Referenced node d) : graph.nodes.has d = true ∧ d ≠ n ∧ d ∈ subnodeNames graph n := by
  obtain ⟨hne, sub, hsub, rfl⟩ := h.ne_name
  rw [graph.name_eq n node hnode] at hne
  exact ⟨graph.subnodes_exist n node hnode sub hsub, hne, mem_subnodeNames.2 ⟨node, hnode, sub, hsub, rfl⟩⟩

theorem has_of_mem_nodesInsideSticky {l : List String} (h : nodesInsideSticky graph node = .ok l)
    (hu : u ∈ l) : graph.nodes.has u = true := by
  unfold nodesInsideSticky at h
  obtain ⟨width, -, h⟩ := Except.bind_eq_ok_iff.1 h
  obtain ⟨height, -, h⟩ := Except.bind_eq_ok_iff.1 h
  split_ifs at h
  · cases h
    cases hu
  · cases h
    obtain ⟨e, he, rfl⟩ := List.mem_map.1 hu
    have hget := (graph.nodes.mem_entries_iff e.1 e.2).1 (List.mem_of_mem_filter he)
    simp [Dict.has, hget]

theorem Uses.has (h : Uses graph tree n u) : graph.nodes.has u = true := by
  obtain ⟨node, hnode, h⟩ := h
  split_ifs at h
  · unfold NodeUses at h
    split_ifs at h
    · obtain ⟨l, hl, hu⟩ := h
      exact has_of_mem_nodesInsideSticky hl hu
    · exact (h.2.has hnode).1
  · exact (h.2.has hnode).1

/-- The variables in the declaration of a node of the main flow. -/
theorem mem_variableNames_generateNodeCall {stack : ℕ} {call : Initializer}
    (h : generateNodeCall graph stack (collectSubnodesAsVariables graph tree.entries) node
      (graphNames graph) = .ok call) (v : String) :
    v ∈ call.variableNames ↔ ∃ u, NodeUses graph tree node u ∧ v = getVarName u (graphNames graph) := by
  have hsome : 0 < (collectSubnodesAsVariables graph tree.entries).entries.length ↔
      ∃ d, Collected graph tree.entries d := by
    rw [List.length_pos_iff_exists_mem]
    constructor
    · rintro ⟨e, he⟩
      exact ⟨e.1, (collectSubnodesAsVariables_spec.1 e.1).1 (List.mem_map_of_mem he)⟩
    · rintro ⟨d, hd⟩
      obtain ⟨e, he, -⟩ := List.mem_map.1 ((collectSubnodesAsVariables_spec.1 d).2 hd)
      exact ⟨e, he⟩
  unfold generateNodeCall at h
  unfold NodeUses
  by_cases hsticky : isStickyNote node.type = true
  · rw [if_pos hsticky] at h
    simp only [if_pos hsticky]
    obtain ⟨-, -, h⟩ := Except.bind_eq_ok_iff.1 h
    obtain ⟨vars, hvars, h⟩ := Except.bind_eq_ok_iff.1 h
    cases h
    obtain ⟨l, hl, hvars⟩ := Except.bind_eq_ok_iff.1 hvars
    cases hvars
    have hname : ∀ u ∈ l, ((graphNames graph).nodeNameToVarName.get? u).filter (· ≠ "") =
        some (getVarName u (graphNames graph)) := by
      intro u hu
      have hhas := has_of_mem_nodesInsideSticky hl hu
      rw [(getUniqueVarName_graphNames hhas).2]
      exact Option.filter_some_pos (decide_eq_true (getVarName_ne_empty hhas))
    constructor
    · intro hv
      obtain ⟨u, hu, hvar⟩ := List.mem_filterMap.1 hv
      rw [hname u hu] at hvar
      exact ⟨u, ⟨l, hl, hu⟩, (Option.some.inj hvar).symm⟩
    · rintro ⟨u, ⟨l', hl', hu⟩, rfl⟩
      rw [hl] at hl'
      cases hl'
      exact List.mem_filterMap.2 ⟨u, hu, hname u hu⟩
  · rw [if_neg hsticky] at h
    simp only [if_neg hsticky]
    by_cases hmerge : isMergeType node.type = true
    · rw [if_pos hmerge] at h
      cases h
      simp [hmerge, Initializer.variableNames]
    · rw [if_neg hmerge] at h
      simp only [if_neg hmerge]
      generalize (if isTriggerType node.type = true then "trigger" else "node") = factory at h
      unfold generateNodeConfig at h
      split_ifs at h with hlength
      · cases h
        simp only [hsome.1 hlength, true_and]
        exact mem_generateSubnodesConfigWithVarRefs
      · obtain ⟨subnodes, -, h⟩ := Except.bind_eq_ok_iff.1 h
        cases h
        constructor
        · intro hv
          cases hv
        · rintro ⟨u, ⟨hcollected, -⟩, -⟩
          exact absurd (hsome.2 hcollected) hlength

/-! #### The declarations of sub-nodes -/

theorem uses_of_collected (hn : Collected graph tree.entries n)
    (hnode : graph.nodes.get? n = some node) (h : Referenced node u) : Uses graph tree n u := by
  refine ⟨node, hnode, ?_⟩
  rw [if_neg (by rw [hn.1]; exact Bool.false_ne_true)]
  exact ⟨hn, h⟩

/-- The names of the collected sub-nodes come in the order of what they use. -/
theorem usedBefore_collected (h : Orderly graph tree) :
    UsedBefore (Uses graph tree) (collectSubnodesAsVariables graph tree.entries).keys := by
  intro pre n post heq u hu
  have hn : Collected graph tree.entries n :=
    (collectSubnodesAsVariables_spec.1 n).1 (by rw [heq]; simp)
  obtain ⟨node, hnode, hu⟩ := hu
  rw [if_neg (by rw [hn.1]; exact Bool.false_ne_true)] at hu
  have hedge := (hu.2.has hnode).2.2
  refine (collectSubnodesAsVariables_spec.2 pre n post heq u hedge
    (h.dual n node hnode hn u hu.2)).resolve_right ?_
  exact h.acyclic n node hnode hn u hu.2

/-- What a collected sub-node leads to is a collected sub-node that comes before it, or itself, if
nothing is left out. -/
theorem idxOf_le_of_reaches (hall : AllReferenced graph tree)
    (hused : UsedBefore (Uses graph tree) (collectSubnodesAsVariables graph tree.entries).keys)
    {d : String} (hn : n ∈ (collectSubnodesAsVariables graph tree.entries).keys)
    (h : Dfs.Reaches (subnodeNames graph) n d) :
    d ∈ (collectSubnodesAsVariables graph tree.entries).keys ∧
      (collectSubnodesAsVariables graph tree.entries).keys.idxOf d ≤
        (collectSubnodesAsVariables graph tree.entries).keys.idxOf n := by
  induction h with
  | refl => exact ⟨hn, le_refl _⟩
  | @tail b c _ hedge ih =>
    obtain ⟨hb, hle⟩ := ih
    by_cases hself : c = b
    · exact hself ▸ ⟨hb, hle⟩
    · have hcollected := (collectSubnodesAsVariables_spec.1 b).1 hb
      obtain ⟨node, hnode, -⟩ := mem_subnodeNames.1 hedge
      have huses : Uses graph tree b c := uses_of_collected hcollected hnode
        (hall b node hnode hcollected c hedge hself)
      exact ⟨hused.mem hb huses, (hused.idxOf_lt hb huses).le.trans hle⟩

/-- **The order of the names of all declarations.** -/
theorem usedBefore_iff : (Orderly graph tree → UsedBefore (Uses graph tree)
      ((collectSubnodesAsVariables graph tree.entries).keys ++ tree.entries.keys)) ∧
    (AllReferenced graph tree → UsedBefore (Uses graph tree)
      ((collectSubnodesAsVariables graph tree.entries).keys ++ tree.entries.keys) →
        Orderly graph tree) := by
  rw [usedBefore_append]
  constructor
  · intro h
    refine ⟨usedBefore_collected h, ?_⟩
    rintro pre n post heq u ⟨node, hnode, hu⟩
    have hn : tree.entries.has n = true := (Dict.mem_keys_iff _ _).1 (by rw [heq]; simp)
    rw [if_pos hn] at hu
    unfold NodeUses at hu
    rw [collectSubnodesAsVariables_spec.1]
    split_ifs at hu with hsticky hmerge
    · obtain ⟨l, hl, hu⟩ := hu
      exact h.stickies pre n node post heq hnode hsticky l hl u hu
    · by_cases hmain : tree.entries.has u = true
      · exact .inr (h.nodes hu.1 pre n node post heq hnode (Bool.not_eq_true _ ▸ hsticky)
          (Bool.not_eq_true _ ▸ hmerge) u hu.2 hmain)
      · exact .inl ⟨Bool.not_eq_true _ ▸ hmain, n, (hu.2.has hnode).2.2⟩
  · rintro hall ⟨hfirst, hsecond⟩
    have hmem : ∀ d, d ∈ (collectSubnodesAsVariables graph tree.entries).keys ↔
        Collected graph tree.entries d := collectSubnodesAsVariables_spec.1
    constructor
    · intro n node hnode hn d hd
      exact ((hmem d).1 (hfirst.mem ((hmem n).2 hn) (uses_of_collected hn hnode hd))).1
    · intro n node hnode hn d hd hreach
      have huses := uses_of_collected hn hnode hd
      have hlt := hfirst.idxOf_lt ((hmem n).2 hn) huses
      have hle := (idxOf_le_of_reaches hall hfirst (hfirst.mem ((hmem n).2 hn) huses) hreach).2
      exact absurd hlt hle.not_gt
    · intro hsome pre n node post heq hnode hsticky hmerge d hd hmain
      have hn : tree.entries.has n = true := (Dict.mem_keys_iff _ _).1 (by rw [heq]; simp)
      have huses : Uses graph tree n d := by
        refine ⟨node, hnode, ?_⟩
        rw [if_pos hn]
        unfold NodeUses
        rw [hsticky, hmerge, if_neg Bool.false_ne_true, if_neg Bool.false_ne_true]
        exact ⟨hsome, hd⟩
      refine (hsecond pre n post heq d huses).resolve_left fun h => ?_
      rw [((hmem d).1 h).1] at hmain
      cases hmain
    · intro pre n node post heq hnode hsticky l hl d hd
      have hn : tree.entries.has n = true := (Dict.mem_keys_iff _ _).1 (by rw [heq]; simp)
      have huses : Uses graph tree n d := by
        refine ⟨node, hnode, ?_⟩
        rw [if_pos hn]
        unfold NodeUses
        rw [if_pos hsticky]
        exact ⟨l, hl, hd⟩
      exact (hsecond pre n post heq d huses).imp_left (hmem d).1

/-- The declarations stand for the collected sub-nodes and the nodes of the main flow. -/
theorem generateCode_standsFor {stack : ℕ} {declarations : List Declaration}
    (h : generateCode graph tree stack = .ok declarations) :
    ∃ l : List (String × Declaration), declarations = l.map Prod.snd ++ [⟨"wf", .workflow⟩] ∧
      l.map Prod.fst = (collectSubnodesAsVariables graph tree.entries).keys ++ tree.entries.keys ∧
      ∀ p ∈ l, StandsFor graph (Uses graph tree) p := by
  have hsubnodes : ∀ e ∈ (collectSubnodesAsVariables graph tree.entries).entries,
      Collected graph tree.entries e.1 ∧ graph.nodes.get? e.1 = some e.2.1 := fun e he =>
    ⟨(collectSubnodesAsVariables_spec.1 e.1).1 (List.mem_map_of_mem he),
      get?_of_collectSubnodesAsVariables ((Dict.mem_entries_iff _ e.1 e.2).1 he)⟩
  have hnodes : ∀ e ∈ tree.entries.entries, tree.entries.has e.1 = true ∧
      graph.nodes.get? e.1 = some e.2 := by
    intro e he
    have hget := (tree.entries.mem_entries_iff e.1 e.2).1 he
    exact ⟨by simp [Dict.has, hget], tree.of_graph e.1 e.2 hget⟩
  unfold generateCode at h
  dsimp only at h
  rw [show registerAll graph.nodes.keys {} = graphNames graph from rfl] at h
  rw [generateSubnodeVariableDeclarations_eq _ fun e he => by
    simp [Dict.has, (hsubnodes e he).2]] at h
  dsimp only at h
  obtain ⟨nodes, hdeclared, h⟩ := Except.bind_eq_ok_iff.1 h
  cases h
  obtain ⟨hlength, hdeclared⟩ := List.forall₂_iff_zip.1 (forall₂_generateVariableDeclarations
    (fun e he => by simp [Dict.has, (hnodes e he).2]) hdeclared)
  refine ⟨((collectSubnodesAsVariables graph tree.entries).entries.map fun e =>
      (e.1, ⟨getVarName e.1 (graphNames graph), .subnode e.2.2 e.2.1.type
        (generateSubnodesConfigWithVarRefs e.2.1 (graphNames graph))⟩)) ++
    (tree.entries.entries.zip nodes).map fun p => (p.1.1, p.2), ?_, ?_, ?_⟩
  · rw [List.map_append, List.map_map, List.map_map]
    change _ = _ ++ (tree.entries.entries.zip nodes).map Prod.snd ++ _
    rw [List.map_snd_zip hlength.ge]
    rfl
  · have hmain : ((tree.entries.entries.zip nodes).map Prod.fst).map Prod.fst =
        tree.entries.keys := by
      rw [List.map_fst_zip hlength.le]
      rfl
    rw [List.map_append, List.map_map, List.map_map, ← hmain, List.map_map]
    rfl
  · intro p hp
    rcases List.mem_append.1 hp with hp | hp
    · obtain ⟨e, he, rfl⟩ := List.mem_map.1 hp
      obtain ⟨hcollected, hnode⟩ := hsubnodes e he
      refine ⟨by simp [Dict.has, hnode], rfl, fun v => ?_⟩
      refine mem_generateSubnodesConfigWithVarRefs.trans (exists_congr fun u => ?_)
      refine and_congr_left fun _ => ⟨uses_of_collected hcollected hnode, ?_⟩
      rintro ⟨node, hnode', hu⟩
      rw [hnode] at hnode'
      cases hnode'
      rw [if_neg (by rw [hcollected.1]; exact Bool.false_ne_true)] at hu
      exact hu.2
    · obtain ⟨q, hq, rfl⟩ := List.mem_map.1 hp
      obtain ⟨hname, hcall⟩ := hdeclared hq
      obtain ⟨hmain, hnode⟩ := hnodes q.1 (List.of_mem_zip hq).1
      refine ⟨by simp [Dict.has, hnode], hname, fun v => ?_⟩
      refine (mem_variableNames_generateNodeCall hcall v).trans (exists_congr fun u => ?_)
      refine and_congr_left fun _ => ⟨fun hu => ⟨q.1.2, hnode, by rwa [if_pos hmain]⟩, ?_⟩
      rintro ⟨node, hnode', hu⟩
      rw [hnode] at hnode'
      cases hnode'
      rwa [if_pos hmain] at hu

/-- **Which code declares before it uses.** -/
theorem generateCode_declares {stack : ℕ} {declarations : List Declaration}
    (h : generateCode graph tree stack = .ok declarations) :
    (Orderly graph tree → DeclaresBeforeUse declarations) ∧
      (AllReferenced graph tree → DeclaresBeforeUse declarations → Orderly graph tree) := by
  obtain ⟨l, rfl, hnames, hl⟩ := generateCode_standsFor h
  rw [declaresBeforeUse_iff (fun n u => Uses.has) hl, hnames]
  exact usedBefore_iff

end Theorem

/-! ### An agent with a model, and one with tools that have each other -/

/-- The code for a workflow file and nodes of the main flow: its variables, each with those that its
initial value holds. -/
def variablesOf (json : WorkflowJSON) (names : List String) :
    Except JsError (List (String × List String)) := do
  let graph ← WorkflowGraph.build json
  let declarations ← generateCode graph (.ofNames graph names) 1
  pure (declarations.map fun d => (d.varName, d.initializer.variableNames))

/-- No sub-node has sub-nodes or is a node of the main flow, and there are no sticky notes. -/
def isFlat (graph : WorkflowGraph) (tree : CompositeVariables graph) : Bool :=
  graph.nodes.entries.all fun e => !isStickyNote e.2.type &&
    (subnodeNames graph e.1).all fun d => subnodeNames graph d = [] && !tree.entries.has d

/-- An agent with a model. -/
def agentWithModel : WorkflowJSON where
  nodes := [{ name := some "Agent", type := "@n8n/n8n-nodes-langchain.agent" },
    { name := some "Model", type := "@n8n/n8n-nodes-langchain.lmChatOpenAi" }]
  connections := Dict.ofList [
    ("Model", Dict.ofList [("ai_languageModel", [.targets [
      { node := "Agent", type := "ai_languageModel" }]])])]

/-- An agent with a tool, which has a tool in turn, which has the first tool again. -/
def mutualTools : WorkflowJSON where
  nodes := [{ name := some "Agent", type := "@n8n/n8n-nodes-langchain.agent" },
    { name := some "A", type := "@n8n/n8n-nodes-langchain.agentTool" },
    { name := some "B", type := "@n8n/n8n-nodes-langchain.agentTool" }]
  connections := Dict.ofList [
    ("A", Dict.ofList [("ai_tool", [.targets [
      { node := "Agent", type := "ai_tool" }, { node := "B", type := "ai_tool" }]])]),
    ("B", Dict.ofList [("ai_tool", [.targets [{ node := "A", type := "ai_tool" }]])])]

theorem exists_of_variablesOf {json : WorkflowJSON} {names : List String}
    {variableNames : List (String × List String)} (h : variablesOf json names = .ok variableNames) :
    ∃ graph declarations, WorkflowGraph.build json = .ok graph ∧
      generateCode graph (.ofNames graph names) 1 = .ok declarations ∧
      declarations.map (fun d => (d.varName, d.initializer.variableNames)) = variableNames := by
  obtain ⟨graph, hgraph, h⟩ := Except.bind_eq_ok_iff.1 h
  obtain ⟨declarations, hdeclarations, h⟩ := Except.bind_eq_ok_iff.1 h
  cases h
  exact ⟨graph, declarations, hgraph, hdeclarations, rfl⟩

/-- **Sub-nodes without sub-nodes of their own are in order.** -/
theorem orderly_of_isFlat {graph : WorkflowGraph} {tree : CompositeVariables graph}
    (h : isFlat graph tree = true) : Orderly graph tree := by
  have hflat : ∀ n node, graph.nodes.get? n = some node → isStickyNote node.type = false ∧
      ∀ d ∈ subnodeNames graph n, subnodeNames graph d = [] ∧ tree.entries.has d = false := by
    intro n node hnode
    have hall := List.all_eq_true.1 h (n, node) ((graph.nodes.mem_entries_iff n node).2 hnode)
    simpa using hall
  have hleaf : ∀ n node, graph.nodes.get? n = some node → Collected graph tree.entries n →
      ∀ d, ¬ Referenced node d := by
    rintro n node hnode ⟨-, a, hn⟩ d hd
    obtain ⟨node', hnode', -⟩ := mem_subnodeNames.1 hn
    have hmem := (hd.has hnode).2.2
    rw [((hflat a node' hnode').2 n hn).1] at hmem
    cases hmem
  constructor
  · exact fun n node hnode hn d hd => absurd hd (hleaf n node hnode hn d)
  · exact fun n node hnode hn d hd => absurd hd (hleaf n node hnode hn d)
  · intro _ pre n node post _ hnode _ _ d hd hmain
    rw [((hflat n node hnode).2 d (hd.has hnode).2.2).2] at hmain
    cases hmain
  · intro pre n node post _ hnode hsticky
    rw [(hflat n node hnode).1] at hsticky
    cases hsticky

theorem agent_declared_after_model : ∃ graph declarations,
    WorkflowGraph.build agentWithModel = .ok graph ∧
      generateCode graph (.ofNames graph ["Agent"]) 1 = .ok declarations ∧
      DeclaresBeforeUse declarations := by
  obtain ⟨graph, declarations, hgraph, hdeclarations, -⟩ := exists_of_variablesOf
    (show variablesOf agentWithModel ["Agent"] =
      .ok [("model", []), ("agent", ["model"]), ("wf", [])] by decide +kernel)
  have hflat : (WorkflowGraph.build agentWithModel).map (fun graph =>
      isFlat graph (.ofNames graph ["Agent"])) = .ok true := by decide +kernel
  rw [hgraph] at hflat
  exact ⟨graph, declarations, hgraph, hdeclarations,
    (generateCode_declares hdeclarations).1 (orderly_of_isFlat (Except.ok.inj hflat))⟩

/-- **A variable is used before it is declared.** -/
theorem tool_used_before_declared : ∃ graph declarations,
    WorkflowGraph.build mutualTools = .ok graph ∧
      generateCode graph (.ofNames graph ["Agent"]) 1 = .ok declarations ∧
      ¬ DeclaresBeforeUse declarations := by
  obtain ⟨graph, declarations, hgraph, hdeclarations, hvariables⟩ := exists_of_variablesOf
    (show variablesOf mutualTools ["Agent"] =
      .ok [("b", ["a"]), ("a", ["b"]), ("agent", ["a"]), ("wf", [])] by decide +kernel)
  refine ⟨graph, declarations, hgraph, hdeclarations, fun h => ?_⟩
  obtain ⟨d, rest, rfl, hd, -⟩ := List.map_eq_cons_iff.1 hvariables
  have hmem := h [] d rest rfl "a" (by rw [(Prod.mk.inj hd).2]; simp)
  cases hmem
end Codegen

end N8n
