import N8n.Codegen.SemanticGraph
import N8n.Codegen.SemanticNames

/-!
# What the semantic graph represents

* `Codegen.Connection`, `connectionsOf`: the connections of a workflow whose ends exist;
* `Codegen.Represents`: a graph holds exactly these, under names that tell their ends apart;
* `Codegen.Readable`, `ErrorsApart`: conditions on a workflow;
* `Codegen.buildSemanticGraph_eq_ok_iff`: when a graph is built, and which.
-/

namespace N8n

namespace Codegen

/-! ### Connections -/

/-- The types of connections that are stored with outputs and inputs. -/
inductive ConnectionKind
  | main
  | error
  deriving DecidableEq

def kind? (connType : String) : Option ConnectionKind :=
  if connType = "main" then some .main else if connType = "error" then some .error else none

/-- A connection from an output to an input. -/
structure Connection where
  source : String
  kind : ConnectionKind
  output : ℕ
  target : String
  input : ℕ
  deriving DecidableEq

/-- The ends under one type of one source. -/
def outputsOf (e : String × String × List Slot) : List (Option (List Target)) :=
  e.2.2.map Slot.normalize

def entryConnections (e : String × String × List Slot) : List Connection :=
  match kind? e.2.1 with
  | none => []
  | some kind => (outputsOf e).zipIdx.flatMap fun p =>
    (p.1.getD []).map fun t => ⟨e.1, kind, p.2, t.node, t.index⟩

/-- The connections whose ends exist. -/
def connectionsOf (json : WorkflowJSON) : List Connection :=
  ((connectionEntries json.connections).flatMap entryConnections).filter fun c =>
    (createNodes json.nodes).has c.source && (createNodes json.nodes).has c.target

section Names

variable (nodes : Dict String SemanticNode)

/-- The name of an output: what the registry answers for a main output, or `error`. -/
def outputNameOf (source : String) (kind : ConnectionKind) (output : ℕ) : String :=
  match kind with
  | .error => "error"
  | .main => ((nodes.get? source).bind fun node =>
    (getOutputName node.type output node.json).toOption).getD ""

/-- The name of an input. -/
def inputNameOf (target : String) (input : ℕ) : String :=
  ((nodes.get? target).bind fun node => (getInputName node.type input node.json).toOption).getD ""

def Connection.outputName (c : Connection) : String := outputNameOf nodes c.source c.kind c.output

def Connection.inputName (c : Connection) : String := inputNameOf nodes c.target c.input

end Names

/-! ### Graphs, seen from outside -/

namespace SemanticGraph

/-- The connections stored under an output of a node. -/
def outputsAt (graph : SemanticGraph) (source outputName : String) : List SemanticConnection :=
  ((graph.nodes.get? source).bind fun node => node.outputs.get? outputName).getD []

/-- The sources stored under an input of a node. -/
def inputsAt (graph : SemanticGraph) (target inputSlot : String) : List SourceInfo :=
  ((graph.nodes.get? target).bind fun node => node.inputSources.get? inputSlot).getD []

end SemanticGraph

/-- The graph holds, under each name of an output and of an input, exactly the connections of the
workflow with this name, each once, and the names tell the outputs and the inputs of a node apart. -/
structure Represents (json : WorkflowJSON) (graph : SemanticGraph) : Prop where
  outputs : ∀ source outputName, graph.outputsAt source outputName =
    ((connectionsOf json).filter fun c =>
      c.source = source ∧ c.outputName (createNodes json.nodes) = outputName).map
        fun c => ⟨c.target, c.inputName (createNodes json.nodes)⟩
  inputs : ∀ target inputSlot, graph.inputsAt target inputSlot =
    ((connectionsOf json).filter fun c =>
      c.target = target ∧ c.inputName (createNodes json.nodes) = inputSlot).map
        fun c => ⟨c.source, c.outputName (createNodes json.nodes)⟩
  output_eq : ∀ c ∈ connectionsOf json, ∀ c' ∈ connectionsOf json, c.source = c'.source →
    c.outputName (createNodes json.nodes) = c'.outputName (createNodes json.nodes) →
      c.kind = c'.kind ∧ c.output = c'.output
  input_eq : ∀ c ∈ connectionsOf json, ∀ c' ∈ connectionsOf json, c.target = c'.target →
    c.inputName (createNodes json.nodes) = c'.inputName (createNodes json.nodes) →
      c.input = c'.input

/-- The registry answers names for all outputs and inputs that are asked for. -/
structure Readable (json : WorkflowJSON) : Prop where
  outputs : ∀ e ∈ connectionEntries json.connections, e.2.1 = "main" →
    (∃ targets, some targets ∈ outputsOf e) → ∀ node, (createNodes json.nodes).get? e.1 = some node →
      ∃ names, outputNames node.type node.json = .ok names
  inputs : ∀ c ∈ connectionsOf json, ∀ node, (createNodes json.nodes).get? c.target = some node →
    ∃ names, inputNames node.type node.json = .ok names

/-- The connections of type `error` of a node leave from one output, and no main connection of the
node leaves from its error output beside them. -/
def ErrorsApart (json : WorkflowJSON) : Prop :=
  ∀ c ∈ connectionsOf json, ∀ c' ∈ connectionsOf json, c.source = c'.source → c.kind = .error →
    match c'.kind with
    | .error => c.output = c'.output
    | .main => ∀ node, (createNodes json.nodes).get? c.source = some node →
      hasErrorOutput node.json = true → getErrorOutputIndex node.type node.json ≠ .ok c'.output

/-! ### Changes of a graph -/

section Modify

variable {graph : SemanticGraph}

theorem get?_modify (graph : SemanticGraph) (name : String) (f : SemanticNode → SemanticNode)
    (n : String) : (graph.modify name f).nodes.get? n =
      if n = name then (graph.nodes.get? n).map f else graph.nodes.get? n := by
  unfold SemanticGraph.modify
  cases hnode : graph.nodes.get? name with
  | none =>
    dsimp only
    split_ifs with h
    · rw [h, hnode]
      rfl
    · rfl
  | some node =>
    dsimp only
    rw [Dict.get?_set]
    by_cases h : n = name
    · simp [h, hnode]
    · simp [h]

/-- The graph has the nodes that it was started with. -/
def Same (nodes : Dict String SemanticNode) (graph : SemanticGraph) : Prop :=
  ∀ n, (graph.nodes.get? n).map (fun node => (node.type, node.json)) =
    (nodes.get? n).map fun node => (node.type, node.json)

variable {nodes : Dict String SemanticNode}

variable {f : SemanticNode → SemanticNode}

theorem Same.modify (h : Same nodes graph) (name : String)
    (hf : ∀ node, ((f node).type, (f node).json) = (node.type, node.json)) :
    Same nodes (graph.modify name f) := by
  intro n
  rw [get?_modify, ← h n]
  split_ifs
  · rw [Option.map_map]
    exact congrArg (fun g => Option.map g _) (funext hf)
  · rfl

theorem Same.has (h : Same nodes graph) (n : String) : graph.nodes.has n = nodes.has n := by
  have heq := congrArg Option.isSome (h n)
  rwa [Option.isSome_map, Option.isSome_map] at heq

variable (graph)

theorem outputsAt_modify (name : String)
    (hf : ∀ node, (f node).outputs = node.outputs) (source outputName : String) :
    (graph.modify name f).outputsAt source outputName = graph.outputsAt source outputName := by
  unfold SemanticGraph.outputsAt
  rw [get?_modify]
  split_ifs
  · cases graph.nodes.get? source with
    | none => rfl
    | some node => simp [hf]
  · rfl

theorem inputsAt_modify (name : String)
    (hf : ∀ node, (f node).inputSources = node.inputSources) (target inputSlot : String) :
    (graph.modify name f).inputsAt target inputSlot = graph.inputsAt target inputSlot := by
  unfold SemanticGraph.inputsAt
  rw [get?_modify]
  split_ifs
  · cases graph.nodes.get? target with
    | none => rfl
    | some node => simp [hf]
  · rfl

theorem inputsAt_addSource {target : String} (hnode : graph.nodes.has target)
    (inputSlot : String) (source : SourceInfo) (t slot : String) :
    (graph.addSource target inputSlot source).inputsAt t slot =
      graph.inputsAt t slot ++ if target = t ∧ inputSlot = slot then [source] else [] := by
  unfold SemanticGraph.addSource SemanticGraph.inputsAt
  rw [get?_modify]
  by_cases ht : t = target
  · subst ht
    obtain ⟨node, hget⟩ := Option.isSome_iff_exists.1 hnode
    rw [if_pos rfl, hget]
    by_cases hslot : inputSlot = slot
    · subst hslot
      simp
    · simp [hslot, Dict.get?_set_ne _ _ (Ne.symm hslot)]
  · rw [if_neg ht, if_neg fun h => ht h.1.symm, List.append_nil]

theorem outputsAt_addSource (target inputSlot : String) (source : SourceInfo) (s name : String) :
    (graph.addSource target inputSlot source).outputsAt s name = graph.outputsAt s name := by
  unfold SemanticGraph.addSource
  rw [outputsAt_modify]
  exact fun _ => rfl

theorem inputsAt_setOutput (source outputName : String)
    (connections : List SemanticConnection) (t slot : String) :
    (graph.setOutput source outputName connections).inputsAt t slot = graph.inputsAt t slot := by
  unfold SemanticGraph.setOutput
  rw [inputsAt_modify]
  exact fun _ => rfl

theorem outputsAt_setOutput {source : String} (hnode : graph.nodes.has source)
    (outputName : String) (connections : List SemanticConnection) (s name : String) :
    (graph.setOutput source outputName connections).outputsAt s name =
      if source = s ∧ outputName = name then connections else graph.outputsAt s name := by
  unfold SemanticGraph.setOutput SemanticGraph.outputsAt
  rw [get?_modify]
  by_cases hs : s = source
  · subst hs
    obtain ⟨node, hget⟩ := Option.isSome_iff_exists.1 hnode
    rw [if_pos rfl, hget]
    by_cases hname : outputName = name
    · subst hname
      simp
    · simp [hname, Dict.get?_set_ne _ _ (Ne.symm hname)]
  · rw [if_neg hs, if_neg fun h => hs h.1.symm]

variable {graph}

end Modify

/-! ### Building without failures -/

section Place

variable (nodes : Dict String SemanticNode)

/-- `visitTarget` when all names can be read. -/
def placeTarget (source outputSlot : String) (s : SemanticGraph × List SemanticConnection)
    (t : Target) : SemanticGraph × List SemanticConnection :=
  if nodes.has t.node then
    (s.1.addSource t.node (inputNameOf nodes t.node t.index) ⟨source, outputSlot⟩,
      s.2 ++ [⟨t.node, inputNameOf nodes t.node t.index⟩])
  else s

def placeTargets (source outputSlot : String) (graph : SemanticGraph) (targets : List Target) :
    SemanticGraph :=
  let s := targets.foldl (placeTarget nodes source outputSlot) (graph, [])
  if s.2 = [] then s.1 else s.1.setOutput source outputSlot s.2

def placeMainOutput (source : String) (graph : SemanticGraph) (output : Option (List Target) × ℕ) :
    SemanticGraph :=
  match output.1 with
  | none => graph
  | some targets => placeTargets nodes source (outputNameOf nodes source .main output.2) graph targets

def placeEntry (graph : SemanticGraph) (e : String × String × List Slot) : SemanticGraph :=
  if nodes.has e.1 then
    if e.2.1 = "main" then (outputsOf e).zipIdx.foldl (placeMainOutput nodes e.1) graph
    else if e.2.1 = "error" then
      placeTargets nodes e.1 "error" graph ((outputsOf e).filterMap id).flatten
    else if isAiConnectionType e.2.1 then graph.parseAiConnections e.1 e.2.1 (outputsOf e)
    else graph
  else graph

/-- The input of the end can be named, if its node exists. -/
def TargetReadable (t : Target) : Prop :=
  ∀ node, nodes.get? t.node = some node → ∃ names, inputNames node.type node.json = .ok names

def OutputReadable (source : String) : Prop :=
  ∀ node, nodes.get? source = some node → ∃ names, outputNames node.type node.json = .ok names

/-- All names that an entry asks for can be read. -/
def EntryReadable (e : String × String × List Slot) : Prop :=
  nodes.has e.1 = true → (e.2.1 = "main" → (∃ targets, some targets ∈ outputsOf e) →
      OutputReadable nodes e.1) ∧
    ((kind? e.2.1).isSome → ∀ targets, some targets ∈ outputsOf e → ∀ t ∈ targets,
      TargetReadable nodes t)

variable {nodes} {graph : SemanticGraph}

theorem Same.get?_eq_some (h : Same nodes graph) {n : String} {node : SemanticNode}
    (hnode : graph.nodes.get? n = some node) :
    ∃ node', nodes.get? n = some node' ∧ node'.type = node.type ∧ node'.json = node.json := by
  have heq := h n
  rw [hnode] at heq
  obtain ⟨node', hnode', hpair⟩ := Option.map_eq_some_iff.1 heq.symm
  exact ⟨node', hnode', congrArg Prod.fst hpair, congrArg Prod.snd hpair⟩

theorem Same.addSource (h : Same nodes graph) (target inputSlot : String) (source : SourceInfo) :
    Same nodes (graph.addSource target inputSlot source) :=
  h.modify target fun _ => rfl

theorem Same.setOutput (h : Same nodes graph) (source outputName : String)
    (connections : List SemanticConnection) :
    Same nodes (graph.setOutput source outputName connections) :=
  h.modify source fun _ => rfl

variable {s : SemanticGraph × List SemanticConnection} {graph' : SemanticGraph}

theorem Same.placeTarget (h : Same nodes s.1) (source outputSlot : String) (t : Target) :
    Same nodes (placeTarget nodes source outputSlot s t).1 := by
  unfold Codegen.placeTarget
  split_ifs
  · exact h.addSource _ _ _
  · exact h

theorem Same.foldl_placeTarget (h : Same nodes s.1) (source outputSlot : String)
    (targets : List Target) :
    Same nodes (targets.foldl (Codegen.placeTarget nodes source outputSlot) s).1 := by
  induction targets generalizing s with
  | nil => exact h
  | cons t targets ih => exact ih (h.placeTarget source outputSlot t)

theorem Same.placeTargets (h : Same nodes graph) (source outputSlot : String)
    (targets : List Target) : Same nodes (placeTargets nodes source outputSlot graph targets) := by
  have hfold := Same.foldl_placeTarget (s := (graph, [])) h source outputSlot targets
  unfold Codegen.placeTargets
  dsimp only
  split_ifs
  · exact hfold
  · exact hfold.setOutput _ _ _

theorem Same.placeMainOutput (h : Same nodes graph) (source : String)
    (output : Option (List Target) × ℕ) :
    Same nodes (placeMainOutput nodes source graph output) := by
  unfold Codegen.placeMainOutput
  split
  · exact h
  · exact h.placeTargets _ _ _

theorem Same.parseAiConnections (h : Same nodes graph) (source connectionType : String)
    (outputs : List (Option (List Target))) :
    Same nodes (graph.parseAiConnections source connectionType outputs) := by
  unfold SemanticGraph.parseAiConnections
  cases graph.nodes.get? source with
  | none => exact h
  | some _ =>
    dsimp only
    generalize (outputs.filterMap id).flatten = targets
    induction targets generalizing graph with
    | nil => exact h
    | cons t targets ih => exact ih (h.modify t.node fun _ => rfl)

theorem Same.placeEntry (h : Same nodes graph) (e : String × String × List Slot) :
    Same nodes (placeEntry nodes graph e) := by
  unfold Codegen.placeEntry
  split_ifs
  · generalize (outputsOf e).zipIdx = outputs
    induction outputs generalizing graph with
    | nil => exact h
    | cons output outputs ih => exact ih (h.placeMainOutput e.1 output)
  · exact h.placeTargets _ _ _
  · exact h.parseAiConnections _ _ _
  · exact h
  · exact h

theorem visitTarget_eq_ok_iff {s' : SemanticGraph × List SemanticConnection} (h : Same nodes s.1)
    (source outputSlot : String) (t : Target) :
    SemanticGraph.visitTarget source outputSlot s t = .ok s' ↔
      TargetReadable nodes t ∧ s' = placeTarget nodes source outputSlot s t := by
  unfold SemanticGraph.visitTarget placeTarget TargetReadable
  rw [← h.has]
  cases hnode : s.1.nodes.get? t.node with
  | none =>
    have hnone : nodes.get? t.node = none := by
      have hhas := h.has t.node
      simp only [Dict.has, hnode] at hhas
      exact Option.isSome_eq_false_iff.1 hhas.symm |> Option.isNone_iff_eq_none.1
    simp [Dict.has, hnode, hnone, eq_comm]
  | some node =>
    obtain ⟨node', hnode', htype, hjson⟩ := h.get?_eq_some hnode
    have hhas : s.1.nodes.has t.node = true := by simp [Dict.has, hnode]
    have hname : inputNameOf nodes t.node t.index =
        (getInputName node.type t.index node.json).toOption.getD "" := by
      simp [inputNameOf, hnode', htype, hjson]
    rw [hnode', if_pos hhas, hname]
    dsimp only
    constructor
    · intro heq
      cases hinput : getInputName node.type t.index node.json with
      | error e =>
        rw [hinput] at heq
        cases heq
      | ok name =>
        rw [hinput] at heq
        refine ⟨fun node'' hnode'' => ?_, (Except.ok.inj heq).symm⟩
        cases hnode''
        rw [htype, hjson]
        exact inputNames_of_getInputName hinput
    · rintro ⟨hreadable, rfl⟩
      obtain ⟨names, hnames⟩ := hreadable node' rfl
      rw [htype, hjson] at hnames
      rw [getInputName_eq hnames]
      rfl

theorem visitTargets_eq_ok_iff (h : Same nodes graph) (source outputSlot : String)
    (targets : List Target) :
    graph.visitTargets source outputSlot targets = .ok graph' ↔
      (∀ t ∈ targets, TargetReadable nodes t) ∧
        graph' = placeTargets nodes source outputSlot graph targets := by
  have hfold : ∀ s', targets.foldlM (SemanticGraph.visitTarget source outputSlot) (graph, []) = .ok s' ↔
      (∀ t ∈ targets, TargetReadable nodes t) ∧
        s' = targets.foldl (placeTarget nodes source outputSlot) (graph, []) := fun s' =>
    Except.foldlM_eq_ok_iff (I := fun s => Same nodes s.1)
      (fun s t s' hs => visitTarget_eq_ok_iff hs source outputSlot t)
      (fun s t hs => hs.placeTarget source outputSlot t) h
  have hmap := Except.map_eq_ok_iff
    (x := targets.foldlM (SemanticGraph.visitTarget source outputSlot) (graph, []))
    (f := fun s => if s.2 = [] then s.1 else s.1.setOutput source outputSlot s.2) (b := graph')
  refine hmap.trans ?_
  simp only [hfold]
  constructor
  · rintro ⟨s, ⟨hreadable, rfl⟩, rfl⟩
    exact ⟨hreadable, rfl⟩
  · rintro ⟨hreadable, rfl⟩
    exact ⟨_, ⟨hreadable, rfl⟩, rfl⟩

theorem parseMainOutput_eq_ok_iff (h : Same nodes graph) {source : String} {node : SemanticNode}
    (hnode : nodes.get? source = some node) {sourceNode : SemanticNode}
    (hsource : sourceNode.type = node.type ∧ sourceNode.json = node.json)
    (output : Option (List Target) × ℕ) :
    graph.parseMainOutput sourceNode source output = .ok graph' ↔
      (∀ targets, output.1 = some targets →
        OutputReadable nodes source ∧ ∀ t ∈ targets, TargetReadable nodes t) ∧
      graph' = placeMainOutput nodes source graph output := by
  unfold SemanticGraph.parseMainOutput placeMainOutput
  cases houtput : output.1 with
  | none => simp [eq_comm]
  | some targets =>
    dsimp only
    rw [Except.bind_eq_ok_iff, hsource.1, hsource.2]
    have hname : outputNameOf nodes source .main output.2 =
        (getOutputName node.type output.2 node.json).toOption.getD "" := by
      simp [outputNameOf, hnode]
    constructor
    · rintro ⟨name, houtputName, hvisit⟩
      rw [houtputName] at hname
      obtain ⟨hreadable, rfl⟩ := (visitTargets_eq_ok_iff h source name targets).1 hvisit
      refine ⟨fun targets' htargets' => ?_, by rw [hname]; rfl⟩
      cases htargets'
      refine ⟨fun node' hnode' => ?_, hreadable⟩
      cases hnode.symm.trans hnode'
      exact outputNames_of_getOutputName houtputName
    · rintro ⟨hreadable, rfl⟩
      obtain ⟨houtput, htargets⟩ := hreadable targets rfl
      obtain ⟨names, hnames⟩ := houtput node hnode
      refine ⟨outputNameOf nodes source .main output.2, ?_,
        (visitTargets_eq_ok_iff h source _ targets).2 ⟨htargets, rfl⟩⟩
      rw [hname, getOutputName_eq hnames]
      rfl

theorem parseConnections_eq_ok_iff (h : Same nodes graph) (e : String × String × List Slot) :
    graph.parseConnections e = .ok graph' ↔
      EntryReadable nodes e ∧ graph' = placeEntry nodes graph e := by
  unfold SemanticGraph.parseConnections placeEntry EntryReadable kind?
  rw [← h.has]
  change (if e.2.1 = "main" then SemanticGraph.parseMainConnections e.1 (outputsOf e) graph
    else if e.2.1 = "error" then SemanticGraph.parseErrorConnections e.1 (outputsOf e) graph
    else if isAiConnectionType e.2.1 then
      .ok (SemanticGraph.parseAiConnections e.1 e.2.1 (outputsOf e) graph)
    else .ok graph) = _ ↔ _
  cases hnode : graph.nodes.get? e.1 with
  | none =>
    have hhas : graph.nodes.has e.1 = false := by simp [Dict.has, hnode]
    have hall : ∀ x : Except JsError SemanticGraph, x = .ok graph → (x = .ok graph' ↔
        graph' = graph) := by
      rintro x rfl
      exact ⟨fun h => (Except.ok.inj h).symm, fun h => h ▸ rfl⟩
    have hneg : ¬ graph.nodes.has e.1 = true := by simp [hhas]
    rw [if_neg hneg, hhas]
    simp only [Bool.false_eq_true, false_imp_iff, true_and]
    refine hall _ ?_
    unfold SemanticGraph.parseMainConnections SemanticGraph.parseErrorConnections
      SemanticGraph.parseAiConnections
    rw [hnode]
    split_ifs <;> rfl
  | some sourceNode =>
    obtain ⟨node, hget, htype, hjson⟩ := h.get?_eq_some hnode
    have hhas : graph.nodes.has e.1 = true := by simp [Dict.has, hnode]
    rw [if_pos hhas, hhas]
    by_cases hmain : e.2.1 = "main"
    · rw [if_pos hmain, if_pos hmain, if_pos hmain]
      unfold SemanticGraph.parseMainConnections
      rw [hnode]
      refine (Except.foldlM_eq_ok_iff (I := Same nodes) (l := (outputsOf e).zipIdx)
        (fun s output s' hs => parseMainOutput_eq_ok_iff hs hget ⟨htype.symm, hjson.symm⟩ output)
        (fun s output hs => hs.placeMainOutput e.1 output) h).trans (and_congr_left fun _ => ?_)
      constructor
      · intro hreadable _
        refine ⟨fun _ ⟨targets, htargets⟩ => ?_, fun _ targets htargets => ?_⟩
        all_goals
          obtain ⟨i, hi, hget⟩ := List.mem_iff_getElem.1 htargets
          have hmem : (some targets, i) ∈ (outputsOf e).zipIdx := by
            rw [List.mem_zipIdx_iff_getElem?, List.getElem?_eq_getElem hi, hget]
        · exact (hreadable _ hmem targets rfl).1
        · exact (hreadable _ hmem targets rfl).2
      · rintro hreadable ⟨output, i⟩ hmem targets rfl
        have htargets : some targets ∈ outputsOf e := by
          have hget := List.mem_zipIdx_iff_getElem?.1 hmem
          exact List.mem_of_getElem? hget
        obtain ⟨houtputs, hinputs⟩ := hreadable rfl
        exact ⟨houtputs hmain ⟨targets, htargets⟩, hinputs rfl targets htargets⟩
    · rw [if_neg hmain, if_neg hmain, if_neg hmain]
      by_cases herror : e.2.1 = "error"
      · rw [if_pos herror, if_pos herror, if_pos herror]
        unfold SemanticGraph.parseErrorConnections
        rw [hnode]
        refine (visitTargets_eq_ok_iff h e.1 "error" _).trans (and_congr_left fun _ => ?_)
        constructor
        · intro hreadable _
          refine ⟨fun h => absurd h hmain, fun _ targets htargets t ht => hreadable t ?_⟩
          exact List.mem_flatten.2 ⟨targets, List.mem_filterMap.2 ⟨_, htargets, rfl⟩, ht⟩
        · intro hreadable t ht
          obtain ⟨targets, htargets, ht⟩ := List.mem_flatten.1 ht
          obtain ⟨output, houtput, rfl⟩ := List.mem_filterMap.1 htargets
          exact (hreadable rfl).2 rfl targets houtput t ht
      · rw [if_neg herror, if_neg herror, if_neg herror]
        split_ifs <;> simp [hmain, eq_comm]

/-- **When a graph is built, and which.** -/
theorem buildSemanticGraph_eq_ok_iff (json : WorkflowJSON) (graph : SemanticGraph) :
    buildSemanticGraph json = .ok graph ↔
      (∀ e ∈ connectionEntries json.connections, EntryReadable (createNodes json.nodes) e) ∧
      graph = ((connectionEntries json.connections).foldl (placeEntry (createNodes json.nodes))
        { nodes := createNodes json.nodes }).sortSubnodes := by
  have hfold : ∀ graph', (connectionEntries json.connections).foldlM SemanticGraph.parseConnections
      { nodes := createNodes json.nodes } = .ok graph' ↔ _ := fun graph' =>
    Except.foldlM_eq_ok_iff (I := Same (createNodes json.nodes))
      (fun s e s' hs => parseConnections_eq_ok_iff hs e) (fun s e hs => hs.placeEntry e) fun _ => rfl
  have hmap := Except.map_eq_ok_iff (f := SemanticGraph.sortSubnodes) (b := graph)
    (x := (connectionEntries json.connections).foldlM SemanticGraph.parseConnections
      { nodes := createNodes json.nodes })
  refine hmap.trans ?_
  simp only [hfold]
  constructor
  · rintro ⟨s, ⟨hreadable, rfl⟩, rfl⟩
    exact ⟨hreadable, rfl⟩
  · rintro ⟨hreadable, rfl⟩
    exact ⟨_, ⟨hreadable, rfl⟩, rfl⟩

end Place

end Codegen

end N8n
