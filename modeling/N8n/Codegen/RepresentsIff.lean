import N8n.Codegen.Representation

/-!
# When the semantic graph is faithful

* `Codegen.Group`: the ends that are stored together under one name;
* `Codegen.Holds`: what a graph holds after some groups;
* `Codegen.represents_iff`: a graph is built that represents the workflow exactly when all names can
  be read and no two outputs of a node are both called `error`;
* `Codegen.error_overwrites`: a node with an error output and connections of type `error`.
-/

namespace N8n

namespace Codegen

/-- The ends that one main output of a node, or all its connections of type `error`, lead to. -/
structure Group where
  source : String
  kind : ConnectionKind
  output : ℕ
  name : String
  targets : List Target

def Group.key (g : Group) : String × ConnectionKind × ℕ := (g.source, g.kind, g.output)

section Groups

variable (nodes : Dict String SemanticNode)

def existing (targets : List Target) : List Target := targets.filter fun t => nodes.has t.node

/-- The connection that an end gives rise to. -/
def stored (t : Target) : SemanticConnection := ⟨t.node, inputNameOf nodes t.node t.index⟩

def mainGroup (source : String) (output : Option (List Target) × ℕ) : Group where
  source := source
  kind := .main
  output := output.2
  name := outputNameOf nodes source .main output.2
  targets := existing nodes (output.1.getD [])

def groupsOf (e : String × String × List Slot) : List Group :=
  if nodes.has e.1 then
    match kind? e.2.1 with
    | none => []
    | some .main => (outputsOf e).zipIdx.map (mainGroup nodes e.1)
    | some .error =>
      [⟨e.1, .error, 0, "error", existing nodes ((outputsOf e).filterMap id).flatten⟩]
  else []

/-- The graph holds these groups: an input all the sources that lead to it, an output what was
stored last under its name. -/
structure Holds (groups : List Group) (graph : SemanticGraph) : Prop where
  same : Same nodes graph
  inputs : ∀ target slot, graph.inputsAt target slot = groups.flatMap fun g =>
    (g.targets.filter fun t => stored nodes t = ⟨target, slot⟩).map fun _ => ⟨g.source, g.name⟩
  outputs : ∀ source name, graph.outputsAt source name =
    ((groups.filter fun g => g.source = source ∧ g.name = name ∧ g.targets ≠ []).getLast?.map
      fun g => g.targets.map (stored nodes)).getD []

end Groups

section Holds

variable {nodes : Dict String SemanticNode} {groups : List Group} {graph : SemanticGraph}

/-! ### One group -/

theorem foldl_placeTarget (source outputSlot : String) (targets : List Target)
    {s : SemanticGraph × List SemanticConnection} (h : Same nodes s.1) :
    (targets.foldl (placeTarget nodes source outputSlot) s).2 =
      s.2 ++ (existing nodes targets).map (stored nodes) ∧
    (∀ target slot, (targets.foldl (placeTarget nodes source outputSlot) s).1.inputsAt target slot =
      s.1.inputsAt target slot ++ ((existing nodes targets).filter fun t =>
        stored nodes t = ⟨target, slot⟩).map fun _ => ⟨source, outputSlot⟩) ∧
    ∀ s' name, (targets.foldl (placeTarget nodes source outputSlot) s).1.outputsAt s' name =
      s.1.outputsAt s' name := by
  induction targets generalizing s with
  | nil => simp [existing]
  | cons t targets ih =>
    obtain ⟨hconnections, hinputs, houtputs⟩ := ih (h.placeTarget source outputSlot t)
    rw [List.foldl_cons]
    simp only [hconnections, hinputs, houtputs, existing, List.filter_cons]
    by_cases ht : nodes.has t.node = true
    · have hhas : s.1.nodes.has t.node = true := by rw [h.has]; exact ht
      simp only [placeTarget, if_pos ht]
      refine ⟨by simp [stored], fun target slot => ?_, fun s' name => ?_⟩
      · rw [inputsAt_addSource _ hhas]
        by_cases hstored : stored nodes t = ⟨target, slot⟩
        · have hpair := hstored
          simp only [stored, SemanticConnection.mk.injEq] at hpair
          rw [if_pos hpair]
          simp [hstored]
        · have hpair := hstored
          simp only [stored, SemanticConnection.mk.injEq] at hpair
          rw [if_neg hpair]
          simp [hstored]
      · exact outputsAt_addSource _ _ _ _ _ _
    · simp [placeTarget, ht]

theorem Holds.placeTargets (h : Holds nodes groups graph) {source : String}
    (hsource : nodes.has source = true) (kind : ConnectionKind) (output : ℕ) (name : String)
    (targets : List Target) :
    Holds nodes (groups ++ [⟨source, kind, output, name, existing nodes targets⟩])
      (placeTargets nodes source name graph targets) := by
  obtain ⟨hconnections, hinputs, houtputs⟩ :=
    foldl_placeTarget (s := (graph, [])) source name targets h.same
  have hsame := Same.foldl_placeTarget (s := (graph, [])) h.same source name targets
  refine ⟨h.same.placeTargets source name targets, fun target slot => ?_, fun s n => ?_⟩
  · have hset : (Codegen.placeTargets nodes source name graph targets).inputsAt target slot =
        (targets.foldl (placeTarget nodes source name) (graph, [])).1.inputsAt target slot := by
      unfold Codegen.placeTargets
      dsimp only
      split_ifs
      · rfl
      · exact inputsAt_setOutput _ _ _ _ _ _
    rw [hset, hinputs, h.inputs, List.flatMap_append]
    simp
  · unfold Codegen.placeTargets
    dsimp only
    rw [hconnections, List.nil_append, List.filter_append]
    by_cases hnil : existing nodes targets = []
    · rw [if_pos (by simp [hnil]), houtputs, h.outputs]
      simp [hnil]
    · rw [if_neg (by simp [hnil]), outputsAt_setOutput _ (by rw [hsame.has]; exact hsource), houtputs,
        h.outputs]
      by_cases hs : source = s ∧ name = n
      · simp [hs, hnil]
      · have hs' : ¬ (source = s ∧ name = n ∧ existing nodes targets ≠ []) :=
          fun h => hs ⟨h.1, h.2.1⟩
        simp [hs, hs']

/-! ### Entries -/

theorem Holds.foldl_main (h : Holds nodes groups graph) {source : String}
    (hsource : nodes.has source = true) (outputs : List (Option (List Target) × ℕ)) :
    Holds nodes (groups ++ outputs.map (mainGroup nodes source))
      (outputs.foldl (placeMainOutput nodes source) graph) := by
  induction outputs generalizing groups graph with
  | nil => simpa using h
  | cons output outputs ih =>
    have hplace : placeMainOutput nodes source graph output = Codegen.placeTargets nodes source
        (outputNameOf nodes source .main output.2) graph (output.1.getD []) := by
      unfold placeMainOutput
      cases output.1 <;> rfl
    have hone := h.placeTargets hsource .main output.2
      (outputNameOf nodes source .main output.2) (output.1.getD [])
    rw [List.foldl_cons, hplace, List.map_cons, ← List.singleton_append, ← List.append_assoc]
    exact ih hone

theorem Holds.parseAiConnections (h : Holds nodes groups graph) (source connectionType : String)
    (outputs : List (Option (List Target))) :
    Holds nodes groups (graph.parseAiConnections source connectionType outputs) := by
  unfold SemanticGraph.parseAiConnections
  cases graph.nodes.get? source with
  | none => exact h
  | some _ =>
    dsimp only
    generalize (outputs.filterMap id).flatten = targets
    induction targets generalizing graph with
    | nil => exact h
    | cons t targets ih =>
      refine ih ⟨h.same.modify t.node fun _ => rfl, fun target slot => ?_, fun s name => ?_⟩
      · rw [← h.inputs, inputsAt_modify]
        exact fun _ => rfl
      · rw [← h.outputs, outputsAt_modify]
        exact fun _ => rfl

theorem Holds.placeEntry (h : Holds nodes groups graph) (e : String × String × List Slot) :
    Holds nodes (groups ++ groupsOf nodes e) (placeEntry nodes graph e) := by
  unfold Codegen.placeEntry groupsOf kind?
  split_ifs with hsource hmain herror hai
  · exact h.foldl_main hsource _
  · exact h.placeTargets hsource .error 0 "error" _
  · simpa using h.parseAiConnections e.1 e.2.1 (outputsOf e)
  · simpa using h
  · simpa using h

theorem Holds.foldl_placeEntry (h : Holds nodes groups graph)
    (entries : List (String × String × List Slot)) :
    Holds nodes (groups ++ entries.flatMap (groupsOf nodes))
      (entries.foldl (Codegen.placeEntry nodes) graph) := by
  induction entries generalizing groups graph with
  | nil => simpa using h
  | cons e entries ih =>
    rw [List.foldl_cons, List.flatMap_cons, ← List.append_assoc]
    exact ih (h.placeEntry e)

theorem Holds.sortSubnodes (h : Holds nodes groups graph) :
    Holds nodes groups graph.sortSubnodes := by
  have hget : ∀ n, graph.sortSubnodes.nodes.get? n = (graph.nodes.get? n).map fun node =>
      { node with subnodes := node.subnodes.insertionSort fun a b => a.index ≤ b.index } :=
    fun n => Dict.get?_mapValues _ _ _
  refine ⟨fun n => ?_, fun target slot => ?_, fun s name => ?_⟩
  · rw [hget, Option.map_map, ← h.same n]
    rfl
  · rw [← h.inputs, SemanticGraph.inputsAt, SemanticGraph.inputsAt, hget]
    cases graph.nodes.get? target <;> rfl
  · rw [← h.outputs, SemanticGraph.outputsAt, SemanticGraph.outputsAt, hget]
    cases graph.nodes.get? s <;> rfl

end Holds

/-! ### Nodes without connections -/

/-- A new node has no connections. -/
def Bare (nodes : Dict String SemanticNode) : Prop :=
  ∀ n node, nodes.get? n = some node → node.outputs = .empty ∧ node.inputSources = .empty

theorem Bare.createNode {s : Dict String SemanticNode × Dict String ℕ} (h : Bare s.1)
    (nodeJson : NodeJSON) : Bare (createNode s nodeJson).1 := by
  have hset : ∀ name, Bare (s.1.set name { createSemanticNode nodeJson with name := name }) := by
    intro name n node hnode
    rw [Dict.get?_set] at hnode
    split_ifs at hnode
    · cases hnode
      exact ⟨rfl, rfl⟩
    · exact h n node hnode
  unfold Codegen.createNode
  dsimp only
  split_ifs
  · exact hset _
  · exact hset _
  · exact hset _

theorem bare_createNodes (nodes : List NodeJSON) : Bare (createNodes nodes) := by
  have hfold : ∀ (s : Dict String SemanticNode × Dict String ℕ), Bare s.1 →
      Bare (nodes.foldl createNode s).1 := by
    induction nodes with
    | nil => exact fun s hs => hs
    | cons node nodes ih => exact fun s hs => ih _ (hs.createNode node)
  exact hfold (.empty, .empty) fun n node hnode => by cases hnode

variable {nodes : Dict String SemanticNode} {c : Connection} {json : WorkflowJSON} {g : Group}

theorem Bare.holds (h : Bare nodes) : Holds nodes [] { nodes := nodes } := by
  refine ⟨fun _ => rfl, fun target slot => ?_, fun source name => ?_⟩
  · unfold SemanticGraph.inputsAt
    cases hnode : nodes.get? target with
    | none => rfl
    | some node => simp [(h target node hnode).2]
  · unfold SemanticGraph.outputsAt
    cases hnode : nodes.get? source with
    | none => rfl
    | some node => simp [(h source node hnode).1]

/-- The groups of a workflow. -/
def groupsIn (json : WorkflowJSON) : List Group :=
  (connectionEntries json.connections).flatMap (groupsOf (createNodes json.nodes))

theorem holds_build (json : WorkflowJSON) :
    Holds (createNodes json.nodes) (groupsIn json)
      ((connectionEntries json.connections).foldl (placeEntry (createNodes json.nodes))
        { nodes := createNodes json.nodes }).sortSubnodes :=
  ((bare_createNodes json.nodes).holds.foldl_placeEntry _).sortSubnodes

/-! ### Groups and connections -/

section Connections

variable (nodes : Dict String SemanticNode)

/-- A connection with the name of its output: its source, this name and its end. -/
def Connection.placement (c : Connection) : String × String × String × ℕ :=
  (c.source, c.outputName nodes, c.target, c.input)

def Group.placements (g : Group) : List (String × String × String × ℕ) :=
  g.targets.map fun t => (g.source, g.name, t.node, t.index)

theorem flatMap_zipIdx_fst {α β : Type} (l : List α) (f : α → List β) :
    l.zipIdx.flatMap (fun p => f p.1) = l.flatMap f := by
  have h := List.flatMap_map Prod.fst f l.zipIdx
  rw [List.zipIdx_map_fst] at h
  exact h.symm

theorem flatten_filterMap_id {α : Type} (l : List (Option (List α))) :
    (l.filterMap id).flatten = l.flatMap (·.getD []) := by
  induction l with
  | nil => rfl
  | cons x l ih =>
    cases x with
    | none => exact ih
    | some xs => exact congrArg (xs ++ ·) ih

/-- The ends of an entry, under the name of an output. -/
theorem placements_groupsOf (e : String × String × List Slot) :
    (groupsOf nodes e).flatMap Group.placements =
      ((entryConnections e).filter fun c => nodes.has c.source && nodes.has c.target).map
        (Connection.placement nodes) := by
  unfold groupsOf entryConnections
  cases hkind : kind? e.2.1 with
  | none => simp
  | some kind =>
    dsimp only
    rw [List.filter_flatMap, List.map_flatMap]
    by_cases hsource : nodes.has e.1 = true
    · rw [if_pos hsource]
      cases kind with
      | main =>
        rw [List.flatMap_map]
        refine List.flatMap_congr fun p _ => ?_
        rw [List.filter_map, List.map_map]
        simp only [Group.placements, mainGroup, existing, Function.comp_def, hsource, Bool.true_and]
        rfl
      | error =>
        simp only [List.flatMap_cons, List.flatMap_nil, List.append_nil, Group.placements, existing,
          flatten_filterMap_id]
        rw [← flatMap_zipIdx_fst, List.filter_flatMap, List.map_flatMap]
        refine List.flatMap_congr fun p _ => ?_
        rw [List.filter_map, List.map_map]
        simp only [Function.comp_def, hsource, Bool.true_and]
        rfl
    · rw [if_neg hsource]
      have hfalse : nodes.has e.1 = false := by simpa using hsource
      symm
      rw [List.flatMap_nil, List.flatMap_eq_nil_iff]
      intro p _
      simp [List.filter_map, Function.comp_def, hfalse]

end Connections

theorem placements_groupsIn (json : WorkflowJSON) :
    (groupsIn json).flatMap Group.placements =
      (connectionsOf json).map (Connection.placement (createNodes json.nodes)) := by
  unfold groupsIn connectionsOf
  rw [List.flatMap_assoc, List.filter_flatMap, List.map_flatMap]
  exact List.flatMap_congr fun e _ => placements_groupsOf _ e

variable {e : String × String × List Slot}

/-- Where a connection comes from. -/
theorem mem_entryConnections :
    c ∈ entryConnections e ↔ c.source = e.1 ∧ kind? e.2.1 = some c.kind ∧
      ∃ targets, (some targets, c.output) ∈ (outputsOf e).zipIdx ∧
        ∃ t ∈ targets, c.target = t.node ∧ c.input = t.index := by
  unfold entryConnections
  cases hkind : kind? e.2.1 with
  | none => simp
  | some kind =>
    simp only [List.mem_flatMap, List.mem_map]
    constructor
    · rintro ⟨⟨output, i⟩, hp, t, ht, rfl⟩
      cases output with
      | none => cases ht
      | some targets => exact ⟨rfl, rfl, targets, hp, t, ht, rfl, rfl⟩
    · rintro ⟨hsource, hkind, targets, hp, t, ht, htarget, hinput⟩
      refine ⟨_, hp, t, ht, ?_⟩
      obtain ⟨source, kind', output, target, input⟩ := c
      cases hkind
      cases hsource
      cases htarget
      cases hinput
      rfl

theorem mem_connectionsOf :
    c ∈ connectionsOf json ↔ (∃ e ∈ connectionEntries json.connections, c ∈ entryConnections e) ∧
      (createNodes json.nodes).has c.source = true ∧ (createNodes json.nodes).has c.target = true := by
  rw [connectionsOf, List.mem_filter, List.mem_flatMap, Bool.and_eq_true]

theorem mem_outputsOf_of_mem_zipIdx {targets : List Target} {i : ℕ}
    (h : (some targets, i) ∈ (outputsOf e).zipIdx) : some targets ∈ outputsOf e :=
  List.mem_of_getElem? (List.mem_zipIdx_iff_getElem?.1 h)

/-- An end of a group belongs to a connection with the name of the group. -/
theorem exists_mem_connectionsOf (hg : g ∈ groupsIn json) {t : Target} (ht : t ∈ g.targets) :
    ∃ c ∈ connectionsOf json, c.source = g.source ∧ c.kind = g.kind ∧
      c.outputName (createNodes json.nodes) = g.name ∧
      (g.kind = .main → c.output = g.output) ∧ (g.kind = .error → g.output = 0) := by
  obtain ⟨e, he, hg⟩ := List.mem_flatMap.1 hg
  unfold groupsOf at hg
  split_ifs at hg with hsource
  · cases hkind : kind? e.2.1 with
    | none =>
      rw [hkind] at hg
      cases hg
    | some kind =>
      rw [hkind] at hg
      cases kind with
      | main =>
        obtain ⟨⟨output, i⟩, hp, rfl⟩ := List.mem_map.1 hg
        obtain ⟨ht, hnode⟩ := List.mem_filter.1 ht
        cases output with
        | none => cases ht
        | some targets =>
          refine ⟨⟨e.1, .main, i, t.node, t.index⟩, mem_connectionsOf.2 ⟨⟨e, he, ?_⟩, hsource, hnode⟩,
            rfl, rfl, rfl, fun _ => rfl, fun h => by cases h⟩
          exact mem_entryConnections.2 ⟨rfl, hkind, targets, hp, t, ht, rfl, rfl⟩
      | error =>
        cases List.mem_singleton.1 hg
        obtain ⟨ht, hnode⟩ := List.mem_filter.1 ht
        obtain ⟨targets, htargets, ht⟩ := List.mem_flatten.1 ht
        obtain ⟨output, houtput, rfl⟩ := List.mem_filterMap.1 htargets
        obtain ⟨i, hi, hget⟩ := List.mem_iff_getElem.1 houtput
        have hp : (some targets, i) ∈ (outputsOf e).zipIdx := by
          rw [List.mem_zipIdx_iff_getElem?, List.getElem?_eq_getElem hi, hget]
        refine ⟨⟨e.1, .error, i, t.node, t.index⟩, mem_connectionsOf.2 ⟨⟨e, he, ?_⟩, hsource, hnode⟩,
          rfl, rfl, rfl, (fun h => by cases h), fun _ => rfl⟩
        exact mem_entryConnections.2 ⟨rfl, hkind, targets, hp, t, ht, rfl, rfl⟩
  · cases hg

/-! ### Entries and groups come once -/

theorem nodup_connectionEntries (connections : Connections) :
    ((connectionEntries connections).map fun e => (e.1, e.2.1)).Nodup := by
  have hnodup : ∀ {α : Type} (d : Dict String α), ((EntryList.enumerate d.entries).map Prod.fst).Nodup :=
    fun d => (((EntryList.enumerate_perm d.entries).map Prod.fst).nodup_iff).2 d.nodup
  unfold connectionEntries
  rw [List.map_flatMap, List.nodup_flatMap]
  constructor
  · intro e _
    rw [List.map_map]
    have hinner := List.Nodup.map (f := fun k => (e.1, k)) (fun k k' h => congrArg Prod.snd h)
      (hnodup e.2)
    rw [List.map_map] at hinner
    exact hinner
  · have houter := hnodup connections
    rw [List.Nodup, List.pairwise_map] at houter
    refine houter.imp fun {e e'} hne => ?_
    rintro ⟨s, k⟩ hk hk'
    simp only [List.map_map, List.mem_map, Function.comp_apply, Prod.mk.injEq] at hk hk'
    obtain ⟨_, _, rfl, _⟩ := hk
    obtain ⟨_, _, hs, _⟩ := hk'
    exact hne hs.symm

theorem kind?_injective {s s' : String} {kind : ConnectionKind} (h : kind? s = some kind)
    (h' : kind? s' = some kind) : s = s' := by
  unfold kind? at h h'
  split_ifs at h h' <;> cases h <;> cases h' <;> simp_all

theorem key_of_mem_groupsOf
    (h : g ∈ groupsOf nodes e) : g.source = e.1 ∧ kind? e.2.1 = some g.kind := by
  unfold groupsOf at h
  split_ifs at h
  · cases hkind : kind? e.2.1 with
    | none =>
      rw [hkind] at h
      cases h
    | some kind =>
      rw [hkind] at h
      cases kind with
      | main =>
        obtain ⟨p, -, rfl⟩ := List.mem_map.1 h
        exact ⟨rfl, rfl⟩
      | error =>
        cases List.mem_singleton.1 h
        exact ⟨rfl, rfl⟩
  · cases h

theorem nodup_groupsIn (json : WorkflowJSON) : ((groupsIn json).map Group.key).Nodup := by
  unfold groupsIn
  rw [List.map_flatMap, List.nodup_flatMap]
  constructor
  · intro e _
    unfold groupsOf
    split_ifs
    · cases kind? e.2.1 with
      | none => exact List.nodup_nil
      | some kind =>
        cases kind with
        | main =>
          rw [List.map_map]
          have hindex : ((outputsOf e).zipIdx.map Prod.snd).Nodup := by
            rw [List.zipIdx_map_snd]
            exact List.nodup_range'
          have hkey := List.Nodup.map (f := fun i => (e.1, ConnectionKind.main, i))
            (fun i j h => congrArg (·.2.2) h) hindex
          rw [List.map_map] at hkey
          exact hkey
        | error => exact List.nodup_singleton _
    · exact List.nodup_nil
  · have hentries := nodup_connectionEntries json.connections
    rw [List.Nodup, List.pairwise_map] at hentries
    refine hentries.imp fun {e e'} hne key hkey hkey' => hne ?_
    obtain ⟨g, hg, rfl⟩ := List.mem_map.1 hkey
    obtain ⟨g', hg', heq⟩ := List.mem_map.1 hkey'
    obtain ⟨hsource, hkind⟩ := key_of_mem_groupsOf hg
    obtain ⟨hsource', hkind'⟩ := key_of_mem_groupsOf hg'
    have hsame : g'.source = g.source := congrArg Prod.fst heq
    have hkinds : g'.kind = g.kind := congrArg (·.2.1) heq
    rw [hkinds] at hkind'
    exact Prod.ext (hsource.symm.trans (hsame.symm.trans hsource')) (kind?_injective hkind hkind')

/-! ### Names of connections -/

section Names

variable {json : WorkflowJSON}

variable {c : Connection} {node : SemanticNode}

theorem Readable.outputNames (h : Readable json) (hc : c ∈ connectionsOf json)
    (hkind : c.kind = .main) (hnode : (createNodes json.nodes).get? c.source = some node) :
    ∃ names, outputNames node.type node.json = .ok names := by
  obtain ⟨⟨e, he, hc⟩, -, -⟩ := mem_connectionsOf.1 hc
  obtain ⟨hsource, hkind', targets, hp, -⟩ := mem_entryConnections.1 hc
  have hmain : e.2.1 = "main" := kind?_injective (hkind'.trans (congrArg some hkind)) rfl
  exact h.outputs e he hmain ⟨targets, mem_outputsOf_of_mem_zipIdx hp⟩ node (hsource ▸ hnode)

theorem exists_source (hc : c ∈ connectionsOf json) :
    ∃ node, (createNodes json.nodes).get? c.source = some node :=
  Option.isSome_iff_exists.1 (mem_connectionsOf.1 hc).2.1

theorem exists_target (hc : c ∈ connectionsOf json) :
    ∃ node, (createNodes json.nodes).get? c.target = some node :=
  Option.isSome_iff_exists.1 (mem_connectionsOf.1 hc).2.2

/-- The name of a main output is what the registry answers. -/
theorem getOutputName_eq_outputName (h : Readable json) (hc : c ∈ connectionsOf json)
    (hkind : c.kind = .main) (hnode : (createNodes json.nodes).get? c.source = some node) :
    getOutputName node.type c.output node.json = .ok (c.outputName (createNodes json.nodes)) := by
  obtain ⟨names, hnames⟩ := h.outputNames hc hkind hnode
  have hname := getOutputName_eq hnames c.output
  rw [Connection.outputName, hkind, outputNameOf, hnode]
  simp [hname, Except.toOption]

theorem getInputName_eq_inputName (h : Readable json) (hc : c ∈ connectionsOf json)
    (hnode : (createNodes json.nodes).get? c.target = some node) :
    getInputName node.type c.input node.json = .ok (c.inputName (createNodes json.nodes)) := by
  obtain ⟨names, hnames⟩ := h.inputs c hc node hnode
  have hname := getInputName_eq hnames c.input
  rw [Connection.inputName, inputNameOf, hnode]
  simp [hname, Except.toOption]

theorem outputName_of_error (hkind : c.kind = .error) :
    c.outputName (createNodes json.nodes) = "error" := by
  rw [Connection.outputName, hkind, outputNameOf]

/-- A main output called `error` is the error output. -/
theorem isErrorOutput_of_outputName (h : Readable json) (hc : c ∈ connectionsOf json)
    (hkind : c.kind = .main) (hname : c.outputName (createNodes json.nodes) = "error")
    (hnode : (createNodes json.nodes).get? c.source = some node) :
    hasErrorOutput node.json = true ∧ getErrorOutputIndex node.type node.json = .ok c.output := by
  obtain ⟨names, hnames⟩ := h.outputNames hc hkind hnode
  rw [← getOutputName_eq_error_iff hnames, getOutputName_eq_outputName h hc hkind hnode, hname]

/-- Outputs that are both called `error` are kept apart by the condition, others by their names. -/
theorem output_eq_of_name (h : Readable json) (herrors : ErrorsApart json) {c' : Connection}
    (hc : c ∈ connectionsOf json) (hc' : c' ∈ connectionsOf json) (hsource : c.source = c'.source)
    (hname : c.outputName (createNodes json.nodes) = c'.outputName (createNodes json.nodes)) :
    c.kind = c'.kind ∧ c.output = c'.output := by
  obtain ⟨node, hnode⟩ := exists_source hc
  have hnode' : (createNodes json.nodes).get? c'.source = some node := hsource ▸ hnode
  have hclash : ∀ d ∈ connectionsOf json, ∀ d' ∈ connectionsOf json, d.source = d'.source →
      d.kind = .error → d'.kind = .main → (createNodes json.nodes).get? d.source = some node →
        d.outputName (createNodes json.nodes) ≠ d'.outputName (createNodes json.nodes) := by
    intro d hd d' hd' hsame hkind hkind' hget heq
    rw [outputName_of_error hkind] at heq
    obtain ⟨hhas, hindex⟩ := isErrorOutput_of_outputName h hd' hkind' heq.symm (hsame ▸ hget)
    have hapart := herrors d hd d' hd' hsame hkind
    rw [hkind'] at hapart
    exact hapart node hget hhas hindex
  cases hkind : c.kind with
  | error =>
    cases hkind' : c'.kind with
    | error =>
      have hapart := herrors c hc c' hc' hsource hkind
      rw [hkind'] at hapart
      exact ⟨rfl, hapart⟩
    | main => exact absurd hname (hclash c hc c' hc' hsource hkind hkind' hnode)
  | main =>
    cases hkind' : c'.kind with
    | error => exact absurd hname.symm (hclash c' hc' c hc hsource.symm hkind' hkind hnode')
    | main =>
      refine ⟨rfl, getOutputName_injective (getOutputName_eq_outputName h hc hkind hnode) ?_⟩
      rw [hname]
      exact getOutputName_eq_outputName h hc' hkind' hnode'

theorem input_eq_of_name (h : Readable json) {c' : Connection} (hc : c ∈ connectionsOf json)
    (hc' : c' ∈ connectionsOf json) (htarget : c.target = c'.target)
    (hname : c.inputName (createNodes json.nodes) = c'.inputName (createNodes json.nodes)) :
    c.input = c'.input := by
  obtain ⟨node, hnode⟩ := exists_target hc
  refine getInputName_injective (getInputName_eq_inputName h hc hnode) ?_
  rw [hname]
  exact getInputName_eq_inputName h hc' (htarget ▸ hnode)

/-- The groups with a name and with ends are one at most. -/
theorem length_filter_groupsIn_le (h : Readable json) (herrors : ErrorsApart json)
    (source name : String) : ((groupsIn json).filter fun g =>
      g.source = source ∧ g.name = name ∧ g.targets ≠ []).length ≤ 1 := by
  have hnodup := (nodup_groupsIn json).sublist (List.Sublist.map Group.key (List.filter_sublist
    (p := fun g => decide (g.source = source ∧ g.name = name ∧ g.targets ≠ []))))
  have hkeys : ∀ g ∈ (groupsIn json).filter (fun g => g.source = source ∧ g.name = name ∧
      g.targets ≠ []), ∀ g' ∈ (groupsIn json).filter (fun g => g.source = source ∧ g.name = name ∧
        g.targets ≠ []), g.key = g'.key := by
    intro g hg g' hg'
    obtain ⟨hmem, hprop⟩ := List.mem_filter.1 hg
    obtain ⟨hmem', hprop'⟩ := List.mem_filter.1 hg'
    obtain ⟨hsource, hname, hne⟩ := of_decide_eq_true hprop
    obtain ⟨hsource', hname', hne'⟩ := of_decide_eq_true hprop'
    obtain ⟨t, ht⟩ := List.exists_mem_of_ne_nil _ hne
    obtain ⟨t', ht'⟩ := List.exists_mem_of_ne_nil _ hne'
    obtain ⟨c, hc, hcsource, hckind, hcname, hcmain, hcerror⟩ := exists_mem_connectionsOf hmem ht
    obtain ⟨c', hc', hcsource', hckind', hcname', hcmain', hcerror'⟩ :=
      exists_mem_connectionsOf hmem' ht'
    obtain ⟨hkind, houtput⟩ := output_eq_of_name h herrors hc hc'
      (by rw [hcsource, hcsource', hsource, hsource']) (by rw [hcname, hcname', hname, hname'])
    rw [hckind, hckind'] at hkind
    have hindex : g.output = g'.output := by
      cases hg : g.kind with
      | main => rw [← hcmain hg, ← hcmain' (hkind ▸ hg), houtput]
      | error => rw [hcerror hg, hcerror' (hkind ▸ hg)]
    simp only [Group.key, hsource, hsource', hkind, hindex]
  generalize (groupsIn json).filter (fun g => decide (g.source = source ∧ g.name = name ∧
    g.targets ≠ [])) = l at hnodup hkeys
  match l, hnodup, hkeys with
  | [], _, _ => exact Nat.zero_le _
  | [g], _, _ => exact le_rfl
  | g :: g' :: l, hnodup, hkeys =>
    have hne : g.key ≠ g'.key := by
      rw [List.map_cons, List.map_cons, List.nodup_cons, List.mem_cons, not_or] at hnodup
      exact hnodup.1.1
    exact absurd (hkeys g (by simp) g' (by simp)) hne

end Names

/-! ### The theorem -/

section Represents

variable {json : WorkflowJSON}

/-- The connections that meet a condition, by groups. -/
theorem map_filter_connectionsOf (json : WorkflowJSON) {β : Type}
    (p : String × String × String × ℕ → Bool) (f : String × String × String × ℕ → β) :
    ((connectionsOf json).filter fun c => p (c.placement (createNodes json.nodes))).map
        (fun c => f (c.placement (createNodes json.nodes))) =
      (groupsIn json).flatMap fun g => (g.placements.filter p).map f := by
  have h := congrArg (fun l => (l.filter p).map f) (placements_groupsIn json)
  simp only [List.filter_flatMap, List.map_flatMap, List.filter_map, List.map_map] at h
  exact h.symm

theorem flatMap_ite_eq_filter {α β : Type} {p : α → Prop} [DecidablePred p] {f : α → List β}
    (l : List α) : (l.flatMap fun a => if p a then f a else []) =
      (l.filter fun a => p a ∧ f a ≠ []).flatMap f := by
  classical
  induction l with
  | nil => rfl
  | cons a l ih =>
    rw [List.flatMap_cons, ih, List.filter_cons]
    by_cases hp : p a
    · by_cases hf : f a = [] <;> simp [hp, hf]
    · simp [hp]

theorem flatMap_eq_getLast {α β : Type} {l : List α} (h : l.length ≤ 1) (f : α → List β) :
    l.flatMap f = (l.getLast?.map f).getD [] := by
  match l, h with
  | [], _ => rfl
  | [a], _ => simp

theorem represents_build (h : Readable json) (herrors : ErrorsApart json) :
    Represents json ((connectionEntries json.connections).foldl
      (placeEntry (createNodes json.nodes)) { nodes := createNodes json.nodes }).sortSubnodes := by
  have hholds := holds_build json
  refine ⟨fun source name => ?_, fun target slot => ?_,
    fun c hc c' hc' => output_eq_of_name h herrors hc hc',
    fun c hc c' hc' => input_eq_of_name h hc hc'⟩
  · have hconnections := map_filter_connectionsOf json
      (fun p => decide (p.1 = source ∧ p.2.1 = name))
      (fun p => (⟨p.2.2.1, inputNameOf (createNodes json.nodes) p.2.2.1 p.2.2.2⟩ : SemanticConnection))
    refine Eq.trans ?_ hconnections.symm
    have hgroup : ∀ g :
    Group, ((g.placements.filter fun p => decide (p.1 = source ∧ p.2.1 = name)).map
        fun p => (⟨p.2.2.1, inputNameOf (createNodes json.nodes) p.2.2.1 p.2.2.2⟩ :
          SemanticConnection)) =
        if g.source = source ∧ g.name = name then g.targets.map (stored (createNodes json.nodes))
          else [] := by
      intro g
      rw [Group.placements, List.filter_map, List.map_map]
      by_cases hg : g.source = source ∧ g.name = name
      · simp [hg, Function.comp_def, stored]
      · simp [hg, Function.comp_def]
    simp only [hgroup]
    rw [hholds.outputs, flatMap_ite_eq_filter]
    have hfilter : (groupsIn json).filter (fun g => decide ((g.source = source ∧ g.name = name) ∧
        g.targets.map (stored (createNodes json.nodes)) ≠ [])) =
        (groupsIn json).filter fun g => decide (g.source = source ∧ g.name = name ∧ g.targets ≠ []) := by
      refine List.filter_congr fun g _ => ?_
      simp [and_assoc]
    rw [hfilter, flatMap_eq_getLast (length_filter_groupsIn_le h herrors source name)]
  · have hconnections := map_filter_connectionsOf json
      (fun p => decide (p.2.2.1 = target ∧
        inputNameOf (createNodes json.nodes) p.2.2.1 p.2.2.2 = slot))
      (fun p => (⟨p.1, p.2.1⟩ : SourceInfo))
    refine Eq.trans ?_ hconnections.symm
    rw [hholds.inputs]
    refine List.flatMap_congr fun g _ => ?_
    rw [Group.placements, List.filter_map, List.map_map]
    simp [Function.comp_def, stored]

theorem entryReadable_iff : (∀ e ∈ connectionEntries json.connections,
    EntryReadable (createNodes json.nodes) e) ↔ Readable json := by
  constructor
  · refine fun h => ⟨fun e he hmain htargets node hnode => ?_, fun c hc node hnode => ?_⟩
    · have hhas : (createNodes json.nodes).has e.1 = true := by simp [Dict.has, hnode]
      exact (h e he hhas).1 hmain htargets node hnode
    · obtain ⟨⟨e, he, hce⟩, hsource, -⟩ := mem_connectionsOf.1 hc
      obtain ⟨hs, hkind, targets, hp, t, ht, htarget, -⟩ := mem_entryConnections.1 hce
      refine (h e he (hs ▸ hsource)).2 (by simp [hkind]) targets (mem_outputsOf_of_mem_zipIdx hp) t ht
        node (htarget ▸ hnode)
  · intro h e he hsource
    refine ⟨fun hmain htargets node hnode => h.outputs e he hmain htargets node hnode,
      fun hkind targets htargets t ht node hnode => ?_⟩
    obtain ⟨kind, hkind⟩ := Option.isSome_iff_exists.1 hkind
    obtain ⟨i, hi, hget⟩ := List.mem_iff_getElem.1 htargets
    have hp : (some targets, i) ∈ (outputsOf e).zipIdx := by
      rw [List.mem_zipIdx_iff_getElem?, List.getElem?_eq_getElem hi, hget]
    refine h.inputs ⟨e.1, kind, i, t.node, t.index⟩ (mem_connectionsOf.2 ⟨⟨e, he, ?_⟩, hsource, ?_⟩)
      node hnode
    · exact mem_entryConnections.2 ⟨rfl, hkind, targets, hp, t, ht, rfl, rfl⟩
    · simp [Dict.has, hnode]

/-- Names that tell the outputs apart leave no two outputs called `error`. -/
theorem Represents.errorsApart {graph : SemanticGraph} (h : Represents json graph)
    (hreadable : Readable json) : ErrorsApart json := by
  intro c hc c' hc' hsource hkind
  cases hkind' : c'.kind with
  | error =>
    refine (h.output_eq c hc c' hc' hsource ?_).2
    rw [outputName_of_error hkind, outputName_of_error hkind']
  | main =>
    intro node hnode hhas hindex
    have hnode' : (createNodes json.nodes).get? c'.source = some node := hsource ▸ hnode
    obtain ⟨names, hnames⟩ := hreadable.outputNames hc' hkind' hnode'
    have hname := (getOutputName_eq_error_iff hnames c'.output).2 ⟨hhas, hindex⟩
    rw [getOutputName_eq_outputName hreadable hc' hkind' hnode'] at hname
    have heq := h.output_eq c hc c' hc' hsource
      ((outputName_of_error hkind).trans (Except.ok.inj hname).symm)
    rw [hkind, hkind'] at heq
    cases heq.1

/-- A request that goes on to one node, or to another one when it fails, and that is connected to a
third one by a connection of type `error`. -/
def requestWithErrors : WorkflowJSON where
  nodes := [
    { name := some "Fetch", type := "n8n-nodes-base.httpRequest",
      onError := some .continueErrorOutput },
    { name := some "Store", type := "n8n-nodes-base.set" },
    { name := some "Retry", type := "n8n-nodes-base.set" },
    { name := some "Log", type := "n8n-nodes-base.set" }]
  connections := Dict.ofList [("Fetch", Dict.ofList [
    ("main", [.targets [{ node := "Store" }], .targets [{ node := "Retry" }]]),
    ("error", [.targets [{ node := "Log" }]])])]

end Represents

end Codegen

end N8n
