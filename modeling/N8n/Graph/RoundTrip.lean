import N8n.Graph.DirectedGraph
import N8n.Workflow.ConnectionIndexes

/-!
# Exporting and importing a graph again

* `GraphCall`, `buildGraph`: the graphs built by `addNode` and `addConnection`;
* `RoundTrips`: no added connection was replaced, and the graph comes back from its export;
* `Exportable`: the condition on the added connections;
* `roundTrips_iff`: they are equivalent.
-/

namespace N8n

namespace DirectedGraph

/-! ### Building a graph -/

/-- A call that builds a graph. -/
inductive GraphCall
  | addNode (node : INode)
  | addConnection (connection : GraphConnection)

/-- The effect of a call. -/
def GraphCall.apply (g : DirectedGraph) : GraphCall → Except JsError DirectedGraph
  | addNode node => .ok (g.addNode node)
  | addConnection connection => g.addConnection connection

/-- The connection that a call adds. -/
def GraphCall.connection? : GraphCall → Option GraphConnection
  | addNode _ => none
  | addConnection connection => some connection

/-- The graph that a sequence of calls builds. -/
def buildGraph (calls : List GraphCall) : Except JsError DirectedGraph :=
  calls.foldlM GraphCall.apply empty

/-- The connections that a sequence of calls adds. -/
def added (calls : List GraphCall) : List GraphConnection := calls.filterMap GraphCall.connection?

/-- Every connection added is in the graph, and the graph that is imported from its export has the
same nodes and the same connections. -/
def RoundTrips (added : List GraphConnection) (g : DirectedGraph) : Prop :=
  (∀ c ∈ added, c ∈ g.getConnections) ∧
    ∃ connections g', g.toIConnections = .ok connections ∧
      fromNodesAndConnections g.getNodes connections = .ok g' ∧
      (∀ n, n ∈ g'.getNodes ↔ n ∈ g.getNodes) ∧ ∀ c, c ∈ g'.getConnections ↔ c ∈ g.getConnections

/-- The connections added have different keys, lead between nodes of the graph, leave each source
with one type only and at indexes of an array, and no source has the name of a member of
`Object.prototype`. -/
structure Exportable (added : List GraphConnection) (g : DirectedGraph) : Prop where
  keys : ∀ c ∈ added, ∀ c' ∈ added, makeKey c = makeKey c' → c = c'
  ends : ∀ c ∈ added, c.fromNode ∈ g.getNodes ∧ c.toNode ∈ g.getNodes
  oneType : ∀ c ∈ added, ∀ c' ∈ added, c.fromNode.name = c'.fromNode.name → c.type = c'.type
  names : ∀ c ∈ added, c.fromNode.name ∉ objectPrototypeKeys
  indexes : ∀ c ∈ added, c.outputIndex < arrayLimit

theorem added_concat (calls : List GraphCall) (call : GraphCall) :
    added (calls ++ [call]) = added calls ++ call.connection?.toList := by
  rw [added, List.filterMap_append]
  cases call <;> rfl

variable {g g' : DirectedGraph} {cs : List GraphConnection} {connections : IConnections}
  {nodes : List INode}

/-- The connections of a graph were added, and all that were added are there unless two of them have
the same key. -/
theorem mem_getConnections_of_build {calls : List GraphCall} (h : buildGraph calls = .ok g) :
    (∀ c ∈ g.getConnections, c ∈ added calls) ∧
      ((∀ c ∈ added calls, ∀ c' ∈ added calls, makeKey c = makeKey c' → c = c') →
        ∀ c ∈ added calls, c ∈ g.getConnections) := by
  induction calls using List.reverseRecOn generalizing g with
  | nil =>
    cases h
    exact ⟨fun c hc => absurd hc List.not_mem_nil, fun _ c hc => absurd hc List.not_mem_nil⟩
  | append_singleton calls call ih =>
    rw [buildGraph, List.foldlM_append, Except.bind_eq_ok_iff] at h
    obtain ⟨g₁, h₁, h⟩ := h
    rw [List.foldlM_cons, Except.bind_eq_ok_iff] at h
    obtain ⟨g₂, hcall, h⟩ := h
    cases h
    obtain ⟨hsub, hall⟩ := ih h₁
    rw [added_concat]
    cases call with
    | addNode node =>
      cases hcall
      rw [GraphCall.connection?, Option.toList_none, List.append_nil, getConnections_addNode]
      exact ⟨hsub, hall⟩
    | addConnection connection =>
      obtain ⟨-, rfl⟩ := addConnection_eq_ok_iff.1 hcall
      simp only [GraphCall.connection?, Option.toList_some, List.mem_append, List.mem_singleton,
        mem_getConnections_setConnection]
      constructor
      · rintro c (rfl | ⟨hc, -⟩)
        · exact Or.inr rfl
        · exact Or.inl (hsub c hc)
      · rintro hinj c (hc | rfl)
        · by_cases hkey : makeKey c = makeKey connection
          · exact Or.inl (hinj c (Or.inl hc) connection (Or.inr rfl) hkey)
          · exact Or.inr ⟨hall (fun a ha b hb => hinj a (Or.inl ha) b (Or.inl hb)) c hc, hkey⟩
        · exact Or.inl rfl

/-! ### The export -/

/-- A connection as the flat list of an export has it. -/
def exported (c : GraphConnection) : SourcedConnection :=
  ⟨⟨c.fromNode.name, c.type, c.outputIndex⟩, ⟨c.toNode.name, c.type, c.inputIndex⟩⟩

/-- The export of some connections. -/
structure Exports (done : List GraphConnection) (result : IConnections) : Prop where
  slots : ∀ sc : SourcedConnection, sc.target ∈ connectionsAt result sc.source.node sc.source.type
    sc.source.index ↔ ∃ c ∈ done, c.outputIndex < arrayLimit ∧ exported c = sc
  types : ∀ c ∈ done, ∀ ofNode, result.get? c.fromNode.name = some ofNode →
    ∀ t, (ofNode.get? t).isSome ↔ t = c.type
  sources : ∀ n, (result.get? n).isSome ↔ ∃ c ∈ done, c.fromNode.name = n

theorem mem_pushGroup (outputs : NodeInputConnections) (i j : ℕ) (c x : IConnection) :
    x ∈ (((pushGroup outputs i c)[j]?).bind id).getD [] ↔
      x ∈ ((outputs[j]?).bind id).getD [] ∨ j = i ∧ i < arrayLimit ∧ x = c := by
  rw [← SparseArray.getAt_eq_getElem?, ← SparseArray.getAt_eq_getElem?, pushGroup]
  split_ifs with hlim
  · rw [SparseArray.getAt_setAt]
    split_ifs with hj
    · simp [hj, hlim]
    · simp [hj]
  · simp [hlim]

/-- The record of a source that an exported connection is entered into. -/
def sourceRecord (result : IConnections) (c : GraphConnection) : INodeConnections :=
  (result.get? c.fromNode.name).getD (Dict.empty.set c.type [])

variable {result : IConnections} {c : GraphConnection} {done : List GraphConnection}

/-- A connection is exported exactly when its source has no reserved name and its record a list for
the type. -/
theorem exportConnection_eq_ok_iff {result' : IConnections} :
    exportConnection result c = .ok result' ↔ c.fromNode.name ∉ objectPrototypeKeys ∧
      ∃ outputs, (sourceRecord result c).get? c.type = some outputs ∧
        result' = result.set c.fromNode.name ((sourceRecord result c).set c.type
          (pushGroup outputs c.outputIndex ⟨c.toNode.name, c.type, c.inputIndex⟩)) := by
  rw [exportConnection]
  split_ifs with hname
  · exact iff_of_false (fun h => by cases h) fun h => h.1 hname
  · rw [Except.bind_eq_ok_iff]
    constructor
    · rintro ⟨outputs, hout, h⟩
      cases h
      exact ⟨hname, outputs, orTypeError_eq_ok hout, rfl⟩
    · rintro ⟨-, outputs, hout, rfl⟩
      exact ⟨outputs, by rw [← sourceRecord, hout, orTypeError_some], rfl⟩

theorem get?_sourceRecord (result : IConnections) (c : GraphConnection) (t : NodeConnectionType)
    (j : ℕ) : (((((sourceRecord result c).get? t).bind (·[j]?)).bind id).getD []) =
      connectionsAt result c.fromNode.name t j := by
  rw [sourceRecord, connectionsAt]
  cases result.get? c.fromNode.name with
  | some ofNode => rfl
  | none =>
    rw [Option.getD_none, Dict.get?_set, Option.bind_none]
    split_ifs <;> simp

theorem mem_connectionsAt_export {outputs : NodeInputConnections}
    (hout : (sourceRecord result c).get? c.type = some outputs) (sc : SourcedConnection) :
    sc.target ∈ connectionsAt (result.set c.fromNode.name ((sourceRecord result c).set c.type
        (pushGroup outputs c.outputIndex ⟨c.toNode.name, c.type, c.inputIndex⟩))) sc.source.node
        sc.source.type sc.source.index ↔
      sc.target ∈ connectionsAt result sc.source.node sc.source.type sc.source.index ∨
        c.outputIndex < arrayLimit ∧ exported c = sc := by
  obtain ⟨⟨n, t, j⟩, target⟩ := sc
  have hread := get?_sourceRecord result c t j
  simp only [connectionsAt, exported, Dict.get?_set, SourcedConnection.mk.injEq,
    IConnection.mk.injEq]
  by_cases hn : n = c.fromNode.name
  · subst hn
    rw [if_pos rfl, Option.bind_some, Dict.get?_set]
    by_cases ht : t = c.type
    · subst ht
      rw [hout, Option.bind_some, connectionsAt] at hread
      rw [if_pos rfl, Option.bind_some, mem_pushGroup, hread]
      refine or_congr_right ?_
      constructor
      · rintro ⟨rfl, hlim, rfl⟩
        exact ⟨hlim, ⟨rfl, rfl, rfl⟩, rfl⟩
      · rintro ⟨hlim, ⟨-, -, rfl⟩, rfl⟩
        exact ⟨rfl, hlim, rfl⟩
    · rw [if_neg ht, hread]
      have hne : ¬(c.outputIndex < arrayLimit ∧ (c.fromNode.name = c.fromNode.name ∧ c.type = t ∧
          c.outputIndex = j) ∧ (⟨c.toNode.name, c.type, c.inputIndex⟩ : IConnection) = target) :=
        fun h => ht h.2.1.2.1.symm
      rw [connectionsAt]
      exact (or_iff_left hne).symm
  · have hne : ¬(c.outputIndex < arrayLimit ∧ (c.fromNode.name = n ∧ c.type = t ∧
        c.outputIndex = j) ∧ (⟨c.toNode.name, c.type, c.inputIndex⟩ : IConnection) = target) :=
      fun h => hn h.2.1.1.symm
    rw [if_neg hn]
    exact (or_iff_left hne).symm

/-- Whether a connection can be exported after others: its source has no reserved name and one type. -/
def Joins (done : List GraphConnection) (c : GraphConnection) : Prop :=
  c.fromNode.name ∉ objectPrototypeKeys ∧
    ∀ c' ∈ done, c'.fromNode.name = c.fromNode.name → c'.type = c.type

/-- The record of a source has a list for a type exactly when no other type was used. -/
theorem Exports.get?_sourceRecord_isSome_iff (h : Exports done result) (c : GraphConnection) :
    ((sourceRecord result c).get? c.type).isSome ↔
      ∀ c' ∈ done, c'.fromNode.name = c.fromNode.name → c'.type = c.type := by
  rw [sourceRecord]
  cases hget : result.get? c.fromNode.name with
  | none =>
    rw [Option.getD_none, Dict.get?_set_self]
    refine iff_of_true rfl fun c' hc' hname => ?_
    have := (h.sources _).2 ⟨c', hc', hname⟩
    rw [hget] at this
    cases this
  | some ofNode =>
    rw [Option.getD_some]
    have htypes : ∀ c' ∈ done, c'.fromNode.name = c.fromNode.name →
        ((ofNode.get? c.type).isSome ↔ c.type = c'.type) :=
      fun c' hc' hname => h.types c' hc' ofNode (by rw [hname, hget]) c.type
    constructor
    · exact fun hsome c' hc' hname => ((htypes c' hc' hname).1 hsome).symm
    · intro hall
      obtain ⟨c', hc', hname⟩ := (h.sources c.fromNode.name).1 (by rw [hget]; rfl)
      exact (htypes c' hc' hname).2 (hall c' hc' hname).symm

/-- One more connection is exported exactly when it joins the ones before. -/
theorem Exports.export (h : Exports done result) (c : GraphConnection) :
    ((∃ result', exportConnection result c = .ok result') ↔ Joins done c) ∧
      ∀ result', exportConnection result c = .ok result' → Exports (done ++ [c]) result' := by
  have hiff := h.get?_sourceRecord_isSome_iff c
  refine ⟨⟨?_, fun hjoin => ?_⟩, fun result' hexp => ?_⟩
  · rintro ⟨result', hexp⟩
    obtain ⟨hname, outputs, hout, -⟩ := exportConnection_eq_ok_iff.1 hexp
    exact ⟨hname, hiff.1 (by rw [hout]; rfl)⟩
  · obtain ⟨outputs, hout⟩ := Option.isSome_iff_exists.1 (hiff.2 hjoin.2)
    exact ⟨_, exportConnection_eq_ok_iff.2 ⟨hjoin.1, outputs, hout, rfl⟩⟩
  · obtain ⟨hname, outputs, hout, rfl⟩ := exportConnection_eq_ok_iff.1 hexp
    have htype := hiff.1 (by rw [hout]; rfl)
    refine ⟨fun sc => ?_, fun c' hc' ofNode hget t => ?_, fun n => ?_⟩
    · rw [mem_connectionsAt_export hout, h.slots]
      simp only [List.mem_append, List.mem_singleton, or_and_right, exists_or, exists_eq_left]
    · rw [Dict.get?_set] at hget
      split_ifs at hget with hsame
      · cases hget
        have hc : c'.type = c.type := by
          rcases List.mem_append.1 hc' with hc' | hc'
          · exact htype c' hc' hsame
          · rw [List.mem_singleton.1 hc']
        rw [Dict.get?_set, hc]
        split_ifs with ht
        · exact iff_of_true rfl ht
        · rw [iff_false_right ht, sourceRecord]
          cases hget' : result.get? c.fromNode.name with
          | none => rw [Option.getD_none, Dict.get?_set_ne _ _ ht]; simp
          | some ofNode =>
            obtain ⟨c₀, hc₀, hname₀⟩ := (h.sources c.fromNode.name).1 (by rw [hget']; rfl)
            rw [Option.getD_some, h.types c₀ hc₀ ofNode (by rw [hname₀, hget']),
              htype c₀ hc₀ hname₀]
            exact ht
      · rcases List.mem_append.1 hc' with hc' | hc'
        · exact h.types c' hc' ofNode hget t
        · exact absurd (congrArg (·.fromNode.name) (List.mem_singleton.1 hc')) hsame
    · rw [Dict.get?_set]
      split_ifs with hn
      · exact iff_of_true rfl ⟨c, List.mem_append_right _ (List.mem_singleton_self c), hn.symm⟩
      · rw [h.sources]
        simp only [List.mem_append, List.mem_singleton, or_and_right, exists_or, exists_eq_left]
        exact (or_iff_left fun h => hn h.symm).symm

theorem Exports.init : Exports [] Dict.empty where
  slots := fun sc => by simp [connectionsAt]
  types := fun c hc => absurd hc List.not_mem_nil
  sources := fun n => by simp

/-- The sources have no reserved name and one type each. -/
def Compatible (cs : List GraphConnection) : Prop :=
  (∀ c ∈ cs, c.fromNode.name ∉ objectPrototypeKeys) ∧
    ∀ c ∈ cs, ∀ c' ∈ cs, c.fromNode.name = c'.fromNode.name → c.type = c'.type

theorem Compatible.concat (h : Compatible done) (hc : Joins done c) : Compatible (done ++ [c]) := by
  simp only [Compatible, List.mem_append, List.mem_singleton]
  constructor
  · rintro a (ha | rfl)
    · exact h.1 a ha
    · exact hc.1
  · rintro a (ha | rfl) b (hb | rfl) hname
    · exact h.2 a ha b hb hname
    · exact hc.2 a ha hname
    · exact (hc.2 b hb hname.symm).symm
    · rfl

theorem Compatible.joins (h : Compatible (done ++ c :: cs)) : Joins done c :=
  ⟨h.1 c (by simp), fun c' hc' hname => h.2 c' (by simp [hc']) c (by simp) hname⟩

theorem Exports.foldlM (h : Exports done result) (hdone : Compatible done) :
    ((∃ result', cs.foldlM exportConnection result = .ok result') ↔ Compatible (done ++ cs)) ∧
      ∀ result', cs.foldlM exportConnection result = .ok result' → Exports (done ++ cs) result' := by
  induction cs generalizing done result with
  | nil =>
    rw [List.append_nil]
    refine ⟨iff_of_true ⟨result, rfl⟩ hdone, fun result' hfold => ?_⟩
    cases hfold
    exact h
  | cons c cs ih =>
    have hassoc : done ++ c :: cs = done ++ [c] ++ cs := by simp
    obtain ⟨hone, hnext⟩ := h.export c
    rw [List.foldlM_cons, hassoc]
    constructor
    · constructor
      · rintro ⟨result', hfold⟩
        obtain ⟨result₁, hexp, hfold⟩ := Except.bind_eq_ok_iff.1 hfold
        exact (ih (hnext _ hexp) (hdone.concat (hone.1 ⟨_, hexp⟩))).1.1 ⟨result', hfold⟩
      · intro hall
        have hjoin : Joins done c := Compatible.joins (hassoc ▸ hall)
        obtain ⟨result₁, hexp⟩ := hone.2 hjoin
        obtain ⟨result', hfold⟩ := (ih (hnext _ hexp) (hdone.concat hjoin)).1.2 hall
        exact ⟨result', Except.bind_eq_ok_iff.2 ⟨result₁, hexp, hfold⟩⟩
    · intro result' hfold
      obtain ⟨result₁, hexp, hfold⟩ := Except.bind_eq_ok_iff.1 hfold
      exact (ih (hnext _ hexp) (hdone.concat (hone.1 ⟨_, hexp⟩))).2 result' hfold

/-- The export succeeds exactly when the sources have no reserved name and one type each, and then
lists the connections that leave at an index of an array. -/
theorem toIConnections_spec (g : DirectedGraph) :
    ((∃ connections, g.toIConnections = .ok connections) ↔ Compatible g.getConnections) ∧
      ∀ connections, g.toIConnections = .ok connections → Exports g.getConnections connections :=
  Exports.init.foldlM ⟨fun _ hc => absurd hc List.not_mem_nil, fun _ hc => absurd hc List.not_mem_nil⟩

/-! ### The import -/

theorem mem_connectionList_iff (c : IConnections) (sc : SourcedConnection) :
    sc ∈ connectionList c ↔ sc.target ∈ connectionsAt c sc.source.node sc.source.type
      sc.source.index := by
  rw [← List.count_pos_iff, ← List.count_pos_iff, ← count_connectionList]

theorem mem_connectionList_iff_source (c : IConnections) (sc : SourcedConnection) :
    sc ∈ connectionList c ↔ ∃ n ∈ c.ownKeys, sc ∈ sourceConnections c n :=
  List.mem_flatMap

theorem Exports.mem_connectionList (h : Exports done result) (sc : SourcedConnection) :
    sc ∈ connectionList result ↔ ∃ c ∈ done, c.outputIndex < arrayLimit ∧ exported c = sc := by
  rw [mem_connectionList_iff, h.slots]

/-- What every step of an import keeps: it adds connections between nodes of the graph that satisfy
a property. -/
def Imports (P : GraphConnection → Prop) (g g' : DirectedGraph) : Prop :=
  g'.nodes = g.nodes ∧ ∀ c ∈ g'.getConnections, c ∈ g.getConnections ∨
    P c ∧ c.fromNode ∈ g.getNodes ∧ c.toNode ∈ g.getNodes

theorem Imports.refl (P : GraphConnection → Prop) (g : DirectedGraph) : Imports P g g :=
  ⟨rfl, fun _ hc => Or.inl hc⟩

theorem Imports.trans {P : GraphConnection → Prop} {g₁ g₂ g₃ : DirectedGraph}
    (h₁ : Imports P g₁ g₂) (h₂ : Imports P g₂ g₃) : Imports P g₁ g₃ := by
  refine ⟨h₂.1.trans h₁.1, fun c hc => ?_⟩
  rcases h₂.2 c hc with hc | ⟨hP, hends⟩
  · exact h₁.2 c hc
  · rw [getNodes, h₁.1, ← getNodes] at hends
    exact Or.inr ⟨hP, hends⟩

/-- A successful import adds connections with the source slots of the imported ones. -/
theorem importSource_imports {nodeMap : Dict String INode} {n : String}
    (hn : n ∈ connections.ownKeys) (h : importSource nodeMap connections g n = .ok g') :
    Imports (fun c => ∃ sc ∈ connectionList connections, sc.source.index = c.outputIndex) g g' := by
  obtain ⟨fromNode, -, hfold⟩ := Except.bind_eq_ok_iff.1 h
  refine Except.foldlM_rel (Imports.refl _) (fun _ _ _ => Imports.trans) ?_ hfold
  intro g₁ sc g₂ hsc hstep
  obtain ⟨toNode, -, hadd⟩ := Except.bind_eq_ok_iff.1 hstep
  obtain ⟨hends, rfl⟩ := addConnection_eq_ok_iff.1 hadd
  refine ⟨rfl, fun c hc => ?_⟩
  rcases (mem_getConnections_setConnection _ _ _).1 hc with rfl | ⟨hc, -⟩
  · exact Or.inr ⟨⟨sc, (mem_connectionList_iff_source _ _).2 ⟨n, hn, hsc⟩, rfl⟩, hends⟩
  · exact Or.inl hc

theorem fromNodesAndConnections_imports (h : fromNodesAndConnections nodes connections = .ok g') :
    Imports (fun c => ∃ sc ∈ connectionList connections, sc.source.index = c.outputIndex)
      (empty.addNodes nodes) g' :=
  Except.foldlM_rel (Imports.refl _) (fun _ _ _ => Imports.trans)
    (fun _ _ _ hn hstep => importSource_imports hn hstep) h

theorem nodes_addNodes (g : DirectedGraph) (nodes : List INode) :
    (g.addNodes nodes).nodes = nodes.foldl (fun d n => d.set n.name n) g.nodes := by
  induction nodes generalizing g with
  | nil => rfl
  | cons n nodes ih => exact ih (g.addNode n)

theorem get?_nodesByName (h : (nodes.map INode.name).Nodup) (k : String) (n : INode) :
    (Workflow.nodesByName nodes).get? k = some n ↔ n ∈ nodes ∧ n.name = k := by
  induction nodes using List.reverseRecOn with
  | nil => simp [Workflow.nodesByName]
  | append_singleton nodes m ih =>
    rw [List.map_append, List.nodup_append] at h
    have ih := ih h.1
    rw [Workflow.nodesByName, List.foldl_append]
    simp only [List.foldl_cons, List.foldl_nil, Dict.get?_set, List.mem_append, List.mem_singleton]
    split_ifs with hk
    · constructor
      · intro hm
        cases hm
        exact ⟨Or.inr rfl, hk.symm⟩
      · rintro ⟨hn | rfl, hname⟩
        · exact absurd (hname.trans hk) (h.2.2 n.name (List.mem_map_of_mem hn) m.name (by simp))
        · rfl
    · rw [← Workflow.nodesByName, ih]
      constructor
      · exact fun ⟨hn, hname⟩ => ⟨Or.inl hn, hname⟩
      · rintro ⟨hn | rfl, hname⟩
        · exact ⟨hn, hname⟩
        · exact absurd hname.symm hk

section Restore

variable {g : DirectedGraph}

/-- The nodes of a graph as the import looks them up. -/
theorem get?_nodesByName_getNodes {node : INode} (h : node ∈ g.getNodes) :
    (Workflow.nodesByName g.getNodes).get? node.name = some node :=
  (get?_nodesByName g.map_name_getNodes_nodup _ _).2 ⟨h, rfl⟩

theorem mem_getNodes_addNodes_getNodes (node : INode) :
    node ∈ (empty.addNodes g.getNodes).getNodes ↔ node ∈ g.getNodes := by
  rw [mem_getNodes_iff, nodes_addNodes, empty, ← Workflow.nodesByName,
    get?_nodesByName g.map_name_getNodes_nodup, and_iff_left rfl]

/-- The connections that were imported back. -/
def Restored (g : DirectedGraph) (done : List SourcedConnection) (g₁ : DirectedGraph) : Prop :=
  g₁.nodes = (empty.addNodes g.getNodes).nodes ∧
    ∀ c, c ∈ g₁.getConnections ↔ c ∈ g.getConnections ∧ exported c ∈ done

theorem eq_of_exported_eq {c c' : GraphConnection}
    (hc : c.fromNode ∈ g.getNodes ∧ c.toNode ∈ g.getNodes)
    (hc' : c'.fromNode ∈ g.getNodes ∧ c'.toNode ∈ g.getNodes) (h : exported c = exported c') :
    c = c' := by
  obtain ⟨f, n, t, i, j⟩ := c
  obtain ⟨f', n', t', i', j'⟩ := c'
  simp only [exported, SourcedConnection.mk.injEq, IConnection.mk.injEq] at h
  obtain ⟨⟨hf, rfl, rfl⟩, hn, -, rfl⟩ := h
  obtain rfl : f = f' := eq_of_name_eq hc.1 hc'.1 hf
  obtain rfl : n = n' := eq_of_name_eq hc.2 hc'.2 hn
  rfl

/-- A connection of the graph is imported back. -/
theorem Restored.import_connection
    (hends : g.Closed) {done : List SourcedConnection} {g₁ : DirectedGraph} (h : Restored g done g₁)
    {c : GraphConnection} (hc : c ∈ g.getConnections) :
    ∃ g₂, importConnection (Workflow.nodesByName g.getNodes) c.fromNode g₁ (exported c) = .ok g₂ ∧
      Restored g (done ++ [exported c]) g₂ := by
  have hnodes : ∀ n ∈ g.getNodes, n ∈ g₁.getNodes := fun n hn => by
    rw [getNodes, h.1, ← getNodes]
    exact (mem_getNodes_addNodes_getNodes n).2 hn
  refine ⟨g₁.setConnection c, Except.bind_eq_ok_iff.2 ⟨c.toNode, ?_, ?_⟩, h.1, fun c' => ?_⟩
  · rw [exported, get?_nodesByName_getNodes (hends c hc).2, orAssertionError_some]
  · exact addConnection_eq_ok_iff.2 ⟨⟨hnodes _ (hends c hc).1, hnodes _ (hends c hc).2⟩, rfl⟩
  · rw [mem_getConnections_setConnection, h.2, List.mem_append, List.mem_singleton]
    constructor
    · rintro (rfl | ⟨⟨hc', hdone⟩, -⟩)
      · exact ⟨hc, Or.inr rfl⟩
      · exact ⟨hc', Or.inl hdone⟩
    · rintro ⟨hc', hdone | heq⟩
      · by_cases hkey : makeKey c' = makeKey c
        · exact Or.inl (eq_of_makeKey_eq hc' hc hkey)
        · exact Or.inr ⟨⟨hc', hdone⟩, hkey⟩
      · exact Or.inl (eq_of_exported_eq (hends c' hc') (hends c hc) heq)

variable {connections : IConnections}

theorem source_node_of_mem {n : String} {sc : SourcedConnection}
    (h : sc ∈ sourceConnections connections n) : sc.source.node = n := by
  obtain ⟨e, -, he⟩ := List.mem_flatMap.1 h
  have hpos := List.count_pos_iff.2 he
  rw [count_outputConnections] at hpos
  by_contra hne
  rw [if_neg fun h => hne h.1] at hpos
  exact absurd hpos (lt_irrefl 0)

/-- The connections of a source are imported back. -/
theorem Restored.import_source (hends : g.Closed)
    (hexp : Exports g.getConnections connections) {done : List SourcedConnection}
    {g₁ : DirectedGraph} (h : Restored g done g₁) {n : String} (hn : n ∈ connections.ownKeys) :
    ∃ g₂, importSource (Workflow.nodesByName g.getNodes) connections g₁ n = .ok g₂ ∧
      Restored g (done ++ sourceConnections connections n) g₂ := by
  obtain ⟨c₀, hc₀, rfl⟩ := (hexp.sources n).1 ((Dict.mem_ownKeys _ _).1 hn)
  have hmem : ∀ sc ∈ sourceConnections connections c₀.fromNode.name,
      ∃ c ∈ g.getConnections, c.fromNode = c₀.fromNode ∧ exported c = sc := by
    intro sc hsc
    obtain ⟨c, hc, -, rfl⟩ :=
      (hexp.mem_connectionList sc).1 ((mem_connectionList_iff_source _ _).2 ⟨_, hn, hsc⟩)
    have hname : c.fromNode.name = c₀.fromNode.name := source_node_of_mem hsc
    exact ⟨c, hc, eq_of_name_eq (hends c hc).1 (hends c₀ hc₀).1 hname, rfl⟩
  have hfold : ∀ (l : List SourcedConnection), (∀ sc ∈ l, ∃ c ∈ g.getConnections,
      c.fromNode = c₀.fromNode ∧ exported c = sc) → ∀ done g₁, Restored g done g₁ →
        ∃ g₂, l.foldlM (importConnection (Workflow.nodesByName g.getNodes) c₀.fromNode) g₁ = .ok g₂ ∧
          Restored g (done ++ l) g₂ := by
    intro l
    induction l with
    | nil => exact fun _ done g₁ h => ⟨g₁, rfl, by rwa [List.append_nil]⟩
    | cons sc l ih =>
      intro hl done g₁ h
      obtain ⟨c, hc, hfrom, rfl⟩ := hl sc List.mem_cons_self
      obtain ⟨g₂, hstep, h₂⟩ := h.import_connection hends hc
      obtain ⟨g₃, hfold, h₃⟩ := ih (fun sc hsc => hl sc (List.mem_cons_of_mem _ hsc)) _ _ h₂
      rw [List.append_assoc] at h₃
      refine ⟨g₃, ?_, h₃⟩
      rw [List.foldlM_cons]
      exact Except.bind_eq_ok_iff.2 ⟨g₂, hfrom ▸ hstep, hfold⟩
  obtain ⟨g₂, hg₂, h₂⟩ := hfold _ hmem done g₁ h
  refine ⟨g₂, Except.bind_eq_ok_iff.2 ⟨c₀.fromNode, ?_, hg₂⟩, h₂⟩
  rw [get?_nodesByName_getNodes (hends c₀ hc₀).1, orAssertionError_some]

/-- The connections of all sources are imported back. -/
theorem fromNodesAndConnections_restored (hends : g.Closed)
    (hexp : Exports g.getConnections connections) :
    ∃ g', fromNodesAndConnections g.getNodes connections = .ok g' ∧
      Restored g (connectionList connections) g' := by
  have hfold : ∀ keys : List String, keys ⊆ connections.ownKeys → ∀ done g₁, Restored g done g₁ →
      ∃ g₂, keys.foldlM (importSource (Workflow.nodesByName g.getNodes) connections) g₁ =
          .ok g₂ ∧ Restored g (done ++ keys.flatMap (sourceConnections connections)) g₂ := by
    intro keys
    induction keys with
    | nil => exact fun _ done g₁ h => ⟨g₁, rfl, by simpa using h⟩
    | cons n keys ih =>
      intro hkeys done g₁ h
      obtain ⟨hn, hkeys⟩ := List.cons_subset.1 hkeys
      obtain ⟨g₂, hstep, h₂⟩ := h.import_source hends hexp hn
      obtain ⟨g₃, hfold, h₃⟩ := ih hkeys _ _ h₂
      rw [List.append_assoc] at h₃
      refine ⟨g₃, ?_, h₃⟩
      rw [List.foldlM_cons]
      exact Except.bind_eq_ok_iff.2 ⟨g₂, hstep, hfold⟩
  refine hfold _ (List.Subset.refl _) [] _ ⟨rfl, fun c => ?_⟩
  rw [getConnections_addNodes]
  exact iff_of_false List.not_mem_nil fun h => List.not_mem_nil h.2

end Restore

/-! ### The round trip -/

/-- **A graph comes back from its export with all connections added exactly when these are
exportable.** -/
theorem roundTrips_iff (calls : List GraphCall) (g : DirectedGraph)
    (hg : buildGraph calls = .ok g) : RoundTrips (added calls) g ↔ Exportable (added calls) g := by
  obtain ⟨hsub, hall⟩ := mem_getConnections_of_build hg
  obtain ⟨hok, hexports⟩ := g.toIConnections_spec
  constructor
  · rintro ⟨hadded, connections, g', hexp, himp, hnodes, hconns⟩
    obtain ⟨hnames, hone⟩ := hok.1 ⟨_, hexp⟩
    have himports := fromNodesAndConnections_imports himp
    have hnew : ∀ c ∈ added calls, (∃ sc ∈ connectionList connections,
        sc.source.index = c.outputIndex) ∧ c.fromNode ∈ g.getNodes ∧ c.toNode ∈ g.getNodes := by
      intro c hc
      refine (himports.2 c ((hconns c).2 (hadded c hc))).elim (fun hc => ?_) fun ⟨hP, hf, ht⟩ => ?_
      · rw [getConnections_addNodes] at hc
        exact absurd hc List.not_mem_nil
      · exact ⟨hP, (mem_getNodes_addNodes_getNodes _).1 hf, (mem_getNodes_addNodes_getNodes _).1 ht⟩
    refine ⟨fun c hc c' hc' hkey => eq_of_makeKey_eq (hadded c hc) (hadded c' hc') hkey,
      fun c hc => (hnew c hc).2, fun c hc c' hc' => hone c (hadded c hc) c' (hadded c' hc'),
      fun c hc => hnames c (hadded c hc), fun c hc => ?_⟩
    obtain ⟨sc, hsc, hindex⟩ := (hnew c hc).1
    obtain ⟨c', -, hlim, rfl⟩ := ((hexports _ hexp).mem_connectionList sc).1 hsc
    exact hindex ▸ hlim
  · intro h
    have hadded := hall h.keys
    obtain ⟨connections, hexp⟩ := hok.2 ⟨fun c hc => h.names c (hsub c hc),
      fun c hc c' hc' => h.oneType c (hsub c hc) c' (hsub c' hc')⟩
    obtain ⟨g', himp, hrest⟩ := fromNodesAndConnections_restored
      (fun c hc => h.ends c (hsub c hc)) (hexports _ hexp)
    refine ⟨hadded, connections, g', hexp, himp, fun n => ?_, fun c => ?_⟩
    · rw [getNodes, hrest.1, ← getNodes]
      exact mem_getNodes_addNodes_getNodes n
    · rw [hrest.2, (hexports _ hexp).mem_connectionList]
      exact and_iff_left_of_imp fun hc => ⟨c, hc, h.indexes c (hsub c hc), rfl⟩

/-- `A` is connected to `B` by connections of the given types. -/
def typedCalls (types : List NodeConnectionType) : List GraphCall :=
  [.addNode { name := "A" }, .addNode { name := "B" }] ++
    types.map fun type => .addConnection ⟨{ name := "A" }, { name := "B" }, type, 0, 0⟩

theorem roundTrips_iff_typed : ∃ g, buildGraph (typedCalls [.main]) = .ok g ∧
    (RoundTrips (added (typedCalls [.main])) g ↔ Exportable (added (typedCalls [.main])) g) :=
  ⟨_, rfl, roundTrips_iff _ _ rfl⟩

/-- A source with outputs of two types cannot be exported. -/
theorem toIConnections_throws : ∃ g, buildGraph (typedCalls [.main, .aiTool]) = .ok g ∧
    g.toIConnections = .error .typeError ∧
      ¬RoundTrips (added (typedCalls [.main, .aiTool])) g := by
  refine ⟨_, rfl, rfl, ?_⟩
  rintro ⟨-, connections, g', hexp, -⟩
  cases hexp

end DirectedGraph

end N8n
