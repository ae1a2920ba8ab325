import N8n.Graph.DirectedGraph
import N8n.Lib.OrderedSet

/-!
# Comparing the connections of two versions

`packages/workflow/src/connections-diff.ts`.

* `compareConnections`: the connections added and removed between two versions;
* `hasConnection_of_removed_eq_nil`: when no node is listed with removed connections, every connection is
  still there, except perhaps under a name that every plain object answers.

A connection is its own key here: `JSON.stringify` tells connections apart by their three fields.
-/

namespace N8n

/-- A connection at its place in the list of a source index. -/
structure ConnectionEntry where
  sourceIndex : ℕ
  index : ℕ
  connection : IConnection
  deriving DecidableEq

/-- The entries of a node by the name of the input. -/
abbrev INodeConnectionsDiff := Dict NodeConnectionType (List ConnectionEntry)

structure ConnectionsDiff where
  added : Dict String INodeConnectionsDiff
  removed : Dict String INodeConnectionsDiff
  deriving DecidableEq

/-- `connections[nodeName] ?? {}`. -/
def nodeConnectionsOf (connections : IConnections) (nodeName : String) : INodeConnections :=
  (connections.get? nodeName).getD .empty

/-- `nodeConnections[inputName] ?? []`. -/
def inputConnectionsOf (nodeConnections : INodeConnections) (inputName : NodeConnectionType) :
    NodeInputConnections :=
  (nodeConnections.get? inputName).getD []

/-- `inputConnections[sourceIndex] ?? []`. -/
def groupAt (inputConnections : NodeInputConnections) (sourceIndex : ℕ) : List IConnection :=
  (inputConnections[sourceIndex]?.join).getD []

/-- The connections of one group by their text, each with its last index. -/
def groupMap (connections : List IConnection) : Dict IConnection ℕ :=
  .ofList connections.zipIdx

/-- The entries of `connections` that `others` does not have. -/
def missingEntries (sourceIndex : ℕ) (connections others : List IConnection) :
    List ConnectionEntry :=
  ((groupMap connections).entries.filter fun e => !(groupMap others).has e.1).map fun e =>
    ⟨sourceIndex, e.2, e.1⟩

/-- What `first` has and `second` does not, in the order of the loops over the names and indexes of
`prev` and `next`. -/
def differences (prev next first second : IConnections) :
    List (String × NodeConnectionType × ConnectionEntry) :=
  (OrderedSet.ofList (prev.ownKeys ++ next.ownKeys)).elems.flatMap fun nodeName =>
    let prevNode := nodeConnectionsOf prev nodeName
    let nextNode := nodeConnectionsOf next nodeName
    (OrderedSet.ofList (prevNode.keys ++ nextNode.keys)).elems.flatMap fun inputName =>
      let maxLength := max (inputConnectionsOf prevNode inputName).length
        (inputConnectionsOf nextNode inputName).length
      (List.range maxLength).flatMap fun sourceIndex =>
        (missingEntries sourceIndex
          (groupAt (inputConnectionsOf (nodeConnectionsOf first nodeName) inputName) sourceIndex)
          (groupAt (inputConnectionsOf (nodeConnectionsOf second nodeName) inputName)
            sourceIndex)).map fun entry => (nodeName, inputName, entry)

/-- One entry is pushed.  Under the name of a member of `Object.prototype` the entry goes to that
member and not to the record. -/
def pushEntry (record : Dict String INodeConnectionsDiff)
    (e : String × NodeConnectionType × ConnectionEntry) : Dict String INodeConnectionsDiff :=
  if e.1 ∈ objectPrototypeKeys then record
  else
    let node := (record.get? e.1).getD .empty
    record.set e.1 (node.set e.2.1 ((node.get? e.2.1).getD [] ++ [e.2.2]))

def compareConnections (prev next : IConnections) : ConnectionsDiff where
  added := (differences prev next next prev).foldl pushEntry .empty
  removed := (differences prev next prev next).foldl pushEntry .empty

/-! ### Nothing removed -/

/-- The connections of a version, each with the node, the input name and the source index it is
listed under. -/
def HasConnection (connections : IConnections) (nodeName : String)
    (inputName : NodeConnectionType) (sourceIndex : ℕ) (c : IConnection) : Prop :=
  c ∈ groupAt (inputConnectionsOf (nodeConnectionsOf connections nodeName) inputName) sourceIndex

theorem foldl_pushEntry_eq_nil {l : List (String × NodeConnectionType × ConnectionEntry)}
    {record : Dict String INodeConnectionsDiff} (h : (l.foldl pushEntry record).keys = []) :
    record.keys = [] ∧ ∀ e ∈ l, e.1 ∈ objectPrototypeKeys := by
  induction l generalizing record with
  | nil => exact ⟨h, by simp⟩
  | cons e l ih =>
    obtain ⟨hk, hl⟩ := ih h
    unfold pushEntry at hk
    split_ifs at hk with he
    · exact ⟨hk, by simpa [he] using hl⟩
    · rw [Dict.keys_set] at hk
      split_ifs at hk with hm
      · rw [hk] at hm
        cases hm
      · simp at hk

variable {connections : List IConnection} {c : IConnection} {nodeName : String}
  {inputName : NodeConnectionType} {sourceIndex : ℕ}

theorem has_groupMap_iff : (groupMap connections).has c ↔ c ∈ connections := by
  rw [Dict.has, ← Dict.mem_keys_iff, groupMap, Dict.mem_keys_ofList, List.zipIdx_map_fst]

theorem missingEntries_eq_nil (sourceIndex : ℕ) {others : List IConnection}
    (h : missingEntries sourceIndex connections others = [])
    (hc : c ∈ connections) : c ∈ others := by
  rw [missingEntries, List.map_eq_nil_iff, List.filter_eq_nil_iff] at h
  obtain ⟨i, hi⟩ := Option.isSome_iff_exists.1 (has_groupMap_iff.2 hc)
  have hnot := h (c, i) (((groupMap connections).mem_entries_iff c i).2 hi)
  rw [Bool.not_eq_true', Bool.not_eq_false] at hnot
  exact has_groupMap_iff.1 hnot

theorem mem_keys_of_hasConnection {connections : IConnections}
    (h : HasConnection connections nodeName inputName sourceIndex c) :
    nodeName ∈ connections.ownKeys ∧
      inputName ∈ (nodeConnectionsOf connections nodeName).keys ∧
      sourceIndex < (inputConnectionsOf (nodeConnectionsOf connections nodeName)
        inputName).length := by
  rw [HasConnection, groupAt] at h
  refine ⟨?_, ?_, ?_⟩
  · rw [Dict.mem_ownKeys]
    cases hn : connections.get? nodeName with
    | some node => rfl
    | none => simp [nodeConnectionsOf, inputConnectionsOf, hn] at h
  · rw [Dict.mem_keys_iff]
    cases hn : (nodeConnectionsOf connections nodeName).get? inputName with
    | some inputs => rfl
    | none => simp [inputConnectionsOf, hn] at h
  · by_contra hlt
    rw [List.getElem?_eq_none (Nat.le_of_not_lt hlt)] at h
    simp at h

/-- **Nothing is lost unseen**: when no node is listed with removed connections, every connection of
the earlier version is in the later one, except under the name of a member of `Object.prototype`. -/
theorem hasConnection_of_removed_eq_nil {prev next : IConnections}
    (h : (compareConnections prev next).removed.keys = []) (hname : nodeName ∉ objectPrototypeKeys)
    (hc : HasConnection prev nodeName inputName sourceIndex c) :
    HasConnection next nodeName inputName sourceIndex c := by
  obtain ⟨hn, hi, hs⟩ := mem_keys_of_hasConnection hc
  refine missingEntries_eq_nil sourceIndex ?_ hc
  by_contra hne
  obtain ⟨entry, hentry⟩ := List.exists_mem_of_ne_nil _ hne
  have hmem : (nodeName, inputName, entry) ∈ differences prev next prev next := by
    rw [differences, List.mem_flatMap]
    refine ⟨nodeName, OrderedSet.mem_ofList.2 (List.mem_append_left _ hn), ?_⟩
    rw [List.mem_flatMap]
    refine ⟨inputName, OrderedSet.mem_ofList.2 (List.mem_append_left _ hi), ?_⟩
    rw [List.mem_flatMap]
    exact ⟨sourceIndex, List.mem_range.2 (lt_max_of_lt_left hs), List.mem_map_of_mem hentry⟩
  exact hname ((foldl_pushEntry_eq_nil h).2 _ hmem)

end N8n
