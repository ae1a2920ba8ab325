import N8n.Data.Interfaces

/-!
# Connection maps

The operations on connection maps of `packages/workflow/src/common/`: the transposition
`mapConnectionsByDestination` and the traversal `getConnectedNodes` with its two instances
`getParentNodes` and `getChildNodes`.
-/

namespace N8n

/-- The connections listed at output (or input) `i` of type `t` of node `n`. -/
def connectionsAt (c : IConnections) (n : String) (t : NodeConnectionType) (i : ℕ) :
    List IConnection :=
  ((((c.get? n).bind (·.get? t)).bind (·[i]?)).bind id).getD []

/-! ### `mapConnectionsByDestination` -/

/-- A connection with the output it leaves. -/
structure SourcedConnection where
  source : IConnection
  target : IConnection
  deriving DecidableEq

/-- The connections of one output list, from output `i` on. -/
def outputConnections (source : String) (type : NodeConnectionType) :
    ℕ → NodeInputConnections → List SourcedConnection
  | _, [] => []
  | i, conns :: rest =>
    (conns.getD []).map (fun info => ⟨⟨source, type, i⟩, info⟩) ++
      outputConnections source type (i + 1) rest

/-- All connections of a map, in the order in which the nested loops visit them. -/
def connectionList (connections : IConnections) : List SourcedConnection :=
  connections.ownKeys.flatMap fun sourceNode =>
    ((connections.get? sourceNode).getD Dict.empty).entries.flatMap fun e =>
      outputConnections sourceNode e.1 0 e.2

/-- Push `c` onto the list at index `i`, creating the empty lists that are missing up to it. -/
def pushAt : ℕ → IConnection → NodeInputConnections → NodeInputConnections
  | 0, c, [] => [some [c]]
  | 0, c, l :: rest => some (l.getD [] ++ [c]) :: rest
  | i + 1, c, [] => some [] :: pushAt i c []
  | i + 1, c, l :: rest => l :: pushAt i c rest

/-- Enter one connection under its destination. -/
def addByDestination (returnConnection : IConnections) (c : SourcedConnection) : IConnections :=
  let ofNode := (returnConnection.get? c.target.node).getD Dict.empty
  let ofType := (ofNode.get? c.target.type).getD []
  returnConnection.set c.target.node (ofNode.set c.target.type (pushAt c.target.index c.source ofType))

/-- `mapConnectionsByDestination`.  All lists of the result are written by `pushAt`, so none of them is
missing. -/
def mapConnectionsByDestination (connections : IConnections) : IConnections :=
  (connectionList connections).foldl addByDestination Dict.empty

/-! ### `getConnectedNodes` -/

/-- The types a traversal follows: one type, `'ALL'` or `'ALL_NON_MAIN'`. -/
inductive ConnectionTypeFilter
  | only (t : NodeConnectionType)
  | all
  | allNonMain
  deriving DecidableEq

/-- The types of a node's connections that a traversal follows. -/
def ConnectionTypeFilter.types (f : ConnectionTypeFilter) (c : INodeConnections) :
    List NodeConnectionType :=
  match f with
  | only t => [t]
  | all => c.keys
  | allNonMain => c.keys.filter (· ≠ .main)

/-- Move the nodes of `addNodes` to the front, keeping their order. -/
def mergeConnected (addNodes returnNodes : List String) : List String :=
  addNodes.foldr (fun n r => n :: r.erase n) returnNodes

/-- `getConnectedNodes`; a missing depth stands for `-1`.  Every recursive call has one more checked
node that is a key of the map, so the number of keys bounds the recursion. -/
def getConnectedNodesFuel (connections : IConnections) (f : ConnectionTypeFilter) :
    ℕ → String → Option ℕ → List String → List String
  | 0, _, _, _ => []
  | fuel + 1, nodeName, depth, checkedNodesIncoming =>
    if depth = some 0 then [] else
      match connections.get? nodeName with
      | none => []
      | some ofNode =>
        (f.types ofNode).foldl (fun returnNodes type =>
          match ofNode.get? type with
          | none => returnNodes
          | some lists =>
            if nodeName ∈ checkedNodesIncoming then returnNodes else
              let checkedNodes := checkedNodesIncoming ++ [nodeName]
              (lists.flatMap (·.getD [])).foldl (fun returnNodes connection =>
                if connection.node ∈ checkedNodes then returnNodes else
                  mergeConnected
                    (getConnectedNodesFuel connections f fuel connection.node (depth.map (· - 1))
                      checkedNodes)
                    (connection.node :: returnNodes)) returnNodes) []

/-- `getConnectedNodes`. -/
def getConnectedNodes (connections : IConnections) (nodeName : String)
    (f : ConnectionTypeFilter) (depth : Option ℕ) : List String :=
  getConnectedNodesFuel connections f (connections.keys.length + 1) nodeName depth []

/-- `getParentNodes`. -/
def getParentNodes (connectionsByDestinationNode : IConnections) (nodeName : String)
    (f : ConnectionTypeFilter := .only .main) (depth : Option ℕ := none) : List String :=
  getConnectedNodes connectionsByDestinationNode nodeName f depth

/-- `getChildNodes`. -/
def getChildNodes (connectionsBySourceNode : IConnections) (nodeName : String)
    (f : ConnectionTypeFilter := .only .main) (depth : Option ℕ := none) : List String :=
  getConnectedNodes connectionsBySourceNode nodeName f depth

end N8n
