import N8n.Workflow.ConnectionIndexes

/-!
# What a renaming keeps

* `Workflow.RenamePreserves`: nothing but the name is replaced;
* `Workflow.renameNode_preserves_iff`: when this is so.
-/

namespace N8n

namespace Workflow

variable (applyAccessPatterns : String → String → String → String)

/-- `renameNode` of a workflow whose connections are an object: a source called `hasOwnProperty`
hides the method of the object, and the call throws. -/
def renameNodeOfObject (w : Workflow) (currentName newName : String) : Except JsError Workflow := do
  let renamed ← w.renameNode applyAccessPatterns currentName newName
  if w.connectionsBySourceNode.has "hasOwnProperty" then .error .typeError else return renamed

/-- A node that is stored under its name, which `__proto__` is not. -/
def IsStored (w : Workflow) (nodeName : String) : Prop :=
  nodeName ≠ "__proto__" ∧ (w.getNode nodeName).isSome

/-- The new name in the place of the old one. -/
def renamedName (currentName newName name : String) : String :=
  if name = currentName then newName else name

/-- A node under its name, with the new name in the place of the old one, also in what the
parameters refer to. -/
def renamedNode (currentName newName : String) (e : String × INode) : String × INode :=
  (renamedName currentName newName e.1,
    renameParameters applyAccessPatterns currentName newName
      { e.2 with name := renamedName currentName newName e.2.name })

/-- The connections of a source, with the new name in the place of the old one. -/
def renamedSource (currentName newName : String) (e : String × INodeConnections) :
    String × INodeConnections :=
  (renamedName currentName newName e.1, e.2.mapValues fun lists =>
    lists.map (Option.map (List.map fun c : IConnection =>
      { c with node := renamedName currentName newName c.node })))

/-- Nodes and connections are the old ones, but for the name. -/
structure RenamePreserves (currentName newName : String) (w w' : Workflow) : Prop where
  nodes : w'.nodes.entries.Perm
    (w.nodes.entries.map (renamedNode applyAccessPatterns currentName newName))
  connections : w'.connectionsBySourceNode.entries.Perm
    (w.connectionsBySourceNode.entries.map (renamedSource currentName newName))

variable {applyAccessPatterns} {currentName newName : String}

theorem renameConnection_eq (currentName newName : String) (c : IConnection) :
    renameConnection currentName newName c =
      { c with node := renamedName currentName newName c.node } := by
  unfold renameConnection renamedName
  split_ifs <;> rfl

/-- What `renameTargets` makes of an entry whose source has its new name already. -/
theorem entries_renameTargets (c : IConnections) (currentName newName : String) :
    (renameTargets currentName newName c).entries = c.entries.map fun e =>
      (e.1, (renamedSource currentName newName e).2) := by
  have hconnection : renameConnection currentName newName = fun c : IConnection =>
      { c with node := renamedName currentName newName c.node } :=
    funext (renameConnection_eq currentName newName)
  rw [renameTargets, hconnection]
  rfl

theorem entries_mapValues_renameParameters (nodes : Dict String INode)
    (currentName newName : String) :
    (nodes.mapValues (renameParameters applyAccessPatterns currentName newName)).entries =
      nodes.entries.map fun e =>
        (e.1, renameParameters applyAccessPatterns currentName newName e.2) := rfl

theorem length_renameKey_self {nodes : Dict String INode} (h : nodes.has currentName) :
    (renameKey currentName currentName nodes).entries.length + 1 = nodes.entries.length := by
  obtain ⟨n, hn⟩ := Option.isSome_iff_exists.1 h
  rw [renameKey, hn]
  have hhas : (nodes.set currentName { n with name := currentName }).has currentName := by
    rw [Dict.has, Dict.get?_set_self]
    rfl
  rw [Dict.length_entries_erase hhas, Dict.length_entries_set, if_pos h, Nat.add_zero]

/-- The nodes under their names, after the node has moved to a free name. -/
theorem entries_renameKey_perm {nodes : Dict String INode}
    (hname : ∀ k n, nodes.get? k = some n → n.name = k) (hcurrent : nodes.has currentName)
    (hfree : nodes.get? newName = none) :
    (renameKey currentName newName nodes).entries.Perm (nodes.entries.map fun e =>
      (renamedName currentName newName e.1,
        { e.2 with name := renamedName currentName newName e.2.name })) := by
  obtain ⟨n, hn⟩ := Option.isSome_iff_exists.1 hcurrent
  rw [renameKey, hn]
  refine (nodes.entries_move_perm hn hfree _).trans (.of_eq (List.map_congr_left fun e he => ?_))
  obtain ⟨k, m⟩ := e
  have hget := (nodes.mem_entries_iff k m).1 he
  obtain rfl := hname _ _ hget
  dsimp only [renamedName]
  split_ifs with hk
  · rw [hk, hn] at hget
    rw [Option.some.inj hget]
  · rfl

theorem length_renameSource {c : IConnections} (hcurrent : c.has currentName)
    (hnew : c.has newName) :
    (renameSource currentName newName c).entries.length + 1 = c.entries.length := by
  obtain ⟨ofNode, hofNode⟩ := Option.isSome_iff_exists.1 hcurrent
  rw [renameSource, hofNode]
  have hhas : (c.set newName ofNode).has currentName := by
    rw [Dict.has, Dict.get?_set]
    split_ifs
    · rfl
    · exact hcurrent
  rw [Dict.length_entries_erase hhas, Dict.length_entries_set, if_pos hnew, Nat.add_zero]

/-- The connections under their sources, unless one is overwritten. -/
theorem entries_renameSource_perm {c : IConnections} (h : ¬(c.has currentName ∧ c.has newName)) :
    (renameSource currentName newName c).entries.Perm
      (c.entries.map fun e => (renamedName currentName newName e.1, e.2)) := by
  cases hcurrent : c.get? currentName with
  | none =>
    rw [renameSource, hcurrent]
    refine .of_eq ((List.map_congr_left fun e he => ?_).trans (List.map_id _)).symm
    have hget := (c.mem_entries_iff e.1 e.2).1 he
    rw [renamedName, if_neg fun hk => by rw [hk, hcurrent] at hget; cases hget]
    rfl
  | some ofNode =>
    have hfree : c.get? newName = none := by
      by_contra hnew
      exact h ⟨by simp [Dict.has, hcurrent], Option.isSome_iff_ne_none.2 hnew⟩
    rw [renameSource, hcurrent]
    refine (c.entries_move_perm hcurrent hfree _).trans
      (.of_eq (List.map_congr_left fun e he => ?_))
    have hget := (c.mem_entries_iff e.1 e.2).1 he
    rw [renamedName]
    split_ifs with hk
    · rw [hk, hcurrent] at hget
      rw [Option.some.inj hget]
    · rfl

theorem renameNode_of_allowed (applyAccessPatterns : String → String → String → String)
    (w : Workflow) (currentName : String) (hallowed : isRestricted newName = false) :
    ∃ w', w.renameNode applyAccessPatterns currentName newName = .ok w' ∧
      w'.nodes = (renameKey currentName newName w.nodes).mapValues
        (renameParameters applyAccessPatterns currentName newName) ∧
      w'.connectionsBySourceNode = renameTargets currentName newName
        (renameSource currentName newName w.connectionsBySourceNode) := by
  rw [renameNode, if_neg (by simp [hallowed])]
  exact ⟨_, rfl, rfl, rfl⟩

end Workflow

end N8n
