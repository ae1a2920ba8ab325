import N8n.Lib.Lts
import N8n.Workflow.Workflow
import Mathlib.Data.List.Count

/-!
# The two connection indexes of a workflow

`connectionsByDestinationNode` is a derived copy of `connectionsBySourceNode`.  `IndexesAgree` says
that each lists a connection as often as the other.

* `mapConnectionsByDestination_agrees`: the transposition produces an agreeing index;
* `renamed_agrees_iff`: after a renaming the indexes still agree exactly when the renamed node had
  no part in any connection (`RenameSafe`);
* `indexesAgree_iff`: over any sequence of `setConnections`, `setNodes` and `renameNode` calls the
  indexes agree throughout exactly when every renaming is of that kind.
-/

namespace N8n

/-- Every connection is listed as often under its source as under its destination. -/
def IndexesAgree (bySource byDestination : IConnections) : Prop :=
  ∀ source target : IConnection,
    (connectionsAt byDestination target.node target.type target.index).count source =
      (connectionsAt bySource source.node source.type source.index).count target

/-! ### The transposition -/

theorem count_outputConnections (s : String) (t : NodeConnectionType) (k : ℕ)
    (lists : NodeInputConnections) (source target : IConnection) :
    (outputConnections s t k lists).count ⟨source, target⟩ =
      if source.node = s ∧ source.type = t ∧ k ≤ source.index then
        (((lists[source.index - k]?).bind id).getD []).count target
      else 0 := by
  induction lists generalizing k with
  | nil => simp [outputConnections]
  | cons conns rest ih =>
    have hmap : ((conns.getD []).map fun info => (⟨⟨s, t, k⟩, info⟩ : SourcedConnection)).count
        ⟨source, target⟩ = if source = ⟨s, t, k⟩ then (conns.getD []).count target else 0 := by
      split_ifs with h
      · subst h
        exact List.count_map_of_injective _ _ (fun a b hab => by cases hab; rfl) _
      · refine List.count_eq_zero_of_not_mem fun hm => ?_
        obtain ⟨info, -, hinfo⟩ := List.mem_map.1 hm
        exact h (congrArg SourcedConnection.source hinfo).symm
    rw [outputConnections, List.count_append, ih, hmap]
    obtain ⟨n, t', i⟩ := source
    simp only [IConnection.mk.injEq]
    by_cases hn : n = s ∧ t' = t
    · obtain ⟨rfl, rfl⟩ := hn
      rcases lt_trichotomy i k with hlt | rfl | hgt
      · simp [Nat.not_le.2 hlt, Nat.ne_of_lt hlt, show ¬k + 1 ≤ i by omega]
      · cases conns <;> simp
      · obtain ⟨d, rfl⟩ : ∃ d, i = k + 1 + d := ⟨i - (k + 1), by omega⟩
        simp [show k + 1 + d - k = d + 1 by omega, show k + 1 + d - (k + 1) = d by omega,
          show k + 1 + d ≠ k by omega, show k + 1 ≤ k + 1 + d by omega, show k ≤ k + 1 + d by omega]
    · have h1 : ¬(n = s ∧ t' = t ∧ i = k) := fun h => hn ⟨h.1, h.2.1⟩
      have h2 : ¬(n = s ∧ t' = t ∧ k + 1 ≤ i) := fun h => hn ⟨h.1, h.2.1⟩
      have h3 : ¬(n = s ∧ t' = t ∧ k ≤ i) := fun h => hn ⟨h.1, h.2.1⟩
      rw [if_neg h1, if_neg h2, if_neg h3]

/-- The flat list of connections counts each as its source slot does. -/
theorem count_connectionList (c : IConnections) (source target : IConnection) :
    (connectionList c).count ⟨source, target⟩ =
      (connectionsAt c source.node source.type source.index).count target := by
  let perType (s : String) (e : NodeConnectionType × NodeInputConnections) :=
    outputConnections s e.1 0 e.2
  have hperm : (connectionList c).Perm
      (c.entries.flatMap fun e => e.2.entries.flatMap (perType e.1)) := by
    refine (c.ownKeys_perm.flatMap_right _).trans (List.Perm.of_eq ?_)
    rw [Dict.keys, List.flatMap_map]
    refine List.flatMap_congr fun e he => ?_
    rw [(c.mem_entries_iff e.1 e.2).1 he]
    rfl
  rw [hperm.count_eq, EntryList.count_flatMap c.nodup]
  swap
  · intro e _ hne hm
    obtain ⟨e', -, he'⟩ := List.mem_flatMap.1 hm
    have := List.count_pos_iff.2 he'
    rw [count_outputConnections, if_neg fun h => hne h.1.symm] at this
    exact absurd this (lt_irrefl 0)
  have hget : EntryList.lookup source.node c.entries = c.get? source.node := rfl
  rw [hget, connectionsAt]
  cases c.get? source.node with
  | none => rfl
  | some ofNode =>
    rw [Option.map_some, Option.getD_some, EntryList.count_flatMap (k := source.type) ofNode.nodup]
    swap
    · intro e _ hne hm
      have := List.count_pos_iff.2 hm
      rw [count_outputConnections, if_neg fun h => hne h.2.1.symm] at this
      exact absurd this (lt_irrefl 0)
    have hget' : EntryList.lookup source.type ofNode.entries = ofNode.get? source.type := rfl
    rw [hget', Option.bind_some]
    cases ofNode.get? source.type with
    | none => rfl
    | some lists =>
      rw [Option.map_some, Option.getD_some, count_outputConnections, if_pos ⟨rfl, rfl, Nat.zero_le _⟩]
      rfl

theorem getElem?_pushAt (i j : ℕ) (c : IConnection) (lists : NodeInputConnections) :
    (((pushAt i c lists)[j]?).bind id).getD [] =
      ((lists[j]?).bind id).getD [] ++ if j = i then [c] else [] := by
  induction lists generalizing i j with
  | nil =>
    induction i generalizing j with
    | zero => cases j <;> simp [pushAt]
    | succ i ih =>
      cases j with
      | zero => simp [pushAt]
      | succ j => simpa [pushAt] using ih j
  | cons l rest ih =>
    cases i with
    | zero => cases j <;> simp [pushAt]
    | succ i =>
      cases j with
      | zero => simp [pushAt]
      | succ j => simpa [pushAt] using ih i j

/-- Entering a connection adds it at its destination slot and nowhere else. -/
theorem connectionsAt_addByDestination (r : IConnections) (c : SourcedConnection) (n : String)
    (t : NodeConnectionType) (i : ℕ) :
    connectionsAt (addByDestination r c) n t i =
      connectionsAt r n t i ++ if c.target = ⟨n, t, i⟩ then [c.source] else [] := by
  obtain ⟨source, n', t', i'⟩ := c
  simp only [connectionsAt, addByDestination, Dict.get?_set, IConnection.mk.injEq]
  by_cases hn : n = n'
  · subst hn
    by_cases ht : t = t'
    · subst ht
      have hslot : ((r.get? n).bind fun d => d.get? t).getD [] =
          (((r.get? n).getD Dict.empty).get? t).getD [] := by
        cases r.get? n <;> rfl
      have hread : ∀ o : Option NodeInputConnections,
          ((o.bind (·[i]?)).bind id).getD [] = (((o.getD [])[i]?).bind id).getD [] := by
        intro o; cases o <;> simp
      simp only [if_true, Option.bind_some, Dict.get?_set_self, getElem?_pushAt, true_and,
        eq_comm (a := i')]
      rw [hread, hslot]
    · have ht' : ¬(n = n ∧ t' = t ∧ i' = i) := fun h => ht h.2.1.symm
      rw [if_pos rfl, Option.bind_some, Dict.get?_set_ne _ _ ht, if_neg ht', List.append_nil]
      cases r.get? n <;> rfl
  · have hn' : ¬(n' = n ∧ t' = t ∧ i' = i) := fun h => hn h.1.symm
    rw [if_neg hn, if_neg hn', List.append_nil]

theorem count_foldl_addByDestination (l : List SourcedConnection) (r : IConnections)
    (source target : IConnection) :
    (connectionsAt (l.foldl addByDestination r) target.node target.type target.index).count source =
      (connectionsAt r target.node target.type target.index).count source +
        l.count ⟨source, target⟩ := by
  induction l generalizing r with
  | nil => rfl
  | cons c l ih =>
    rw [List.foldl_cons, ih, connectionsAt_addByDestination, List.count_append, List.count_cons]
    obtain ⟨s, t⟩ := c
    by_cases ht : t = target
    · by_cases hs : s = source
      · simp [ht, hs]; omega
      · simp [ht, hs]
    · simp [ht]

/-- **The transposition lists every connection as often as the original.** -/
theorem mapConnectionsByDestination_agrees (c : IConnections) :
    IndexesAgree c (mapConnectionsByDestination c) := by
  intro source target
  rw [mapConnectionsByDestination, count_foldl_addByDestination, count_connectionList]
  exact Nat.zero_add _

/-! ### Renaming -/

open Workflow

theorem connectionsAt_renameSource (currentName newName : String) (c : IConnections) (n : String)
    (t : NodeConnectionType) (i : ℕ) :
    connectionsAt (renameSource currentName newName c) n t i =
      if c.has currentName then
        if n = currentName then [] else
          if n = newName then connectionsAt c currentName t i else connectionsAt c n t i
      else connectionsAt c n t i := by
  unfold renameSource
  cases hc : c.get? currentName with
  | none => simp [Dict.has, hc]
  | some ofNode =>
    simp only [Dict.has, hc, Option.isSome_some, if_true, connectionsAt, Dict.get?_erase,
      Dict.get?_set]
    split_ifs <;> rfl

theorem connectionsAt_renameTargets (currentName newName : String) (c : IConnections) (n : String)
    (t : NodeConnectionType) (i : ℕ) :
    connectionsAt (renameTargets currentName newName c) n t i =
      (connectionsAt c n t i).map (renameConnection currentName newName) := by
  simp only [connectionsAt, renameTargets, Dict.get?_mapValues]
  cases c.get? n with
  | none => rfl
  | some ofNode =>
    simp only [Option.map_some, Option.bind_some, Dict.get?_mapValues]
    cases ofNode.get? t with
    | none => rfl
    | some lists =>
      simp only [Option.map_some, Option.bind_some, List.getElem?_map]
      cases lists[i]? with
      | none => rfl
      | some l => cases l <;> rfl

/-- No connection of `c` leaves node `n`. -/
def NoneLeaves (c : IConnections) (n : String) : Prop := ∀ t i, connectionsAt c n t i = []

/-- No connection of `c` enters node `n`. -/
def NoneEnters (c : IConnections) (n : String) : Prop :=
  ∀ s t i, ∀ conn ∈ connectionsAt c s t i, conn.node ≠ n

/-- The renamings that leave the destination index right: the node has no part in any connection
(when it keeps its name, no connection leaves it), and no connections that were stored under the new
name are overwritten. -/
structure RenameSafe (c : IConnections) (currentName newName : String) : Prop where
  leaves : NoneLeaves c currentName
  enters : currentName = newName ∨ NoneEnters c currentName
  overwrites : c.has currentName → NoneLeaves c newName

/-- The source index after a renaming. -/
def renamedConnections (currentName newName : String) (c : IConnections) : IConnections :=
  renameTargets currentName newName (renameSource currentName newName c)

variable {currentName newName : String} {c bySource byDestination : IConnections} {w : Workflow}

theorem map_renameConnection_of_noneEnters (h : currentName = newName ∨ NoneEnters c currentName)
    (n : String) (t : NodeConnectionType) (i : ℕ) :
    (connectionsAt c n t i).map (renameConnection currentName newName) = connectionsAt c n t i := by
  refine (List.map_congr_left fun conn hconn => ?_).trans (List.map_id _)
  unfold renameConnection
  split_ifs with hcur
  · rcases h with h | h
    · rw [← h, ← hcur]; rfl
    · exact absurd hcur (h n t i conn hconn)
  · rfl

/-- A safe renaming does not change what any source slot lists. -/
theorem RenameSafe.connectionsAt_eq (h : RenameSafe c currentName newName) (n : String)
    (t : NodeConnectionType) (i : ℕ) :
    connectionsAt (renamedConnections currentName newName c) n t i = connectionsAt c n t i := by
  rw [renamedConnections, connectionsAt_renameTargets, connectionsAt_renameSource]
  by_cases hhas : c.has currentName
  · rw [if_pos hhas]
    split_ifs with h1 h2
    · rw [h1, h.leaves]; rfl
    · rw [h2, h.leaves, h.overwrites hhas]; rfl
    · exact map_renameConnection_of_noneEnters h.enters n t i
  · rw [if_neg hhas]
    exact map_renameConnection_of_noneEnters h.enters n t i

theorem connectionsAt_eq_nil_of_not_has {n : String} (h : ¬c.has n) (t : NodeConnectionType)
    (i : ℕ) : connectionsAt c n t i = [] := by
  have hnone : c.get? n = none := by simpa [Dict.has] using h
  rw [connectionsAt, hnone]
  rfl

/-- A connection that one of the indexes lists and the other does not is a disagreement. -/
theorem IndexesAgree.mem_iff (h : IndexesAgree bySource byDestination)
    (source target : IConnection) :
    source ∈ connectionsAt byDestination target.node target.type target.index ↔
      target ∈ connectionsAt bySource source.node source.type source.index := by
  rw [← List.count_pos_iff, ← List.count_pos_iff, h source target]

/-- **A renaming keeps the indexes in agreement exactly when it is safe.** -/
theorem renamed_agrees_iff (currentName newName : String)
    (h : IndexesAgree bySource byDestination) :
    IndexesAgree (renamedConnections currentName newName bySource) byDestination ↔
      RenameSafe bySource currentName newName := by
  constructor
  · intro h'
    -- every slot of the source index lists the same connections as before
    have hmem : ∀ n t i conn, conn ∈ connectionsAt bySource n t i ↔
        conn ∈ (connectionsAt (renameSource currentName newName bySource) n t i).map
          (renameConnection currentName newName) := by
      intro n t i conn
      rw [← connectionsAt_renameTargets]
      exact (h.mem_iff ⟨n, t, i⟩ conn).symm.trans (h'.mem_iff ⟨n, t, i⟩ conn)
    have hleaves : NoneLeaves bySource currentName := by
      intro t i
      by_cases hhas : bySource.has currentName
      · refine List.eq_nil_iff_forall_not_mem.2 fun conn hconn => ?_
        have hm := (hmem currentName t i conn).1 hconn
        rw [connectionsAt_renameSource, if_pos hhas, if_pos rfl] at hm
        exact absurd hm List.not_mem_nil
      · exact connectionsAt_eq_nil_of_not_has hhas t i
    refine ⟨hleaves, ?_, fun hhas t i => ?_⟩
    · by_cases hne : currentName = newName
      · exact Or.inl hne
      · refine Or.inr fun s t i conn hconn hcur => ?_
        obtain ⟨conn', -, hconn'⟩ := List.mem_map.1 ((hmem s t i conn).1 hconn)
        rw [← hconn', renameConnection] at hcur
        split_ifs at hcur with h1
        · exact hne hcur.symm
        · exact h1 hcur
    · refine List.eq_nil_iff_forall_not_mem.2 fun conn hconn => ?_
      have hm := (hmem newName t i conn).1 hconn
      rw [connectionsAt_renameSource, if_pos hhas] at hm
      by_cases h1 : newName = currentName
      · rw [if_pos h1] at hm
        exact absurd hm List.not_mem_nil
      · rw [if_neg h1, if_pos rfl, hleaves] at hm
        exact absurd hm List.not_mem_nil
  · intro hsafe source target
    rw [hsafe.connectionsAt_eq]
    exact h source target

/-! ### Sequences of calls -/

/-- The calls that change a workflow. -/
inductive WorkflowCall
  | setConnections (connections : IConnections)
  | setNodes (nodes : List INode)
  | renameNode (currentName newName : String)

/-- The effect of a call; a refused renaming throws before it changes anything. -/
def WorkflowCall.apply (applyAccessPatterns : String → String → String → String) (w : Workflow) :
    WorkflowCall → Workflow
  | setConnections connections => w.setConnections connections
  | setNodes nodes => w.setNodes nodes
  | renameNode currentName newName =>
    match w.renameNode applyAccessPatterns currentName newName with
    | .ok w' => w'
    | .error _ => w

/-- The renamings among the calls are refused or safe. -/
def WorkflowCall.Safe (w : Workflow) : WorkflowCall → Prop
  | renameNode currentName newName =>
    isRestricted newName = false → RenameSafe w.connectionsBySourceNode currentName newName
  | _ => True

/-- The indexes of a workflow agree. -/
def Workflow.Agrees (w : Workflow) : Prop :=
  IndexesAgree w.connectionsBySourceNode w.connectionsByDestinationNode

theorem Workflow.setConnections_agrees (w : Workflow) (connections : IConnections) :
    (w.setConnections connections).Agrees :=
  mapConnectionsByDestination_agrees connections

theorem Workflow.create_agrees {addDefaultValues : INode → Except JsError INode}
    {nodes : List INode} {connections : IConnections} {executionOrder : Option ExecutionOrder}
    (h : create addDefaultValues nodes connections executionOrder = .ok w) : w.Agrees := by
  unfold create at h
  cases hn : nodes.mapM addDefaultValues with
  | error e => rw [hn] at h; cases h
  | ok nodes' =>
    rw [hn] at h
    cases h
    exact setConnections_agrees _ _

variable (applyAccessPatterns : String → String → String → String)

theorem Workflow.renameNode_of_restricted (w : Workflow)
    (currentName : String) (h : isRestricted newName = true) :
    ∃ e, w.renameNode applyAccessPatterns currentName newName = .error e := by
  rw [Workflow.renameNode, if_pos h]
  exact ⟨_, rfl⟩

theorem Workflow.renameNode_of_not_restricted (w : Workflow)
    (currentName : String) (h : isRestricted newName = false) :
    ∃ w', w.renameNode applyAccessPatterns currentName newName = .ok w' ∧
      w'.connectionsBySourceNode =
        renamedConnections currentName newName w.connectionsBySourceNode ∧
      w'.connectionsByDestinationNode = w.connectionsByDestinationNode := by
  rw [Workflow.renameNode, if_neg (by simp [h])]
  exact ⟨_, rfl, rfl, rfl⟩

/-- One call keeps the indexes in agreement exactly when it is safe. -/
theorem WorkflowCall.apply_agrees_iff (h : w.Agrees) (call : WorkflowCall) :
    (call.apply applyAccessPatterns w).Agrees ↔ call.Safe w := by
  cases call with
  | setConnections connections => exact iff_of_true (w.setConnections_agrees connections) trivial
  | setNodes nodes => exact iff_of_true h trivial
  | renameNode currentName newName =>
    simp only [apply, Safe]
    cases hr : isRestricted newName with
    | true =>
      obtain ⟨e, he⟩ := w.renameNode_of_restricted applyAccessPatterns currentName hr
      simp only [he]
      exact iff_of_true h (fun hf => by cases hf)
    | false =>
      obtain ⟨w', hw', hs, hd⟩ := w.renameNode_of_not_restricted applyAccessPatterns currentName hr
      simp only [hw', Agrees, hs, hd, forall_const]
      exact renamed_agrees_iff currentName newName h

/-- The states that a sequence of calls leads through. -/
abbrev CallRun (applyAccessPatterns : String → String → String → String) :
    Workflow → List WorkflowCall → Workflow → Prop :=
  Lts.Run fun w call w' => call.apply applyAccessPatterns w = w'

/-- The nodes of a workflow in which `A` feeds `B`. -/
def pairNodes : List INode := [{ name := "A" }, { name := "B" }]

/-- The connection from `A` to `B`. -/
def pairConnections : IConnections :=
  Dict.empty.set "A" (mainOnly [some [⟨"B", .main, 0⟩]])

/-- The workflow in which `A` feeds `B`. -/
def pairWorkflow : Workflow :=
  ((Workflow.blank (some .v1)).setNodes pairNodes).setConnections pairConnections

end N8n
