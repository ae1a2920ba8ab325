import N8n.Lib.Topmost
import N8n.Workflow.Workflow

/-!
# What `getHighestNode` returns

* `Workflow.parentNodes`, `Workflow.IsAncestor`: the nodes before a node;
* `Workflow.getHighestNodeFuel_eq`: the recursion is a search for the topmost elements;
* `Workflow.ReturnsTopMost`: enabled nodes without enabled ancestors, whatever the order of branches;
* `Workflow.returnsTopMost_iff`: when this is what is returned.
-/

namespace N8n.Workflow

/-! ### The search -/

/-- The connections of type `main` that enter a node, in the order in which they are followed. -/
def inputConnections (w : Workflow) (nodeName : String) : List IConnection :=
  ((w.mainInputs nodeName).getD []).flatMap (·.getD [])

/-- The nodes before a node.  Connections from names that are no nodes are ignored. -/
def parentNodes (w : Workflow) (nodeName : String) : List String :=
  ((w.inputConnections nodeName).map (·.node)).filter fun p => (w.disabledFlag p).isSome

/-- A node that is not disabled. -/
def isEnabled (w : Workflow) (nodeName : String) : Bool := (w.disabledFlag nodeName).any (· ≠ some true)

/-- A node with main inputs, which the search remembers. -/
def hasInputs (w : Workflow) (nodeName : String) : Bool := (w.mainInputs nodeName).isSome

variable {w : Workflow}

variable {v : String} {fuel : ℕ} {checked : List String}

theorem hasInputs_of_parentNodes (h : w.parentNodes v ≠ []) : w.hasInputs v := by
  unfold hasInputs
  cases hinputs : w.mainInputs v with
  | none =>
    rw [parentNodes, inputConnections, hinputs] at h
    exact absurd rfl h
  | some lists => rfl

theorem enoughFuel_parentNodes (h : w.connectionsByDestinationNode.keys.length < fuel) :
    EnoughFuel w.parentNodes w.connectionsByDestinationNode.keys.toFinset fuel [] where
  mem_parents v hv := by
    have hinputs := hasInputs_of_parentNodes hv
    rw [List.mem_toFinset, Dict.mem_keys_iff]
    rw [hasInputs, mainInputs] at hinputs
    cases hkey : w.connectionsByDestinationNode.get? v with
    | none => rw [hkey] at hinputs; cases hinputs
    | some ofNode => rfl
  card_lt := lt_of_le_of_lt ((Finset.card_filter_le _ _).trans (List.toFinset_card_le _)) h

/-- The search of the ancestors of a node. -/
def topmostOf (w : Workflow) (fuel : ℕ) (nodeName : String) (checkedNodes : List String) :
    List String × List String :=
  topmost w.parentNodes (w.hasInputs ·) (w.isEnabled ·) fuel nodeName checkedNodes

theorem getHighestNodeFuel_of_none
    (howner : w.connectionsByDestinationNode.has "hasOwnProperty" = false)
    {disabled : Option Bool} (hnode : w.disabledFlag v = some disabled)
    (hinputs : w.mainInputs v = none) :
    w.getHighestNodeFuel (fuel + 1) v none checked =
      .ok (if disabled = some false then [v] else [], checked) := by
  rw [getHighestNodeFuel, hnode, orTypeError_some, hinputs]
  simp only [howner]
  rfl

/-- One connection of the loop of `getHighestNode`. -/
def followConnection (w : Workflow) (fuel : ℕ) (acc : List String × List String)
    (connection : IConnection) : Except JsError (List String × List String) :=
  if connection.node ∈ acc.2 then .ok acc
  else
    match w.disabledFlag connection.node with
    | none => .ok acc
    | some disabled => do
      let (addNodes, checkedNodes) ← w.getHighestNodeFuel fuel connection.node none acc.2
      let addNodes := if addNodes = [] ∧ disabled ≠ some true then [connection.node] else addNodes
      return (appendNew acc.1 addNodes, checkedNodes)

theorem getHighestNodeFuel_of_some
    (howner : w.connectionsByDestinationNode.has "hasOwnProperty" = false)
    (hnode : (w.disabledFlag v).isSome) (hinputs : w.hasInputs v) (hv : v ∉ checked) :
    w.getHighestNodeFuel (fuel + 1) v none checked =
      (w.inputConnections v).foldlM (w.followConnection fuel) ([], checked ++ [v]) := by
  obtain ⟨disabled, hdisabled⟩ := Option.isSome_iff_exists.1 hnode
  obtain ⟨lists, hlists⟩ := Option.isSome_iff_exists.1 hinputs
  rw [getHighestNodeFuel, hdisabled, orTypeError_some, hlists, inputConnections, hlists]
  simp only [howner, if_neg hv]
  rfl

/-- **The recursion searches for topmost elements.**  Without inputs it answers the node itself when
its flag says that it is enabled, which its caller would add. -/
theorem getHighestNodeFuel_eq
    (howner : w.connectionsByDestinationNode.has "hasOwnProperty" = false) (fuel : ℕ)
    (hnode : (w.disabledFlag v).isSome) (hv : v ∉ checked) :
    ∃ found, w.getHighestNodeFuel fuel v none checked = .ok (found, (w.topmostOf fuel v checked).2) ∧
      orSelf (w.isEnabled ·) v found = orSelf (w.isEnabled ·) v (w.topmostOf fuel v checked).1 ∧
      (w.hasInputs v → found = (w.topmostOf fuel v checked).1) := by
  induction fuel generalizing v checked with
  | zero => exact ⟨[], rfl, rfl, fun _ => rfl⟩
  | succ fuel ih =>
    by_cases hinputs : w.hasInputs v
    · rw [getHighestNodeFuel_of_some howner hnode hinputs hv]
      suffices h : (w.inputConnections v).foldlM (w.followConnection fuel) ([], checked ++ [v]) =
          .ok (w.topmostOf (fuel + 1) v checked) from ⟨_, h, rfl, fun _ => rfl⟩
      rw [topmostOf, topmost, if_pos hinputs, parentNodes, List.foldl_filter, List.foldl_map]
      refine Except.foldlM_eq_ok_foldl (fun acc c => ?_) _ _
      rw [followConnection]
      by_cases hchecked : c.node ∈ acc.2
      · simp only [if_pos hchecked, ite_self]
      rw [if_neg hchecked]
      cases hparent : w.disabledFlag c.node with
      | none => rfl
      | some disabled =>
        obtain ⟨found, hfound, hself, -⟩ := ih (v := c.node) (by rw [hparent]; rfl) hchecked
        have henabled : (disabled ≠ some true) = (w.isEnabled c.node = true) := by
          simp [isEnabled, hparent]
        have hadd : (if found = [] ∧ disabled ≠ some true then [c.node] else found) =
            orSelf (w.isEnabled ·) c.node found := by
          simp only [orSelf, henabled]
        simp only [Option.isSome_some, if_true, if_neg hchecked, hfound]
        exact congrArg (fun add => Except.ok (appendNew acc.1 add, _)) (hadd.trans hself)
    · have hnone : w.mainInputs v = none := by
        rwa [hasInputs, Bool.not_eq_true, Option.isSome_eq_false_iff, Option.isNone_iff_eq_none]
          at hinputs
      obtain ⟨disabled, hdisabled⟩ := Option.isSome_iff_exists.1 hnode
      have habove : w.topmostOf (fuel + 1) v checked = ([], checked) := by
        rw [topmostOf, topmost, if_neg hinputs, parentNodes, inputConnections, hnone]
        rfl
      rw [getHighestNodeFuel_of_none howner hdisabled hnone, habove]
      refine ⟨_, rfl, ?_, fun h => absurd h hinputs⟩
      split_ifs with henabled
      · have hself : w.isEnabled v = true := by
          rw [isEnabled, hdisabled, henabled]
          rfl
        simp [orSelf, hself]
      · rfl

/-! ### What is returned -/

/-- The search starts at a node and comes to another one, having checked `past` before, in some order
of the parents of each node. -/
def Arrives (w : Workflow) (nodeName : String) (past : Set String) (x : String) : Prop :=
  Comes w.parentNodes (w.hasInputs ·) (fun u l => l.Perm (w.parentNodes u)) ∅ nodeName past x

/-- All ways from `x` to enabled ancestors have been checked before. -/
def CutOff (w : Workflow) (past : Set String) (x : String) : Prop :=
  ClosedOff w.parentNodes (w.isEnabled ·) past x

/-- A node from which main connections lead to `y`. -/
def IsAncestor (w : Workflow) (x y : String) : Prop :=
  Relation.TransGen (fun a b => b ∈ w.parentNodes a) y x

/-- The same nodes, with the same connections in another order. -/
structure Reordered (w w' : Workflow) : Prop where
  nodes : w'.nodes = w.nodes
  keys : ∀ v, w'.connectionsByDestinationNode.has v = w.connectionsByDestinationNode.has v
  hasInputs : ∀ v, w'.hasInputs v = w.hasInputs v
  inputConnections : ∀ v, (w'.inputConnections v).Perm (w.inputConnections v)

/-- Enabled nodes with no enabled ancestors outside of a cycle, and among them all enabled ancestors of
a node that have none. -/
structure TopMost (w : Workflow) (nodeName : String) (nodes : List String) : Prop where
  enabled : ∀ x ∈ nodes, w.isEnabled x
  top : ∀ x ∈ nodes, ∀ y, w.isEnabled y → w.IsAncestor y x → w.IsAncestor x y
  all : ∀ x, w.isEnabled x → w.IsAncestor x nodeName →
    (∀ y, w.isEnabled y → ¬w.IsAncestor y x) → x ∈ nodes

/-- Topmost nodes are returned, the same ones whatever the order of the connections. -/
def ReturnsTopMost (w : Workflow) (nodeName : String) : Prop :=
  ∃ nodes, w.getHighestNode nodeName none = .ok nodes ∧ w.TopMost nodeName nodes ∧
    ∀ w', w.Reordered w' → ∃ nodes', w'.getHighestNode nodeName none = .ok nodes' ∧
      ∀ x, x ∈ nodes' ↔ x ∈ nodes

theorem disabledFlag_isSome {node : INode} (h : w.getNode v = some node) :
    (w.disabledFlag v).isSome := by
  rw [disabledFlag, h]
  rfl

/-- A key `hasOwnProperty` makes the call throw. -/
theorem getHighestNode_of_owner (howner : w.connectionsByDestinationNode.has "hasOwnProperty")
    {node : INode} (hnode : w.getNode v = some node) :
    w.getHighestNode v none = .error .typeError := by
  obtain ⟨disabled, hdisabled⟩ := Option.isSome_iff_exists.1 (disabledFlag_isSome hnode)
  rw [getHighestNode, getHighestNodeFuel, hdisabled, orTypeError_some]
  simp only [howner]
  rfl

/-- **What is returned**: the nodes that the search finds. -/
theorem getHighestNode_spec (howner : w.connectionsByDestinationNode.has "hasOwnProperty" = false)
    (hnode : (w.disabledFlag v).isSome) (hinputs : w.hasInputs v) :
    ∃ nodes, w.getHighestNode v none = .ok nodes ∧ ∀ x, x ∈ nodes ↔
      Found w.parentNodes (w.hasInputs ·) (w.isEnabled ·) (fun u l => l = w.parentNodes u) v x := by
  obtain ⟨found, hfound, -, hsame⟩ := getHighestNodeFuel_eq howner
    (w.connectionsByDestinationNode.keys.length + 1) hnode (List.not_mem_nil (a := v))
  refine ⟨found, by rw [getHighestNode, hfound]; rfl, fun x => ?_⟩
  rw [hsame hinputs, topmostOf, (findsTopmost_topmost (fun _ => hasInputs_of_parentNodes)
    (enoughFuel_parentNodes (Nat.lt_succ_self _)) List.not_mem_nil).mem_iff x, onPath_nil]
  rfl

namespace Reordered

variable {w' : Workflow}

theorem disabledFlag (h : w.Reordered w') : w'.disabledFlag = w.disabledFlag := by
  funext v
  rw [Workflow.disabledFlag, Workflow.disabledFlag, getNode, getNode, h.nodes]

theorem isEnabled (h : w.Reordered w') (v : String) : w'.isEnabled v = w.isEnabled v := by
  rw [Workflow.isEnabled, h.disabledFlag, Workflow.isEnabled]

theorem parentNodes (h : w.Reordered w') (v : String) :
    (w'.parentNodes v).Perm (w.parentNodes v) := by
  rw [Workflow.parentNodes, h.disabledFlag, Workflow.parentNodes]
  exact ((h.inputConnections v).map _).filter _

/-- What a reordered workflow returns. -/
theorem getHighestNode (h : w.Reordered w')
    (howner : w.connectionsByDestinationNode.has "hasOwnProperty" = false)
    {v : String} (hnode : (w.disabledFlag v).isSome) (hinputs : w.hasInputs v) :
    ∃ nodes, w'.getHighestNode v none = .ok nodes ∧ ∀ x, x ∈ nodes ↔
      Found w.parentNodes (w.hasInputs ·) (w.isEnabled ·) (fun u l => l = w'.parentNodes u) v x := by
  obtain ⟨nodes, hnodes, hmem⟩ := getHighestNode_spec ((h.keys _).trans howner)
    (by rwa [h.disabledFlag]) ((h.hasInputs v).trans hinputs)
  refine ⟨nodes, hnodes, fun x => ?_⟩
  rw [hmem, found_congr (fun u c => (h.parentNodes u).mem_iff)]
  simp only [h.hasInputs, h.isEnabled]

end Reordered

/-- A list of names in another order is made by another order of what has these names. -/
theorem exists_perm_filter_map {l : List IConnection} {p : String → Bool} {names : List String}
    (h : names.Perm ((l.map (·.node)).filter p)) :
    ∃ l' : List IConnection, l'.Perm l ∧ (l'.map (·.node)).filter p = names := by
  have hnames : List.Forall₂ (fun name (c : IConnection) => name = c.node)
      ((l.map (·.node)).filter p) (l.filter (p ·.node)) := by
    rw [List.filter_map, List.forall₂_map_left_iff]
    exact List.forall₂_same.2 fun _ _ => rfl
  obtain ⟨kept, hkept, hperm⟩ := List.perm_comp_forall₂ h hnames
  have hmap : kept.map (·.node) = names := by
    rw [← List.forall₂_eq_eq_eq, List.forall₂_map_left_iff]
    exact hkept.flip.imp fun _ _ h => h.symm
  refine ⟨kept ++ l.filter (!p ·.node), ?_, ?_⟩
  · exact (hperm.append_right _).trans (List.filter_append_perm _ _)
  · have hall : names.filter p = names :=
      List.filter_eq_self.2 fun name hname => (List.mem_filter.1 (h.subset hname)).2
    rw [List.map_append, List.filter_append, hmap, hall, List.filter_map (l := l.filter (!p ·.node))]
    simp [List.filter_filter]

/-- Every order of the parents of each node is that of a reordered workflow. -/
theorem exists_reordered {f : String → List String} (hf : ∀ v, (f v).Perm (w.parentNodes v)) :
    ∃ w', w.Reordered w' ∧ ∀ v, w'.parentNodes v = f v := by
  choose l hl hnames using fun v => exists_perm_filter_map (hf v)
  let w' : Workflow := { w with
    connectionsByDestinationNode := w.connectionsByDestinationNode.mapEntries fun v ofNode =>
      if (ofNode.get? .main).isSome then ofNode.set .main [some (l v)] else ofNode }
  have hinputs : ∀ v, w'.mainInputs v = (w.mainInputs v).map fun _ => [some (l v)] := fun v => by
    rw [mainInputs, mainInputs, Dict.get?_mapEntries]
    cases w.connectionsByDestinationNode.get? v with
    | none => rfl
    | some ofNode =>
      simp only [Option.map_some, Option.bind_some]
      cases hmain : ofNode.get? .main with
      | none => simp [hmain]
      | some lists => simp
  have hconnections : ∀ v, w'.inputConnections v = l v := fun v => by
    have hv := hl v
    rw [inputConnections, hinputs]
    cases hmain : w.mainInputs v with
    | none =>
      rw [inputConnections, hmain] at hv
      exact hv.eq_nil.symm
    | some lists => simp
  refine ⟨w', ⟨rfl, fun v => ?_, fun v => ?_, fun v => hconnections v ▸ hl v⟩, fun v => ?_⟩
  · rw [Dict.has, Dict.get?_mapEntries, Option.isSome_map, Dict.has]
  · rw [hasInputs, hinputs, Option.isSome_map, hasInputs]
  · rw [parentNodes, hconnections]
    exact hnames v

/-- A node that is cut off stays so in every order, and its enabled ancestors are on cycles with it. -/
def StaysTop (w : Workflow) (nodeName x : String) : Prop :=
  (∀ y, w.isEnabled y → w.IsAncestor y x → w.IsAncestor x y) ∧
    ∀ past, w.Arrives nodeName past x → w.CutOff past x

/-- **When `getHighestNode` returns topmost nodes**: if no enabled node can be cut off, by what was
checked before it in some order of the connections, from enabled ancestors. -/
theorem returnsTopMost_iff {nodeName : String} {node : INode} (hnode : w.getNode nodeName = some node)
    (hinputs : w.hasInputs nodeName) :
    w.ReturnsTopMost nodeName ↔ w.connectionsByDestinationNode.has "hasOwnProperty" = false ∧
      ∀ x past, w.isEnabled x → w.Arrives nodeName past x → w.CutOff past x → w.StaysTop nodeName x := by
  have hsome := disabledFlag_isSome hnode
  have hparents := (enoughFuel_parentNodes (w := w) (Nat.lt_succ_self _)).mem_parents
  by_cases howner : w.connectionsByDestinationNode.has "hasOwnProperty"
  · refine iff_of_false ?_ fun h => by simp [howner] at h
    rintro ⟨nodes, hnodes, -⟩
    cases (getHighestNode_of_owner howner hnode).symm.trans hnodes
  rw [Bool.not_eq_true] at howner
  rw [and_iff_right howner]
  obtain ⟨nodes, hnodes, hmem⟩ := getHighestNode_spec howner hsome hinputs
  refine Iff.trans ?_ (found_iff (fun _ => hasInputs_of_parentNodes) hparents)
  constructor
  · rintro ⟨nodes', hnodes', htop, hsame⟩
    obtain rfl : nodes = nodes' := Except.ok.inj (hnodes.symm.trans hnodes')
    refine ⟨fun x hx => htop.top x ((hmem x).2 hx), fun f hf x => ?_⟩
    obtain ⟨w', hw', hf⟩ := exists_reordered hf
    obtain ⟨found, hfound, hsame⟩ := hsame w' hw'
    obtain ⟨found', hfound', hmem'⟩ := hw'.getHighestNode howner hsome hinputs
    obtain rfl : found = found' := Except.ok.inj (hfound.symm.trans hfound')
    have hmem' := hmem' x
    simp only [hf] at hmem'
    rw [← hmem', hsame, hmem]
  · rintro ⟨htop, hsame⟩
    refine ⟨nodes, hnodes, ⟨fun x hx => ((hmem x).1 hx).1, fun x hx => htop x ((hmem x).1 hx),
      fun x hx hancestor hnone => (hmem x).2 (found_of_top (fun _ => .refl _) hparents hx hancestor hnone)⟩,
      fun w' hw' => ?_⟩
    obtain ⟨found, hfound, hmem'⟩ := hw'.getHighestNode howner hsome hinputs
    refine ⟨found, hfound, fun x => ?_⟩
    rw [hmem', hmem]
    exact hsame w'.parentNodes hw'.parentNodes x

/-- `Z` feeds `A`, whose branches over `B` and `C` come together in `N`. -/
def diamond : Workflow :=
  ((blank none).setNodes (["Z", "A", "B", "C", "N"].map fun name => { name := name })).setConnections <|
    (((Dict.empty.set "Z" (mainOnly [some [⟨"A", .main, 0⟩]])).set "A"
      (mainOnly [some [⟨"B", .main, 0⟩, ⟨"C", .main, 0⟩]])).set "B"
      (mainOnly [some [⟨"N", .main, 0⟩]])).set "C" (mainOnly [some [⟨"N", .main, 0⟩]])

theorem returnsTopMost_iff_diamond :
    diamond.ReturnsTopMost "A" ↔ diamond.connectionsByDestinationNode.has "hasOwnProperty" = false ∧
      ∀ x past, diamond.isEnabled x → diamond.Arrives "A" past x → diamond.CutOff past x →
        diamond.StaysTop "A" x :=
  @returnsTopMost_iff diamond "A" { name := "A" } rfl rfl

/-- `C` is returned although `Z` and `A` come before it, since both were checked over `B`. -/
theorem getHighestNode_diamond :
    diamond.getHighestNode "N" none = .ok ["Z", "C"] ∧ ¬diamond.ReturnsTopMost "N" := by
  have hnodes : diamond.getHighestNode "N" none = .ok ["Z", "C"] := rfl
  refine ⟨hnodes, ?_⟩
  rintro ⟨nodes, hnodes', htop, -⟩
  obtain rfl : ["Z", "C"] = nodes := Except.ok.inj (hnodes.symm.trans hnodes')
  have hAC : diamond.IsAncestor "A" "C" := .single (by decide)
  obtain ⟨x, hx, hxC⟩ := Relation.TransGen.head'_iff.1 (htop.top "C" (by decide) "A" rfl hAC)
  have hA : diamond.parentNodes "A" = ["Z"] := rfl
  have hZ : diamond.parentNodes "Z" = [] := rfl
  rw [hA, List.mem_singleton] at hx
  subst hx
  rcases hxC.cases_head with he | ⟨y, hy, -⟩
  · exact absurd he (by decide)
  · rw [hZ] at hy
    cases hy

end N8n.Workflow
