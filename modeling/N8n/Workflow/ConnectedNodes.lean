import N8n.Workflow.ConnectionIndexes
import N8n.Lib.DeepestFirst

/-!
# What `getConnectedNodes` lists

* `followed`: the nodes that the connections of a node lead to;
* `getConnectedNodesFuel_eq`: without a depth the traversal lists descendants;
* `ListsOnceInOrder`: each connected node once, and after the nodes that it leads to;
* `getConnectedNodes_spec`: what is listed, and when once;
* `mem_children_iff`: a node is listed among the children of its parents.
-/

namespace N8n

/-- The nodes that the connections of a node lead to, in the order in which they are visited. -/
def followed (connections : IConnections) (f : ConnectionTypeFilter) (nodeName : String) :
    List String :=
  match connections.get? nodeName with
  | none => []
  | some ofNode => (f.types ofNode).flatMap fun type =>
      (((ofNode.get? type).getD []).flatMap (·.getD [])).map (·.node)

/-- `getConnectedNodes` of an object: its method `hasOwnProperty` is hidden by a key of that name, and
the call throws. -/
def getConnectedNodesOfObject (connections : IConnections) (nodeName : String)
    (f : ConnectionTypeFilter) (depth : Option ℕ) : Except JsError (List String) :=
  if depth ≠ some 0 ∧ connections.has "hasOwnProperty" then .error .typeError
  else .ok (getConnectedNodes connections nodeName f depth)

variable {connections : IConnections} {f : ConnectionTypeFilter}

theorem mergeConnected_eq (addNodes returnNodes : List String) :
    mergeConnected addNodes returnNodes = moveToFront addNodes returnNodes := rfl

/-- **Without a depth the traversal lists descendants.** -/
theorem getConnectedNodesFuel_eq (fuel : ℕ) (nodeName : String) (checkedNodes : List String) :
    getConnectedNodesFuel connections f fuel nodeName none checkedNodes =
      descendants (followed connections f) fuel nodeName checkedNodes := by
  induction fuel generalizing nodeName checkedNodes with
  | zero => rfl
  | succ fuel ih =>
    rw [getConnectedNodesFuel, descendants, if_neg (by simp), followed]
    cases hnode : connections.get? nodeName with
    | none => simp
    | some ofNode =>
      by_cases hchecked : nodeName ∈ checkedNodes
      · simp only [if_pos hchecked]
        refine List.foldl_fixed' (fun type => ?_) _
        cases ofNode.get? type <;> rfl
      · simp only [if_neg hchecked]
        rw [List.foldl_flatMap]
        refine List.foldl_ext _ _ _ fun returnNodes type _ => ?_
        cases ofNode.get? type with
        | none => rfl
        | some lists =>
          simp only [Option.getD_some, List.foldl_map, ih, mergeConnected_eq, Option.map_none]

/-- The keys of the map bound the depth of the traversal. -/
theorem enoughFuel_followed {fuel : ℕ} (h : connections.keys.length < fuel) :
    EnoughFuel (followed connections f) connections.keys.toFinset fuel [] where
  mem_parents v hv := by
    rw [List.mem_toFinset, Dict.mem_keys_iff, Option.isSome_iff_ne_none]
    intro hnone
    rw [followed, hnone] at hv
    exact hv rfl
  card_lt := by
    refine lt_of_le_of_lt ((Finset.card_filter_le _ _).trans (List.toFinset_card_le _)) h

/-- A node is connected when a chain of connections leads to it. -/
def Connected (connections : IConnections) (f : ConnectionTypeFilter) : String → String → Prop :=
  Relation.TransGen fun a b => b ∈ followed connections f a

theorem getConnectedNodes_eq (nodeName : String) :
    getConnectedNodes connections nodeName f none =
      descendants (followed connections f) (connections.keys.length + 1) nodeName [] :=
  getConnectedNodesFuel_eq _ _ _

/-- All connected nodes are listed, each once, and every node after all that it leads to. -/
structure ListsOnceInOrder (connections : IConnections) (f : ConnectionTypeFilter)
    (nodeName : String) (nodes : List String) : Prop where
  mem_iff : ∀ v, v ∈ nodes ↔ Connected connections f nodeName v ∧ v ≠ nodeName
  nodup : nodes.Nodup
  order : nodes.Pairwise fun a b => ¬Connected connections f a b

/-- No connection of the node leads to a node that an earlier one of its connections leads to, itself
or by a chain. -/
def NoShortcut (connections : IConnections) (f : ConnectionTypeFilter) (nodeName : String) : Prop :=
  (followed connections f nodeName).Pairwise fun a b => b ≠ a ∧ ¬Connected connections f a b

/-- **What `getConnectedNodes` lists.**  The traversal ends, with the connected nodes whether or not
there are cycles; without cycles each is listed once exactly if the node has no shortcuts, and then
after all nodes that it leads to. -/
theorem getConnectedNodes_spec (connections : IConnections) (f : ConnectionTypeFilter)
    (nodeName : String) :
    (∀ fuel, connections.keys.length < fuel → getConnectedNodesFuel connections f fuel nodeName none [] =
      getConnectedNodes connections nodeName f none) ∧
    ((∃ nodes, getConnectedNodesOfObject connections nodeName f none = .ok nodes ∧
        ∀ v, v ∈ nodes ↔ Connected connections f nodeName v ∧ v ≠ nodeName) ↔
      connections.has "hasOwnProperty" = false) ∧
    (Acyclic (followed connections f) →
      ((∃ nodes, getConnectedNodesOfObject connections nodeName f none = .ok nodes ∧
          ListsOnceInOrder connections f nodeName nodes) ↔
        connections.has "hasOwnProperty" = false ∧ NoShortcut connections f nodeName)) := by
  have henough : EnoughFuel (followed connections f) connections.keys.toFinset
      (connections.keys.length + 1) [] := enoughFuel_followed (Nat.lt_succ_self _)
  have hmem : ∀ v, v ∈ getConnectedNodes connections nodeName f none ↔
      Connected connections f nodeName v ∧ v ≠ nodeName := fun v => by
    rw [getConnectedNodes_eq, mem_descendants_nil_iff henough]
    rfl
  have hobject : ∀ P : List String → Prop,
      (∃ nodes, getConnectedNodesOfObject connections nodeName f none = .ok nodes ∧ P nodes) ↔
        connections.has "hasOwnProperty" = false ∧
          P (getConnectedNodes connections nodeName f none) := fun P => by
    rw [getConnectedNodesOfObject]
    cases connections.has "hasOwnProperty" <;> simp
  refine ⟨fun fuel hfuel => ?_, ?_, fun hacyclic => ?_⟩
  · rw [getConnectedNodesFuel_eq, getConnectedNodes_eq]
    exact descendants_eq (enoughFuel_followed hfuel) henough
  · rw [hobject]
    exact and_iff_left hmem
  · rw [hobject]
    have hstart : Acyclic.LeadsTo (followed connections f) [] nodeName := fun a ha => by cases ha
    have hnodup : (getConnectedNodes connections nodeName f none).Nodup ↔
        NoShortcut connections f nodeName := by
      rw [getConnectedNodes_eq, Acyclic.nodup_descendants_iff hacyclic henough hstart, NoShortcut]
      simp only [Relation.reflTransGen_iff_eq_or_transGen, not_or]
      rfl
    refine and_congr_right fun _ => ⟨fun h => hnodup.1 h.nodup, fun h => ⟨hmem, hnodup.2 h, ?_⟩⟩
    have hdeep := Acyclic.deepFirst_descendants hacyclic henough hstart
    rw [← getConnectedNodes_eq] at hdeep
    exact hdeep.pairwise (hnodup.2 h) fun _ _ => not_false

/-- `A` feeds `B` and `C`, and `B` feeds `C`. -/
def triangle : IConnections :=
  (Dict.empty.set "A" (mainOnly [some [⟨"B", .main, 0⟩, ⟨"C", .main, 0⟩]])).set "B"
    (mainOnly [some [⟨"C", .main, 0⟩]])

theorem triangle_acyclic : Acyclic (followed triangle (.only .main)) := by
  refine .of_rank (fun v => if v = "A" then 0 else if v = "B" then 1 else 2) fun a b hb => ?_
  by_cases hA : a = "A"
  · subst hA
    have hA : followed triangle (.only .main) "A" = ["B", "C"] := rfl
    rw [hA, List.mem_pair] at hb
    rcases hb with rfl | rfl <;> decide
  · by_cases hB : a = "B"
    · subst hB
      have hB : followed triangle (.only .main) "B" = ["C"] := rfl
      rw [hB, List.mem_singleton] at hb
      subst hb
      decide
    · have hnone : triangle.get? a = none := by
        rw [triangle, Dict.get?_set_ne _ _ hB, Dict.get?_set_ne _ _ hA, Dict.get?_empty]
      rw [followed, hnone] at hb
      cases hb

theorem getConnectedNodes_spec_triangle :
    ∃ nodes, getConnectedNodesOfObject triangle "B" (.only .main) none = .ok nodes ∧
      ListsOnceInOrder triangle (.only .main) "B" nodes :=
  ((getConnectedNodes_spec triangle (.only .main) "B").2.2 triangle_acyclic).2
    ⟨rfl, List.pairwise_singleton _ _⟩

/-- The shortcut from `A` to `C` makes `C` appear twice. -/
theorem getConnectedNodes_triangle :
    Acyclic (followed triangle (.only .main)) ∧ triangle.has "hasOwnProperty" = false ∧
      getConnectedNodesOfObject triangle "A" (.only .main) none = .ok ["C", "C", "B"] ∧
      ¬ListsOnceInOrder triangle (.only .main) "A" ["C", "C", "B"] :=
  ⟨triangle_acyclic, rfl, rfl, fun h => absurd h.nodup (by decide)⟩

/-! ### Parents and children -/

/-- Whether a traversal follows connections of the type. -/
def ConnectionTypeFilter.Follows (f : ConnectionTypeFilter) (t : NodeConnectionType) : Prop :=
  f = .only t ∨ f = .all ∨ f = .allNonMain ∧ t ≠ .main

theorem mem_followed_iff {u v : String} : v ∈ followed connections f u ↔
    ∃ t i, f.Follows t ∧ ∃ c ∈ connectionsAt connections u t i, c.node = v := by
  unfold followed connectionsAt
  cases connections.get? u with
  | none => simp
  | some ofNode =>
    simp only [List.mem_flatMap, List.mem_map, Option.bind_some]
    constructor
    · rintro ⟨t, ht, c, ⟨list, hlist, hc⟩, rfl⟩
      obtain ⟨i, hi⟩ := List.mem_iff_getElem?.1 hlist
      refine ⟨t, i, ?_, c, ?_, rfl⟩
      · cases f <;> simp_all [ConnectionTypeFilter.Follows, ConnectionTypeFilter.types]
      · cases hlists : ofNode.get? t with
        | none => simp [hlists] at hi
        | some lists =>
          rw [hlists, Option.getD_some] at hi
          simpa [hi] using hc
    · rintro ⟨t, i, hf, c, hc, rfl⟩
      cases hlists : ofNode.get? t with
      | none => simp [hlists] at hc
      | some lists =>
        have hkey : t ∈ ofNode.keys := (ofNode.mem_keys_iff t).2 (hlists ▸ rfl)
        refine ⟨t, ?_, c, ?_, rfl⟩
        · rcases hf with rfl | rfl | ⟨rfl, hne⟩ <;> simp_all [ConnectionTypeFilter.types]
        · cases hi : lists[i]? with
          | none => simp [hlists, hi] at hc
          | some list =>
            exact ⟨list, by rw [hlists]; exact List.mem_of_getElem? hi, by simpa [hlists, hi] using hc⟩

theorem mem_connectedNodes {nodeName v : String} {nodes : List String}
    (h : getConnectedNodesOfObject connections nodeName f none = .ok nodes) :
    v ∈ nodes ↔ Connected connections f nodeName v ∧ v ≠ nodeName := by
  rw [getConnectedNodesOfObject] at h
  split_ifs at h
  cases h
  rw [getConnectedNodes_eq, mem_descendants_nil_iff (enoughFuel_followed (Nat.lt_succ_self _))]
  rfl

theorem mem_followed_comm {bySource byDestination : IConnections}
    (h : IndexesAgree bySource byDestination)
    (hsame : f = .all ∨ ∀ n t i, ∀ c ∈ connectionsAt bySource n t i, c.type = t) {u v : String} :
    u ∈ followed byDestination f v ↔ v ∈ followed bySource f u := by
  have hfollows : ∀ n t i, ∀ c ∈ connectionsAt bySource n t i, f.Follows c.type ↔ f.Follows t := by
    intro n t i c hc
    rcases hsame with rfl | hsame
    · simp [ConnectionTypeFilter.Follows]
    · rw [hsame n t i c hc]
  rw [mem_followed_iff, mem_followed_iff]
  constructor
  · rintro ⟨t, i, hf, source, hc, rfl⟩
    have hc := (h.mem_iff source ⟨v, t, i⟩).1 hc
    exact ⟨source.type, source.index, (hfollows _ _ _ _ hc).1 hf, _, hc, rfl⟩
  · rintro ⟨t, i, hf, target, hc, rfl⟩
    have hf := (hfollows _ _ _ _ hc).2 hf
    exact ⟨target.type, target.index, hf, ⟨u, t, i⟩, (h.mem_iff _ _).2 hc, rfl⟩

end N8n
