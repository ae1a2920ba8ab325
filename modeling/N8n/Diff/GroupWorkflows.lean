import N8n.Diff.Supersets

/-!
# What compaction keeps

* `groupLoop_compacts`: the loop with its splices is a compaction of the list from its end;
* `parametersAreSuperset_of_isEqual`: equal parameters are supersets of each other;
* `keepsContent_of_additive`: what the rule for additive changes guarantees;
* `groupWorkflows_compacts`: nothing is lost when a history is compacted.
-/

namespace N8n

/-! ### Supersets -/

mutual

/-- Equal values lose nothing against each other. -/
theorem parametersAreSuperset_of_isEqual : ∀ {a b : JsValue}, isEqual a b →
    parametersAreSuperset a b
  | .arr xs, .arr ys, h => elementsAreSuperset_of_isEqualList h
  | .obj props, .obj others, h => by
    rw [isEqual, Bool.and_eq_true] at h
    rw [parametersAreSuperset, Bool.and_eq_true]
    exact ⟨h.1, propsAreSuperset_of_isEqualProps h.2⟩
  | .undefined, .undefined, _ => rfl
  | .null, .null, _ => rfl
  | .bool a, .bool b, h => h
  | .num a, .num b, h => h
  | .str a, .str b, h => by
    obtain rfl := of_decide_eq_true h
    exact (stringContainsParts_iff _ _).2 (List.Sublist.refl _)

theorem elementsAreSuperset_of_isEqualList : ∀ {xs ys : List JsValue}, isEqualList xs ys →
    elementsAreSuperset xs ys
  | [], [], _ => rfl
  | x :: xs, y :: ys, h => by
    rw [isEqualList, Bool.and_eq_true] at h
    rw [elementsAreSuperset, Bool.and_eq_true]
    exact ⟨parametersAreSuperset_of_isEqual h.1, elementsAreSuperset_of_isEqualList h.2⟩

theorem propsAreSuperset_of_isEqualProps : ∀ {props others : JsObject},
    isEqualProps props others → propsAreSuperset props others
  | [], _, _ => rfl
  | (k, x) :: props, others, h => by
    rw [isEqualProps, Bool.and_eq_true] at h
    rw [propsAreSuperset, Bool.and_eq_true]
    refine ⟨?_, propsAreSuperset_of_isEqualProps h.2⟩
    obtain ⟨y, hy, hxy⟩ := (Option.any_eq_true _ _).1 h.1
    exact (Option.any_eq_true _ _).2 ⟨y, hy, parametersAreSuperset_of_isEqual hxy⟩

end

/-! ### The rule for additive changes -/

/-- The difference of two versions, node by node. -/
theorem get?_compareWorkflowsNodes (base target : List DiffableNode) (id : String) :
    (compareWorkflowsNodes base target).get? id =
      match (nodesById base).get? id with
      | some node => some (nodeDiffOf (nodesById target) id node)
      | none => ((nodesById target).get? id).map fun node => ⟨.added, node⟩ := by
  have hbase := Dict.get?_foldl_entries (nodesById base) (fun _ => false)
    (nodeDiffOf (nodesById target)) Dict.empty id
  simp only [Bool.false_eq_true, if_false, Dict.get?_empty] at hbase
  have hboth := Dict.get?_foldl_entries (nodesById target) (nodesById base).has
    (fun _ node => NodeDiff.mk .added node)
    ((nodesById base).entries.foldl
      (fun diff e => diff.set e.1 (nodeDiffOf (nodesById target) e.1 e.2)) Dict.empty) id
  rw [compareWorkflowsNodes, hboth, hbase, Dict.has]
  cases (nodesById base).get? id with
  | none => cases (nodesById target).get? id <;> rfl
  | some node => cases (nodesById target).get? id <;> rfl

theorem mem_of_get?_nodesById {nodes : List DiffableNode} {id : String} {node : DiffableNode}
    (h : (nodesById nodes).get? id = some node) : node ∈ nodes ∧ node.id = id := by
  obtain ⟨n, hn, heq⟩ := List.mem_map.1 (Dict.mem_of_get?_ofList h)
  obtain ⟨rfl, rfl⟩ := Prod.mk.inj heq
  exact ⟨hn, rfl⟩

/-- A node of a difference that was neither added nor deleted is in the later version. -/
theorem exists_next_of_mem_values {base target : List DiffableNode} {d : NodeDiff}
    (h : d ∈ (compareWorkflowsNodes base target).values) (hdel : d.status ≠ .deleted)
    (hadd : d.status ≠ .added) : ∃ n ∈ target, n.id = d.node.id := by
  obtain ⟨id, hd⟩ := ((compareWorkflowsNodes base target).mem_values_iff d).1 h
  rw [get?_compareWorkflowsNodes] at hd
  cases hb : (nodesById base).get? id with
  | none =>
    rw [hb] at hd
    obtain ⟨n, -, rfl⟩ := Option.map_eq_some_iff.1 hd
    exact absurd rfl hadd
  | some node =>
    rw [hb] at hd
    cases hd
    rw [nodeDiffOf] at hdel ⊢
    cases ht : (nodesById target).get? id with
    | none =>
      rw [ht] at hdel
      exact absurd rfl hdel
    | some n =>
      obtain ⟨hn, hid⟩ := mem_of_get?_nodesById ht
      refine ⟨n, hn, ?_⟩
      obtain ⟨-, hid'⟩ := mem_of_get?_nodesById hb
      change n.id = (if compareNodes node n then NodeDiff.mk .equal node
        else NodeDiff.mk .modified node).node.id
      split_ifs <;> rw [hid, hid']

variable {next : DiffableWorkflow}
  {merges : DiffableWorkflow → DiffableWorkflow → Except String Bool}
  {remaining removed : List DiffableWorkflow} {l : List DiffRule} {wcs : WorkflowChangeSet}

/-- The nodes of a difference that passes lose nothing. -/
theorem of_nodesOnlyAdd {ds : List NodeDiff} (h : nodesOnlyAdd next ds = .ok true) :
    ∀ d ∈ ds, d.status ≠ .deleted ∧ (d.status = .modified →
      ∃ n ∈ next.nodes, n.id = d.node.id ∧ nodeIsSuperset d.node n) := by
  induction ds with
  | nil => simp
  | cons d ds ih =>
    rw [nodesOnlyAdd] at h
    have hrest : d.status ≠ .deleted ∧ nodesOnlyAdd next ds = .ok true ∧ (d.status = .modified →
        ∃ n ∈ next.nodes, n.id = d.node.id ∧ nodeIsSuperset d.node n) := by
      cases hs : d.status with
      | deleted => simp [hs] at h
      | added =>
        simp only [hs] at h
        exact ⟨by simp, h, by simp⟩
      | equal =>
        simp only [hs] at h
        cases hf : next.nodes.find? (·.id = d.node.id) with
        | none => simp [hf] at h
        | some n =>
          simp only [hf, reduceCtorEq, false_and, if_false] at h
          exact ⟨by simp, h, by simp⟩
      | modified =>
        simp only [hs] at h
        cases hf : next.nodes.find? (·.id = d.node.id) with
        | none => simp [hf] at h
        | some n =>
          simp only [hf, true_and] at h
          by_cases hsup : nodeIsSuperset d.node n
          · have hid := List.find?_some hf
            simp only [hsup, not_true, if_false] at h
            exact ⟨by simp, h, fun _ => ⟨n, List.mem_of_find?_eq_some hf, of_decide_eq_true hid,
              hsup⟩⟩
          · simp [hsup] at h
    intro d' hd'
    rcases List.mem_cons.1 hd' with rfl | hd'
    · exact ⟨hrest.1, hrest.2.2⟩
    · exact ih hrest.2.1 d' hd'

theorem nodesOnlyAdd_isOk (next : DiffableWorkflow) (ds : List NodeDiff)
    (h : ∀ d ∈ ds, d.status ≠ .deleted → d.status ≠ .added → ∃ n ∈ next.nodes, n.id = d.node.id) :
    ∃ b, nodesOnlyAdd next ds = .ok b := by
  induction ds with
  | nil => exact ⟨true, rfl⟩
  | cons d ds ih =>
    obtain ⟨b, hb⟩ := ih fun d' hd' => h d' (List.mem_cons_of_mem d hd')
    have hfind : d.status ≠ .deleted → d.status ≠ .added →
        ∃ n, next.nodes.find? (·.id = d.node.id) = some n := by
      intro hdel hadd
      obtain ⟨n, hn, hid⟩ := h d List.mem_cons_self hdel hadd
      rw [← Option.isSome_iff_exists, List.find?_isSome]
      exact ⟨n, hn, by simpa using hid⟩
    rw [nodesOnlyAdd]
    cases hs : d.status with
    | deleted => exact ⟨false, rfl⟩
    | added => exact ⟨b, hb⟩
    | equal =>
      obtain ⟨n, hn⟩ := hfind (by simp [hs]) (by simp [hs])
      exact ⟨b, by simp [hn, hb]⟩
    | modified =>
      obtain ⟨n, hn⟩ := hfind (by simp [hs]) (by simp [hs])
      by_cases hsup : nodeIsSuperset d.node n
      · exact ⟨b, by simp [hn, hb, hsup]⟩
      · exact ⟨false, by simp [hn, hsup]⟩

/-- A rule that answers on the change set of any two versions. -/
def NeverThrows (rule : DiffRule) : Prop :=
  ∀ left right metaData, ∃ b, rule left right (.between left right) metaData = .ok b

/-- The invariant that the rule for additive changes asserts is never broken. -/
theorem mergeAdditiveChanges_neverThrows : NeverThrows mergeAdditiveChanges := by
  intro left right metaData
  obtain ⟨b, hb⟩ := nodesOnlyAdd_isOk right (compareWorkflowsNodes left.nodes right.nodes).values
    fun d hd => exists_next_of_mem_values hd
  rw [mergeAdditiveChanges]
  change ∃ b, (nodesOnlyAdd right (compareWorkflowsNodes left.nodes right.nodes).values >>= _) = _
  rw [hb]
  cases b with
  | true => exact ⟨_, rfl⟩
  | false => exact ⟨_, rfl⟩

/-- The later version has every node of the earlier one, with the compared properties the same and
parameters that lose nothing, and every one of its connections.  Of several nodes with one id the
last counts; the names of the members of `Object.prototype` are left out. -/
structure KeepsContent (prev next : DiffableWorkflow) : Prop where
  nodes : ∀ id node, (nodesById prev.nodes).get? id = some node →
    ∃ n ∈ next.nodes, n.id = id ∧ sameBesidesParameters node n ∧
      parametersAreSuperset (.obj node.parameters) (.obj n.parameters)
  connections : ∀ nodeName inputName sourceIndex c, nodeName ∉ objectPrototypeKeys →
    HasConnection prev.connections nodeName inputName sourceIndex c →
    HasConnection next.connections nodeName inputName sourceIndex c

variable {metaData : DiffMetaData} {right left : DiffableWorkflow} {rules skipRules : List DiffRule}

/-- **Additive changes keep the content**: a version that the rule merges away is contained in the
one it is merged into. -/
theorem keepsContent_of_additive {prev : DiffableWorkflow}
    (h : mergeAdditiveChanges prev next (.between prev next) metaData = .ok true) :
    KeepsContent prev next := by
  rw [mergeAdditiveChanges, Except.bind_eq_ok_iff] at h
  obtain ⟨b, hb, h⟩ := h
  cases b with
  | false => cases h
  | true =>
    have hremoved : (WorkflowChangeSet.between prev next).connections.removed.keys = [] := by
      simpa [pure, Except.pure] using h
    refine ⟨fun id node hnode => ?_, fun nodeName inputName sourceIndex c hname hc =>
      hasConnection_of_removed_eq_nil hremoved hname hc⟩
    have hdiff := get?_compareWorkflowsNodes prev.nodes next.nodes id
    rw [hnode] at hdiff
    have hd := of_nodesOnlyAdd hb _ ((Dict.mem_values_iff _ _).2 ⟨id, hdiff⟩)
    have hid := (mem_of_get?_nodesById hnode).2
    rw [nodeDiffOf] at hd
    cases ht : (nodesById next.nodes).get? id with
    | none =>
      rw [ht] at hd
      exact absurd rfl hd.1
    | some n =>
      by_cases heq : compareNodes node n
      · obtain ⟨hn, hnid⟩ := mem_of_get?_nodesById ht
        rw [compareNodes, Bool.and_eq_true] at heq
        exact ⟨n, hn, hnid, heq.1, parametersAreSuperset_of_isEqual heq.2⟩
      · simp only [ht, if_neg heq] at hd
        obtain ⟨n', hn', hid', hsup⟩ := hd.2 trivial
        rw [nodeIsSuperset, Bool.and_eq_true] at hsup
        exact ⟨n', hn', hid'.trans hid, hsup.1, hsup.2⟩

/-! ### The loop -/

/-- **The loop compacts the list**: with the versions from index `i` on already compacted, it goes
on to compact all of them. -/
theorem groupLoop_compacts {pre l : List DiffableWorkflow} {kept dropped : List DiffableWorkflow}
    (hc : Compacts (fun left right => merges left right = .ok true) l (right :: kept) dropped)
    (h : groupLoop merges pre.length (pre ++ right :: kept) dropped = .ok (remaining, removed)) :
    Compacts (fun left right => merges left right = .ok true) (pre ++ l) remaining removed := by
  induction pre using List.reverseRecOn generalizing l right kept dropped with
  | nil =>
    rw [List.length_nil, groupLoop] at h
    cases h
    exact hc
  | append_singleton pre left ih =>
    have hleft : (pre ++ [left] ++ right :: kept)[pre.length]? = some left := by simp
    have hright : (pre ++ [left] ++ right :: kept)[pre.length + 1]? = some right := by simp
    rw [List.length_append, List.length_singleton, groupLoop, hleft, hright] at h
    obtain ⟨b, hb, h⟩ := Except.bind_eq_ok_iff.1 h
    rw [List.append_assoc, List.singleton_append]
    cases b with
    | true =>
      have herase :
    (pre ++ [left] ++ right :: kept).eraseIdx pre.length = pre ++ right :: kept := by
        simp [List.eraseIdx_append_of_length_le]
      simp only [if_true, herase] at h
      exact ih (hc.drop hb) h
    | false =>
      simp only [Bool.false_eq_true, if_false, List.append_assoc, List.singleton_append] at h
      exact ih (hc.keep (by rw [hb]; simp)) h

theorem groupLoop_isOk (hm : ∀ left right, ∃ b, merges left right = .ok b) (i : ℕ)
    (remaining removed : List DiffableWorkflow) (hi : i < remaining.length) :
    ∃ res, groupLoop merges i remaining removed = .ok res := by
  induction i generalizing remaining removed with
  | zero => exact ⟨_, rfl⟩
  | succ i ih =>
    have hi' : i < remaining.length := Nat.lt_of_succ_lt hi
    obtain ⟨b, hb⟩ := hm (remaining.get ⟨i, hi'⟩) (remaining.get ⟨i + 1, hi⟩)
    have hl : remaining[i]? = some (remaining.get ⟨i, hi'⟩) := List.getElem?_eq_getElem hi'
    have hr : remaining[i + 1]? = some (remaining.get ⟨i + 1, hi⟩) := List.getElem?_eq_getElem hi
    rw [groupLoop, hl, hr]
    simp only [hb]
    cases b with
    | true =>
      refine ih _ _ ?_
      rw [List.length_eraseIdx_of_lt hi']
      omega
    | false => exact ih remaining removed hi'

theorem mergesInto_isOk (h : ∀ rule ∈ rules ++ skipRules, NeverThrows rule)
    (metaData : DiffMetaData) (left right : DiffableWorkflow) :
    ∃ b, mergesInto rules skipRules metaData left right = .ok b := by
  have hany : ∀ l : List DiffRule, (∀ rule ∈ l, NeverThrows rule) →
      ∃ b, l.anyM (fun rule => rule left right (.between left right) metaData) = .ok b := by
    intro l hl
    induction l with
    | nil => exact ⟨false, rfl⟩
    | cons rule l ih =>
      obtain ⟨b, hb⟩ := hl rule List.mem_cons_self left right metaData
      rw [List.anyM, hb]
      cases b with
      | true => exact ⟨true, rfl⟩
      | false => exact ih fun r hr => hl r (List.mem_cons_of_mem rule hr)
  obtain ⟨skip, hskip⟩ := hany skipRules fun r hr => h r (List.mem_append_right _ hr)
  obtain ⟨merge, hmerge⟩ := hany rules fun r hr => h r (List.mem_append_left _ hr)
  rw [mergesInto]
  simp only [hskip]
  cases skip with
  | true => exact ⟨false, rfl⟩
  | false => exact ⟨merge, hmerge⟩

theorem of_anyM_eq_true (h : l.anyM (fun rule => rule left right wcs metaData) = .ok true) :
    ∃ rule ∈ l, rule left right wcs metaData = .ok true := by
  induction l with
  | nil => cases h
  | cons rule l ih =>
    rw [List.anyM] at h
    obtain ⟨b, hb, h⟩ := Except.bind_eq_ok_iff.1 h
    cases b with
    | true => exact ⟨rule, List.mem_cons_self, hb⟩
    | false =>
      obtain ⟨r, hr, hrt⟩ := ih h
      exact ⟨r, List.mem_cons_of_mem rule hr, hrt⟩

theorem of_anyM_eq_false (h : l.anyM (fun rule => rule left right wcs metaData) = .ok false) :
    ∀ rule ∈ l, rule left right wcs metaData = .ok false := by
  induction l with
  | nil => simp
  | cons rule l ih =>
    rw [List.anyM] at h
    obtain ⟨b, hb, h⟩ := Except.bind_eq_ok_iff.1 h
    cases b with
    | true => cases h
    | false =>
      intro r hr
      rcases List.mem_cons.1 hr with rfl | hr
      · exact hb
      · exact ih h r hr

/-- A version is merged into another one when no skip rule speaks against it and some merge rule
for it. -/
theorem of_mergesInto (h : mergesInto rules skipRules metaData left right = .ok true) :
    (∃ rule ∈ rules, rule left right (.between left right) metaData = .ok true) ∧
      ∀ rule ∈ skipRules, rule left right (.between left right) metaData = .ok false := by
  rw [mergesInto] at h
  obtain ⟨skip, hskip, h⟩ := Except.bind_eq_ok_iff.1 h
  cases skip with
  | true => cases h
  | false => exact ⟨of_anyM_eq_true h, of_anyM_eq_false hskip⟩

/-- What compacting the history `workflows` is to leave: the versions, parted into those that remain
and those that are removed, the order and the newest version kept, and each removed version merged
by a rule into a later one that remains. -/
structure Compaction (workflows : List DiffableWorkflow) (rules skipRules : List DiffRule)
    (metaData : DiffMetaData) (remaining removed : List DiffableWorkflow) : Prop where
  partition : (remaining ++ removed).Perm workflows
  ordered : remaining.Sublist workflows
  newest : remaining.getLast? = workflows.getLast?
  merged : ∀ prev ∈ removed, ∃ next ∈ remaining, [prev, next].Sublist workflows ∧
    (∃ rule ∈ rules, rule prev next (.between prev next) metaData = .ok true) ∧
    ∀ rule ∈ skipRules, rule prev next (.between prev next) metaData = .ok false
  additive : rules = [mergeAdditiveChanges] → ∀ prev ∈ removed, ∃ next ∈ remaining,
    [prev, next].Sublist workflows ∧ KeepsContent prev next

theorem Compaction.of_compacts {workflows : List DiffableWorkflow}
    (h : Compacts (fun left right => mergesInto rules skipRules metaData left right = .ok true)
      workflows remaining removed) :
    Compaction workflows rules skipRules metaData remaining removed where
  partition := h.perm
  ordered := h.sublist
  newest := h.getLast?_eq
  merged prev hprev := by
    obtain ⟨next, hnext, hsub, hm⟩ := h.merged prev hprev
    exact ⟨next, hnext, hsub, of_mergesInto hm⟩
  additive hrules prev hprev := by
    obtain ⟨next, hnext, hsub, hm⟩ := h.merged prev hprev
    obtain ⟨rule, hrule, hm⟩ := (of_mergesInto hm).1
    rw [hrules, List.mem_singleton] at hrule
    subst hrule
    exact ⟨next, hnext, hsub, keepsContent_of_additive hm⟩

/-- **Compacting a history loses no content**: whatever the rules, `groupWorkflows` parts the
history, and every removed version was merged by a rule into a later one that remains; it throws
only when a rule throws. -/
theorem groupWorkflows_compacts (workflows : List DiffableWorkflow)
    (rules skipRules : List DiffRule) (sizeScoreRequested : Bool) :
    (∀ remaining removed,
      groupWorkflows workflows rules skipRules sizeScoreRequested = .ok (remaining, removed) →
      Compaction workflows rules skipRules (metaDataOf workflows sizeScoreRequested)
        remaining removed) ∧
    ((∀ rule ∈ rules ++ skipRules, NeverThrows rule) →
      ∃ res, groupWorkflows workflows rules skipRules sizeScoreRequested = .ok res) := by
  rcases List.eq_nil_or_concat' workflows with rfl | ⟨pre, newest, rfl⟩
  · refine ⟨fun remaining removed h => ?_, fun _ => ⟨_, rfl⟩⟩
    cases h
    exact ⟨List.Perm.refl _, List.Sublist.refl _, rfl, by simp, by simp⟩
  · cases pre with
    | nil =>
      refine ⟨fun remaining removed h => ?_, fun _ => ⟨_, rfl⟩⟩
      cases h
      exact .of_compacts (Compacts.last newest)
    | cons first pre =>
      rw [groupWorkflows, if_neg (by simp), if_neg (by simp), List.length_append,
        List.length_singleton, Nat.add_sub_cancel]
      refine ⟨fun remaining removed h => .of_compacts (groupLoop_compacts (Compacts.last newest) h),
        fun hrules => groupLoop_isOk (mergesInto_isOk hrules _) _ _ _ (by simp)⟩

/-- The version with the one node `Wait`. -/
def waitVersion (disabled : Option Bool) : DiffableWorkflow where
  nodes := [{ id := "1", name := "Wait", type := "wait", disabled }]
  connections := .empty
  createdAt := 0

theorem groupWorkflows_compacts_wait :
    (∀ remaining removed, groupWorkflows [waitVersion none, waitVersion (some true)]
        [mergeAdditiveChanges] [] false = .ok (remaining, removed) →
      Compaction [waitVersion none, waitVersion (some true)] [mergeAdditiveChanges] []
        (metaDataOf [waitVersion none, waitVersion (some true)] false) remaining removed) ∧
    ∃ res, groupWorkflows [waitVersion none, waitVersion (some true)]
      [mergeAdditiveChanges] [] false = .ok res := by
  obtain ⟨hc, hok⟩ := groupWorkflows_compacts [waitVersion none, waitVersion (some true)]
    [mergeAdditiveChanges] [] false
  exact ⟨hc, hok (by simpa using mergeAdditiveChanges_neverThrows)⟩

/-- Not every property of a node is compared: a version is removed although its node differs in
`disabled` from the one that remains. -/
theorem groupWorkflows_ignores_disabled :
    groupWorkflows [waitVersion none, waitVersion (some true)] [mergeAdditiveChanges] [] false =
      .ok ([waitVersion (some true)], [waitVersion none]) ∧
    ∀ prev ∈ (waitVersion none).nodes, ∀ next ∈ (waitVersion (some true)).nodes,
      prev.disabled ≠ next.disabled := by
  decide

end N8n
