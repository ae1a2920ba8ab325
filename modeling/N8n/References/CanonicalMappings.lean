import N8n.References.ExtractReferences

/-!
# The variables of the references

What `resolveDuplicates` makes of the references, and which mappings a rewriting can use.

* `ResolvedDuplicates.Sound`: an expression has one variable, and a variable one expression;
* `sound_resolveDuplicates`: `resolveDuplicates` keeps this;
* `Sound.canonical`: the mappings of a plan are variables of expressions that are not empty.
-/

namespace N8n

/-! ### Names -/

theorem ExpressionMapping.key_ne {mapping : ExpressionMapping} {s t : List Char}
    (h : s.length < t.length) :
    ({ mapping with replacementName := s } : ExpressionMapping).key.length <
      ({ mapping with replacementName := t } : ExpressionMapping).key.length := by
  simp only [key, List.length_append, List.length_cons]
  omega

namespace ResolvedDuplicates

/-- A stored variable has the key it is stored under, and the expression of a variable is found. -/
structure Sound (r : ResolvedDuplicates) : Prop where
  key_eq : ∀ k v, r.triggerArgumentMap.get? k = some v → v.key = k
  found : ∀ o k, r.originalExpressionMap.get? o = some k →
    ∃ v, r.triggerArgumentMap.get? k = some v ∧ v.originalExpression = o

theorem sound_empty : Sound empty :=
  ⟨fun _ _ h => absurd h (by simp [empty]), fun _ _ h => absurd h (by simp [empty])⟩

/-- The loop over `_1` ends with a name that does not collide. -/
theorem collides_uniqueName (r : ResolvedDuplicates) (mapping : ExpressionMapping)
    (allNodeNames : List (List Char)) :
    r.collides mapping (r.uniqueName mapping allNodeNames) = false := by
  unfold uniqueName
  refine whileDo_eq_false r.triggerArgumentMap.keys
    (fun name => ({ mapping with replacementName := name } : ExpressionMapping).key) List.length
    (fun name hname => ?_) (fun name => ?_) le_rfl _
  · rw [Dict.mem_keys_iff]
    unfold collides hasKeyAndCollides at hname
    cases hget : r.triggerArgumentMap.get?
        ({ mapping with replacementName := name } : ExpressionMapping).key with
    | none =>
      rw [hget] at hname
      cases hname
    | some v => rfl
  · refine ExpressionMapping.key_ne ?_
    rw [List.length_append]
    exact Nat.lt_add_of_pos_right (by decide)

variable {r : ResolvedDuplicates} {o : List Char} {m : ExpressionMapping}

/-- What stands under the key of a mapping that does not collide is the mapping. -/
theorem eq_of_not_collides {mapping v : ExpressionMapping} {name : List Char}
    (h : r.collides mapping name = false) (hv : r.triggerArgumentMap.get?
      ({ mapping with replacementName := name } : ExpressionMapping).key = some v) :
    v = mapping := by
  unfold collides hasKeyAndCollides at h
  rw [hv] at h
  simpa using h

theorem Sound.add (h : r.Sound) (allNodeNames : List (List Char)) (mapping : ExpressionMapping) :
    (r.add allNodeNames mapping).Sound := by
  have hfree := r.collides_uniqueName mapping allNodeNames
  refine ⟨fun k v hv => ?_, fun o k ho => ?_⟩
  · unfold ResolvedDuplicates.add at hv
    simp only [Dict.get?_set] at hv
    split_ifs at hv with hk
    · rw [← Option.some.inj hv, hk]
    · exact h.key_eq k v hv
  · unfold ResolvedDuplicates.add at ho ⊢
    simp only [Dict.get?_set] at ho ⊢
    split_ifs at ho with hmapping
    · rw [← Option.some.inj ho, if_pos rfl]
      exact ⟨_, rfl, hmapping.symm⟩
    · obtain ⟨v, hv, hvo⟩ := h.found o k ho
      split_ifs with hk
      · -- the key was in use: only the same mapping does not collide there
        rw [hk] at hv
        exact absurd (hvo ▸ congrArg _ (eq_of_not_collides hfree hv)) hmapping
      · exact ⟨v, hv, hvo⟩

/-- The canonical form of an expression is a variable of this expression. -/
theorem Sound.original_eq (h : r.Sound) (hm : r.getCanonicalData o = some m) :
    m.originalExpression = o := by
  obtain ⟨k, hk, hv⟩ := Option.bind_eq_some_iff.1 hm
  obtain ⟨v, hv', hvo⟩ := h.found o k hk
  rw [hv] at hv'
  rw [Option.some.inj hv', hvo]

/-- Canonical mappings with the same prefix and name are the same. -/
theorem Sound.eq_of_key_eq (h : r.Sound) {o' : List Char} {m' : ExpressionMapping}
    (hm : r.getCanonicalData o = some m) (hm' : r.getCanonicalData o' = some m')
    (hkey : m.key = m'.key) : m = m' := by
  obtain ⟨k, -, hv⟩ := Option.bind_eq_some_iff.1 hm
  obtain ⟨k', -, hv'⟩ := Option.bind_eq_some_iff.1 hm'
  have hk : k = k' := by rw [← h.key_eq k m hv, ← h.key_eq k' m' hv', hkey]
  rw [hk, hv'] at hv
  exact (Option.some.inj hv).symm

/-- The mapping is the variable of its expression. -/
def Canonical (r : ResolvedDuplicates) (m : ExpressionMapping) : Prop :=
  r.getCanonicalData m.originalExpression = some m

theorem Sound.canonical (h : r.Sound) (hm : r.getCanonicalData o = some m) : r.Canonical m := by
  unfold Canonical
  rwa [h.original_eq hm]

end ResolvedDuplicates

/-- **An expression has one variable, and a variable one expression.** -/
theorem sound_resolveDuplicates (data : List ExpressionMapping)
    (allNodeNames : List (List Char)) : (resolveDuplicates data allNodeNames).Sound := by
  unfold resolveDuplicates
  suffices ∀ r : ResolvedDuplicates, r.Sound →
      (data.foldl (ResolvedDuplicates.add allNodeNames) r).Sound from
    this _ ResolvedDuplicates.sound_empty
  induction data with
  | nil => exact fun r hr => hr
  | cons mapping data ih => exact fun r hr => ih _ (hr.add allNodeNames mapping)

/-! ### Trees of mappings -/

namespace ParameterMapping

mutual

/-- All mappings of a tree have a property. -/
def Forall (P : ExpressionMapping → Prop) : ParameterMapping → Prop
  | .undefined => True
  | .list mappings => ∀ m ∈ mappings, P m
  | .obj props => ForallProps P props

def ForallProps (P : ExpressionMapping → Prop) : List (String × ParameterMapping) → Prop
  | [] => True
  | (_, mapping) :: props => Forall P mapping ∧ ForallProps P props

end

variable {P : ExpressionMapping → Prop}

theorem forallProps_iff {props : List (String × ParameterMapping)} :
    ForallProps P props ↔ ∀ e ∈ props, e.2.Forall P := by
  induction props with
  | nil => simp [ForallProps]
  | cons e props ih => rw [ForallProps, ih, List.forall_mem_cons]

theorem forall_at {props : List (String × ParameterMapping)} (h : ForallProps P props)
    (key : String) : (ParameterMapping.at props key).Forall P := by
  unfold ParameterMapping.at
  induction props with
  | nil => simp [EntryList.lookup, Forall]
  | cons e props ih =>
    obtain ⟨k, mapping⟩ := e
    rw [ForallProps] at h
    rw [EntryList.lookup]
    split_ifs
    · exact h.1
    · exact ih h.2

end ParameterMapping

section Forall

open ParameterMapping

variable {P : ExpressionMapping → Prop}

mutual

variable {mapper : List Char → List ExpressionMapping}

theorem forall_applyParameterMapping (h : ∀ s, ∀ m ∈ mapper s, P m) (keyOfValue : Option String)
    (v : JsValue) : (applyParameterMapping mapper keyOfValue v).1.Forall P := by
  cases v with
  | str s =>
    rw [applyParameterMapping]
    split_ifs
    · exact h s.toList
    · trivial
  | arr xs =>
    rw [applyParameterMapping, Forall, forallProps_iff]
    intro e he
    obtain ⟨x, hx, rfl⟩ := List.mem_map.1 he
    exact forall_mapElements h 0 xs x hx
  | obj props =>
    rw [applyParameterMapping, Forall, forallProps_iff]
    intro e he
    obtain ⟨x, hx, rfl⟩ := List.mem_map.1 he
    exact forall_mapProperties h props x ((EntryList.enumerate_perm _).mem_iff.1 hx)
  | undefined | null | bool b | num q => rw [applyParameterMapping, Forall]; trivial

theorem forall_mapElements (h : ∀ s, ∀ m ∈ mapper s, P m) (i : ℕ) (xs : List JsValue) :
    ∀ e ∈ mapElements mapper i xs, e.2.1.Forall P := by
  cases xs with
  | nil => simp [mapElements]
  | cons x xs =>
    rw [mapElements, List.forall_mem_cons]
    exact ⟨forall_applyParameterMapping h _ x, forall_mapElements h (i + 1) xs⟩

theorem forall_mapProperties (h : ∀ s, ∀ m ∈ mapper s, P m) (props : List (String × JsValue)) :
    ∀ e ∈ mapProperties mapper props, e.2.1.Forall P := by
  cases props with
  | nil => simp [mapProperties]
  | cons p props =>
    obtain ⟨key, value⟩ := p
    rw [mapProperties, List.forall_mem_cons]
    exact ⟨forall_applyParameterMapping h _ value, forall_mapProperties h props⟩

end

mutual

variable {getCanonicalData : List Char → Option ExpressionMapping} {Q : ExpressionMapping → Prop}

/-- The mappings of the final tree come from mappings of the tree. -/
theorem forall_applyCanonicalMapping
    (h : ∀ m, P m → ∀ m', getCanonicalData m.originalExpression = some m' → Q m')
    (t : ParameterMapping) (ht : t.Forall P) :
    (applyCanonicalMapping getCanonicalData t).Forall Q := by
  cases t with
  | undefined => rw [applyCanonicalMapping, Forall]; trivial
  | list mapping =>
    rw [applyCanonicalMapping, Forall]
    rw [Forall] at ht
    intro m' hm'
    obtain ⟨m, hm, hget⟩ := List.mem_filterMap.1 ((List.mem_insertionSort _).1 hm')
    exact h m (ht m hm) m' hget
  | obj props =>
    rw [applyCanonicalMapping, Forall]
    rw [Forall] at ht
    exact forall_applyCanonicalProperties h props ht

theorem forall_applyCanonicalProperties
    (h : ∀ m, P m → ∀ m', getCanonicalData m.originalExpression = some m' → Q m')
    (props : List (String × ParameterMapping)) (hprops : ForallProps P props) :
    ForallProps Q (applyCanonicalProperties getCanonicalData props) := by
  cases props with
  | nil => rw [applyCanonicalProperties, ForallProps]; trivial
  | cons e props =>
    obtain ⟨key, mapping⟩ := e
    rw [applyCanonicalProperties, ForallProps]
    rw [ForallProps] at hprops
    exact ⟨forall_applyCanonicalMapping h mapping hprops.1,
      forall_applyCanonicalProperties h props hprops.2⟩

end

theorem forall_replaceOriginals {mapping : List ExpressionMapping} (h : ∀ m ∈ mapping, P m)
    (s : List Char) : ∀ m ∈ (replaceOriginals mapping s).2, P m := by
  induction mapping generalizing s with
  | nil => simp [replaceOriginals]
  | cons mapper mapping ih =>
    rw [List.forall_mem_cons] at h
    rw [replaceOriginals]
    split_ifs
    · rw [List.forall_mem_cons]
      exact ⟨h.1, ih h.2 _⟩
    · exact ih h.2 s

mutual

/-- The mappings used in a value are mappings of the tree. -/
theorem forall_applyMapping (v : JsValue) (t : ParameterMapping) (ht : t.Forall P) :
    ∀ m ∈ (applyMapping v t).2, P m := by
  cases v with
  | str s =>
    cases t with
    | list mapping => exact forall_replaceOriginals ht s.toList
    | undefined | obj props => simp [applyMapping]
  | arr xs =>
    cases t with
    | obj mapping =>
      intro m hm
      rw [applyMapping] at hm
      obtain ⟨e, he, hm⟩ := List.mem_flatMap.1 hm
      exact forall_applyToElements mapping ht 0 xs e he m hm
    | undefined | list mapping => simp [applyMapping]
  | obj props =>
    cases t with
    | obj mapping =>
      intro m hm
      rw [applyMapping] at hm
      obtain ⟨e, he, hm⟩ := List.mem_flatMap.1 hm
      exact forall_applyToProperties mapping ht props e
        ((EntryList.enumerate_perm _).mem_iff.1 he) m hm
    | undefined | list mapping => simp [applyMapping]
  | undefined | null | bool b | num q => cases t <;> simp [applyMapping]

theorem forall_applyToElements (mapping : List (String × ParameterMapping))
    (h : ForallProps P mapping) (i : ℕ) (xs : List JsValue) :
    ∀ e ∈ applyToElements mapping i xs, ∀ m ∈ e.2, P m := by
  cases xs with
  | nil => simp [applyToElements]
  | cons x xs =>
    rw [applyToElements, List.forall_mem_cons]
    exact ⟨forall_applyMapping x _ (forall_at h _), forall_applyToElements mapping h (i + 1) xs⟩

theorem forall_applyToProperties (mapping : List (String × ParameterMapping))
    (h : ForallProps P mapping) (props : List (String × JsValue)) :
    ∀ e ∈ applyToProperties mapping props, ∀ m ∈ e.2.2, P m := by
  cases props with
  | nil => simp [applyToProperties]
  | cons p props =>
    obtain ⟨key, value⟩ := p
    rw [applyToProperties, List.forall_mem_cons]
    exact ⟨forall_applyMapping value _ (forall_at h _), forall_applyToProperties mapping h props⟩

end

end Forall

/-! ### The plan -/

theorem parseExpressionMapping_ne_nil {isolatedExpression startNodeName : List Char}
    {nodeNameInExpression nodeNamePlainJs : Option (List Char)} {m : ExpressionMapping}
    (h : parseExpressionMapping isolatedExpression nodeNameInExpression nodeNamePlainJs
      startNodeName = some m) : m.originalExpression ≠ [] := by
  unfold parseExpressionMapping at h
  dsimp only at h
  generalize (if "$node.".toList <+: isolatedExpression then 1 else 0) = offset at h
  split at h
  · obtain rfl := Option.some.inj h
    exact List.append_ne_nil_of_right_ne_nil _ (List.cons_ne_nil _ _)
  split at h
  · cases h
  split at h
  · split at h
    · obtain rfl := Option.some.inj h
      exact List.append_ne_nil_of_right_ne_nil _ (List.cons_ne_nil _ _)
    split at h <;> obtain rfl := Option.some.inj h
    · exact List.append_ne_nil_of_right_ne_nil _ (List.cons_ne_nil _ _)
    · exact List.append_ne_nil_of_right_ne_nil _ (List.cons_ne_nil _ _)
  split at h
  · obtain rfl := Option.some.inj h
    exact List.append_ne_nil_of_right_ne_nil _ (List.cons_ne_nil _ _)
  · cases h

theorem parseReferencingExpressions_ne_nil {nodeNames : List (List Char)}
    {startNodeName expression : List Char} {parseJson : Bool} {m : ExpressionMapping}
    (h : m ∈ parseReferencingExpressions nodeNames startNodeName parseJson expression) :
    m.originalExpression ≠ [] := by
  unfold parseReferencingExpressions at h
  rcases List.mem_append.1 h with h | h
  · obtain ⟨pattern, -, h⟩ := List.mem_flatMap.1 h
    split_ifs at h
    · obtain ⟨a, -, ha⟩ := List.mem_filterMap.1 h
      unfold parseCandidateMatch at ha
      split_ifs at ha
      obtain ⟨candidate, -, hc⟩ := Option.bind_eq_some_iff.1 ha
      exact parseExpressionMapping_ne_nil hc
    · cases h
  · split_ifs at h
    · obtain ⟨a, -, ha⟩ := List.mem_filterMap.1 h
      obtain ⟨candidate, -, hc⟩ := Option.bind_eq_some_iff.1 ha
      exact parseExpressionMapping_ne_nil hc
    · cases h

/-- A plan as `planExtraction` makes it. -/
structure ExtractionPlan.Sound (plan : ExtractionPlan) : Prop where
  resolved : plan.resolved.Sound
  canonical : ∀ node : INode, (plan.mappingOf node).Forall fun m =>
    m.originalExpression ≠ [] ∧ plan.resolved.Canonical m

theorem resolveMappings_sound (subGraph : List INode) (nodeNames : List String)
    (insertedStartName : String) (graphInputNodeNames : Option (List String))
    (extraVariableCandidates : List ExpressionMapping) :
    (resolveMappings subGraph nodeNames insertedStartName graphInputNodeNames
      extraVariableCandidates).Sound := by
  have hresolved : (resolveMappings subGraph nodeNames insertedStartName graphInputNodeNames
      extraVariableCandidates).resolved.Sound := sound_resolveDuplicates _ _
  refine ⟨hresolved, fun node => ?_⟩
  unfold ExtractionPlan.mappingOf
  cases hget : (resolveMappings subGraph nodeNames insertedStartName graphInputNodeNames
      extraVariableCandidates).parameterTreeMappingByNode.get? node.name with
  | none =>
    rw [Option.getD_none, ParameterMapping.Forall]
    trivial
  | some t =>
    rw [Option.getD_some]
    obtain ⟨e, he, heq⟩ := List.mem_map.1 (Dict.mem_of_get?_ofList hget)
    obtain ⟨n, -, rfl⟩ := List.mem_map.1 he
    rw [← (Prod.mk.inj heq).2]
    refine forall_applyCanonicalMapping (fun m hm m' hm' => ⟨?_, hresolved.canonical hm'⟩) _
      (forall_applyParameterMapping
        (fun s m hm => parseReferencingExpressions_ne_nil hm) none (.obj n.parameters))
    rw [hresolved.original_eq hm']
    exact hm

theorem planExtraction_sound {subGraph : List INode} {nodeNames : List String}
    {insertedStartName : String} {graphInputNodeNames : Option (List String)}
    {plan : ExtractionPlan}
    (h : planExtraction subGraph nodeNames insertedStartName graphInputNodeNames = .ok plan) :
    plan.Sound := by
  unfold planExtraction at h
  dsimp only at h
  split_ifs at h
  obtain ⟨extras, -, hplan⟩ := Except.bind_eq_ok_iff.1 h
  rw [← Except.ok.inj hplan]
  exact resolveMappings_sound _ _ _ _ _

end N8n
