import N8n.Lib.Writes
import N8n.NodeParameters.GetNodeParameters

/-!
# Filling in the defaults of one level

A call of `getNodeParameters` that returns all defaults and only what is displayed.

* `FillsDefaults`: the options of such a call;
* `fill`: the value that a displayed property is set to;
* `fillsOf`: the properties that are set, in order;
* `runLevel_eq_ok_iff`: the call sets these and nothing else.
-/

namespace N8n

/-! ### One visit -/

/-- The options of a call that returns the defaults, and only of what is displayed. -/
structure CallOptions.FillsDefaults (o : CallOptions) : Prop where
  returnDefaults : o.returnDefaults = true
  returnNoneDisplayed : o.returnNoneDisplayed = false
  onlySimpleTypes : o.onlySimpleTypes = false

theorem CallOptions.FillsDefaults.lower {o : CallOptions} (h : o.FillsDefaults) (root : JsObject)
    (parentType : ParentType) : (o.lower root parentType).FillsDefaults :=
  ⟨h.returnDefaults, h.returnNoneDisplayed, rfl⟩

/-- A value without its expression prefix, if the property takes no expressions. -/
def unprefixed (info : PropertyInfo) (value : JsValue) : JsValue :=
  match value with
  | .str text =>
    if info.noDataExpression && text.toList.head? = some '=' then
      .str (String.ofList (text.toList.drop 1))
    else value
  | _ => value

/-- What a simple property is set to. -/
def filledSimple (info : PropertyInfo) (type : SimpleType) (value : JsValue) : JsValue :=
  unprefixed info (defaultedValue type info.default value)

section Visit

variable (ctx : DisplayContext) (o : CallOptions) (nodeValues : JsValue) (check : JsObject)

/-- The root of the display check. -/
def levelRoot : JsObject := o.nodeValuesRoot.getD check

/-- Whether a property is displayed, the values of the level being known. -/
def displays (p : INodeProperties) : Except JsError Bool :=
  ctx.displayParameter (.obj check) p.info.displayOptions (.obj (levelRoot o check))

/-- A property without a value that the visit passes by. -/
def passesBy (name : String) : Prop :=
  nodeValues.truthy = false ∨ (nodeValues.prop name = .undefined ∧
    (o.returnDefaults = false ∨ o.parentType = some .collection))

instance (name : String) : Decidable (passesBy o nodeValues name) := by
  unfold passesBy
  infer_instance

/-- What a displayed property is set to. -/
def fill (p : INodeProperties × Nested) (value : JsValue) : Except JsError (Option JsValue) :=
  match p with
  | (.simple info type, _) => .ok (some (filledSimple info type value))
  | (.collection info multipleValues _, .options call) =>
    collectionValue o multipleValues info.default value (levelRoot o check) call
  | (.fixedCollection info multipleValues _, .groups groups) => do
    let propertyValues := if value = .undefined then info.default else value
    let items ← fixedCollectionItems o (levelRoot o check) groups multipleValues value
      propertyValues propertyValues.keys {}
    return some (.obj items.collectionValues)
  | _ => .ok none

/-- What the visit of a property sets. -/
def fillStep (p : INodeProperties × Nested) : Except JsError (List (String × JsValue)) :=
  if passesBy o nodeValues p.1.name then .ok []
  else do
    if (← displays ctx o check p.1) = false then return []
    match ← fill o check p (nodeValues.prop p.1.name) with
    | some v => return [(p.1.name, v)]
    | none => return []

/-- What the visits of the properties set. -/
def fillsOf (ps : List (INodeProperties × Nested)) :
    List ℕ → Except JsError (List (String × JsValue))
  | [] => .ok []
  | index :: order => do
    let p ← orTypeError ps[index]?
    let ws ← fillStep ctx o nodeValues check p
    let rest ← fillsOf ps order
    return ws ++ rest

end Visit

section Level

variable {ctx : DisplayContext} {o : CallOptions} {nodeValues : JsValue} {check : JsObject}

variable (s : Frame)

@[simp] theorem Frame.set_set (name : String) (v v' : JsValue) :
    (s.set name v).set name v' = s.set name v' := by
  unfold Frame.set
  rw [EntryList.write_write, EntryList.write_write]

theorem stripExpression_set (info : PropertyInfo) (s : Frame) (value : JsValue) :
    stripExpression info (s.set info.name value) = s.set info.name (unprefixed info value) := by
  have hget : JsObject.get (s.set info.name value).nodeParameters info.name = value := by
    unfold JsObject.get Frame.set
    rw [EntryList.lookup_write, if_pos rfl, Option.getD_some]
  unfold stripExpression
  rw [hget]
  cases value with
  | str text =>
    dsimp only [unprefixed]
    split_ifs
    · rw [Frame.set_set]
    · rfl
  | undefined | null | bool b | num q | arr xs | obj props => rfl

/-- A simple property is set to its filled value. -/
theorem writeSimple_eq (ho : o.FillsDefaults) (info : PropertyInfo) (type : SimpleType)
    (value : JsValue) (s : Frame) :
    writeSimple o info type value s = s.set info.name (filledSimple info type value) := by
  unfold writeSimple filledSimple
  rw [if_pos ho.returnDefaults, stripExpression_set]

/-- Write properties of both objects. -/
def Frame.setAll (s : Frame) (ws : List (String × JsValue)) : Frame :=
  ws.foldl (fun s e => s.set e.1 e.2) s

@[simp] theorem Frame.setAll_nil : s.setAll [] = s := rfl

@[simp] theorem Frame.setAll_singleton (e : String × JsValue) : s.setAll [e] = s.set e.1 e.2 := rfl

theorem Frame.nodeParameters_setAll (ws : List (String × JsValue)) :
    (s.setAll ws).nodeParameters = EntryList.writeAll ws s.nodeParameters := by
  induction ws generalizing s with
  | nil => rfl
  | cons e ws ih => exact ih (s.set e.1 e.2)

/-- A fixed collection is set to the values of its items. -/
theorem visitFixedCollection_eq (ho : o.FillsDefaults) (info : PropertyInfo)
    (multipleValues : Option Bool) (root : JsObject)
    (groups : List (String × List INodeProperties × LevelCall)) (value : JsValue) (s : Frame) :
    visitFixedCollection o info multipleValues root groups nodeValues value s =
      (fun items => Flow.next (s.set info.name (.obj items.collectionValues))) <$>
        fixedCollectionItems o root groups multipleValues value
          (if value = .undefined then info.default else value)
          (if value = .undefined then info.default else value).keys {} := by
  unfold visitFixedCollection
  simp only [ho.returnDefaults, true_and, Bool.true_eq_false, false_and, if_false, or_true, if_true]
  cases fixedCollectionItems o root groups multipleValues value
      (if value = .undefined then info.default else value)
      (if value = .undefined then info.default else value).keys {} <;> rfl

/-- The visit of a property sets what `fillStep` lists. -/
theorem visit_eq (ho : o.FillsDefaults) (duplicateParameterNames : List String)
    (p : INodeProperties × Nested) (s : Frame) :
    visit ctx o duplicateParameterNames nodeValues (some check) p s =
      (fun ws => Flow.next (s.setAll ws)) <$> fillStep ctx o nodeValues check p := by
  have hdisplayed : isDisplayed ctx o (some check) s p.1 = displays ctx o check p.1 := rfl
  have hroot : rootOf o (some check) s = levelRoot o check := rfl
  unfold visit fillStep
  rw [hdisplayed, hroot]
  by_cases hpass : passesBy o nodeValues p.1.name
  · rw [if_pos hpass]
    exact if_pos hpass
  have hpass' : ¬ (nodeValues.truthy = false ∨ nodeValues.prop p.1.name = .undefined ∧
      (o.returnDefaults = false ∨ o.parentType = some .collection)) := hpass
  rw [if_neg hpass]
  dsimp only
  rw [if_neg hpass', if_pos ho.returnNoneDisplayed]
  cases hd : displays ctx o check p.1 with
  | error e => rfl
  | ok b =>
    cases b with
    | false => rfl
    | true =>
      have honly : ¬ o.onlySimpleTypes = true := by simp [ho.onlySimpleTypes]
      obtain ⟨property, nested⟩ := p
      cases property with
      | simple info type =>
        have hwrite := writeSimple_eq ho info type (nodeValues.prop info.name) s
        by_cases hdup : info.name ∈ duplicateParameterNames
        · show (if info.name ∈ duplicateParameterNames then _ else _) = _
          rw [if_pos hdup]
          exact congrArg (fun s => Except.ok (Flow.next s)) hwrite
        · show (if info.name ∈ duplicateParameterNames then _ else _) = _
          rw [if_neg hdup]
          exact congrArg (fun s => Except.ok (Flow.next s)) hwrite
      | collection info multipleValues options =>
        cases nested with
        | options call =>
          show (if o.onlySimpleTypes = true then _ else _) = _
          rw [if_neg honly]
          show (collectionValue o multipleValues info.default (nodeValues.prop info.name)
              (levelRoot o check) call >>= _) = (fun ws => Flow.next (s.setAll ws)) <$>
            (collectionValue o multipleValues info.default (nodeValues.prop info.name)
              (levelRoot o check) call >>= _)
          cases collectionValue o multipleValues info.default (nodeValues.prop info.name)
              (levelRoot o check) call with
          | error e => rfl
          | ok v => cases v <;> rfl
        | none | groups groups => rfl
      | fixedCollection info multipleValues options =>
        cases nested with
        | groups groups =>
          show (if o.onlySimpleTypes = true then _ else _) = _
          rw [if_neg honly, visitFixedCollection_eq ho]
          show _ <$> fixedCollectionItems o (levelRoot o check) groups multipleValues
              (nodeValues.prop info.name)
              (if nodeValues.prop info.name = .undefined then info.default
                else nodeValues.prop info.name)
              (if nodeValues.prop info.name = .undefined then info.default
                else nodeValues.prop info.name).keys {} =
            (fun ws => Flow.next (s.setAll ws)) <$>
              (fill o check (.fixedCollection info multipleValues options, .groups groups)
                (nodeValues.prop info.name) >>= _)
          unfold fill
          dsimp only
          cases fixedCollectionItems o (levelRoot o check) groups multipleValues
              (nodeValues.prop info.name)
              (if nodeValues.prop info.name = .undefined then info.default
                else nodeValues.prop info.name)
              (if nodeValues.prop info.name = .undefined then info.default
                else nodeValues.prop info.name).keys {} <;> rfl
        | none | options call => rfl

/-- The loop over the properties sets what `fillsOf` lists. -/
theorem visitAll_eq (ho : o.FillsDefaults) (duplicateParameterNames : List String)
    (ps : List (INodeProperties × Nested)) (order : List ℕ) (s : Frame) :
    visitAll ctx o duplicateParameterNames nodeValues (some check) ps order s =
      (fun ws => JsValue.obj (EntryList.writeAll ws s.nodeParameters)) <$>
        fillsOf ctx o nodeValues check ps order := by
  induction order generalizing s with
  | nil => rfl
  | cons index order ih =>
    unfold visitAll fillsOf
    cases orTypeError ps[index]? with
    | error e => rfl
    | ok p =>
      show (visit ctx o duplicateParameterNames nodeValues (some check) p s >>= _) = _ <$>
        (fillStep ctx o nodeValues check p >>= _)
      rw [visit_eq ho]
      cases fillStep ctx o nodeValues check p with
      | error e => rfl
      | ok ws =>
        show visitAll ctx o duplicateParameterNames nodeValues (some check) ps order
          (s.setAll ws) = _ <$> (fillsOf ctx o nodeValues check ps order >>= _)
        rw [ih]
        cases fillsOf ctx o nodeValues check ps order with
        | error e => rfl
        | ok rest =>
          show Except.ok (JsValue.obj (EntryList.writeAll rest (s.setAll ws).nodeParameters)) =
            Except.ok (JsValue.obj (EntryList.writeAll (ws ++ rest) s.nodeParameters))
          rw [EntryList.writeAll_append, Frame.nodeParameters_setAll]

/-- A part of a visit that does not return early. -/
def OnlyNext (x : Except JsError Flow) : Prop := ∀ f, x = .ok f → ∃ s, f = .next s

theorem OnlyNext.pure : OnlyNext (.ok (.next s)) := fun f h => by
  cases h
  exact ⟨s, rfl⟩

theorem OnlyNext.bind {α : Type} {x : Except JsError α} {g : α → Except JsError Flow}
    (h : ∀ a, OnlyNext (g a)) : OnlyNext (x >>= g) := fun f hf => by
  obtain ⟨a, -, ha⟩ := Except.bind_eq_ok_iff.1 hf
  exact h a f ha

theorem OnlyNext.ite {c : Prop} [Decidable c] {x y : Except JsError Flow} (hx : OnlyNext x)
    (hy : OnlyNext y) : OnlyNext (if c then x else y) := by
  split_ifs
  · exact hx
  · exact hy

/-- The visits of simple properties do not return early. -/
theorem onlyNext_visit {o : CallOptions} (ho : o.onlySimpleTypes = true)
    (duplicateParameterNames : List String) (check : Option JsObject) (p : INodeProperties × Nested)
    (s : Frame) : OnlyNext (visit ctx o duplicateParameterNames nodeValues check p s) := by
  obtain ⟨property, nested⟩ := p
  have hmatch : ∀ value, OnlyNext (match (property, nested) with
      | (.simple info type, _) =>
        if info.name ∈ duplicateParameterNames then do
          if (← isDisplayed ctx o check s property) = false then return .next s
          return .next (writeSimple o info type value s)
        else return .next (writeSimple o info type value s)
      | (.collection info multipleValues _, .options call) =>
        if o.onlySimpleTypes then return .next s
        else do
          match ← collectionValue o multipleValues info.default value (rootOf o check s) call with
          | some v => return .next (s.set info.name v)
          | none => return .next s
      | (.fixedCollection info multipleValues _, .groups groups) =>
        if o.onlySimpleTypes then return .next s
        else visitFixedCollection o info multipleValues (rootOf o check s) groups nodeValues value s
      | _ => return .next s) := by
    intro value
    split
    · refine OnlyNext.ite (OnlyNext.bind fun b => ?_) (OnlyNext.pure _)
      exact OnlyNext.ite (OnlyNext.pure s) (OnlyNext.pure _)
    · rw [if_pos ho]
      exact OnlyNext.pure s
    · rw [if_pos ho]
      exact OnlyNext.pure s
    · exact OnlyNext.pure s
  unfold visit
  refine OnlyNext.ite (OnlyNext.pure s) (OnlyNext.ite (OnlyNext.bind fun b => ?_) (hmatch _))
  exact OnlyNext.ite (OnlyNext.pure s) (hmatch _)

/-- The call for the simple types answers with an object. -/
theorem displayCheckValues_eq_obj {nodePropertiesArray : List INodeProperties} {r : JsValue}
    (h : displayCheckValues ctx nodePropertiesArray nodeValues o = .ok r) :
    ∃ check, r = .obj check := by
  unfold displayCheckValues at h
  obtain ⟨order, -, h⟩ := Except.bind_eq_ok_iff.1 h
  generalize ({} : Frame) = s at h
  induction order generalizing s with
  | nil =>
    cases h
    exact ⟨_, rfl⟩
  | cons index order ih =>
    unfold visitAll at h
    obtain ⟨p, -, h⟩ := Except.bind_eq_ok_iff.1 h
    obtain ⟨f, hf, h⟩ := Except.bind_eq_ok_iff.1 h
    obtain ⟨s', rfl⟩ := onlyNext_visit rfl _ _ _ _ f hf
    exact ih s' h

/-- **A call that fills in the defaults sets what `fillsOf` lists, and nothing else.** -/
theorem runLevel_eq_ok_iff (ho : o.FillsDefaults) (ps : List (INodeProperties × Nested))
    (w : JsValue) : runLevel ctx ps nodeValues o = .ok w ↔ ∃ check order ws,
      displayCheckValues ctx (ps.map Prod.fst) nodeValues o = .ok (.obj check) ∧
      getParameterResolveOrder (ps.map Prod.fst) (getParameterDependencies (ps.map Prod.fst)) =
        .ok order ∧
      fillsOf ctx o nodeValues check ps order = .ok ws ∧ w = .obj (EntryList.writeAll ws []) := by
  unfold runLevel
  rw [if_neg (by simp [ho.returnNoneDisplayed])]
  constructor
  · intro h
    obtain ⟨r, hr, h⟩ := Except.bind_eq_ok_iff.1 h
    obtain ⟨c, rfl⟩ := displayCheckValues_eq_obj hr
    obtain ⟨check, hcheck, h⟩ := Except.bind_eq_ok_iff.1 h
    cases hcheck
    obtain ⟨order, horder, h⟩ := Except.bind_eq_ok_iff.1 h
    rw [visitAll_eq ho, Except.map_eq_ok_iff] at h
    obtain ⟨ws, hws, rfl⟩ := h
    exact ⟨c, order, ws, hr, horder, hws, rfl⟩
  · rintro ⟨c, order, ws, hr, horder, hws, rfl⟩
    show (displayCheckValues ctx (ps.map Prod.fst) nodeValues o >>= _) = _
    rw [hr]
    show (getParameterResolveOrder (ps.map Prod.fst)
      (getParameterDependencies (ps.map Prod.fst)) >>= _) = _
    rw [horder]
    show visitAll ctx o _ nodeValues (some c) ps order {} = _
    rw [visitAll_eq ho, hws]
    rfl

/-! ### What the visits set -/

variable {ws : List (String × JsValue)}

/-- What can come out of the visit of a property. -/
theorem fillStep_eq_ok_iff {p : INodeProperties × Nested} :
    fillStep ctx o nodeValues check p = .ok ws ↔
      (passesBy o nodeValues p.1.name ∧ ws = []) ∨
      (¬ passesBy o nodeValues p.1.name ∧ displays ctx o check p.1 = .ok false ∧ ws = []) ∨
      (¬ passesBy o nodeValues p.1.name ∧ displays ctx o check p.1 = .ok true ∧
        ∃ r, fill o check p (nodeValues.prop p.1.name) = .ok r ∧
          ws = r.elim [] fun v => [(p.1.name, v)]) := by
  unfold fillStep
  by_cases hpass : passesBy o nodeValues p.1.name
  · rw [if_pos hpass]
    simp [hpass, eq_comm]
  rw [if_neg hpass]
  cases displays ctx o check p.1 with
  | error e => simp [hpass]
  | ok b =>
    cases b with
    | false =>
      show Except.ok [] = Except.ok ws ↔ _
      simp [hpass, eq_comm]
    | true =>
      show (fill o check p (nodeValues.prop p.1.name) >>= _) = _ ↔ _
      cases hfill : fill o check p (nodeValues.prop p.1.name) with
      | error e =>
        show Except.error e = Except.ok ws ↔ _
        simp [hpass]
      | ok r =>
        cases r with
        | none =>
          show Except.ok [] = Except.ok ws ↔ _
          simp [hpass, eq_comm]
        | some v =>
          show Except.ok [(p.1.name, v)] = Except.ok ws ↔ _
          simp [hpass, eq_comm]

variable {ps : List (INodeProperties × Nested)} {order : List ℕ}

/-- A property that is set was set by the visit of a displayed property. -/
theorem exists_of_mem_fillsOf (h : fillsOf ctx o nodeValues check ps order = .ok ws)
    {name : String} {v : JsValue} (hmem : (name, v) ∈ ws) :
    ∃ p ∈ ps, p.1.name = name ∧ ¬ passesBy o nodeValues name ∧
      displays ctx o check p.1 = .ok true ∧
      fill o check p (nodeValues.prop name) = .ok (some v) := by
  induction order generalizing ws with
  | nil =>
    cases h
    cases hmem
  | cons index order ih =>
    unfold fillsOf at h
    obtain ⟨p, hp, h⟩ := Except.bind_eq_ok_iff.1 h
    obtain ⟨l, hl, h⟩ := Except.bind_eq_ok_iff.1 h
    obtain ⟨rest, hrest, h⟩ := Except.bind_eq_ok_iff.1 h
    cases h
    rcases List.mem_append.1 hmem with hmem | hmem
    · rcases fillStep_eq_ok_iff.1 hl with ⟨-, rfl⟩ | ⟨-, -, rfl⟩ | ⟨hpass, hshown, r, hr, rfl⟩
      · cases hmem
      · cases hmem
      · cases r with
        | none => cases hmem
        | some v' =>
          obtain ⟨rfl, rfl⟩ := Prod.mk.inj (List.mem_singleton.1 hmem)
          exact ⟨p, List.mem_of_getElem? (orTypeError_eq_ok hp), rfl, hpass, hshown, hr⟩
    · exact ih hrest hmem

/-- What the visits of two calls set is related when it is for each visit. -/
theorem fillsOf_forall₂ {o' : CallOptions} {nodeValues' : JsValue} {check' : JsObject}
    {R : String × JsValue → String × JsValue → Prop} {all : List (String × JsValue)}
    (hstep : ∀ p ∈ ps, ∀ l, (∀ e ∈ l, e ∈ all) → fillStep ctx o nodeValues check p = .ok l →
      ∃ l', fillStep ctx o' nodeValues' check' p = .ok l' ∧ List.Forall₂ R l l')
    (hall : ∀ e ∈ ws, e ∈ all) (h : fillsOf ctx o nodeValues check ps order = .ok ws) :
    ∃ ws', fillsOf ctx o' nodeValues' check' ps order = .ok ws' ∧ List.Forall₂ R ws ws' := by
  induction order generalizing ws with
  | nil =>
    cases h
    exact ⟨[], rfl, .nil⟩
  | cons index order ih =>
    unfold fillsOf at h ⊢
    obtain ⟨p, hp, h⟩ := Except.bind_eq_ok_iff.1 h
    obtain ⟨l, hl, h⟩ := Except.bind_eq_ok_iff.1 h
    obtain ⟨rest, hrest, h⟩ := Except.bind_eq_ok_iff.1 h
    cases h
    rw [List.forall_mem_append] at hall
    obtain ⟨l', hl', hll'⟩ := hstep p (List.mem_of_getElem? (orTypeError_eq_ok hp)) l hall.1 hl
    obtain ⟨rest', hrest', hrel⟩ := ih hall.2 hrest
    refine ⟨l' ++ rest', ?_, List.rel_append hll' hrel⟩
    rw [hp]
    show (fillStep ctx o' nodeValues' check' p >>= _) = _
    rw [hl']
    show (fillsOf ctx o' nodeValues' check' ps order >>= _) = _
    rw [hrest']
    rfl

end Level

/-! ### The properties of a schema -/

theorem map_fst_levelOf (ctx : DisplayContext) (ps : List INodeProperties) :
    (levelOf ctx ps).map Prod.fst = ps := by
  induction ps with
  | nil => rfl
  | cons p ps ih => rw [levelOf, List.map_cons, ih]

theorem mem_levelOf {ctx : DisplayContext} {ps : List INodeProperties}
    {p : INodeProperties × Nested} (h : p ∈ levelOf ctx ps) :
    p.1 ∈ ps ∧ p.2 = nestedOf ctx p.1 := by
  induction ps with
  | nil => cases h
  | cons q ps ih =>
    rw [levelOf] at h
    rcases List.mem_cons.1 h with rfl | h
    · exact ⟨List.mem_cons_self, rfl⟩
    · exact ⟨List.mem_cons_of_mem q (ih h).1, (ih h).2⟩

theorem findGroup_groupsOf (ctx : DisplayContext) (options : List (String × List INodeProperties))
    (name : String) : findGroup (groupsOf ctx options) name =
      (EntryList.lookup name options).map fun values => (values, getNodeParameters ctx values) := by
  unfold findGroup
  induction options with
  | nil => rfl
  | cons e options ih =>
    obtain ⟨n, values⟩ := e
    rw [groupsOf, EntryList.lookup, EntryList.lookup, ih]
    split_ifs <;> rfl

end N8n
