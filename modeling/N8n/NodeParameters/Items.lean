import N8n.Lib.Pointwise
import N8n.NodeParameters.FillDefaults

/-!
# The items of a fixed collection

What a call that fills in the defaults sets for the items of a fixed collection.

* `itemWrite`, `itemWrites`: what is set for an item, and for all items in order;
* `fill_fixedCollection_eq_ok_iff`: a fixed collection is set to this;
* `itemValues`, `multipleItem_eq_ok_iff`: the values that the calls for the group of an item are given;
* `Shown`, `fill_ne_none`: a property that is shown is set to something.
-/

namespace N8n

section Items

variable (o : CallOptions) (root : JsObject)
  (groups : List (String × List INodeProperties × LevelCall)) (multipleValues : Option Bool)
  (value propertyValues : JsValue)

/-- What is set for an item. -/
def itemWrite (itemName : String) : Except JsError (List (String × JsValue)) :=
  if multipleValues = some true then
    match propertyValues with
    | .obj _ => (fun item => [(itemName, item)]) <$> multipleItem o root groups propertyValues itemName
    | _ => .ok []
  else
    (fun item => if item.1 = [] then [] else [(itemName, .obj item.1)]) <$>
      singleItem o root groups value itemName

/-- What is set for the items, in order. -/
def itemWrites : List String → Except JsError (List (String × JsValue))
  | [] => .ok []
  | itemName :: itemNames => do
    let ws ← itemWrite o root groups multipleValues value propertyValues itemName
    let rest ← itemWrites itemNames
    return ws ++ rest

end Items

section FilledItems

variable {o : CallOptions} {root : JsObject}
  {groups : List (String × List INodeProperties × LevelCall)} {multipleValues : Option Bool}
  {value propertyValues : JsValue}

theorem collectionValues_fixedCollectionItems (ho : o.returnDefaults = true)
    (itemNames : List String) (items : Items) :
    Items.collectionValues <$>
        fixedCollectionItems o root groups multipleValues value propertyValues itemNames items =
      (fun ws => EntryList.writeAll ws items.collectionValues) <$>
        itemWrites o root groups multipleValues value propertyValues itemNames := by
  induction itemNames generalizing items with
  | nil => rfl
  | cons itemName itemNames ih =>
    unfold fixedCollectionItems itemWrites itemWrite
    by_cases hmultiple : multipleValues = some true
    · rw [if_pos hmultiple, if_pos hmultiple]
      cases propertyValues with
      | obj props =>
        dsimp only
        cases multipleItem o root groups (.obj props) itemName with
        | error e => rfl
        | ok item =>
          show Items.collectionValues <$> fixedCollectionItems o root groups multipleValues value
            (.obj props) itemNames _ = _
          rw [ih]
          cases itemWrites o root groups multipleValues value (.obj props) itemNames <;> rfl
      | undefined | null | bool b | num q | str s | arr xs =>
        dsimp only
        rw [ih]
        cases itemWrites o root groups multipleValues value _ itemNames <;> rfl
    · rw [if_neg hmultiple, if_neg hmultiple]
      cases singleItem o root groups value itemName with
      | error e => rfl
      | ok item =>
        obtain ⟨tempNodeParameters, hadVisibleFields⟩ := item
        show Items.collectionValues <$> fixedCollectionItems o root groups multipleValues value
          propertyValues itemNames _ = _
        rw [ih]
        have hkept : (tempNodeParameters ≠ [] ∨ (o.returnDefaults = false ∧
            hadVisibleFields = true ∧ propertyValues.truthy = true ∧
            propertyValues.prop itemName ≠ .undefined)) ↔ tempNodeParameters ≠ [] := by
          simp [ho]
        simp only [hkept, ne_eq, ite_not]
        cases itemWrites o root groups multipleValues value propertyValues itemNames with
        | error e => rfl
        | ok rest =>
          split_ifs with hempty
          · rw [hempty]
            rfl
          · show _ = Except.ok (EntryList.writeAll ((if tempNodeParameters = [] then [] else _) ++ rest)
              items.collectionValues)
            rw [if_neg hempty]
            rfl

theorem fill_fixedCollection_eq_ok_iff (ho : o.FillsDefaults) {check : JsObject}
    {info : PropertyInfo} {options : List (String × List INodeProperties)} {u : JsValue} :
    fill o check (.fixedCollection info multipleValues options, .groups groups) value =
        .ok (some u) ↔
      ∃ ws, itemWrites o (levelRoot o check) groups multipleValues value
        (if value = .undefined then info.default else value)
        (if value = .undefined then info.default else value).keys = .ok ws ∧
        u = .obj (EntryList.writeAll ws []) := by
  have hitems : Items.collectionValues <$> fixedCollectionItems o (levelRoot o check) groups
        multipleValues value (if value = .undefined then info.default else value)
        (if value = .undefined then info.default else value).keys {} =
      (fun ws => EntryList.writeAll ws []) <$> itemWrites o (levelRoot o check) groups
        multipleValues value (if value = .undefined then info.default else value)
        (if value = .undefined then info.default else value).keys :=
    collectionValues_fixedCollectionItems ho.returnDefaults _ {}
  unfold fill
  dsimp only
  constructor
  · intro h
    obtain ⟨items, hok, h⟩ := Except.bind_eq_ok_iff.1 h
    rw [hok, eq_comm] at hitems
    obtain ⟨ws, hws, hvalues⟩ := Except.map_eq_ok_iff.1 hitems
    cases h
    exact ⟨ws, hws, congrArg JsValue.obj hvalues.symm⟩
  · rintro ⟨ws, hws, rfl⟩
    rw [hws] at hitems
    obtain ⟨items, hok, hvalues⟩ := Except.map_eq_ok_iff.1 hitems
    rw [hok]
    exact congrArg (fun o => Except.ok (some (JsValue.obj o))) hvalues

theorem itemWrite_of_mem_itemWrites {itemNames : List String} {ws : List (String × JsValue)}
    (h : itemWrites o root groups multipleValues value propertyValues itemNames = .ok ws)
    {e : String × JsValue} (he : e ∈ ws) : ∃ itemName ∈ itemNames, ∃ l,
      itemWrite o root groups multipleValues value propertyValues itemName = .ok l ∧ e ∈ l := by
  induction itemNames generalizing ws with
  | nil =>
    cases h
    cases he
  | cons itemName itemNames ih =>
    obtain ⟨l, hl, h⟩ := Except.bind_eq_ok_iff.1 h
    obtain ⟨rest, hrest, h⟩ := Except.bind_eq_ok_iff.1 h
    cases h
    rcases List.mem_append.1 he with he | he
    · exact ⟨itemName, List.mem_cons_self, l, hl, he⟩
    · obtain ⟨itemName', hmem, hwrite⟩ := ih hrest he
      exact ⟨itemName', List.mem_cons_of_mem itemName hmem, hwrite⟩

theorem itemWrites_map_fst {ws : List (String × JsValue)}
    (h : ∀ e ∈ ws, itemWrite o root groups multipleValues value propertyValues e.1 = .ok [e]) :
    itemWrites o root groups multipleValues value propertyValues (ws.map Prod.fst) = .ok ws := by
  induction ws with
  | nil => rfl
  | cons e ws ih =>
    rw [List.forall_mem_cons] at h
    rw [List.map_cons, itemWrites, h.1]
    show (itemWrites o root groups multipleValues value propertyValues (ws.map Prod.fst) >>= _) = _
    rw [ih h.2]
    rfl

end FilledItems

/-- The values of a fixed collection: those that are given or else the default. -/
def propertyValuesOf (info : PropertyInfo) (value : JsValue) : JsValue :=
  if value = .undefined then info.default else value

/-- The values of an item that the calls for its group are given. -/
def itemValues (multipleValues : Option Bool) (propertyValues : JsValue) (itemName : String) :
    List JsValue :=
  if multipleValues = some true then
    match elementsOf (propertyValues.prop itemName) with
    | .ok nodeValues => nodeValues
    | .error _ => []
  else [propertyValues.prop itemName]

/-- The values of an item that holds an array. -/
theorem multipleItem_eq_ok_iff {o : CallOptions} {root : JsObject}
    {groups : List (String × List INodeProperties × LevelCall)} {propertyValues : JsValue}
    {itemName : String} {item : JsValue} :
    multipleItem o root groups propertyValues itemName = .ok item ↔ ∃ nodeValues values,
      elementsOf (propertyValues.prop itemName) = .ok nodeValues ∧
      List.Forall₂ (fun nodeValue x => ∃ group, findGroup groups itemName = some group ∧
        group.2 nodeValue (o.lower root .fixedCollection) = .ok x) nodeValues values ∧
      item = .arr values := by
  unfold multipleItem
  simp only [Except.bind_eq_ok_iff, Except.pure_eq_ok_iff, Except.mapM_eq_ok_iff]
  constructor
  · rintro ⟨nodeValues, helements, values, hvalues, rfl⟩
    refine ⟨nodeValues, values, helements, hvalues.imp fun nodeValue x h => ?_, rfl⟩
    cases hgroup : findGroup groups itemName with
    | none =>
      rw [hgroup] at h
      cases h
    | some group =>
      rw [hgroup] at h
      exact ⟨group, rfl, h⟩
  · rintro ⟨nodeValues, values, helements, hvalues, rfl⟩
    refine ⟨nodeValues, helements, values, hvalues.imp fun nodeValue x h => ?_, rfl⟩
    obtain ⟨group, hgroup, hcall⟩ := h
    rw [hgroup]
    exact hcall

/-! ### Levels -/

/-- Whether the call sets a property. -/
def Shown (ctx : DisplayContext) (o : CallOptions) (nodeValues : JsValue) (check : JsObject)
    (p : INodeProperties) : Prop :=
  ¬ passesBy o nodeValues p.name ∧ displays ctx o check p = .ok true

section Level

variable {ctx : DisplayContext} {ps : List INodeProperties} {nodeValues : JsValue}
  {o : CallOptions} {check : JsObject}

/-- A call that fills in the defaults answers with an object. -/
theorem getNodeParameters_eq_obj (ho : o.FillsDefaults) {w : JsValue}
    (h : getNodeParameters ctx ps nodeValues o = .ok w) : ∃ props, w = .obj props := by
  obtain ⟨_, _, ws, -, -, -, rfl⟩ := (runLevel_eq_ok_iff ho _ w).1 h
  exact ⟨_, rfl⟩

/-- A displayed property is set to something. -/
theorem fill_ne_none (ho : o.FillsDefaults) (p : INodeProperties) (value : JsValue) :
    fill o check (p, nestedOf ctx p) value ≠ .ok none := by
  cases p with
  | simple info type => simp [fill]
  | collection info multipleValues options =>
    simp only [fill, nestedOf, collectionValue, ho.returnDefaults, if_true]
    split_ifs
    · simp
    · cases info.default <;> simp
    · simp
    · simp
  | fixedCollection info multipleValues options => simp [fill, nestedOf]

end Level

end N8n
