import N8n.NodeParameters.Items

/-!
# Filling in the defaults twice

The constructor of `Workflow` (`packages/workflow/src/workflow.ts`) fills the defaults in each time a
workflow is built, so also in parameters that it filled before.

* `filledSimple_again_iff`: the simple properties whose value does not change when it is filled again;
* `Repeatable`: the values of all levels decide the display of the properties as the values of a
  first call did, and what is filled in is complete;
* `getNodeParameters_again`: then the second call changes nothing.
-/

namespace N8n

/-! ### Simple properties -/

section Simple

variable {info : PropertyInfo} {type : SimpleType} {value : JsValue}

/-- Writing what is there changes nothing. -/
theorem write_patchFilter (filter : JsObject) :
    EntryList.write "combinator" (nullish (JsObject.get (patchFilter filter) "combinator")
      (.str "and")) (patchFilter filter) = patchFilter filter ∧
    EntryList.write "options" (.obj (spreadInto defaultFilterOptions
      (JsObject.get (patchFilter filter) "options"))) (patchFilter filter) = patchFilter filter := by
  have hne : "combinator" ≠ "options" := by decide
  constructor
  · have hlookup : EntryList.lookup "combinator" (patchFilter filter) =
        some (nullish (JsObject.get filter "combinator") (.str "and")) := by
      unfold patchFilter
      rw [EntryList.lookup_write, if_neg hne, EntryList.lookup_write, if_pos rfl]
    refine EntryList.write_of_lookup ?_
    unfold JsObject.get at hlookup ⊢
    rw [hlookup, Option.getD_some]
    unfold nullish
    split_ifs <;> simp_all
  · have hlookup : EntryList.lookup "options" (patchFilter filter) =
        some (.obj (EntryList.writeAll (ownProperties (JsObject.get filter "options"))
          defaultFilterOptions)) := by
      unfold patchFilter
      rw [EntryList.lookup_write, if_pos rfl]
      unfold JsObject.get
      rw [EntryList.lookup_write, if_neg hne.symm]
      rfl
    refine EntryList.write_of_lookup ?_
    unfold JsObject.get at hlookup ⊢
    rw [hlookup, Option.getD_some]
    exact congrArg (fun o => some (JsValue.obj o))
      (EntryList.writeAll_writeAll _ (by decide)).symm

/-- A filter that is filled in is complete. -/
@[simp] theorem patchFilter_patchFilter (filter : JsObject) :
    patchFilter (patchFilter filter) = patchFilter filter := by
  show EntryList.write "options" (.obj (spreadInto defaultFilterOptions (JsObject.get
    (EntryList.write "combinator" _ (patchFilter filter)) "options")))
    (EntryList.write "combinator" _ (patchFilter filter)) = _
  rw [(write_patchFilter filter).1, (write_patchFilter filter).2]

/-- The value that a simple property is set to can be filled in again: no expression prefix is left
where expressions are not taken, and a default that a filter is set to is complete. -/
structure StaysFilled (info : PropertyInfo) (type : SimpleType) (value : JsValue) : Prop where
  expression : info.noDataExpression = true → isExpression (filledSimple info type value) = false
  filter : type = .filter → value = .undefined ∨ value = .null →
    ∀ filter, info.default = .obj filter → patchFilter filter = filter

theorem defaultedValue_str (type : SimpleType) (default : JsValue) (text : String) :
    defaultedValue type default (.str text) = .str text := by
  cases type <;> simp [defaultedValue, nullish]

theorem unprefixed_eq_self_iff {info : PropertyInfo} {value : JsValue} :
    unprefixed info value = value ↔ (info.noDataExpression = true → isExpression value = false) := by
  cases value with
  | str text =>
    dsimp only [unprefixed, isExpression]
    cases hno : info.noDataExpression with
    | false => simp
    | true =>
      cases htext : text.toList with
      | nil => simp
      | cons c rest =>
        by_cases hc : c = '='
        · have hne : String.ofList rest ≠ text := by
            rw [← String.ofList_toList (s := text), htext]
            intro h
            exact List.cons_ne_self c rest (String.ofList_injective h).symm
          simp [hc, hne]
        · simp [hc]
  | undefined | null | bool b | num q | arr xs | obj props => simp [unprefixed, isExpression]

/-- A value with a prefix is a text, and is a text without it. -/
theorem unprefixed_eq_or (info : PropertyInfo) (value : JsValue) :
    (∃ text rest, value = .str text ∧ unprefixed info value = .str rest) ∨
      unprefixed info value = value := by
  cases value with
  | str text =>
    dsimp only [unprefixed]
    split_ifs
    · exact Or.inl ⟨text, _, rfl, rfl⟩
    · exact Or.inr rfl
  | undefined | null | bool b | num q | arr xs | obj props => exact Or.inr rfl

theorem nullish_again (value fallback : JsValue) :
    nullish (nullish value fallback) fallback = nullish value fallback := by
  unfold nullish
  split_ifs <;> simp_all

theorem defaultedValue_again (info : PropertyInfo) (value : JsValue) {type : SimpleType}
    (h : type ≠ .filter) :
    defaultedValue type info.default (defaultedValue type info.default value) =
      defaultedValue type info.default value := by
  cases type with
  | filter => exact absurd rfl h
  | boolean | number | options =>
    dsimp only [defaultedValue]
    split_ifs <;> simp_all
  | resourceLocator =>
    dsimp only [defaultedValue]
    split_ifs <;> simp_all [nullish_again]
  | button | color | dateTime | hidden | icon | json | callout | notice | multiOptions | string
  | credentialsSelect | curlImport | resourceMapper | assignmentCollection | credentials
  | workflowSelector => exact nullish_again _ _

theorem defaultedValue_filter_again (info : PropertyInfo) (value : JsValue) :
    defaultedValue .filter info.default (defaultedValue .filter info.default value) =
      defaultedValue .filter info.default value ↔
    (value = .undefined ∨ value = .null →
      ∀ filter, info.default = .obj filter → patchFilter filter = filter) := by
  have hnullish : value = .undefined ∨ value = .null →
      defaultedValue .filter info.default value = info.default := by
    rintro (rfl | rfl) <;> simp [defaultedValue, nullish]
  have hdefault : defaultedValue .filter info.default info.default = info.default ↔
      ∀ filter, info.default = .obj filter → patchFilter filter = filter := by
    cases info.default <;> simp [defaultedValue, nullish]
  by_cases h : value = .undefined ∨ value = .null
  · rw [hnullish h, hdefault, forall_prop_of_true h]
  · refine iff_of_true ?_ fun h' => absurd h' h
    cases value with
    | undefined | null => simp at h
    | obj filter => simp [defaultedValue]
    | bool b | num q | str s | arr xs => simp [defaultedValue, nullish]

/-- **Which simple properties keep the value that they are set to** when it is filled in again. -/
theorem filledSimple_again_iff : filledSimple info type (filledSimple info type value) =
    filledSimple info type value ↔ StaysFilled info type value := by
  have hiff : StaysFilled info type value ↔
      unprefixed info (filledSimple info type value) = filledSimple info type value ∧
      defaultedValue type info.default (defaultedValue type info.default value) =
        defaultedValue type info.default value := by
    rw [unprefixed_eq_self_iff]
    by_cases htype : type = .filter
    · subst htype
      rw [defaultedValue_filter_again]
      exact ⟨fun h => ⟨h.expression, h.filter rfl⟩, fun h => ⟨h.1, fun _ => h.2⟩⟩
    · rw [and_iff_left (defaultedValue_again info value htype)]
      exact ⟨fun h => h.expression, fun h => ⟨h, fun h' => absurd h' htype⟩⟩
  rw [hiff]
  unfold filledSimple
  rcases unprefixed_eq_or info (defaultedValue type info.default value) with
    ⟨text, rest, hvalue, hrest⟩ | hsame
  · -- a text is its own filled value
    rw [hrest, defaultedValue_str, hvalue, defaultedValue_str]
    simp
  · rw [hsame]
    refine ⟨fun h => ?_, fun ⟨h, h'⟩ => by rw [h', h]⟩
    refine ⟨hsame, ?_⟩
    rcases unprefixed_eq_or info (defaultedValue type info.default
      (defaultedValue type info.default value)) with ⟨text, rest, -, hrest⟩ | hsame'
    · rw [← h, hrest, defaultedValue_str]
    · rw [← hsame', h]

end Simple

/-! ### The items of a fixed collection -/

section Again

variable {o o' : CallOptions} {root root' : JsObject}
  {groups : List (String × List INodeProperties × LevelCall)} {multipleValues : Option Bool}
  {value propertyValues : JsValue} {itemName : String}

/-- What is set for an item is set again, when the calls for its group give their results again. -/
theorem itemWrite_again (hvalue : value ≠ .undefined → propertyValues = value)
    (hcalls : ∀ group, findGroup groups itemName = some group →
      ∀ item ∈ itemValues multipleValues propertyValues itemName, ∀ x,
        group.2 item (o.lower root .fixedCollection) = .ok x →
          (∃ props, x = .obj props) ∧ group.2 x (o'.lower root' .fixedCollection) = .ok x)
    {l : List (String × JsValue)} {e : String × JsValue}
    (h : itemWrite o root groups multipleValues value propertyValues itemName = .ok l)
    (he : e ∈ l) : e.1 = itemName ∧ ∀ object : JsObject, JsObject.get object itemName = e.2 →
      itemWrite o' root' groups multipleValues (.obj object) (.obj object) itemName = .ok [e] := by
  unfold itemWrite at h
  by_cases hmultiple : multipleValues = some true
  · rw [if_pos hmultiple] at h
    cases propertyValues with
    | obj props =>
      obtain ⟨item, hitem, rfl⟩ := Except.map_eq_ok_iff.1 h
      obtain rfl := List.mem_singleton.1 he
      obtain ⟨nodeValues, values, helements, hvalues, rfl⟩ := multipleItem_eq_ok_iff.1 hitem
      refine ⟨rfl, fun object hobject => ?_⟩
      have hfound : (JsValue.obj object).prop itemName = .arr values := hobject
      have hagain : multipleItem o' root' groups (.obj object) itemName = .ok (.arr values) := by
        refine multipleItem_eq_ok_iff.2 ⟨values, values, by rw [hfound]; rfl, ?_, rfl⟩
        rw [List.forall₂_same]
        intro x hx
        obtain ⟨nodeValue, hmem, group, hgroup, hcall⟩ := hvalues.exists_left x hx
        refine ⟨group, hgroup, (hcalls group hgroup nodeValue ?_ x hcall).2⟩
        unfold itemValues
        rw [if_pos hmultiple, helements]
        exact hmem
      unfold itemWrite
      rw [if_pos hmultiple]
      dsimp only
      rw [hagain]
      rfl
    | undefined | null | bool b | num q | str s | arr xs =>
      cases h
      cases he
  · rw [if_neg hmultiple] at h
    obtain ⟨item, hitem, rfl⟩ := Except.map_eq_ok_iff.1 h
    split_ifs at he with hempty
    · cases he
    obtain rfl := List.mem_singleton.1 he
    refine ⟨rfl, fun object hobject => ?_⟩
    unfold singleItem at hitem
    cases hgroup : findGroup groups itemName with
    | none =>
      rw [hgroup] at hitem
      cases hitem
      exact absurd rfl hempty
    | some group =>
      rw [hgroup] at hitem
      obtain ⟨itemNodeValues, hread, hitem⟩ := Except.bind_eq_ok_iff.1 hitem
      obtain ⟨tempValue, hcall, hitem⟩ := Except.bind_eq_ok_iff.1 hitem
      cases hitem
      have hpv : itemNodeValues = propertyValues.prop itemName := by
        unfold propOrThrow at hread
        split_ifs at hread with hnullish
        rw [hvalue fun hundefined => hnullish (Or.inl hundefined)]
        exact (Except.ok.inj hread).symm
      obtain ⟨⟨props, rfl⟩, hagain⟩ := hcalls group hgroup itemNodeValues
        (by unfold itemValues; rw [if_neg hmultiple, hpv]; exact List.mem_singleton_self _) _ hcall
      have hread' : propOrThrow (.obj object) itemName = .ok (.obj props) := by
        unfold propOrThrow
        rw [if_neg (by simp)]
        exact congrArg Except.ok hobject
      have hsingle : singleItem o' root' groups (.obj object) itemName = .ok (props,
          props ≠ [] || !hasNonDefaultValues group.1 (.obj props)) := by
        unfold singleItem
        rw [hgroup]
        show (propOrThrow (.obj object) itemName >>= _) = _
        rw [hread']
        show (group.2 (.obj props) (o'.lower root' .fixedCollection) >>= _) = _
        rw [hagain]
        rfl
      unfold itemWrite
      rw [if_neg hmultiple, hsingle]
      have hprops : props ≠ [] := hempty
      show Except.ok (if props = [] then [] else [(itemName, JsValue.obj props)]) = _
      rw [if_neg hprops]
      rfl

end Again

/-! ### Levels -/

/-- The call that the constructor of `Workflow` makes. -/
def withDefaults : CallOptions where
  returnDefaults := true
  returnNoneDisplayed := false

def INodeProperties.isSimple : INodeProperties → Bool
  | simple _ _ => true
  | collection _ _ _ | fixedCollection _ _ _ => false

/-- The values of a level can be filled in again: the display check that a second call makes decides
the properties as that of the first, what the first call sets is complete, and no other property that
is shown has the name of a collection that is shown. -/
structure SettledLevel (ctx : DisplayContext) (ps : List INodeProperties) (nodeValues : JsValue)
    (o o' : CallOptions) (check check' : JsObject) : Prop where
  parentType : o'.parentType = o.parentType
  truthy : nodeValues.truthy = true ∨ o.parentType = some .collection
  displays : ∀ p ∈ ps, ¬ passesBy o nodeValues p.name →
    displays ctx o' check' p = displays ctx o check p
  simple : ∀ info type, .simple info type ∈ ps → Shown ctx o nodeValues check (.simple info type) →
    StaysFilled info type (nodeValues.prop info.name) ∧
    (o.parentType = some .collection →
      filledSimple info type (nodeValues.prop info.name) ≠ .undefined)
  default : ∀ info multipleValues options, .collection info multipleValues options ∈ ps →
    Shown ctx o nodeValues check (.collection info multipleValues options) →
    multipleValues ≠ some true → nodeValues.prop info.name = .undefined →
    info.default = .undefined ∨ getNodeParameters ctx options info.default
      (o'.lower (levelRoot o' check') .collection) = .ok info.default
  shared : ∀ p ∈ ps, ∀ q ∈ ps, Shown ctx o nodeValues check p → Shown ctx o nodeValues check q →
    q.name = p.name → p.isSimple = false → q = p

/-- Levels that can be filled in again, down to the innermost. -/
inductive Repeatable (ctx : DisplayContext) :
    List INodeProperties → JsValue → CallOptions → CallOptions → Prop
  | level {ps : List INodeProperties} {nodeValues : JsValue} {o o' : CallOptions} {w : JsValue}
      {check check' : JsObject} (hfirst : getNodeParameters ctx ps nodeValues o = .ok w)
      (hcheck : displayCheckValues ctx ps nodeValues o = .ok (.obj check))
      (hcheck' : displayCheckValues ctx ps w o' = .ok (.obj check'))
      (settled : SettledLevel ctx ps nodeValues o o' check check')
      (collections : ∀ info multipleValues options, .collection info multipleValues options ∈ ps →
        Shown ctx o nodeValues check (.collection info multipleValues options) →
        multipleValues ≠ some true → nodeValues.prop info.name ≠ .undefined →
        Repeatable ctx options (nodeValues.prop info.name)
          (o.lower (levelRoot o check) .collection) (o'.lower (levelRoot o' check') .collection))
      (items : ∀ info multipleValues options, .fixedCollection info multipleValues options ∈ ps →
        Shown ctx o nodeValues check (.fixedCollection info multipleValues options) →
        ∀ itemName values, EntryList.lookup itemName options = some values →
        ∀ item ∈ itemValues multipleValues (propertyValuesOf info (nodeValues.prop info.name))
          itemName,
        Repeatable ctx values item (o.lower (levelRoot o check) .fixedCollection)
          (o'.lower (levelRoot o' check') .fixedCollection)) :
      Repeatable ctx ps nodeValues o o'

section Level

variable {ctx : DisplayContext} {ps : List INodeProperties} {nodeValues : JsValue}
  {o o' : CallOptions} {check check' : JsObject}

/-- A call gives its result again. -/
def GivesAgain (ctx : DisplayContext) (ps : List INodeProperties) (nodeValues : JsValue)
    (o o' : CallOptions) : Prop :=
  ∀ x, getNodeParameters ctx ps nodeValues o = .ok x → getNodeParameters ctx ps x o' = .ok x

variable {info : PropertyInfo} {multipleValues : Option Bool} {value u : JsValue}
  {p : INodeProperties}

theorem fill_collection_again (ho : o.FillsDefaults) (ho' : o'.FillsDefaults)
    {options : List INodeProperties}
    (hdefault : multipleValues ≠ some true → value = .undefined →
      info.default = .undefined ∨ getNodeParameters ctx options info.default
        (o'.lower (levelRoot o' check') .collection) = .ok info.default)
    (hcall : multipleValues ≠ some true → value ≠ .undefined →
      GivesAgain ctx options value (o.lower (levelRoot o check) .collection)
        (o'.lower (levelRoot o' check') .collection))
    (h : fill o check (.collection info multipleValues options,
      nestedOf ctx (.collection info multipleValues options)) value = .ok (some u)) :
    fill o' check' (.collection info multipleValues options,
      nestedOf ctx (.collection info multipleValues options)) u = .ok (some u) := by
  unfold nestedOf fill collectionValue at h ⊢
  dsimp only at h ⊢
  simp only [ho.returnDefaults, reduceIte] at h
  simp only [ho'.returnDefaults, reduceIte]
  by_cases hmultiple : multipleValues = some true
  · rw [if_pos hmultiple] at h ⊢
    have hu : u ≠ .undefined := by
      split_ifs at h with hvalue
      · cases h
        exact hvalue
      · cases hinfo : info.default with
        | arr xs => rw [hinfo] at h; cases h; simp
        | undefined | null | bool b | num q | str s | obj props =>
          rw [hinfo] at h
          cases h
          simp
    rw [if_pos hu]
  · rw [if_neg hmultiple] at h ⊢
    split_ifs at h with hvalue
    · obtain ⟨x, hx, hxu⟩ := Except.map_eq_ok_iff.1 h
      cases hxu
      obtain ⟨props, rfl⟩ := getNodeParameters_eq_obj (ho.lower _ _) hx
      rw [if_pos (by simp)]
      exact Except.map_eq_ok_iff.2 ⟨_, hcall hmultiple hvalue _ hx, rfl⟩
    · cases h
      split_ifs with hu
      · rcases hdefault hmultiple (not_not.1 hvalue) with hundefined | hcall
        · exact absurd hundefined hu
        · exact Except.map_eq_ok_iff.2 ⟨_, hcall, rfl⟩
      · rfl

theorem fill_fixedCollection_again (ho : o.FillsDefaults) (ho' : o'.FillsDefaults)
    {options : List (String × List INodeProperties)}
    (hcalls : ∀ itemName values, EntryList.lookup itemName options = some values →
      ∀ item ∈ itemValues multipleValues (propertyValuesOf info value) itemName,
        GivesAgain ctx values item (o.lower (levelRoot o check) .fixedCollection)
          (o'.lower (levelRoot o' check') .fixedCollection)) (h : fill o check
    (.fixedCollection info multipleValues options,
      nestedOf ctx (.fixedCollection info multipleValues options)) value = .ok (some u)) :
    fill o' check' (.fixedCollection info multipleValues options,
      nestedOf ctx (.fixedCollection info multipleValues options)) u = .ok (some u) := by
  unfold nestedOf at h ⊢
  obtain ⟨ws, hws, rfl⟩ := (fill_fixedCollection_eq_ok_iff ho).1 h
  have hnodup : ((EntryList.writeAll ws []).map Prod.fst).Nodup :=
    EntryList.nodup_writeAll ws (o := []) List.nodup_nil
  refine (fill_fixedCollection_eq_ok_iff ho').2
    ⟨EntryList.writeAll ws [], ?_, by rw [EntryList.writeAll_self hnodup]⟩
  rw [if_neg (by simp)]
  refine itemWrites_map_fst fun e he => ?_
  have hlookup : EntryList.lookup e.1 (EntryList.writeAll ws []) = some e.2 :=
    (EntryList.mem_iff_lookup hnodup _ _).1 he
  have hmem : e ∈ ws := (EntryList.mem_of_lookup_writeAll hlookup).resolve_right
    fun hnil => by cases hnil
  obtain ⟨itemName, -, l, hl, hel⟩ := itemWrite_of_mem_itemWrites hws hmem
  have hgroups : ∀ group, findGroup (groupsOf ctx options) itemName = some group →
      ∀ item ∈ itemValues multipleValues (propertyValuesOf info value) itemName, ∀ x,
        group.2 item (o.lower (levelRoot o check) .fixedCollection) = .ok x →
          (∃ props, x = .obj props) ∧
          group.2 x (o'.lower (levelRoot o' check') .fixedCollection) = .ok x := by
    intro group hgroup item hitem x hx
    rw [findGroup_groupsOf] at hgroup
    obtain ⟨values, hvalues, rfl⟩ := Option.map_eq_some_iff.1 hgroup
    exact ⟨getNodeParameters_eq_obj (ho.lower _ _) hx, hcalls _ _ hvalues _ hitem x hx⟩
  obtain ⟨rfl, hagain⟩ := itemWrite_again (fun hvalue => if_neg hvalue) hgroups hl hel
  exact hagain _ (by unfold JsObject.get; rw [hlookup]; rfl)

/-- The calls for the lower levels of the properties that are shown give their results again. -/
def LowerAgain (ctx : DisplayContext) (ps : List INodeProperties) (nodeValues : JsValue)
    (o o' : CallOptions) (check check' : JsObject) : Prop :=
  (∀ info multipleValues options, .collection info multipleValues options ∈ ps →
    Shown ctx o nodeValues check (.collection info multipleValues options) →
    multipleValues ≠ some true → nodeValues.prop info.name ≠ .undefined →
    GivesAgain ctx options (nodeValues.prop info.name)
      (o.lower (levelRoot o check) .collection) (o'.lower (levelRoot o' check') .collection)) ∧
  (∀ info multipleValues options, .fixedCollection info multipleValues options ∈ ps →
    Shown ctx o nodeValues check (.fixedCollection info multipleValues options) →
    ∀ itemName values, EntryList.lookup itemName options = some values →
    ∀ item ∈ itemValues multipleValues (propertyValuesOf info (nodeValues.prop info.name)) itemName,
      GivesAgain ctx values item (o.lower (levelRoot o check) .fixedCollection)
        (o'.lower (levelRoot o' check') .fixedCollection))

/-- What a property is set to, it is set to again. -/
theorem SettledLevel.fill_again (h : SettledLevel ctx ps nodeValues o o' check check')
    (ho : o.FillsDefaults) (ho' : o'.FillsDefaults)
    (hlower : LowerAgain ctx ps nodeValues o o' check check') (hp : p ∈ ps)
    (hshown : Shown ctx o nodeValues check p)
    (hu : fill o check (p, nestedOf ctx p) (nodeValues.prop p.name) = .ok (some u)) :
    fill o' check' (p, nestedOf ctx p) u = .ok (some u) := by
  cases p with
  | simple info type =>
    cases hu
    exact congrArg (fun v => Except.ok (some v))
      (filledSimple_again_iff.2 (h.simple info type hp hshown).1)
  | collection info multipleValues options =>
    exact fill_collection_again ho ho' (h.default _ _ _ hp hshown) (hlower.1 _ _ _ hp hshown) hu
  | fixedCollection info multipleValues options =>
    exact fill_fixedCollection_again ho ho' (hlower.2 _ _ _ hp hshown) hu

/-- In a collection what is set is there. -/
theorem SettledLevel.ne_undefined (h : SettledLevel ctx ps nodeValues o o' check check')
    (ho : o.FillsDefaults) (hparent : o.parentType = some .collection) (hp : p ∈ ps)
    (hshown : Shown ctx o nodeValues check p)
    (hu : fill o check (p, nestedOf ctx p) (nodeValues.prop p.name) = .ok (some u)) :
    u ≠ .undefined := by
  cases p with
  | simple info type =>
    cases hu
    exact (h.simple info type hp hshown).2 hparent
  | collection info multipleValues options =>
    have hvalue : nodeValues.prop info.name ≠ .undefined := fun hundefined =>
      hshown.1 (Or.inr ⟨hundefined, Or.inr hparent⟩)
    have hfill : collectionValue o multipleValues info.default (nodeValues.prop info.name)
      (levelRoot o check) (getNodeParameters ctx options) = .ok (some u) := hu
    unfold collectionValue at hfill
    rw [if_pos hvalue, if_pos hvalue] at hfill
    split_ifs at hfill
    · cases hfill
      exact hvalue
    · obtain ⟨x, hx, hxu⟩ := Except.map_eq_ok_iff.1 hfill
      cases hxu
      obtain ⟨props, rfl⟩ := getNodeParameters_eq_obj (ho.lower _ _) hx
      simp
  | fixedCollection info multipleValues options =>
    obtain ⟨ws, -, rfl⟩ := (fill_fixedCollection_eq_ok_iff ho).1 hu
    simp

section Writes

variable {ws : List (String × JsValue)}

/-- What is set for a level, by the properties that set it. -/
def SetBy (ctx : DisplayContext) (ps : List INodeProperties) (nodeValues : JsValue)
    (o : CallOptions) (check : JsObject) (ws : List (String × JsValue)) : Prop :=
  ∀ e ∈ ws, ∃ p ∈ ps, p.name = e.1 ∧ Shown ctx o nodeValues check p ∧
    fill o check (p, nestedOf ctx p) (nodeValues.prop p.name) = .ok (some e.2)

theorem setBy_fillsOf {order : List ℕ}
    (h : fillsOf ctx o nodeValues check (levelOf ctx ps) order = .ok ws) :
    SetBy ctx ps nodeValues o check ws := by
  intro e he
  obtain ⟨p, hp, hname, hpass, hdisplayed, hfill⟩ := exists_of_mem_fillsOf h (v := e.2) he
  obtain ⟨hmem, hnested⟩ := mem_levelOf hp
  refine ⟨p.1, hmem, hname, ⟨?_, hdisplayed⟩, ?_⟩
  · rw [hname]
    exact hpass
  · rw [← hnested, hname]
    exact hfill

/-- A property that was passed by is not set, so it is passed by again. -/
theorem SettledLevel.passesBy_again (h : SettledLevel ctx ps nodeValues o o' check check')
    (ho : o.FillsDefaults) (hset : SetBy ctx ps nodeValues o check ws) {name : String}
    (hpass : passesBy o nodeValues name) : passesBy o' (.obj (EntryList.writeAll ws [])) name := by
  have hparent : o.parentType = some .collection := by
    rcases hpass with hfalsy | ⟨-, hdefaults | hparent⟩
    · exact h.truthy.resolve_left (by simp [hfalsy])
    · exact absurd (hdefaults.symm.trans ho.returnDefaults) (by simp)
    · exact hparent
  refine Or.inr ⟨?_, Or.inr (h.parentType.trans hparent)⟩
  show (EntryList.lookup name (EntryList.writeAll ws [])).getD .undefined = .undefined
  cases hlookup : EntryList.lookup name (EntryList.writeAll ws []) with
  | none => rfl
  | some a =>
    have hmem : (name, a) ∈ ws := (EntryList.mem_of_lookup_writeAll hlookup).resolve_right nofun
    obtain ⟨q, -, hname, hshown, -⟩ := hset _ hmem
    exact absurd (hname ▸ hpass) hshown.1

/-- A property that is shown is set to something again, and to the same if it was the last to set
its name. -/
theorem SettledLevel.exists_fill_again (h : SettledLevel ctx ps nodeValues o o' check check')
    (ho : o.FillsDefaults) (ho' : o'.FillsDefaults)
    (hlower : LowerAgain ctx ps nodeValues o o' check check') {p q : INodeProperties} (hp : p ∈ ps)
    (hq : q ∈ ps) (hshown : Shown ctx o nodeValues check p)
    (hshown' : Shown ctx o nodeValues check q) (hname : q.name = p.name) {u a : JsValue}
    (hu : fill o check (p, nestedOf ctx p) (nodeValues.prop p.name) = .ok (some u))
    (ha : fill o check (q, nestedOf ctx q) (nodeValues.prop q.name) = .ok (some a)) :
    ∃ u', fill o' check' (p, nestedOf ctx p) a = .ok (some u') ∧ (a = u → u' = u) := by
  have hagain := h.fill_again ho ho' hlower hp hshown hu
  cases hsimple : p.isSimple with
  | false =>
    obtain rfl := h.shared _ hp _ hq hshown hshown' hname hsimple
    obtain rfl : u = a := Option.some.inj (Except.ok.inj (hu.symm.trans ha))
    exact ⟨u, hagain, fun _ => rfl⟩
  | true =>
    cases p with
    | simple info type =>
      refine ⟨filledSimple info type a, rfl, ?_⟩
      rintro rfl
      exact Option.some.inj (Except.ok.inj hagain)
    | collection info multipleValues options => cases hsimple
    | fixedCollection info multipleValues options => cases hsimple

/-- What the visit of a property sets, its visit sets again where it is found at last. -/
theorem SettledLevel.fillStep_again (h : SettledLevel ctx ps nodeValues o o' check check')
    (ho : o.FillsDefaults) (ho' : o'.FillsDefaults)
    (hlower : LowerAgain ctx ps nodeValues o o' check check')
    (hset : SetBy ctx ps nodeValues o check ws) {p : INodeProperties} (hp : p ∈ ps)
    {l : List (String × JsValue)} (hl : ∀ e ∈ l, e ∈ ws)
    (hstep : fillStep ctx o nodeValues check (p, nestedOf ctx p) = .ok l) :
    ∃ l', fillStep ctx o' (.obj (EntryList.writeAll ws [])) check' (p, nestedOf ctx p) = .ok l' ∧
      List.Forall₂ (fun e e' => e.1 = e'.1 ∧
        (EntryList.lookup e.1 (EntryList.writeAll ws []) = some e.2 → e'.2 = e.2)) l l' := by
  rcases fillStep_eq_ok_iff.1 hstep with ⟨hpass, rfl⟩ | ⟨hpass, hhidden, rfl⟩ |
    ⟨hpass, hdisplayed, r, hr, rfl⟩
  · exact ⟨[], fillStep_eq_ok_iff.2 (Or.inl ⟨h.passesBy_again ho hset hpass, rfl⟩), .nil⟩
  · by_cases hpass' : passesBy o' (.obj (EntryList.writeAll ws [])) p.name
    · exact ⟨[], fillStep_eq_ok_iff.2 (Or.inl ⟨hpass', rfl⟩), .nil⟩
    · exact ⟨[], fillStep_eq_ok_iff.2 (Or.inr (Or.inl
        ⟨hpass', (h.displays p hp hpass).trans hhidden, rfl⟩)), .nil⟩
  · have hshown : Shown ctx o nodeValues check p := ⟨hpass, hdisplayed⟩
    cases r with
    | none => exact absurd hr (fill_ne_none ho _ _)
    | some u =>
      obtain ⟨a, hlookup, ha⟩ := EntryList.exists_lookup_writeAll
        (List.mem_map_of_mem (f := Prod.fst) (hl (p.name, u) (List.mem_singleton_self _))) []
      obtain ⟨q, hq, hname, hshown', hfill⟩ := hset _ ha
      have hprop : (JsValue.obj (EntryList.writeAll ws [])).prop p.name = a := by
        show (EntryList.lookup p.name (EntryList.writeAll ws [])).getD .undefined = a
        rw [hlookup]
        rfl
      have hpass' : ¬ passesBy o' (.obj (EntryList.writeAll ws [])) p.name := by
        rintro (hfalsy | ⟨hundefined, hdefaults | hparent⟩)
        · cases hfalsy
        · exact absurd (hdefaults.symm.trans ho'.returnDefaults) (by simp)
        · exact h.ne_undefined ho (h.parentType.symm.trans hparent) hq hshown' hfill
            (hprop.symm.trans hundefined)
      obtain ⟨u', hu', hsame⟩ :=
        h.exists_fill_again ho ho' hlower hp hq hshown hshown' hname hr hfill
      refine ⟨[(p.name, u')], fillStep_eq_ok_iff.2 (Or.inr (Or.inr
        ⟨hpass', (h.displays _ hp hpass).trans hdisplayed, some u', ?_, rfl⟩)), ?_⟩
      · rw [← hu', ← hprop]
      · refine .cons ⟨rfl, fun hlast => hsame ?_⟩ .nil
        exact Option.some.inj (hlookup.symm.trans hlast)

end Writes

/-- **A level that is settled is filled in again with what it was filled in with.** -/
theorem SettledLevel.givesAgain (h : SettledLevel ctx ps nodeValues o o' check check')
    (ho : o.FillsDefaults) (ho' : o'.FillsDefaults)
    (hlower : LowerAgain ctx ps nodeValues o o' check check') {w : JsValue}
    (hcheck : displayCheckValues ctx ps nodeValues o = .ok (.obj check))
    (hcheck' : displayCheckValues ctx ps w o' = .ok (.obj check'))
    (hw : getNodeParameters ctx ps nodeValues o = .ok w) :
    getNodeParameters ctx ps w o' = .ok w := by
  unfold getNodeParameters at hw ⊢
  rw [runLevel_eq_ok_iff ho, map_fst_levelOf] at hw
  rw [runLevel_eq_ok_iff ho', map_fst_levelOf]
  obtain ⟨c, order, ws, hc, horder, hws, rfl⟩ := hw
  obtain rfl : check = c := JsValue.obj.inj (Except.ok.inj (hcheck.symm.trans hc))
  have hset := setBy_fillsOf hws
  have hsteps : ∀ p ∈ levelOf ctx ps, ∀ l, (∀ e ∈ l, e ∈ ws) →
      fillStep ctx o nodeValues check p = .ok l →
      ∃ l', fillStep ctx o' (.obj (EntryList.writeAll ws [])) check' p = .ok l' ∧
        List.Forall₂ (fun e e' => e.1 = e'.1 ∧
          (EntryList.lookup e.1 (EntryList.writeAll ws []) = some e.2 → e'.2 = e.2)) l l' := by
    rintro ⟨p, nested⟩ hp l hl hstep
    obtain ⟨hmem, hnested⟩ := mem_levelOf hp
    obtain rfl : nested = nestedOf ctx p := hnested
    exact h.fillStep_again ho ho' hlower hset hmem hl hstep
  obtain ⟨ws', hws', hrel⟩ := fillsOf_forall₂ hsteps (fun e he => he) hws
  exact ⟨check', order, ws', hcheck', horder, hws',
    congrArg JsValue.obj (EntryList.writeAll_congr hrel).symm⟩

/-- **Levels that can be filled in again keep what they were filled in with.** -/
theorem Repeatable.givesAgain (h : Repeatable ctx ps nodeValues o o') (ho : o.FillsDefaults)
    (ho' : o'.FillsDefaults) : GivesAgain ctx ps nodeValues o o' := by
  induction h with
  | level hfirst hcheck hcheck' settled _ _ hcollections hitems =>
    intro w hw
    obtain rfl := Except.ok.inj (hfirst.symm.trans hw)
    refine settled.givesAgain ho ho' ⟨?_, ?_⟩ hcheck hcheck' hw
    · intro info multipleValues options hp hshown hmultiple hvalue
      exact hcollections info multipleValues options hp hshown hmultiple hvalue (ho.lower _ _)
        (ho'.lower _ _)
    · intro info multipleValues options hp hshown itemName values hvalues item hitem
      exact hitems info multipleValues options hp hshown itemName values hvalues item hitem
        (ho.lower _ _) (ho'.lower _ _)

end Level

/-! ### Some nodes -/

/-- A node without a version, whose rules name parameters and no paths. -/
def plainContext : DisplayContext where
  typeVersion := none
  nodeTypeName := none
  features := none
  get := JsValue.prop
  test := fun _ _ => .ok false
  compare := fun _ _ => none

/-- Shown when a parameter has a value. -/
def shownFor (name value : String) : Option DisplayOptions :=
  some { showRules := some [(name, [.value (.str value)])] }

/-- A field that is shown for a format, which is shown for a mode. -/
def fieldProperties : List INodeProperties :=
  [.simple { name := "mode", default := .str "auto" } .options,
    .simple {
      name := "format"
      default := .str "text"
      displayOptions := shownFor "mode" "manual" } .options,
    .simple {
      name := "field"
      default := .str "id"
      displayOptions := shownFor "format" "json" } .string,
    .collection { name := "options", default := .obj [] } none
      [.simple { name := "limit", default := .num 50 } .number]]

/-- The parameters of such a node that is set by hand. -/
def manualParameters : JsValue :=
  .obj [("mode", .str "manual"), ("options", .obj [("limit", .num 10)])]

end N8n
