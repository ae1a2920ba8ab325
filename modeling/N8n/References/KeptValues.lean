import N8n.References.CanonicalMappings
import Mathlib.Data.List.Dedup

/-!
# The values that an extraction keeps

* `NamesDistinct`, `KeepsValues`: different expressions have different variables, and putting the
  expressions back in the place of the variables gives the parameters that were rewritten;
* `namesDistinct_iff`: the names are different exactly when no two used variables differ in their
  prefix only;
* `Undisturbed`: no replacement touches what an earlier one inserted;
* `extractReferences_keepsValues`: then the values are kept.
-/

namespace N8n

/-! ### Names -/

/-- Different expressions have variables with different names. -/
def NamesDistinct (used : List ExpressionMapping) : Prop :=
  ∀ m ∈ used, ∀ m' ∈ used, m.originalExpression ≠ m'.originalExpression →
    m.replacementName ≠ m'.replacementName

/-- Variables with the same name have the same prefix. -/
def PrefixesAgree (used : List ExpressionMapping) : Prop :=
  ∀ m ∈ used, ∀ m' ∈ used, m.replacementName = m'.replacementName →
    m.replacementPrefix = m'.replacementPrefix

variable {used : List ExpressionMapping} {s : List Char}

variable {r : ResolvedDuplicates} {mapping : List ExpressionMapping}
  {variableMap : Dict (List Char) (List Char)}

/-- **The names are distinct exactly when no two variables differ in their prefix only.** -/
theorem namesDistinct_iff (hr : r.Sound)
    (hused : ∀ m ∈ used, r.Canonical m) : NamesDistinct used ↔ PrefixesAgree used := by
  constructor
  · intro h m hm m' hm' hname
    by_cases ho : m.originalExpression = m'.originalExpression
    · have heq := hused m hm
      unfold ResolvedDuplicates.Canonical at heq
      rw [ho, hused m' hm'] at heq
      rw [Option.some.inj heq]
    · exact absurd hname (h m hm m' hm' ho)
  · intro h m hm m' hm' ho hname
    have hkey : m.key = m'.key := by
      unfold ExpressionMapping.key
      rw [hname, h m hm m' hm' hname]
    exact ho (congrArg _ (hr.eq_of_key_eq (hused m hm) (hused m' hm') hkey))

/-- The map from names to expressions. -/
def variableMapOf (used : List ExpressionMapping) : Dict (List Char) (List Char) :=
  Dict.ofList (used.map fun m => (m.replacementName, m.originalExpression))

/-- Under distinct names every used variable stands for its expression. -/
theorem NamesDistinct.get?_variableMapOf (h : NamesDistinct used) {m : ExpressionMapping}
    (hm : m ∈ used) : (variableMapOf used).get? m.replacementName = some m.originalExpression := by
  have hkey : m.replacementName ∈ (variableMapOf used).keys := by
    rw [variableMapOf, Dict.mem_keys_ofList, List.map_map]
    exact List.mem_map.2 ⟨m, hm, rfl⟩
  rw [Dict.mem_keys_iff, Option.isSome_iff_exists] at hkey
  obtain ⟨o, ho⟩ := hkey
  obtain ⟨m', hm', heq⟩ := List.mem_map.1 (Dict.mem_of_get?_ofList ho)
  obtain ⟨hname, hexpr⟩ := Prod.mk.inj heq
  rw [ho, ← hexpr]
  by_contra hne
  exact h m' hm' m hm (fun he => hne (congrArg some he)) hname

/-- Two functions that tell the same elements apart take equally many values. -/
theorem length_dedup_map_eq {α β γ : Type*} [DecidableEq β] [DecidableEq γ] {f : α → β} {g : α → γ}
    {l : List α} (h : ∀ a ∈ l, ∀ b ∈ l, f a = f b ↔ g a = g b) :
    (l.map f).dedup.length = (l.map g).dedup.length := by
  induction l with
  | nil => rfl
  | cons a l ih =>
    have hl := ih fun x hx y hy => h x (List.mem_cons_of_mem a hx) y (List.mem_cons_of_mem a hy)
    have hmem : f a ∈ l.map f ↔ g a ∈ l.map g := by
      rw [List.mem_map, List.mem_map]
      constructor
      · rintro ⟨b, hb, he⟩
        exact ⟨b, hb, (h b (List.mem_cons_of_mem a hb) a List.mem_cons_self).1 he⟩
      · rintro ⟨b, hb, he⟩
        exact ⟨b, hb, (h b (List.mem_cons_of_mem a hb) a List.mem_cons_self).2 he⟩
    rw [List.map_cons, List.map_cons]
    by_cases hf : f a ∈ l.map f
    · rw [List.dedup_cons_of_mem hf, List.dedup_cons_of_mem (hmem.1 hf), hl]
    · rw [List.dedup_cons_of_notMem hf, List.dedup_cons_of_notMem (mt hmem.2 hf),
        List.length_cons, List.length_cons, hl]

theorem length_variableMapOf (used : List ExpressionMapping) :
    (variableMapOf used).keys.length =
      (used.map fun m => m.replacementName).dedup.length := by
  refine List.Perm.length_eq ((List.perm_ext_iff_of_nodup (Dict.keys_nodup _)
    (List.nodup_dedup _)).2 fun name => ?_)
  rw [variableMapOf, Dict.mem_keys_ofList, List.mem_dedup, List.map_map]
  rfl

/-- The map has one entry for each expression exactly when the names are distinct. -/
theorem length_variableMapOf_of_distinct (hused : ∀ m ∈ used, r.Canonical m)
    (h : NamesDistinct used) :
    (variableMapOf used).keys.length = (used.map (·.originalExpression)).dedup.length := by
  rw [length_variableMapOf]
  refine length_dedup_map_eq fun m hm m' hm' => ⟨fun hname => ?_, fun ho => ?_⟩
  · by_contra ho
    exact h m hm m' hm' ho hname
  · have heq := hused m hm
    unfold ResolvedDuplicates.Canonical at heq
    rw [ho, hused m' hm'] at heq
    rw [Option.some.inj heq]

/-! ### Texts -/

/-- A replacement string without special patterns. -/
def PlainReplacement (s : List Char) : Prop :=
  ∀ c ∈ ['$', '&', '\x60', '\''], ¬ ['$', c] <:+: s

theorem PlainReplacement.of_all
    (h : (['$', '&', '\x60', '\''].all fun c => !decide (['$', c] <:+: s)) = true) :
    PlainReplacement s :=
  fun c hc => by simpa using List.all_eq_true.1 h c hc

theorem PlainReplacement.of_cons {c : Char} (h : PlainReplacement (c :: s)) : PlainReplacement s :=
  fun d hd hs => h d hd (hs.trans (List.infix_cons List.infix_rfl))

theorem PlainReplacement.getSubstitution_eq {matched before after : List Char}
    (h : PlainReplacement s) : getSubstitution matched before after s = s := by
  induction s using getSubstitution.induct with
  | case1 s _ => exact absurd ⟨[], s, rfl⟩ (h '$' (by decide))
  | case2 s _ => exact absurd ⟨[], s, rfl⟩ (h '&' (by decide))
  | case3 s _ => exact absurd ⟨[], s, rfl⟩ (h '\x60' (by decide))
  | case4 s _ => exact absurd ⟨[], s, rfl⟩ (h '\'' (by decide))
  | case5 c s _ _ _ _ ih => rw [getSubstitution, ih h.of_cons] <;> assumption
  | case6 => rfl

/-- A text in which some places are marked with the mapping whose variable stands there. -/
abbrev MarkedText := Marked Char ExpressionMapping

/-- The text with the variables. -/
def MarkedText.output (marked : MarkedText) : List Char := marked.text ExpressionMapping.key

/-- The text with the expressions. -/
def MarkedText.source (marked : MarkedText) : List Char :=
  marked.text ExpressionMapping.originalExpression

/-- The mappings, one after the other, find their expressions between the variables inserted before,
and insert their variables as they are; an expression that is its own variable may stand anywhere. -/
def Undisturbed : MarkedText → List ExpressionMapping → Prop
  | _, [] => True
  | marked, mapper :: mapping =>
    (includes mapper.originalExpression marked.output = true →
      PlainReplacement mapper.key ∧ (mapper.key = mapper.originalExpression ∨
        Marked.KeptOnly ExpressionMapping.key mapper.originalExpression marked)) ∧
    Undisturbed (Marked.mark mapper.originalExpression mapper marked) mapping

/-- Putting expressions of `variableMap` in the place of variables of `used` turns the text `output`
into the text `source`. -/
def RestoresTo (used : List ExpressionMapping) (variableMap : Dict (List Char) (List Char))
    (output source : List Char) : Prop :=
  ∃ marked : MarkedText, (∀ m, .inr m ∈ marked → m ∈ used) ∧ marked.output = output ∧
    marked.text (fun m => (variableMap.get? m.replacementName).getD []) = source

theorem RestoresTo.refl (used : List ExpressionMapping)
    (variableMap : Dict (List Char) (List Char)) (s : List Char) :
    RestoresTo used variableMap s s :=
  ⟨s.map .inl, by simp, Marked.text_map_inl s, Marked.text_map_inl s⟩

/-- One replacement is a marking. -/
theorem output_mark {mapper : ExpressionMapping} (hne : mapper.originalExpression ≠ [])
    {marked : MarkedText} (hplain : PlainReplacement mapper.key)
    (h : mapper.key = mapper.originalExpression ∨
      Marked.KeptOnly ExpressionMapping.key mapper.originalExpression marked) :
    MarkedText.output (Marked.mark mapper.originalExpression mapper marked) =
      replaceOriginal mapper marked.output := by
  have hreplace : replaceOriginal mapper marked.output =
      replaceAll mapper.originalExpression mapper.key marked.output := by
    unfold replaceOriginal replaceAll
    congr 1
    funext before after
    exact hplain.getSubstitution_eq
  rw [hreplace]
  rcases h with h | h
  · rw [h, replaceAll_self hne]
    exact Marked.text_mark_of_eq hne h marked
  · exact h.text_mark hne

/-- The loop of replacements is a marking of the text it starts from. -/
theorem exists_marked (hne : ∀ m ∈ mapping, m.originalExpression ≠ []) (marked : MarkedText)
    (hmarked : ∀ m, .inr m ∈ marked → m ∈ used)
    (hused : ∀ m ∈ (replaceOriginals mapping marked.output).2, m ∈ used)
    (h : Undisturbed marked mapping) :
    ∃ marked' : MarkedText, (∀ m, .inr m ∈ marked' → m ∈ used) ∧
      marked'.output = (replaceOriginals mapping marked.output).1 ∧
      marked'.source = marked.source := by
  induction mapping generalizing marked with
  | nil => exact ⟨marked, hmarked, rfl, rfl⟩
  | cons mapper mapping ih =>
    rw [List.forall_mem_cons] at hne
    obtain ⟨hmapper, hrest⟩ := h
    rw [replaceOriginals] at hused ⊢
    split_ifs at hused ⊢ with hinc
    · obtain ⟨hplain, hkept⟩ := hmapper hinc
      rw [List.forall_mem_cons] at hused
      rw [← output_mark hne.1 hplain hkept] at hused ⊢
      obtain ⟨marked', hin, hout, hsource⟩ := ih hne.2 _ (fun m hm => by
        rcases Marked.of_mem_mark hne.1 hm with hm | rfl
        · exact hmarked m hm
        · exact hused.1) hused.2 hrest
      exact ⟨marked', hin, hout, hsource.trans (Marked.text_mark_of_eq hne.1 rfl marked)⟩
    · rw [Marked.mark_of_none (Marked.split_eq_none hne.1 (Bool.not_eq_true _ ▸ hinc))] at hrest
      exact ih hne.2 marked hmarked hused hrest

/-- **What undisturbed replacements make of a text can be restored.** -/
theorem restoresTo_replaceOriginals
    (hvar : ∀ m ∈ used, variableMap.get? m.replacementName = some m.originalExpression)
    (hne : ∀ m ∈ mapping, m.originalExpression ≠ [])
    (hused : ∀ m ∈ (replaceOriginals mapping s).2, m ∈ used)
    (h : Undisturbed (s.map .inl) mapping) :
    RestoresTo used variableMap (replaceOriginals mapping s).1 s := by
  have hs : MarkedText.output (s.map .inl) = s := Marked.text_map_inl s
  obtain ⟨marked, hin, hout, hsource⟩ := exists_marked hne
    (s.map .inl) (by simp) (by rwa [hs]) h
  refine ⟨marked, hin, by rw [hout, hs], ?_⟩
  rw [Marked.text_congr (g := ExpressionMapping.originalExpression) fun m hm => by
    rw [hvar m (hin m hm), Option.getD_some]]
  exact hsource.trans (Marked.text_map_inl s)

/-! ### Parameters -/

section Rel

variable (R : List Char → List Char → Prop)

mutual

/-- Two values differ only in their strings, and these are related. -/
def JsValue.Rel : JsValue → JsValue → Prop
  | .str s, .str s' => R s.toList s'.toList
  | .arr xs, .arr ys => JsValue.RelElements xs ys
  | .obj props, .obj props' => JsValue.RelProperties props props'
  | v, v' => v = v'

def JsValue.RelElements : List JsValue → List JsValue → Prop
  | [], [] => True
  | x :: xs, y :: ys => JsValue.Rel x y ∧ JsValue.RelElements xs ys
  | _, _ => False

def JsValue.RelProperties : List (String × JsValue) → List (String × JsValue) → Prop
  | [], [] => True
  | (key, value) :: props, (key', value') :: props' =>
    key = key' ∧ JsValue.Rel value value' ∧ JsValue.RelProperties props props'
  | _, _ => False

end

end Rel

mutual

/-- The strings that a rewriting of a value meets, each with its mappings. -/
def rewrites : JsValue → ParameterMapping → List (List Char × List ExpressionMapping)
  | .str s, .list mapping => [(s.toList, mapping)]
  | .arr xs, .obj mapping => rewritesOfElements mapping 0 xs
  | .obj props, .obj mapping => rewritesOfProperties mapping props
  | _, _ => []

def rewritesOfElements (mapping : List (String × ParameterMapping)) (i : ℕ) :
    List JsValue → List (List Char × List ExpressionMapping)
  | [] => []
  | x :: xs => rewrites x (.at mapping (toString i)) ++ rewritesOfElements mapping (i + 1) xs

def rewritesOfProperties (mapping : List (String × ParameterMapping)) :
    List (String × JsValue) → List (List Char × List ExpressionMapping)
  | [] => []
  | (key, value) :: props => rewrites value (.at mapping key) ++ rewritesOfProperties mapping props

end

section

variable {R : List Char → List Char → Prop}

mutual

theorem rel_refl (hR : ∀ s, R s s) (v : JsValue) : JsValue.Rel R v v := by
  cases v with
  | str s => exact hR s.toList
  | arr xs => exact relElements_refl hR xs
  | obj props => exact relProperties_refl hR props
  | undefined | null | bool b | num q => simp [JsValue.Rel]

theorem relElements_refl (hR : ∀ s, R s s) (xs : List JsValue) : JsValue.RelElements R xs xs := by
  cases xs with
  | nil => trivial
  | cons x xs => exact ⟨rel_refl hR x, relElements_refl hR xs⟩

theorem relProperties_refl (hR : ∀ s, R s s) (props : List (String × JsValue)) :
    JsValue.RelProperties R props props := by
  cases props with
  | nil => trivial
  | cons p props => exact ⟨rfl, rel_refl hR p.2, relProperties_refl hR props⟩

end

variable {P : ExpressionMapping → Prop} {used : List ExpressionMapping}
  {C : List Char × List ExpressionMapping → Prop}

mutual

/-- A rewriting relates a value to what it was when it does so for its strings. -/
theorem rel_applyMapping (hR : ∀ s, R s s)
    (h : ∀ s mapping, (∀ m ∈ mapping, P m) → (∀ m ∈ (replaceOriginals mapping s).2, m ∈ used) →
      C (s, mapping) → R (replaceOriginals mapping s).1 s)
    (v : JsValue) (t : ParameterMapping) (ht : t.Forall P) (hC : ∀ e ∈ rewrites v t, C e)
    (hused : ∀ m ∈ (applyMapping v t).2, m ∈ used) : JsValue.Rel R (applyMapping v t).1 v := by
  cases v with
  | str s =>
    cases t with
    | list mapping =>
      have hs := h s.toList mapping ht hused (hC _ (by simp [rewrites]))
      rw [applyMapping, JsValue.Rel, String.toList_ofList]
      exact hs
    | undefined | obj props =>
      rw [applyMapping]
      · exact rel_refl hR _
      all_goals simp
  | arr xs =>
    cases t with
    | obj mapping =>
      rw [applyMapping] at hused ⊢
      rw [JsValue.Rel]
      exact rel_applyToElements hR h mapping ht 0 xs hC fun e he m hm =>
        hused m (List.mem_flatMap.2 ⟨e, he, hm⟩)
    | undefined | list mapping =>
      rw [applyMapping]
      · exact rel_refl hR _
      all_goals simp
  | obj props =>
    cases t with
    | obj mapping =>
      rw [applyMapping] at hused ⊢
      rw [JsValue.Rel]
      exact rel_applyToProperties hR h mapping ht props hC fun e he m hm =>
        hused m (List.mem_flatMap.2 ⟨e, (EntryList.enumerate_perm _).mem_iff.2 he, hm⟩)
    | undefined | list mapping =>
      rw [applyMapping]
      · exact rel_refl hR _
      all_goals simp
  | undefined | null | bool b | num q => cases t <;> simp [applyMapping, JsValue.Rel]

theorem rel_applyToElements (hR : ∀ s, R s s)
    (h : ∀ s mapping, (∀ m ∈ mapping, P m) → (∀ m ∈ (replaceOriginals mapping s).2, m ∈ used) →
      C (s, mapping) → R (replaceOriginals mapping s).1 s)
    (mapping : List (String × ParameterMapping)) (ht : ParameterMapping.ForallProps P mapping)
    (i : ℕ) (xs : List JsValue) (hC : ∀ e ∈ rewritesOfElements mapping i xs, C e)
    (hused : ∀ e ∈ applyToElements mapping i xs, ∀ m ∈ e.2, m ∈ used) :
    JsValue.RelElements R ((applyToElements mapping i xs).map Prod.fst) xs := by
  cases xs with
  | nil => trivial
  | cons x xs =>
    rw [applyToElements, List.forall_mem_cons] at hused
    rw [rewritesOfElements, List.forall_mem_append] at hC
    rw [applyToElements, List.map_cons, JsValue.RelElements]
    exact ⟨rel_applyMapping hR h x _ (ParameterMapping.forall_at ht _) hC.1 hused.1,
      rel_applyToElements hR h mapping ht (i + 1) xs hC.2 hused.2⟩

theorem rel_applyToProperties (hR : ∀ s, R s s)
    (h : ∀ s mapping, (∀ m ∈ mapping, P m) → (∀ m ∈ (replaceOriginals mapping s).2, m ∈ used) →
      C (s, mapping) → R (replaceOriginals mapping s).1 s)
    (mapping : List (String × ParameterMapping)) (ht : ParameterMapping.ForallProps P mapping)
    (props : List (String × JsValue)) (hC : ∀ e ∈ rewritesOfProperties mapping props, C e)
    (hused : ∀ e ∈ applyToProperties mapping props, ∀ m ∈ e.2.2, m ∈ used) :
    JsValue.RelProperties R ((applyToProperties mapping props).map fun e => (e.1, e.2.1)) props := by
  cases props with
  | nil => trivial
  | cons p props =>
    obtain ⟨key, value⟩ := p
    rw [applyToProperties, List.forall_mem_cons] at hused
    rw [rewritesOfProperties, List.forall_mem_append] at hC
    rw [applyToProperties, List.map_cons, JsValue.RelProperties]
    exact ⟨rfl, rel_applyMapping hR h value _ (ParameterMapping.forall_at ht _) hC.1 hused.1,
      rel_applyToProperties hR h mapping ht props hC.2 hused.2⟩

end

end

/-! ### The extraction -/

/-- Putting the expressions back in the parameters of `output` gives `node`. -/
def NodeRestoresTo (used : List ExpressionMapping) (variableMap : Dict (List Char) (List Char))
    (output node : INode) : Prop :=
  { output with parameters := node.parameters } = node ∧
    JsValue.RelProperties (RestoresTo used variableMap) output.parameters node.parameters

/-- The values that the extraction `r`, which uses the mappings `used`, keeps. -/
structure KeepsValues (subGraph : List INode) (used : List ExpressionMapping)
    (r : ExtractedReferences) : Prop where
  distinct : NamesDistinct used
  entries : r.variableMap.keys.length = (used.map (·.originalExpression)).dedup.length
  restored : List.Forall₂ (NodeRestoresTo used r.variableMap) r.nodes subGraph

/-- The mappings of a plan leave the variables alone that were inserted before. -/
def ExtractionPlan.Undisturbed (plan : ExtractionPlan) (subGraph : List INode) : Prop :=
  ∀ node ∈ subGraph, ∀ e ∈ rewrites (.obj node.parameters) (plan.mappingOf node),
    N8n.Undisturbed (e.1.map .inl) e.2

theorem nodeRestoresTo_applyExtractMapping {plan : ExtractionPlan} (hplan : plan.Sound)
    (hvar : ∀ m ∈ used, variableMap.get? m.replacementName = some m.originalExpression)
    {node : INode} (hundisturbed : ∀ e ∈ rewrites (.obj node.parameters) (plan.mappingOf node),
      Undisturbed (e.1.map .inl) e.2)
    (hused : ∀ m ∈ (applyExtractMappingToNode node (plan.mappingOf node)).2, m ∈ used) :
    NodeRestoresTo used variableMap (applyExtractMappingToNode node (plan.mappingOf node)).1
      node := by
  have hall := hplan.canonical node
  have hrel := rel_applyMapping (R := RestoresTo used variableMap)
    (C := fun e => Undisturbed (e.1.map .inl) e.2) (RestoresTo.refl used variableMap)
    (fun s mapping hP hin hC =>
      restoresTo_replaceOriginals hvar (fun m hm => (hP m hm).1) hin hC)
    (.obj node.parameters) (plan.mappingOf node) hall hundisturbed
  unfold applyExtractMappingToNode at hused ⊢
  cases hmap : applyMapping (.obj node.parameters) (plan.mappingOf node) with
  | mk value usedMappings =>
    rw [hmap] at hrel hused
    cases value with
    | obj parameters => exact ⟨rfl, hrel hused⟩
    | undefined | null | bool b | num q | str s | arr xs =>
      exact absurd (hrel hused) (by simp [JsValue.Rel])

namespace ExtractionPlan

variable {plan : ExtractionPlan}

theorem Sound.canonical_parameterMappings (hplan : plan.Sound) (subGraph : List INode) :
    ∀ m ∈ plan.parameterMappings subGraph, plan.resolved.Canonical m := by
  intro m hm
  obtain ⟨node, -, hm⟩ := List.mem_flatMap.1 hm
  have hall := forall_applyMapping (.obj node.parameters) (plan.mappingOf node)
    (hplan.canonical node)
  unfold applyExtractMappingToNode at hm
  cases hmap : applyMapping (.obj node.parameters) (plan.mappingOf node) with
  | mk value usedMappings =>
    rw [hmap] at hm hall
    cases value <;> exact (hall m hm).2

/-- The used mappings are those of the parameters, and variables of other references. -/
theorem Sound.allUsedMappings (hplan : plan.Sound) (subGraph : List INode) :
    (∀ m ∈ plan.parameterMappings subGraph, m ∈ plan.allUsedMappings subGraph) ∧
      ∀ m ∈ plan.allUsedMappings subGraph, plan.resolved.Canonical m := by
  unfold ExtractionPlan.allUsedMappings
  have hcanonical := hplan.canonical_parameterMappings subGraph
  generalize plan.parameterMappings subGraph = used at hcanonical
  induction plan.extraVariableCandidates generalizing used with
  | nil => exact ⟨fun m hm => hm, hcanonical⟩
  | cons candidate candidates ih =>
    rw [List.foldl_cons]
    split
    · exact ih used hcanonical
    next canonical hcandidate =>
      split_ifs
      · exact ih used hcanonical
      · obtain ⟨hsub, hall⟩ := ih (used ++ [canonical]) fun m hm => by
          rcases List.mem_append.1 hm with hm | hm
          · exact hcanonical m hm
          · rw [List.mem_singleton.1 hm]
            exact hplan.resolved.canonical hcandidate
        exact ⟨fun m hm => hsub m (List.mem_append_left _ hm), hall⟩

/-- An undisturbed plan whose variables with the same name have the same prefix keeps the values. -/
theorem Sound.keepsValues (hplan : plan.Sound) {subGraph : List INode}
    (hagree : PrefixesAgree (plan.allUsedMappings subGraph))
    (hundisturbed : plan.Undisturbed subGraph) :
    KeepsValues subGraph (plan.allUsedMappings subGraph) (plan.apply subGraph) := by
  obtain ⟨hsub, hall⟩ := hplan.allUsedMappings subGraph
  have hdistinct := (namesDistinct_iff hplan.resolved hall).2 hagree
  refine ⟨hdistinct, length_variableMapOf_of_distinct hall hdistinct, ?_⟩
  have hvar : ∀ m ∈ plan.allUsedMappings subGraph,
      (plan.apply subGraph).variableMap.get? m.replacementName = some m.originalExpression :=
    fun m hm => hdistinct.get?_variableMapOf hm
  unfold ExtractionPlan.apply at hvar ⊢
  rw [List.forall₂_map_left_iff, List.forall₂_same]
  exact fun node hnode => nodeRestoresTo_applyExtractMapping hplan hvar
    (hundisturbed node hnode) fun m hm => hsub m (List.mem_flatMap.2 ⟨node, hnode, hm⟩)

end ExtractionPlan

/-- A code node `B`, the start of a selection. -/
def codeNode (jsCode : String) : INode := { name := "B", parameters := [("jsCode", .str jsCode)] }

/-- The plan for this node in a workflow with a node `A`. -/
def codePlan (jsCode : String) : ExtractionPlan :=
  resolveMappings [codeNode jsCode] ["A", "B"] "Start" (some ["B"]) []

theorem planExtraction_codeNode (jsCode : String) :
    planExtraction [codeNode jsCode] ["A", "B"] "Start" (some ["B"]) = .ok (codePlan jsCode) := rfl

/-- `$('A').item.json.x` becomes `$('Start').item.json.x`. -/
def itemMapping : ExpressionMapping where
  nodeNameInExpression := some "A".toList
  originalExpression := "$('A').item.json.x".toList
  replacementPrefix := "$('Start').item.json".toList
  replacementName := "x".toList

/-- `$json.name` stays as it is. -/
def inputMapping (name : String) : ExpressionMapping where
  nodeNameInExpression := none
  originalExpression := "$json.".toList ++ name.toList
  replacementPrefix := "$json".toList
  replacementName := name.toList

end N8n
