import N8n.Diff.WorkflowDiff
import N8n.Lib.Pointwise

/-!
# Supersets

* `stringContainsParts_iff`: the scan with its budget finds the parts of every subsequence;
* `JsValue.IsJson`: the values that a text of the data format can hold;
* `parametersAreSuperset_refl`, `parametersAreSuperset_trans`: being a superset is a preorder on them;
* `additiveEdits_compose`: a chain of additive edits is an additive edit.
-/

namespace N8n

/-! ### Texts -/

theorem sublist_cons_iff {c : ℕ} {l s : List ℕ} :
    l.Sublist (c :: s) ↔ (if l.head? = some c then l.tail else l).Sublist s := by
  cases l with
  | nil => simp
  | cons d l =>
    by_cases h : d = c
    · subst h
      simp
    · have hne : (d :: l).head? ≠ some c := fun hs => h (Option.some.inj hs)
      rw [if_neg hne]
      constructor
      · intro hsub
        cases hsub with
        | cons _ hsub => exact hsub
        | cons_cons _ _ => exact absurd rfl h
      · exact fun hsub => hsub.cons c

/-- The loop finds the parts that are left in what is left of the text.  What was skipped is counted
against the budget, which no text that holds the parts exceeds. -/
theorem containsPartsLoop_iff (substr : List ℕ) {diffSize i marker : ℕ} {s : List ℕ}
    (hsize : diffSize + substr.length = i + s.length) (hmarker : marker ≤ substr.length) :
    containsPartsLoop substr diffSize i marker s ↔ (substr.drop marker).Sublist s := by
  induction s generalizing i marker with
  | nil =>
    simp [containsPartsLoop, List.drop_eq_nil_iff]
  | cons c s ih =>
    have hstep : (substr.drop marker).Sublist (c :: s) ↔
        (substr.drop (if substr[marker]? = some c then marker + 1 else marker)).Sublist s := by
      rw [sublist_cons_iff, List.head?_drop]
      split_ifs
      · rw [List.tail_drop]
      · rfl
    have hle : (if substr[marker]? = some c then marker + 1 else marker) ≤ substr.length := by
      split_ifs with h
      · exact (List.getElem?_eq_some_iff.1 h).1
      · exact hmarker
    rw [hstep, containsPartsLoop]
    generalize (if substr[marker]? = some c then marker + 1 else marker) = next at hle ⊢
    rw [List.length_cons] at hsize
    split_ifs with hbudget
    · refine iff_of_false (by simp) fun hsub => ?_
      have hlength := hsub.length_le
      rw [List.length_drop] at hlength
      omega
    · exact ih (by omega) hle

/-- **`stringContainsParts` finds exactly the subsequences.** -/
theorem stringContainsParts_iff (s substr : List ℕ) :
    stringContainsParts s substr ↔ substr.Sublist s := by
  unfold stringContainsParts
  split_ifs with h
  · exact iff_of_false (by simp) fun hsub => absurd hsub.length_le (not_le.2 h)
  · rw [containsPartsLoop_iff substr (by omega) (Nat.zero_le _), List.drop_zero]

/-! ### Values -/

mutual

/-- A value of the data format: nothing is `undefined`, and the keys of an object are distinct. -/
def JsValue.IsJson : JsValue → Prop
  | .undefined => False
  | .null | .bool _ | .num _ | .str _ => True
  | .arr xs => AllJson xs
  | .obj props => (props.map Prod.fst).Nodup ∧ PropsJson props

def AllJson : List JsValue → Prop
  | [] => True
  | x :: xs => x.IsJson ∧ AllJson xs

def PropsJson : JsObject → Prop
  | [] => True
  | (_, x) :: props => x.IsJson ∧ PropsJson props

end

theorem elementsAreSuperset_iff {prev next : List JsValue} : elementsAreSuperset prev next ↔
    List.Forall₂ (fun x y => parametersAreSuperset x y) prev next := by
  induction prev generalizing next with
  | nil => cases next <;> simp [elementsAreSuperset]
  | cons x prev ih => cases next <;> simp [elementsAreSuperset, ih]

theorem propsAreSuperset_iff {prev next : JsObject} : propsAreSuperset prev next ↔
    ∀ e ∈ prev, ∃ y, EntryList.lookup e.1 next = some y ∧ parametersAreSuperset e.2 y := by
  induction prev with
  | nil => simp [propsAreSuperset]
  | cons e prev ih =>
    rw [propsAreSuperset, Bool.and_eq_true, ih, List.forall_mem_cons]
    exact and_congr_left' (Option.any_eq_true _ _)

mutual

/-- A value is a superset of itself. -/
theorem parametersAreSuperset_refl : ∀ {v : JsValue}, v.IsJson → parametersAreSuperset v v
  | .null, _ => rfl
  | .bool _, _ | .num _, _ => decide_eq_true rfl
  | .str _, _ => (stringContainsParts_iff _ _).2 (List.Sublist.refl _)
  | .arr xs, h => elementsAreSuperset_iff.2 (List.forall₂_same.2 (elements_superset_refl h))
  | .obj props, h => by
    rw [parametersAreSuperset, Bool.and_eq_true]
    refine ⟨decide_eq_true rfl, propsAreSuperset_iff.2 fun e he => ?_⟩
    exact ⟨e.2, (EntryList.mem_iff_lookup h.1 e.1 e.2).1 he, props_superset_refl h.2 e he⟩

theorem elements_superset_refl : ∀ {xs : List JsValue}, AllJson xs →
    ∀ x ∈ xs, parametersAreSuperset x x
  | [], _ => fun _ hx => absurd hx List.not_mem_nil
  | _ :: _, h => List.forall_mem_cons.2
    ⟨parametersAreSuperset_refl h.1, elements_superset_refl h.2⟩

theorem props_superset_refl : ∀ {props : JsObject}, PropsJson props →
    ∀ e ∈ props, parametersAreSuperset e.2 e.2
  | [], _ => fun _ he => absurd he List.not_mem_nil
  | (_, _) :: _, h => List.forall_mem_cons.2
    ⟨parametersAreSuperset_refl h.1, props_superset_refl h.2⟩

end

/-! ### Chains -/

/-- Objects with the same keys in the same order have related values under each key. -/
theorem exists_lookup_of_forall₂ {R : JsValue → JsValue → Prop} {l m : JsObject}
    (h : List.Forall₂ (fun e e' => e.1 = e'.1 ∧ R e.2 e'.2) l m) {k : String} {x : JsValue}
    (hx : EntryList.lookup k l = some x) : ∃ y, EntryList.lookup k m = some y ∧ R x y := by
  induction h with
  | nil => cases hx
  | @cons e e' l m he _ ih =>
    obtain ⟨hkey, hrel⟩ := he
    unfold EntryList.lookup at hx ⊢
    rw [← hkey]
    split_ifs at hx ⊢
    · cases hx
      exact ⟨_, rfl, hrel⟩
    · exact ih hx

/-- What an array answers as its own is there in an array that loses nothing of it. -/
theorem arrayProps_forall₂ {R : JsValue → JsValue → Prop} {xs ys : List JsValue}
    (h : List.Forall₂ R xs ys) (hlength : ∀ n : ℕ, R (.num n) (.num n)) :
    List.Forall₂ (fun e e' => e.1 = e'.1 ∧ R e.2 e'.2) (arrayProps xs) (arrayProps ys) := by
  unfold arrayProps
  refine List.rel_append ?_ (.cons ⟨rfl, h.length_eq ▸ hlength _⟩ .nil)
  rw [List.forall₂_map_left_iff, List.forall₂_map_right_iff]
  have hidx : ∀ {xs ys : List JsValue} (i : ℕ), List.Forall₂ R xs ys →
      List.Forall₂ (fun a b => a.2 = b.2 ∧ R a.1 b.1) (xs.zipIdx i) (ys.zipIdx i) := by
    intro xs ys i h
    induction h generalizing i with
    | nil => exact .nil
    | cons hxy _ ih => exact .cons ⟨rfl, hxy⟩ (ih (i + 1))
  exact (hidx 0 h).imp fun a b hab => ⟨congrArg toString hab.1, hab.2⟩

/-- Each property that `next` answers is there in `last`, and loses nothing. -/
def KeepsProps (next last : JsObject) : Prop :=
  ∀ k y, EntryList.lookup k next = some y →
    ∃ z, EntryList.lookup k last = some z ∧ parametersAreSuperset y z

theorem keepsProps_of_propsAreSuperset {next last : JsObject} (h : propsAreSuperset next last) :
    KeepsProps next last :=
  fun _ _ hy => propsAreSuperset_iff.1 h _ (EntryList.mem_of_lookup hy)

theorem keepsProps_arrayProps {ys zs : List JsValue}
    (h : List.Forall₂ (fun y z => parametersAreSuperset y z) ys zs) :
    KeepsProps (arrayProps ys) (arrayProps zs) := by
  intro k y hy
  exact exists_lookup_of_forall₂ (arrayProps_forall₂ h fun _ => decide_eq_true rfl) hy

mutual

/-- Nothing is lost in two steps when nothing is lost in each. -/
theorem parametersAreSuperset_trans : ∀ {a b c : JsValue}, parametersAreSuperset a b →
    parametersAreSuperset b c → parametersAreSuperset a c
  | .undefined, .undefined, _, _, h => h
  | .null, .null, _, _, h => h
  | .bool _, .bool _, _, h, h' => by
    obtain rfl := of_decide_eq_true h
    exact h'
  | .num _, .num _, _, h, h' => by
    obtain rfl := of_decide_eq_true h
    exact h'
  | .str _, .str _, .str _, h, h' => by
    rw [parametersAreSuperset, stringContainsParts_iff] at h h' ⊢
    exact h.trans h'
  | .arr _, .arr _, .arr _, h, h' => elementsAreSuperset_trans h h'
  | .obj _, .obj _, .obj _, h, h' => by
    rw [parametersAreSuperset, Bool.and_eq_true, decide_eq_true_iff] at h h' ⊢
    exact ⟨h.1.trans h'.1, propsAreSuperset_trans h.2 (keepsProps_of_propsAreSuperset h'.2)⟩
  | .obj _, .obj _, .arr _, h, h' => by
    rw [parametersAreSuperset, Bool.and_eq_true, decide_eq_true_iff] at h
    rw [parametersAreSuperset, Bool.and_eq_true, decide_eq_true_iff] at h' ⊢
    exact ⟨h.1.trans h'.1, propsAreSuperset_trans h.2 (keepsProps_of_propsAreSuperset h'.2)⟩
  | .obj _, .arr _, .arr _, h, h' => by
    rw [parametersAreSuperset, Bool.and_eq_true, decide_eq_true_iff] at h ⊢
    have helements := elementsAreSuperset_iff.1 h'
    exact ⟨h.1.trans helements.length_eq,
      propsAreSuperset_trans h.2 (keepsProps_arrayProps helements)⟩

theorem elementsAreSuperset_trans : ∀ {xs ys zs : List JsValue}, elementsAreSuperset xs ys →
    elementsAreSuperset ys zs → elementsAreSuperset xs zs
  | [], [], [], _, _ => rfl
  | _ :: _, _ :: _, _ :: _, h, h' => by
    rw [elementsAreSuperset, Bool.and_eq_true] at h h' ⊢
    exact ⟨parametersAreSuperset_trans h.1 h'.1, elementsAreSuperset_trans h.2 h'.2⟩

theorem propsAreSuperset_trans : ∀ {props next last : JsObject}, propsAreSuperset props next →
    KeepsProps next last → propsAreSuperset props last
  | [], _, _, _, _ => rfl
  | (k, _) :: _, _, _, h, h' => by
    rw [propsAreSuperset, Bool.and_eq_true] at h ⊢
    obtain ⟨y, hy, hxy⟩ := (Option.any_eq_true _ _).1 h.1
    obtain ⟨z, hz, hyz⟩ := h' k y hy
    exact ⟨(Option.any_eq_true _ _).2 ⟨z, hz, parametersAreSuperset_trans hxy hyz⟩,
      propsAreSuperset_trans h.2 h'⟩

end

/-- `last` comes from `first` by a chain of edits, each of which loses nothing. -/
abbrev AdditiveEdits (first last : JsValue) : Prop :=
  Relation.ReflTransGen (fun prev next => parametersAreSuperset prev next) first last

/-- **Additive edits compose**: the scan of strings finds exactly the subsequences, and losing
nothing is reflexive and transitive, so a chain of edits that lose nothing loses nothing. -/
theorem additiveEdits_compose :
    (∀ s substr, stringContainsParts s substr ↔ substr.Sublist s) ∧
    (∀ v : JsValue, v.IsJson → parametersAreSuperset v v) ∧
    (∀ a b c : JsValue, parametersAreSuperset a b → parametersAreSuperset b c →
      parametersAreSuperset a c) ∧
    ∀ first last : JsValue, first.IsJson → AdditiveEdits first last →
      parametersAreSuperset first last := by
  refine ⟨stringContainsParts_iff, fun _ => parametersAreSuperset_refl,
    fun _ _ _ => parametersAreSuperset_trans, fun first last hfirst hedits => ?_⟩
  induction hedits with
  | refl => exact parametersAreSuperset_refl hfirst
  | tail _ hstep ih => exact parametersAreSuperset_trans ih hstep

/-- A text that is typed in two steps. -/
theorem additiveEdits_compose_typed :
    parametersAreSuperset (.obj [("q", .str "ac"), ("n", .num 1)])
      (.obj [("q", .str "abcd"), ("n", .num 1)]) := by
  refine additiveEdits_compose.2.2.2 _ _ ?_ (.tail (b := .obj [("n", .num 1), ("q", .str "abc")])
    (.single ?_) ?_)
  · simp [JsValue.IsJson, PropsJson]
  · decide
  · decide

end N8n
