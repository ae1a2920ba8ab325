import N8n.Codegen.SemanticRegistry

/-!
# Names tell outputs and inputs apart

* `Codegen.Numbered`: listed names that differ from each other and from those with an index;
* `Codegen.getOutputName_injective`, `getInputName_injective`: two outputs (inputs) of a node never
  have one name;
* `Codegen.getOutputName_eq_error_iff`: which output is called `error`.
-/

namespace N8n

namespace Codegen

/-! ### Numerals in names -/

variable {i j : ℕ} {names : List String} {other name type : String} {node : NodeJSON}

variable (s : String)

theorem append_toString_injective (h : s ++ toString i = s ++ toString j) : i = j := by
  have htext := congrArg String.toList h
  rw [String.toList_append, String.toList_append, List.append_cancel_left_eq, Nat.toString_eq_repr,
    Nat.toString_eq_repr, Nat.toList_repr, Nat.toList_repr] at htext
  have hvalue := congrArg (Nat.ofDigitChars 10 · 0) htext
  simpa only [Nat.ofDigitChars_toDigits (b := 10) (by decide) (by decide)] using hvalue

theorem ne_append_toString (i : ℕ) : s ≠ s ++ toString i := by
  intro h
  have htext := congrArg String.toList h
  rw [String.toList_append, Nat.toString_eq_repr, Nat.toList_repr] at htext
  exact Nat.toDigits_ne_nil (List.self_eq_append_right.1 htext)

theorem head?_append_toString {s : String} (hs : s ≠ "") (i : ℕ) :
    (s ++ toString i).toList.head? = s.toList.head? := by
  have hne : s.toList ≠ [] := fun h => hs (String.toList_inj.1 h)
  rw [String.toList_append, List.head?_append_of_ne_nil _ hne]

/-- Two texts that begin differently. -/
theorem ne_append_of_head {s t : String} (i : ℕ) (h : s.toList.head? ≠ t.toList.head?)
    (ht : t ≠ "") : s ≠ t ++ toString i := by
  rintro rfl
  exact h (head?_append_toString ht i)

/-! ### Listed names -/

/-- The listed names differ from each other and from those that are made of an index. -/
structure Numbered (names : List String) (other : String) : Prop where
  nodup : names.Nodup
  ne : ∀ name ∈ names, ∀ k : ℕ, name ≠ other ++ toString k

theorem indexedName_of_lt (h : i < names.length) (other : String) :
    indexedName names other i = names[i] := by
  rw [indexedName, List.getElem?_eq_getElem h, Option.getD_some]

theorem indexedName_of_le (h : names.length ≤ i) (other : String) :
    indexedName names other i = other ++ toString i := by
  rw [indexedName, List.getElem?_eq_none h, Option.getD_none]

theorem Numbered.injective (h : Numbered names other)
    (hij : indexedName names other i = indexedName names other j) : i = j := by
  by_cases hi : i < names.length
  · by_cases hj : j < names.length
    · rw [indexedName_of_lt hi, indexedName_of_lt hj] at hij
      exact (h.nodup.getElem_inj_iff).1 hij
    · rw [indexedName_of_lt hi, indexedName_of_le (not_lt.1 hj)] at hij
      exact absurd hij (h.ne _ (List.getElem_mem hi) j)
  · by_cases hj : j < names.length
    · rw [indexedName_of_le (not_lt.1 hi), indexedName_of_lt hj] at hij
      exact absurd hij.symm (h.ne _ (List.getElem_mem hj) i)
    · rw [indexedName_of_le (not_lt.1 hi), indexedName_of_le (not_lt.1 hj)] at hij
      exact append_toString_injective other hij

/-- A name that is none of the listed ones and has no index is not given. -/
theorem indexedName_ne (hname : name ∉ names) (hother : ∀ k : ℕ, name ≠ other ++ toString k)
    (i : ℕ) : indexedName names other i ≠ name := by
  by_cases hi : i < names.length
  · rw [indexedName_of_lt hi]
    exact fun h => hname (h ▸ List.getElem_mem hi)
  · rw [indexedName_of_le (not_lt.1 hi)]
    exact fun h => hother i h.symm

theorem numbered_nil (other : String) : Numbered [] other :=
  ⟨List.nodup_nil, fun name hname => by cases hname⟩

/-- Names that begin differently from those with an index. -/
theorem numbered_of_head (hnodup : names.Nodup) (hother : other ≠ "")
    (h : ∀ name ∈ names, name.toList.head? ≠ other.toList.head?) : Numbered names other :=
  ⟨hnodup, fun name hname k => ne_append_of_head k (h name hname) hother⟩

theorem nodup_numbered (n : ℕ) : ((List.range n).map fun i => s ++ toString i).Nodup :=
  List.nodup_range.map fun _ _ h => append_toString_injective s h

/-! ### The registry -/

/-- The names of the outputs, where a type has any of its own. -/
def outputNames (type : String) (node : NodeJSON) : Except JsError (List String) :=
  match nodeSemantics type with
  | none => .ok []
  | some semantics => semantics.outputs node

def inputNames (type : String) (node : NodeJSON) : Except JsError (List String) :=
  match nodeSemantics type with
  | none => .ok []
  | some semantics => semantics.inputs node

theorem eq_of_switchOutputs (h : switchOutputs node = .ok names) :
    ∃ n, names = (List.range n).map (fun i => "case" ++ toString i) ++ ["fallback"] := by
  unfold switchOutputs at h
  rw [Except.bind_eq_ok_iff] at h
  obtain ⟨n, -, h⟩ := h
  rw [Except.pure_eq_ok_iff] at h
  exact ⟨n, h.symm⟩

theorem eq_of_mergeInputs (h : mergeInputs node = .ok names) :
    ∃ n, names = (List.range n).map fun i => "branch" ++ toString i := by
  unfold mergeInputs at h
  rw [Except.bind_eq_ok_iff] at h
  obtain ⟨n, -, h⟩ := h
  rw [Except.pure_eq_ok_iff] at h
  exact ⟨n, h.symm⟩

theorem numbered_switchOutputs (n : ℕ) :
    Numbered ((List.range n).map (fun i => "case" ++ toString i) ++ ["fallback"]) "output" := by
  refine numbered_of_head ?_ (by decide) ?_
  · refine List.nodup_append.2 ⟨nodup_numbered "case" n, List.nodup_singleton _, ?_⟩
    intro name hname name' hname' heq
    obtain ⟨i, -, rfl⟩ := List.mem_map.1 hname
    rw [List.mem_singleton.1 hname'] at heq
    exact ne_append_of_head i (by decide) (by decide) heq.symm
  · intro name hname
    rcases List.mem_append.1 hname with hname | hname
    · obtain ⟨i, -, rfl⟩ := List.mem_map.1 hname
      rw [head?_append_toString (by decide)]
      decide
    · rw [List.mem_singleton.1 hname]
      decide

/-- The names of outputs differ from each other, from those with an index and from `error`. -/
theorem numbered_outputNames (h : outputNames type node = .ok names) :
    Numbered names "output" ∧ "error" ∉ names := by
  unfold outputNames nodeSemantics at h
  split_ifs at h
  · cases h
    exact ⟨numbered_of_head (by decide) (by decide) (by decide), by decide⟩
  · obtain ⟨n, rfl⟩ := eq_of_switchOutputs h
    refine ⟨numbered_switchOutputs n, fun hmem => ?_⟩
    rcases List.mem_append.1 hmem with hmem | hmem
    · obtain ⟨i, -, hi⟩ := List.mem_map.1 hmem
      exact ne_append_of_head i (by decide) (by decide) hi.symm
    · exact absurd (List.mem_singleton.1 hmem) (by decide)
  · cases h
    refine ⟨⟨by decide, fun name hname k => ?_⟩, by decide⟩
    rw [List.mem_singleton.1 hname]
    exact ne_append_toString "output" k
  · cases h
    exact ⟨numbered_of_head (by decide) (by decide) (by decide), by decide⟩
  · cases h
    exact ⟨numbered_nil _, by decide⟩

theorem numbered_inputNames (h : inputNames type node = .ok names) : Numbered names "input" := by
  have hinput : Numbered ["input"] "input" := by
    refine ⟨List.nodup_singleton _, fun name hname k => ?_⟩
    rw [List.mem_singleton.1 hname]
    exact ne_append_toString "input" k
  unfold inputNames nodeSemantics at h
  split_ifs at h
  · cases h
    exact hinput
  · cases h
    exact hinput
  · obtain ⟨n, rfl⟩ := eq_of_mergeInputs h
    refine numbered_of_head (nodup_numbered "branch" n) (by decide) fun name hname => ?_
    obtain ⟨i, -, rfl⟩ := List.mem_map.1 hname
    rw [head?_append_toString (by decide)]
    decide
  · cases h
    exact hinput
  · cases h
    exact numbered_nil _

theorem getErrorOutputIndex_eq (h : outputNames type node = .ok names) :
    getErrorOutputIndex type node =
      .ok (if (nodeSemantics type).isSome then names.length else 1) := by
  unfold outputNames at h
  unfold getErrorOutputIndex
  cases hsemantics : nodeSemantics type with
  | none => rfl
  | some semantics =>
    rw [hsemantics] at h
    dsimp only at h ⊢
    rw [h]
    rfl

/-- **What an output is called.** -/
theorem getOutputName_eq (h : outputNames type node = .ok names) (i : ℕ) :
    getOutputName type i node =
      .ok (if hasErrorOutput node ∧ getErrorOutputIndex type node = .ok i then "error"
        else indexedName names "output" i) := by
  have herror := getErrorOutputIndex_eq h
  unfold getOutputName
  unfold outputNames at h
  rw [herror]
  cases hsemantics : nodeSemantics type with
  | none =>
    rw [hsemantics] at h
    cases h
    by_cases hhas : hasErrorOutput node = true
    · by_cases hi : 1 = i
      · subst hi
        simp [hhas, bind, Except.bind, Except.map, pure, Except.pure]
      · simp [hhas, hi, indexedName, bind, Except.bind, Except.map, pure, Except.pure]
    · simp [hhas, indexedName, bind, Except.bind, pure, Except.pure]
  | some semantics =>
    rw [hsemantics] at h
    dsimp only at h
    by_cases hhas : hasErrorOutput node = true
    · by_cases hi : names.length = i
      · subst hi
        simp [hhas, bind, Except.bind, Except.map, pure, Except.pure]
      · simp [hhas, hi, h, bind, Except.bind, Except.map, pure, Except.pure]
    · simp [hhas, h, bind, Except.bind, pure, Except.pure]

theorem outputNames_of_getOutputName (h : getOutputName type i node = .ok name) :
    ∃ names, outputNames type node = .ok names := by
  unfold outputNames
  unfold getOutputName at h
  cases hsemantics : nodeSemantics type with
  | none => exact ⟨[], rfl⟩
  | some semantics =>
    cases houtputs : semantics.outputs node with
    | ok names => exact ⟨names, houtputs⟩
    | error e =>
      cases hhas : hasErrorOutput node <;>
        simp [getErrorOutputIndex, hhas, hsemantics, houtputs, Except.map, bind, Except.bind, pure,
          Except.pure] at h

theorem getInputName_eq (h : inputNames type node = .ok names) (i : ℕ) :
    getInputName type i node = .ok (indexedName names "input" i) := by
  unfold getInputName
  unfold inputNames at h
  cases hsemantics : nodeSemantics type with
  | none =>
    rw [hsemantics] at h
    cases h
    rfl
  | some semantics =>
    rw [hsemantics] at h
    dsimp only at h ⊢
    rw [h]
    rfl

theorem inputNames_of_getInputName (h : getInputName type i node = .ok name) :
    ∃ names, inputNames type node = .ok names := by
  unfold inputNames
  unfold getInputName at h
  cases hsemantics : nodeSemantics type with
  | none => exact ⟨[], rfl⟩
  | some semantics =>
    rw [hsemantics] at h
    dsimp only at h ⊢
    cases hinputs : semantics.inputs node with
    | ok names => exact ⟨names, rfl⟩
    | error e =>
      rw [hinputs] at h
      cases h

/-- **The output that is called `error`.** -/
theorem getOutputName_eq_error_iff (h : outputNames type node = .ok names) (i : ℕ) :
    getOutputName type i node = .ok "error" ↔
      hasErrorOutput node = true ∧ getErrorOutputIndex type node = .ok i := by
  rw [getOutputName_eq h]
  split_ifs with herror
  · exact iff_of_true rfl herror
  · refine iff_of_false (fun heq => ?_) herror
    refine indexedName_ne (numbered_outputNames h).2 (fun k => ?_) i (Except.ok.inj heq)
    exact ne_append_of_head k (by decide) (by decide)

theorem getOutputName_injective (hi : getOutputName type i node = .ok name)
    (hj : getOutputName type j node = .ok name) : i = j := by
  obtain ⟨names, h⟩ := outputNames_of_getOutputName hi
  by_cases hname : name = "error"
  · subst hname
    have hi' := ((getOutputName_eq_error_iff h i).1 hi).2
    have hj' := ((getOutputName_eq_error_iff h j).1 hj).2
    exact Except.ok.inj (hi'.symm.trans hj')
  · rw [getOutputName_eq h] at hi hj
    split_ifs at hi
    · exact absurd (Except.ok.inj hi).symm hname
    · split_ifs at hj
      · exact absurd (Except.ok.inj hj).symm hname
      · refine (numbered_outputNames h).1.injective ?_
        rw [Except.ok.inj hi, Except.ok.inj hj]

theorem getInputName_injective (hi : getInputName type i node = .ok name)
    (hj : getInputName type j node = .ok name) : i = j := by
  obtain ⟨names, h⟩ := inputNames_of_getInputName hi
  rw [getInputName_eq h] at hi hj
  refine (numbered_inputNames h).injective ?_
  rw [Except.ok.inj hi, Except.ok.inj hj]

end Codegen

end N8n
