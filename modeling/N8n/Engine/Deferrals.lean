import N8n.Engine.Termination
import N8n.Lib.Rotation

/-!
# Entries that are put off

An entry whose input data is missing goes back to the end of the stack, and the loop remembers its
node and run index, so that it can stop when it meets the same entry again.

* `LacksInput`, `ensureInputData_eq_false_iff`: when an entry is put off;
* `entryQueue`, `idles_iff`: the turns in which no node is run serve the stack as a queue;
* `idling_progresses_iff`: whether the loop stops before all entries were put off once more.
-/

namespace N8n

/-! ### The check of the inputs -/

/-- Some enabled node comes before an input of a node. -/
def Workflow.IsFed (w : Workflow) (node : INode) (i : ℕ) : Prop :=
  ∃ highestNodes, w.getHighestNode node.name (some i) = .ok highestNodes ∧ highestNodes ≠ []

/-- An entry has no data for an input: it has no main data at all or, in the legacy order, none for
this input. -/
def MissesInput (w : Workflow) (e : IExecuteData) (i : ℕ) : Prop :=
  ∀ main, e.data.get? .main = some main → w.isLegacyExecutionOrder = true ∧
    (main.length < i ∨ ItemLists.read main i = .null)

/-- An entry has no data for some input, and this input and all before it are fed. -/
def LacksInput (w : Workflow) (node : INode) (e : IExecuteData) : Prop :=
  ∃ i < w.numberOfInputs node.name, MissesInput w e i ∧ ∀ j ≤ i, w.IsFed node j

variable {w : Workflow} {node : INode} {e e' : IExecuteData} {i : ℕ}

theorem ensureInputData_eq_false_iff_from {n : ℕ} : ensureInputData w node e n i = .ok false ↔
      ∃ j < n, MissesInput w e (i + j) ∧ ∀ k ≤ j, w.IsFed node (i + k) := by
  induction n generalizing i with
  | zero =>
    refine iff_of_false (fun h => ?_) fun ⟨j, hj, _⟩ => absurd hj (Nat.not_lt_zero j)
    cases h
  | succ n ih =>
    have hsplit : (∃ j < n + 1, MissesInput w e (i + j) ∧ ∀ k ≤ j, w.IsFed node (i + k)) ↔
        w.IsFed node i ∧ (MissesInput w e i ∨
          ∃ j < n, MissesInput w e (i + 1 + j) ∧ ∀ k ≤ j, w.IsFed node (i + 1 + k)) := by
      constructor
      · rintro ⟨j, hj, hmisses, hfed⟩
        refine ⟨hfed 0 (Nat.zero_le j), ?_⟩
        cases j with
        | zero => exact Or.inl hmisses
        | succ j =>
          refine Or.inr ⟨j, by omega, by rwa [Nat.add_assoc, Nat.add_comm 1], fun k hk => ?_⟩
          rw [Nat.add_assoc, Nat.add_comm 1]
          exact hfed (k + 1) (by omega)
      · rintro ⟨hfed, hmisses | ⟨j, hj, hmisses, hfed'⟩⟩
        · refine ⟨0, Nat.succ_pos n, hmisses, fun k hk => ?_⟩
          rwa [Nat.le_zero.1 hk]
        · refine ⟨j + 1, by omega, by rwa [Nat.add_comm j, ← Nat.add_assoc], fun k hk => ?_⟩
          cases k with
          | zero => exact hfed
          | succ k =>
            rw [Nat.add_comm k, ← Nat.add_assoc]
            exact hfed' k (by omega)
    rw [hsplit, ensureInputData]
    cases hhighest : w.getHighestNode node.name (some i) with
    | error e =>
      refine iff_of_false (fun h => by cases h) ?_
      rintro ⟨⟨nodes, hnodes, -⟩, -⟩
      cases hhighest.symm.trans hnodes
    | ok nodes =>
      simp only [Except.bind_eq_ok_iff, Except.ok.injEq, exists_eq_left']
      have hfed : w.IsFed node i ↔ nodes ≠ [] := by
        constructor
        · rintro ⟨nodes', h, hne⟩
          cases hhighest.symm.trans h
          exact hne
        · exact fun hne => ⟨nodes, hhighest, hne⟩
      rw [hfed]
      split_ifs with hnil
      · exact iff_of_false (fun h => by cases h) fun h => h.1 hnil
      · rw [and_iff_right hnil]
        cases hmain : e.data.get? .main with
        | none =>
          exact iff_of_true rfl (Or.inl fun main h => by cases hmain.symm.trans h)
        | some main =>
          have hmisses : MissesInput w e i ↔ w.isLegacyExecutionOrder = true ∧
              (main.length < i ∨ ItemLists.read main i = .null) := by
            rw [MissesInput, hmain]
            simp
          simp only [hmisses, ← ih]
          split_ifs with hlegacy
          · exact iff_of_true rfl (Or.inl (by simpa using hlegacy))
          · exact (or_iff_right (by simpa using hlegacy)).symm

/-- **An entry is put off exactly when it lacks input data.** -/
theorem ensureInputData_eq_false_iff :
    ensureInputData w node e (w.numberOfInputs node.name) 0 = .ok false ↔ LacksInput w node e := by
  simp only [ensureInputData_eq_false_iff_from, Nat.zero_add]
  rfl

/-! ### The entry that goes back -/

/-- The same inputs have data, and all lists can be read. -/
def SameInputs (lists lists' : ItemLists) : Prop :=
  lists'.length = lists.length ∧
    (∀ i, ItemLists.read lists' i = .null ↔ ItemLists.read lists i = .null) ∧
    some Cell.undefined ∉ lists'

theorem SameInputs.cons {lists lists' : ItemLists} (h : SameInputs lists lists')
    {c c' : Option Cell} (hnull : c' = some .null ↔ c = some .null) (hc : c' ≠ some .undefined) :
    SameInputs (c :: lists) (c' :: lists') := by
  obtain ⟨hlength, hread, hundefined⟩ := h
  have hslot : ∀ o : Option Cell, o.getD .undefined = .null ↔ o = some .null := by
    intro o
    cases o <;> simp
  refine ⟨by rw [List.length_cons, List.length_cons, hlength], fun i => ?_, ?_⟩
  · cases i with
    | zero => exact (hslot c').trans (hnull.trans (hslot c).symm)
    | succ i => exact hread i
  · rw [List.mem_cons, not_or]
    exact ⟨hc.symm, hundefined⟩

theorem updateInputs_sameInputs {lists lists' : ItemLists}
    (h : updateInputs e i lists = .ok lists') : SameInputs lists lists' := by
  induction lists generalizing i lists' with
  | nil =>
    cases h
    exact ⟨rfl, fun i => Iff.rfl, List.not_mem_nil⟩
  | cons c lists ih =>
    rcases c with _ | _ | _ | l
    · obtain ⟨rest, hrest, rfl⟩ := Except.map_eq_ok_iff.1 h
      exact (ih hrest).cons Iff.rfl (by simp)
    · cases h
    · obtain ⟨rest, hrest, rfl⟩ := Except.map_eq_ok_iff.1 h
      exact (ih hrest).cons Iff.rfl (by simp)
    · obtain ⟨rest, hrest, rfl⟩ := Except.map_eq_ok_iff.1 h
      exact (ih hrest).cons (by simp) (by simp)

theorem exists_updateInputs {lists : ItemLists} (h : some Cell.undefined ∉ lists) :
    ∃ lists', updateInputs e i lists = .ok lists' := by
  induction lists generalizing i with
  | nil => exact ⟨[], rfl⟩
  | cons c lists ih =>
    rw [List.mem_cons, not_or] at h
    obtain ⟨rest, hrest⟩ := ih (i := i + 1) h.2
    rcases c with _ | _ | _ | l
    · exact ⟨_, Except.map_eq_ok_iff.2 ⟨rest, hrest, rfl⟩⟩
    · exact absurd rfl h.1
    · exact ⟨_, Except.map_eq_ok_iff.2 ⟨rest, hrest, rfl⟩⟩
    · exact ⟨_, Except.map_eq_ok_iff.2 ⟨rest, hrest, rfl⟩⟩

section Entries

variable {f : ItemLists → Except JsError ItemLists} {l : List (NodeConnectionType × ItemLists)}
  {data data' : ITaskDataConnections}

/-- What a pass over the entries of an object, which writes each of them to another, leaves there. -/
theorem get?_of_foldlM_set (hnodup : (l.map Prod.fst).Nodup)
    (h : l.foldlM (fun data p => do return data.set p.1 (← f p.2)) data = .ok data')
    (t : NodeConnectionType) :
    (t ∉ l.map Prod.fst → data'.get? t = data.get? t) ∧
      ∀ lists, (t, lists) ∈ l → ∃ lists', f lists = .ok lists' ∧ data'.get? t = some lists' := by
  induction l generalizing data with
  | nil =>
    cases h
    exact ⟨fun _ => rfl, fun lists hmem => absurd hmem List.not_mem_nil⟩
  | cons p l ih =>
    rw [List.foldlM_cons, Except.bind_eq_ok_iff] at h
    obtain ⟨data₁, h₁, h₂⟩ := h
    obtain ⟨lists₁, hlists₁, h₁⟩ := Except.bind_eq_ok_iff.1 h₁
    cases h₁
    rw [List.map_cons, List.nodup_cons] at hnodup
    obtain ⟨hother, hwritten⟩ := ih hnodup.2 h₂
    refine ⟨fun ht => ?_, fun lists hmem => ?_⟩
    · rw [List.map_cons, List.mem_cons, not_or] at ht
      rw [hother ht.2, Dict.get?_set_ne _ _ ht.1]
    · rcases List.mem_cons.1 hmem with rfl | hmem
      · exact ⟨lists₁, hlists₁, by rw [hother hnodup.1, Dict.get?_set_self]⟩
      · exact hwritten lists hmem

variable (data) in
theorem exists_foldlM_set (h : ∀ p ∈ l, ∃ lists, f p.2 = .ok lists) :
    ∃ data', l.foldlM (fun data p => do return data.set p.1 (← f p.2)) data = .ok data' := by
  induction l generalizing data with
  | nil => exact ⟨data, rfl⟩
  | cons p l ih =>
    obtain ⟨lists, hlists⟩ := h p List.mem_cons_self
    obtain ⟨data', hdata'⟩ := ih (data.set p.1 lists) fun p hp =>
      h p (List.mem_cons_of_mem _ hp)
    refine ⟨data', ?_⟩
    rw [List.foldlM_cons, hlists]
    exact hdata'

end Entries

/-- The entry with the origins of its items updated has data for the same inputs. -/
theorem updatePairedItems_sameInputs (h : updatePairedItems e = .ok e') (t : NodeConnectionType) :
    (e.data.get? t = none ∧ e'.data.get? t = none) ∨
      ∃ lists lists', e.data.get? t = some lists ∧ e'.data.get? t = some lists' ∧
        SameInputs lists lists' := by
  rw [updatePairedItems, Except.bind_eq_ok_iff] at h
  obtain ⟨data, hdata, h⟩ := h
  cases h
  obtain ⟨hother, hwritten⟩ := get?_of_foldlM_set e.data.nodup hdata t
  cases hlists : e.data.get? t with
  | none =>
    refine Or.inl ⟨rfl, ?_⟩
    refine (hother fun hmem => ?_).trans rfl
    have hsome := (Dict.mem_keys_iff _ _).1 hmem
    rw [hlists] at hsome
    cases hsome
  | some lists =>
    obtain ⟨lists', hlists', hget⟩ := hwritten lists ((Dict.mem_entries_iff _ _ _).2 hlists)
    exact Or.inr ⟨lists, lists', rfl, hget, updateInputs_sameInputs hlists'⟩

/-- The origins can be updated again. -/
theorem exists_updatePairedItems (h : updatePairedItems e = .ok e') :
    ∃ e'', updatePairedItems e' = .ok e'' := by
  have hlists : ∀ p ∈ e'.data.entries, ∃ lists, updateInputs e' 0 p.2 = .ok lists := by
    rintro ⟨t, lists'⟩ hmem
    have hget := (Dict.mem_entries_iff _ _ _).1 hmem
    rcases updatePairedItems_sameInputs h t with ⟨-, hnone⟩ | ⟨lists, _, -, hsome, hsame⟩
    · cases hget.symm.trans hnone
    · cases hget.symm.trans hsome
      exact exists_updateInputs hsame.2.2
  obtain ⟨data, hdata⟩ := exists_foldlM_set Dict.empty hlists
  exact ⟨_, Except.bind_eq_ok_iff.2 ⟨data, hdata, rfl⟩⟩

theorem missesInput_updatePairedItems (h : updatePairedItems e = .ok e') (i : ℕ) :
    MissesInput w e' i ↔ MissesInput w e i := by
  rw [MissesInput, MissesInput]
  rcases updatePairedItems_sameInputs h .main with ⟨hnone, hnone'⟩ | ⟨lists, lists', hs, hs', hsame⟩
  · rw [hnone, hnone']
  · rw [hs, hs']
    simp only [Option.some.injEq, forall_eq', hsame.1, hsame.2.1]

theorem lacksInput_updatePairedItems (h : updatePairedItems e = .ok e') :
    LacksInput w node e' ↔ LacksInput w node e := by
  simp only [LacksInput, missesInput_updatePairedItems h]

/-! ### The stack as a queue -/

theorem eq_nil_of_cons_eq_append {α : Type*} {c : α} {t ds es : List α} (hd : c ∉ ds)
    (h : c :: ds = t ++ c :: es) : t = [] := by
  cases t with
  | nil => rfl
  | cons d t =>
    obtain ⟨-, rfl⟩ := List.cons.inj h
    exact absurd (List.mem_append_right t List.mem_cons_self) hd

/-- A list is split at the last occurrence of an element in one way. -/
theorem eq_of_append_cons_eq {α : Type*} {c : α} {l m ds es : List α} (hd : c ∉ ds) (he : c ∉ es)
    (h : l ++ c :: ds = m ++ c :: es) : l = m := by
  rcases List.append_eq_append_iff.1 h with ⟨t, rfl, ht⟩ | ⟨t, rfl, ht⟩
  · rw [eq_nil_of_cons_eq_append hd ht, List.append_nil]
  · rw [eq_nil_of_cons_eq_append he ht, List.append_nil]

/-- Nodes of different names are remembered as different. -/
theorem name_eq_of_currentExecutionTry_eq {node' : INode} {j : ℕ}
    (h : currentExecutionTry node i = currentExecutionTry node' j) : node.name = node'.name := by
  have hdigits : ∀ n : ℕ, ':' ∉ Nat.toDigits 10 n := fun n hmem => by
    have := Nat.isDigit_of_mem_toDigits (by decide) (by decide) hmem
    revert this
    decide
  have hlist := congrArg String.toList h
  simp only [currentExecutionTry, String.toList_append, List.append_assoc] at hlist
  refine String.toList_inj.1 (eq_of_append_cons_eq (c := ':') (hdigits i) (hdigits j) ?_)
  simpa [← Nat.toList_repr] using hlist

/-- Whether the filter of the execution leaves a node out. -/
def isFilteredOut (run : RunExecutionData) (node : INode) : Bool :=
  (run.runNodeFilter.map (!·.contains node.name)).getD false

/-- What the loop remembers of an entry that it puts off. -/
def executionTryOf (run : RunExecutionData) (e : IExecuteData) : String :=
  match e.node with
  | none => ""
  | some node => currentExecutionTry node (runIndexOf e node run.runData)

/-- Whether an entry is left out. -/
def isSkipped (run : RunExecutionData) (e : IExecuteData) : Bool :=
  (updatePairedItems e).toBool && (e.node.map (isFilteredOut run)).getD false

/-- The entry `e` is put off, and goes back as `e'`. -/
def PutsOff (w : Workflow) (run : RunExecutionData) (e e' : IExecuteData) : Prop :=
  updatePairedItems e = .ok e' ∧ ∃ node, e.node = some node ∧ isFilteredOut run node = false ∧
    LacksInput w node e'

theorem executionTryOf_updatePairedItems {run : RunExecutionData}
    (h : updatePairedItems e = .ok e') : executionTryOf run e' = executionTryOf run e := by
  obtain ⟨data, rfl⟩ := updatePairedItems_eq_ok h
  rfl

/-- The stack as a queue whose entries are skipped or put off. -/
def entryQueue (w : Workflow) (run : RunExecutionData) : Queue IExecuteData String where
  key := executionTryOf run
  drops := isSkipped run
  sends := PutsOff w run
  key_sent h := executionTryOf_updatePairedItems h.1
  sends_sent := by
    rintro e e' ⟨hpaired, node, hnode, hfilter, hlacks⟩
    obtain ⟨e'', he''⟩ := exists_updatePairedItems hpaired
    obtain ⟨data, rfl⟩ := updatePairedItems_eq_ok hpaired
    exact ⟨e'', he'', node, hnode, hfilter, (lacksInput_updatePairedItems he'').2 hlacks⟩
  key_ne_key := by
    rintro a b c hskipped ⟨-, node, hnode, hfilter, -⟩ hkey
    rw [isSkipped, Bool.and_eq_true] at hskipped
    cases hnode' : a.node with
    | none => simp [hnode'] at hskipped
    | some node' =>
      have hfilter' : isFilteredOut run node' = true := by simpa [hnode'] using hskipped.2
      simp only [executionTryOf, hnode, hnode'] at hkey
      rw [isFilteredOut, name_eq_of_currentExecutionTry_eq hkey] at hfilter'
      rw [isFilteredOut, hfilter'] at hfilter
      cases hfilter

/-! ### Turns without a node run -/

/-- A turn in which no node is run: its entry is put off or skipped. -/
def Idles (env : Environment) (st st' : LoopState) : Prop :=
  ∃ b k, iterate env b st = .ok (st', k) ∧ (k = .deferred ∨ k = .skipped)

/-- The state after such a turn, from the stack and what is remembered. -/
def LoopState.served (st : LoopState) (s : List IExecuteData × String) : LoopState :=
  { st with
    run := { st.run with nodeExecutionStack := s.1 }
    lastExecutionTry := s.2
    currentNodeExecutionIndex := st.currentNodeExecutionIndex + 1 }

section Turns

variable {env : Environment} {b : Behaviour} {st st' : LoopState}

theorem exists_serve_of_idles (h : Idles env st st') :
    ∃ s, (entryQueue env.workflow st.run).Serve
      (st.run.nodeExecutionStack, st.lastExecutionTry) s ∧ st' = st.served s := by
  obtain ⟨b, k, h, hk⟩ := h
  rw [iterate] at h
  cases hstack : st.run.nodeExecutionStack with
  | nil =>
    rw [hstack] at h
    cases h
    simp at hk
  | cons e rest =>
    simp only [hstack] at h
    split_ifs at h
    · cases h
      simp at hk
    · simp only [executeEntry, Except.bind_eq_ok_iff] at h
      obtain ⟨e', he', node, hnode, h⟩ := h
      have hnode := orTypeError_eq_ok hnode
      have hpaired := he'
      obtain ⟨data, rfl⟩ := updatePairedItems_eq_ok hpaired
      have hnode' : e.node = some node := hnode
      have hkey : (entryQueue env.workflow st.run).key e =
          currentExecutionTry node (runIndexOf e node st.run.runData) := by
        show executionTryOf st.run e = _
        rw [executionTryOf, hnode']
      split_ifs at h with htry hfilter
      · cases h
        refine ⟨_, .drop (hkey ▸ htry) ?_, rfl⟩
        show isSkipped st.run e = true
        rw [isSkipped, he', hnode']
        exact hfilter
      · rw [Except.bind_eq_ok_iff] at h
        obtain ⟨hasInputData, hinput, h⟩ := h
        cases hasInputData with
        | false =>
          cases h
          rw [ensureInputData_eq_false_iff] at hinput
          have hsends : (entryQueue env.workflow st.run).sends e { e with data := data } :=
            ⟨he', node, hnode', Bool.eq_false_iff.2 hfilter, hinput⟩
          refine ⟨_, .send (hkey ▸ htry) hsends, ?_⟩
          rw [hkey]
          rfl
        | true =>
          simp only [Bool.not_true, Bool.false_eq_true, if_false] at h
          split at h
          · rename_i s j htries
            have hleft := runTries_cases (P := fun _ => True) (fun _ _ _ h => h)
              (fun _ _ _ _ _ _ _ _ h => h) htries trivial
            cases h
            rcases hk with rfl | rfl <;> simp at hleft
          · rename_i s htries
            simp only [Except.bind_eq_ok_iff] at h
            obtain ⟨⟨run, j⟩, hend, h⟩ := h
            cases h
            rcases hk with rfl | rfl
            · cases concludeRun_cases hend rfl
            · cases concludeRun_cases hend rfl

theorem iterate_cons (hb : b.canceled = false) {e e' : IExecuteData} {rest : List IExecuteData}
    (hstack : st.run.nodeExecutionStack = e :: rest) (hpaired : updatePairedItems e = .ok e')
    {node : INode} (hnode : e.node = some node) :
    (executionTryOf st.run e = st.lastExecutionTry → iterate env b st = .error endlessLoop) ∧
      (executionTryOf st.run e ≠ st.lastExecutionTry →
        (isFilteredOut st.run node = true →
          iterate env b st = .ok (st.served (rest, st.lastExecutionTry), .skipped)) ∧
        (isFilteredOut st.run node = false → LacksInput env.workflow node e' →
          iterate env b st =
            .ok (st.served (rest ++ [e'], executionTryOf st.run e), .deferred))) := by
  have hkey : executionTryOf st.run e = currentExecutionTry node (runIndexOf e node st.run.runData) := by
    rw [executionTryOf, hnode]
  obtain ⟨data, rfl⟩ := updatePairedItems_eq_ok hpaired
  have hiterate : iterate env b st = executeEntry env b e { st with run := st.popped rest } := by
    rw [iterate, hstack]
    exact if_neg (by simp [hb])
  rw [hiterate, executeEntry, hpaired, hkey]
  show (_ → (do
    let node ← orTypeError e.node
    _) = _) ∧ _
  rw [hnode]
  refine ⟨fun htry => if_pos htry, fun htry => ⟨fun hfilter => ?_, fun hfilter hlacks => ?_⟩⟩
  · exact (if_neg htry).trans (if_pos hfilter)
  · refine (if_neg htry).trans ((if_neg (Bool.eq_false_iff.1 hfilter)).trans ?_)
    rw [← ensureInputData_eq_false_iff] at hlacks
    simp only [hlacks]
    rfl

theorem iterate_of_serve (hb : b.canceled = false) {s : List IExecuteData × String}
    (h : (entryQueue env.workflow st.run).Serve
      (st.run.nodeExecutionStack, st.lastExecutionTry) s) :
    ∃ k, iterate env b st = .ok (st.served s, k) ∧ (k = .deferred ∨ k = .skipped) := by
  generalize hstack : st.run.nodeExecutionStack = stack at h
  generalize hlast : st.lastExecutionTry = last at h
  cases h with
  | @drop e rest _ hkey hdrops =>
    obtain ⟨hok, hfilter⟩ := Bool.and_eq_true_iff.1 hdrops
    cases hpaired : updatePairedItems e with
    | error x =>
      rw [hpaired] at hok
      cases hok
    | ok e' =>
      cases hnode : e.node with
      | none => simp [hnode] at hfilter
      | some node =>
        subst hlast
        have hfilter' : isFilteredOut st.run node = true := by simpa [hnode] using hfilter
        exact ⟨_, ((iterate_cons hb hstack hpaired hnode).2 hkey).1 hfilter', Or.inr rfl⟩
  | @send e e' rest _ hkey hsends =>
    obtain ⟨hpaired, node, hnode, hfilter, hlacks⟩ := hsends
    subst hlast
    exact ⟨_, ((iterate_cons hb hstack hpaired hnode).2 hkey).2 hfilter hlacks, Or.inl rfl⟩

/-- **The turns without a node run serve the stack as a queue.** -/
theorem idles_iff : Idles env st st' ↔
    ∃ s, (entryQueue env.workflow st.run).Serve (st.run.nodeExecutionStack, st.lastExecutionTry) s ∧
      st' = st.served s := by
  refine ⟨exists_serve_of_idles, ?_⟩
  rintro ⟨s, hserve, rfl⟩
  obtain ⟨k, hk⟩ := iterate_of_serve (b := { runNode := fun _ _ => ⟨.data none, false⟩ }) rfl hserve
  exact ⟨_, k, hk⟩

end Turns

/-! ### Progress -/

section Progress

variable (env : Environment) (st : LoopState)

/-- The loop makes no progress: it goes through turn after turn without running a node. -/
def IdlesForever : Prop :=
  ∃ f : ℕ → LoopState, f 0 = st ∧ ∀ n, Idles env (f n) (f (n + 1))

/-- Entries that are put off come to an end: the loop does not go through turn after turn without
running a node and, when it has taken every entry of the stack once in such turns and some went back,
it stops as endless. -/
structure IdlingProgresses : Prop where
  terminates : ¬IdlesForever env st
  raises : ∀ f : ℕ → LoopState, f 0 = st →
    (∀ n < st.run.nodeExecutionStack.length, Idles env (f n) (f (n + 1))) →
    (f st.run.nodeExecutionStack.length).run.nodeExecutionStack ≠ [] →
    ∀ b : Behaviour, b.canceled = false →
      iterate env b (f st.run.nodeExecutionStack.length) = .error endlessLoop

variable {env st}

/-- What such turns leave as it was. -/
theorem run_of_idles {f : ℕ → LoopState} (h₀ : f 0 = st) {N : ℕ}
    (h : ∀ n < N, Idles env (f n) (f (n + 1))) :
    ∀ n ≤ N, (f n).run = { st.run with nodeExecutionStack := (f n).run.nodeExecutionStack } := by
  intro n hn
  induction n with
  | zero => rw [h₀]
  | succ n ih =>
    obtain ⟨s, -, hserved⟩ := exists_serve_of_idles (h n hn)
    rw [hserved]
    show { (f n).run with nodeExecutionStack := s.1 } = _
    rw [ih (Nat.le_of_succ_le hn)]
    rfl

theorem serve_of_idles {f : ℕ → LoopState} (h₀ : f 0 = st) {N : ℕ}
    (h : ∀ n < N, Idles env (f n) (f (n + 1))) :
    ∀ n < N, (entryQueue env.workflow st.run).Serve
      ((f n).run.nodeExecutionStack, (f n).lastExecutionTry)
      ((f (n + 1)).run.nodeExecutionStack, (f (n + 1)).lastExecutionTry) := by
  intro n hn
  obtain ⟨s, hserve, hserved⟩ := exists_serve_of_idles (h n hn)
  rw [run_of_idles h₀ h n hn.le] at hserve
  rw [hserved]
  exact hserve

/-- **The loop makes no progress exactly when its stack goes round.** -/
theorem idlesForever_iff : IdlesForever env st ↔
    (entryQueue env.workflow st.run).GoesRound st.run.nodeExecutionStack st.lastExecutionTry := by
  rw [← Queue.forever_iff]
  constructor
  · rintro ⟨f, h₀, h⟩
    refine ⟨fun n => ((f n).run.nodeExecutionStack, (f n).lastExecutionTry), by simp only [h₀],
      fun n => ?_⟩
    exact serve_of_idles h₀ (fun k _ => h k) n (Nat.lt_succ_self n)
  · rintro ⟨g, h₀, h⟩
    refine ⟨fun n => { st with
      run := { st.run with nodeExecutionStack := (g n).1 }
      lastExecutionTry := (g n).2
      currentNodeExecutionIndex := st.currentNodeExecutionIndex + n }, by simp only [h₀]; rfl,
      fun n => ?_⟩
    exact idles_iff.2 ⟨g (n + 1), h n, rfl⟩

/-- **Entries that are put off come to an end exactly when the stack does not go round**: it does when
each of its entries is skipped or lacks input data, and each that is put off has another node or run
index than the one before it, the first one another than the last. -/
theorem idling_progresses_iff : IdlingProgresses env st ↔
    ¬(entryQueue env.workflow st.run).GoesRound st.run.nodeExecutionStack st.lastExecutionTry := by
  rw [← idlesForever_iff]
  refine ⟨IdlingProgresses.terminates, fun hstops => ⟨hstops, fun f h₀ h hne b hb => ?_⟩⟩
  rw [idlesForever_iff] at hstops
  obtain ⟨e, rest, hstack⟩ := List.exists_cons_of_ne_nil hne
  obtain ⟨⟨e', hpaired, node, hnode, -⟩, hkey⟩ := Queue.key_eq_of_served
    (f := fun n => ((f n).run.nodeExecutionStack, (f n).lastExecutionTry)) (by simp only [h₀])
    (serve_of_idles h₀ h) hstops (by rw [hstack]; rfl)
  refine (iterate_cons hb hstack hpaired hnode).1 ?_
  rw [run_of_idles h₀ h _ le_rfl]
  exact hkey

end Progress

/-! ### Two entries -/

/-- `T` feeds `A` and `B`. -/
def forkWorkflow : Workflow := mainWorkflow ["T", "A", "B"] [("T", [("A", 0), ("B", 0)])]

/-- An entry without data. -/
def mainlessEntry (nodeName : String) : IExecuteData where
  node := some { name := nodeName }
  data := Dict.empty

/-- The start of an execution whose entries, for `A` and `B`, have no data. -/
def twoMainless : LoopState where
  run := { nodeExecutionStack := [mainlessEntry "A", mainlessEntry "B"] }

theorem putsOff_mainlessEntry {nodeName : String} (h : nodeName = "A" ∨ nodeName = "B") :
    PutsOff forkWorkflow twoMainless.run (mainlessEntry nodeName) (mainlessEntry nodeName) := by
  have hinputs : 0 < forkWorkflow.numberOfInputs nodeName := by
    rcases h with rfl | rfl <;> decide
  have hmisses : MissesInput forkWorkflow (mainlessEntry nodeName) 0 := fun main hmain => by
    cases hmain
  refine ⟨rfl, _, rfl, rfl, 0, hinputs, hmisses, fun j hj => ?_⟩
  obtain rfl := Nat.le_zero.1 hj
  refine ⟨["T"], ?_, List.cons_ne_nil _ _⟩
  rcases h with rfl | rfl <;> decide

/-- The two entries go back to the end of the stack in turn, forever. -/
theorem two_entries_idle_forever :
    ¬IdlingProgresses (plainEnvironment forkWorkflow) twoMainless := by
  refine fun h => h.terminates (idlesForever_iff.2 ⟨fun e he => Or.inr ⟨e, ?_⟩, ?_, ?_, ?_⟩)
  · rcases List.mem_cons.1 he with rfl | he
    · exact putsOff_mainlessEntry (Or.inl rfl)
    · obtain rfl := List.mem_singleton.1 he
      exact putsOff_mainlessEntry (Or.inr rfl)
  · decide
  · decide
  · decide

end N8n
