import N8n.Engine.Retries

/-!
# What the tries of a resumed node are given

A node that requested other nodes is run again with their results.

* `GivenResults`: every call is given one result for each requested node that has its run;
* `TriedOnce`, `runTries_step`: the calls of one try, and the tries after it;
* `runTries_sameResults_iff`: when every call of a turn is given the results.
-/

namespace N8n

variable {env : Environment} {b : Behaviour} {node : INode} {runIndex : ℕ}
  {executionData : IExecuteData} {outcomes : ℕ → RunNodeOutcome} {s s' : TryState}

/-! ### What the calls are given -/

/-- Every call is given one response for each recorded action that has its run, in their order. -/
def GivenResults (subNodeExecutionData : SubNodeExecutionData) (calls : List RunNodeCall) : Prop :=
  ∀ call ∈ calls, ∃ response, call.subNodeExecutionResults = some response ∧
    response.actionResponses =
      actionResponses subNodeExecutionData call.runExecutionData.runData

/-- The results that the next try passes. -/
def TryState.nextResults (s : TryState) (executionData : IExecuteData) : EngineResponse :=
  addActionResponses executionData s.run.runData s.subNodeExecutionResults

/-- What one try of a node that is not pinned calls. -/
structure TriedOnce (b : Behaviour) (node : INode) (runIndex : ℕ) (executionData : IExecuteData)
    (outcomes : ℕ → RunNodeOutcome) (i : ℕ) (s s' : TryState) (k : TryEnd)
    (retries : List RunNodeCall) : Prop where
  calls : s'.calls = s.calls ++
    ⟨executionData, s.run, runIndex, some (s.nextResults executionData)⟩ :: retries
  bare : ∀ call ∈ retries, call.subNodeExecutionResults = none
  retried : retries ≠ [] ↔
    nodeFailed (outcomes s.calls.length) = true ∧ i + 1 < maxTriesOf node
  results : s'.subNodeExecutionResults = s.nextResults executionData
  run : s.run.TriesOnly s'.run
  threw : retries = [] → (∃ e, k = .threw e) →
    ¬b.Succeeds node executionData (outcomes s.calls.length)
  ended : retries = [] → (¬∃ e, k = .threw e) →
    b.Succeeds node executionData (outcomes s.calls.length) ∨
      nodeFailed (outcomes s.calls.length) = true

variable {i tries : ℕ} {k : Option IterationEnd}

theorem tryNode_triedOnce (hb : b.Answers outcomes) {j : ℕ} {k : TryEnd}
    (hpin : pinnedData node s.run = none)
    (h : tryNode env b node runIndex i executionData s = (s', j, k)) :
    ∃ retries, TriedOnce b node runIndex executionData outcomes i s s' k retries ∧
      (retries = [] → j = i) := by
  rw [tryNode, hpin] at h
  simp only at h
  rw [← TryState.nextResults] at h
  cases hcall : callNode b executionData runIndex (some (s.nextResults executionData))
      { s with subNodeExecutionResults := s.nextResults executionData } with
  | mk s₁ outcome =>
    obtain ⟨hcalls₁, hresults₁, hrun₁, hout₁⟩ := callNode_answered hb hcall
    rw [hcall] at h
    simp only at h hcalls₁ hresults₁ hrun₁ hout₁
    cases hretry : retryFailed b executionData runIndex (maxTriesOf node - 1 - i) i s₁ outcome with
    | mk s₂ p =>
      obtain ⟨j₂, outcome₂⟩ := p
      rw [hretry] at h
      simp only [Prod.mk.injEq] at h
      obtain ⟨rfl, rfl, rfl⟩ := h
      have hlen₁ : s₁.calls.length = s.calls.length + 1 := by simp [hcalls₁]
      obtain ⟨retries, hretried, hnil, hj⟩ := retryFailed_retried hb
        (fun m hm => by rw [hout₁, Nat.succ_injective (hm.trans hlen₁)]) (by omega) hretry
      have hpos : 0 < s₂.calls.length := by
        rw [hretried.calls, List.length_append]
        omega
      have hout₂ := hretried.outcome _ (Nat.succ_pred_eq_of_pos hpos)
      obtain ⟨hcalls, hresults, hrun, hthrew, hended⟩ := handleOutcome_answered
        (fun request => hout₂ ▸ hb.notRequest _ request)
        (Prod.mk.eta (p := handleOutcome env b node runIndex executionData s₂ outcome₂)).symm
      have hsame : retries = [] → outcome₂ = outcomes s.calls.length := fun h => by
        refine hretried.outcome _ ?_
        rw [hretried.calls, h, List.append_nil, hlen₁]
      refine ⟨retries, ⟨?_, hretried.bare, ?_, ?_, (hrun₁.trans hretried.run).trans hrun,
        fun h => hsame h ▸ hthrew, fun h => hsame h ▸ hended⟩, hj⟩
      · rw [hcalls, hretried.calls, hcalls₁, List.append_assoc, List.singleton_append]
      · rw [ne_eq, hnil, not_not, hout₁]
        exact and_congr_right fun _ => by omega
      · rw [hresults, hretried.results, hresults₁]

/-- A turn tries the node once, and again if the try threw. -/
theorem runTries_step (hb : b.Answers outcomes) (hpin : pinnedData node s.run = none)
    (hi : i < maxTriesOf node)
    (h : runTries env b node runIndex executionData (tries + 1) i s = (s', k)) :
    ∃ s₁ j end₁ retries, TriedOnce b node runIndex executionData outcomes i s s₁ end₁ retries ∧
      (retries = [] → j = i) ∧ ((¬∃ e, end₁ = .threw e) → s'.calls = s₁.calls) ∧
      ((∃ e, end₁ = .threw e) → ∃ s₂ : TryState, s₂.calls = s₁.calls ∧
        s₂.subNodeExecutionResults = s₁.subNodeExecutionResults ∧ s₁.run.TriesOnly s₂.run ∧
        runTries env b node runIndex executionData tries (j + 1) s₂ = (s', k)) := by
  rw [runTries, if_neg (not_le.2 hi)] at h
  obtain ⟨hrun₀, hcalls₀, hresults₀⟩ := s.startTry_same i
  cases htry : tryNode env b node runIndex i executionData (s.startTry i) with
  | mk s₁ p =>
    obtain ⟨j, end₁⟩ := p
    rw [htry] at h
    obtain ⟨retries, htried, hj⟩ := tryNode_triedOnce hb (by rwa [hrun₀]) htry
    have hnext : (s.startTry i).nextResults executionData = s.nextResults executionData := by
      rw [TryState.nextResults, hrun₀, hresults₀, TryState.nextResults]
    obtain ⟨hcalls, hbare, hretried, hresults, hrun, hthrew, hended⟩ := htried
    rw [hcalls₀, hrun₀, hnext] at hcalls
    rw [hcalls₀] at hretried hthrew hended
    rw [hnext] at hresults
    rw [hrun₀] at hrun
    refine ⟨s₁, j, end₁, retries, ⟨hcalls, hbare, hretried, hresults, hrun, hthrew, hended⟩, hj,
      ?_, ?_⟩
    · intro hnot
      cases end₁ with
      | success | leave k' =>
        cases h
        rfl
      | threw e => exact absurd ⟨e, rfl⟩ hnot
    · rintro ⟨e, rfl⟩
      exact ⟨{ s₁ with
        executionError := some e
        run := { s₁.run with lastNodeExecuted := some node.name } }, rfl, rfl, rfl, h⟩

/-- Calls are only added. -/
theorem prefix_runTries (hb : b.Answers outcomes) (hpin : pinnedData node s.run = none)
    (h : runTries env b node runIndex executionData tries i s = (s', k)) :
    s.calls <+: s'.calls := by
  induction tries generalizing i s with
  | zero =>
    cases h
    exact List.prefix_rfl
  | succ tries ih =>
    by_cases hi : i < maxTriesOf node
    · obtain ⟨s₁, j, end₁, retries, htried, -, hended, hthrew⟩ := runTries_step hb hpin hi h
      have hfirst : s.calls <+: s₁.calls := ⟨_, htried.calls.symm⟩
      by_cases hend : ∃ e, end₁ = .threw e
      · obtain ⟨s₂, hcalls, -, hrun, hrest⟩ := hthrew hend
        refine hfirst.trans (hcalls ▸ ih ?_ hrest)
        rwa [(htried.run.trans hrun).pinnedData_eq]
      · rwa [hended hend]
    · rw [runTries, if_pos (not_lt.1 hi)] at h
      cases h
      exact List.prefix_rfl

/-- The calls of a try are calls of the turn. -/
theorem TriedOnce.isPrefix (hb : b.Answers outcomes) {j : ℕ} {s₁ : TryState} {end₁ : TryEnd}
    {retries : List RunNodeCall}
    (htried : TriedOnce b node runIndex executionData outcomes i s s₁ end₁ retries)
    (hpin : pinnedData node s.run = none) (hended : (¬∃ e, end₁ = .threw e) → s'.calls = s₁.calls)
    (hthrew : (∃ e, end₁ = .threw e) → ∃ s₂ : TryState, s₂.calls = s₁.calls ∧
      s₂.subNodeExecutionResults = s₁.subNodeExecutionResults ∧ s₁.run.TriesOnly s₂.run ∧
      runTries env b node runIndex executionData tries (j + 1) s₂ = (s', k)) :
    s₁.calls <+: s'.calls := by
  by_cases hend : ∃ e, end₁ = .threw e
  · obtain ⟨s₂, hcalls, -, hrun, hrest⟩ := hthrew hend
    have hpin₂ : pinnedData node s₂.run = none := by
      rwa [(htried.run.trans hrun).pinnedData_eq]
    exact hcalls ▸ prefix_runTries hb hpin₂ hrest
  · rw [hended hend]

/-- The first call of the next try is made if there is one left. -/
theorem runTries_first_call (hb : b.Answers outcomes) (hpin : pinnedData node s.run = none)
    (hi : i < maxTriesOf node) (htries : maxTriesOf node ≤ tries + i)
    (h : runTries env b node runIndex executionData tries i s = (s', k)) :
    ⟨executionData, s.run, runIndex, some (s.nextResults executionData)⟩ ∈ s'.calls := by
  cases tries with
  | zero => omega
  | succ tries =>
    obtain ⟨s₁, j, end₁, retries, htried, -, hended, hthrew⟩ := runTries_step hb hpin hi h
    refine (htried.isPrefix hb hpin hended hthrew).subset ?_
    rw [htried.calls]
    simp

section Resumed

variable {data : SubNodeExecutionData}
  (hdata : executionData.metadata.bind (·.subNodeExecutionData) = some data)

include hdata

theorem nextResults_actionResponses (s : TryState) :
    (s.nextResults executionData).actionResponses =
      s.subNodeExecutionResults.actionResponses ++ actionResponses data s.run.runData := by
  rw [TryState.nextResults, addActionResponses, hdata]

omit hdata in
theorem RunExecutionData.TriesOnly.runData_eq {run run' : RunExecutionData}
    (h : run.TriesOnly run') : run'.runData = run.runData := by
  rw [h]

/-- If there are no results, all calls are given them exactly when no call is made because the one
before reported an error. -/
theorem runTries_givenResults_iff_of_nil (hb : b.Answers outcomes) {tries i : ℕ}
    {k : Option IterationEnd} (hpin : pinnedData node s.run = none)
    (htries : maxTriesOf node ≤ tries + i) (hlen : s.calls.length = i)
    (hgiven : GivenResults data s.calls) (hnone : s.subNodeExecutionResults.actionResponses = [])
    (hnil : actionResponses data s.run.runData = [])
    (h : runTries env b node runIndex executionData tries i s = (s', k)) :
    GivenResults data s'.calls ↔ ∀ m, i ≤ m → m + 1 < maxTriesOf node →
      (∀ m', i ≤ m' → m' < m → ¬b.Succeeds node executionData (outcomes m')) →
        nodeFailed (outcomes m) = false := by
  induction tries generalizing i s with
  | zero =>
    cases h
    exact iff_of_true hgiven fun m hm hlt _ => by omega
  | succ tries ih =>
    by_cases hi : i < maxTriesOf node
    swap
    · rw [runTries, if_pos (not_lt.1 hi)] at h
      cases h
      exact iff_of_true hgiven fun m hm hlt _ => by omega
    obtain ⟨s₁, j, end₁, retries, htried, hj, hended, hthrew⟩ := runTries_step hb hpin hi h
    have hretried := htried.retried
    have hsucceeds := htried.threw
    have hends := htried.ended
    rw [hlen] at hretried hsucceeds hends
    have hnext : (s.nextResults executionData).actionResponses = [] := by
      rw [nextResults_actionResponses hdata, hnone, hnil, List.append_nil]
    by_cases hretries : retries = []
    · have hgiven₁ : GivenResults data s₁.calls := by
        rw [htried.calls, hretries]
        intro call hcall
        rcases List.mem_append.1 hcall with hcall | hcall
        · exact hgiven call hcall
        · rw [List.mem_singleton.1 hcall]
          exact ⟨_, rfl, hnext.trans hnil.symm⟩
      have hsoft : i + 1 < maxTriesOf node → nodeFailed (outcomes i) = false := fun hlt => by
        by_contra hfailed
        exact hretried.2 ⟨by simpa using hfailed, hlt⟩ hretries
      by_cases hend : ∃ e, end₁ = .threw e
      · obtain ⟨s₂, hcalls, hresults, hrun, hrest⟩ := hthrew hend
        have htriesOnly := htried.run.trans hrun
        have hlen₂ : s₂.calls.length = i + 1 := by
          rw [hcalls, htried.calls, hretries, List.length_append, List.length_singleton, hlen]
        rw [hj hretries] at hrest
        rw [ih (by rwa [htriesOnly.pinnedData_eq]) (by omega) hlen₂ (hcalls ▸ hgiven₁)
          (by rw [hresults, htried.results, hnext]) (by rwa [htriesOnly.runData_eq]) hrest]
        constructor
        · intro hall m hm hlt hfails
          rcases Nat.eq_or_lt_of_le hm with rfl | hm
          · exact hsoft hlt
          · exact hall m hm hlt fun m' hm' => hfails m' (by omega)
        · intro hall m hm hlt hfails
          refine hall m (by omega) hlt fun m' hm' hlt' => ?_
          rcases Nat.eq_or_lt_of_le hm' with rfl | hm'
          · exact hsucceeds hretries hend
          · exact hfails m' hm' hlt'
      · rw [hended hend]
        refine iff_of_true hgiven₁ fun m hm hlt hfails => ?_
        rcases Nat.eq_or_lt_of_le hm with rfl | hm
        · exact hsoft hlt
        · rcases hends hretries hend with hok | hfailed
          · exact absurd hok (hfails i le_rfl hm)
          · rw [hsoft (by omega)] at hfailed
            cases hfailed
    · obtain ⟨hfailed, hlt⟩ := hretried.1 hretries
      refine iff_of_false (fun hall => ?_) fun hall => ?_
      · obtain ⟨call, hcall⟩ := List.exists_mem_of_ne_nil _ hretries
        have hmem : call ∈ s₁.calls := by
          rw [htried.calls]
          exact List.mem_append_right _ (List.mem_cons_of_mem _ hcall)
        obtain ⟨response, hresponse, -⟩ :=
          hall call ((htried.isPrefix hb hpin hended hthrew).subset hmem)
        rw [htried.bare call hcall] at hresponse
        cases hresponse
      · rw [hall i le_rfl hlt fun m' hm' hlt' => by omega] at hfailed
        cases hfailed

/-- **Every call of a resumed node is given the results of the nodes that it requested**, one for
each action that has its run, exactly when the node has one try, or its first call succeeds, or
there are no results and no call but one for the last try reports an error before one succeeds. -/
theorem runTries_sameResults_iff (hb : b.Answers outcomes) {run : RunExecutionData}
    (hpin : pinnedData node run = none) (rewire : RewireOutputLogTo) :
    GivenResults data (callsOf env b node runIndex executionData run rewire) ↔
      maxTriesOf node = 1 ∨ b.Succeeds node executionData (outcomes 0) ∨
        actionResponses data run.runData = [] ∧ ∀ m, m + 1 < maxTriesOf node →
          (∀ m' < m, ¬b.Succeeds node executionData (outcomes m')) →
            nodeFailed (outcomes m) = false := by
  obtain ⟨tries, htries⟩ := Nat.exists_eq_succ_of_ne_zero (maxTriesOf_pos node).ne'
  generalize hstart : ({ run := run, rewireOutputLogTo := rewire } : TryState) = s
  have hcalls₀ : s.calls = [] := by rw [← hstart]
  have hresults₀ : s.subNodeExecutionResults.actionResponses = [] := by rw [← hstart]
  obtain rfl : run = s.run := by rw [← hstart]
  cases hrun : runTries env b node runIndex executionData (tries + 1) 0 s with
  | mk s' k =>
  have hcallsOf : callsOf env b node runIndex executionData s.run rewire = s'.calls := by
    rw [callsOf, hstart, htries, hrun]
  have hlen₀ : s.calls.length = 0 := by rw [hcalls₀, List.length_nil]
  rw [hcallsOf]
  by_cases hnil : actionResponses data s.run.runData = []
  · rw [runTries_givenResults_iff_of_nil hdata hb hpin htries.le hlen₀
      (fun call hcall => by rw [hcalls₀] at hcall; cases hcall) hresults₀ hnil hrun]
    simp only [Nat.zero_le, true_imp_iff]
    constructor
    · exact fun hall => Or.inr (Or.inr ⟨hnil, hall⟩)
    · rintro (hone | hok | ⟨-, hall⟩) m hlt hfails
      · omega
      · cases m with
        | zero => exact hok.not_failed
        | succ m => exact absurd hok (hfails 0 (Nat.succ_pos m))
      · exact hall m hlt hfails
  · rw [or_iff_left (b := _ ∧ _) fun h => hnil h.1]
    obtain ⟨s₁, j, end₁, retries, htried, hj, hended, hthrew⟩ :=
      runTries_step hb hpin (maxTriesOf_pos node) hrun
    have hbegins := htried.isPrefix hb hpin hended hthrew
    have hretried := htried.retried
    have hsucceeds := htried.threw
    have hends := htried.ended
    rw [hlen₀] at hretried hsucceeds hends
    have hnext : (s.nextResults executionData).actionResponses =
        actionResponses data s.run.runData := by
      rw [nextResults_actionResponses hdata, hresults₀, List.nil_append]
    by_cases hretries : retries = []
    · have hgiven₁ : GivenResults data s₁.calls := by
        rw [htried.calls, hretries, hcalls₀]
        intro call hcall
        rw [List.mem_singleton.1 hcall]
        exact ⟨_, rfl, hnext⟩
      by_cases hend : ∃ e, end₁ = .threw e
      · obtain ⟨s₂, hcalls, hresults, hrun₂, hrest⟩ := hthrew hend
        have htriesOnly := htried.run.trans hrun₂
        rw [or_iff_left (hsucceeds hretries hend)]
        rw [hj hretries] at hrest
        by_cases hone : maxTriesOf node = 1
        · refine iff_of_true ?_ hone
          have hzero : tries = 0 := by omega
          rw [hzero] at hrest
          cases hrest
          rwa [hcalls]
        · refine iff_of_false (fun hall => ?_) hone
          have hpin₂ : pinnedData node s₂.run = none := by
            rwa [htriesOnly.pinnedData_eq]
          have hmem := runTries_first_call hb hpin₂ (by omega) (by omega) hrest
          obtain ⟨response, hresponse, hsame⟩ := hall _ hmem
          -- the results of the first try are passed again before those of the second
          cases hresponse
          rw [nextResults_actionResponses hdata, hresults, htried.results, hnext,
            htriesOnly.runData_eq] at hsame
          exact hnil (by simpa using hsame)
      · rw [hended hend]
        refine iff_of_true hgiven₁ ?_
        rcases hends hretries hend with hok | hfailed
        · exact Or.inr hok
        · have hlt : ¬0 + 1 < maxTriesOf node := fun hlt => hretried.2 ⟨hfailed, hlt⟩ hretries
          have := maxTriesOf_pos node
          exact Or.inl (by omega)
    · obtain ⟨hfailed, hlt⟩ := hretried.1 hretries
      refine iff_of_false (fun hall => ?_) ?_
      · obtain ⟨call, hcall⟩ := List.exists_mem_of_ne_nil _ hretries
        have hmem : call ∈ s₁.calls := by
          rw [htried.calls]
          exact List.mem_append_right _ (List.mem_cons_of_mem _ hcall)
        obtain ⟨response, hresponse, -⟩ := hall call (hbegins.subset hmem)
        rw [htried.bare call hcall] at hresponse
        cases hresponse
      · rintro (hone | hok)
        · omega
        · exact Bool.false_ne_true (hok.not_failed.symm.trans hfailed)

end Resumed

/-! ### Two tries -/

theorem runTries_sameResults_iff_twice : GivenResults requestedRun callsFailing ↔
    maxTriesOf nodeTriedTwice = 1 ∨
      (answering failsThenThrows).Succeeds nodeTriedTwice resumedEntry (failsThenThrows 0) ∨
      actionResponses requestedRun runOfT.runData = [] ∧ ∀ m, m + 1 < maxTriesOf nodeTriedTwice →
        (∀ m' < m,
          ¬(answering failsThenThrows).Succeeds nodeTriedTwice resumedEntry (failsThenThrows m')) →
          nodeFailed (failsThenThrows m) = false :=
  runTries_sameResults_iff rfl answers_failsThenThrows rfl Dict.empty

/-- The calls for the entry when all calls throw. -/
def callsThrowing : List RunNodeCall :=
  callsOf aloneIn (answering fun _ => .throws (.thrown "failed")) nodeTriedTwice 0 resumedEntry
    runOfT Dict.empty

/-- The second try is given the result of `T` twice. -/
theorem second_try_repeats_results : ¬GivenResults requestedRun callsThrowing := by
  intro h
  obtain ⟨response, hresponse, hsame⟩ :=
    h _ (List.getElem_mem (show 1 < callsThrowing.length by decide))
  cases hresponse
  exact absurd hsame (by decide)

end N8n
