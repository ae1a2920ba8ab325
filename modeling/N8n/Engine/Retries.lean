import N8n.Engine.LoopSpec

/-!
# The tries of a node

How often a node is run in one turn of the loop, for every sequence of outcomes of its calls.

* `Behaviour.Answers`: the outcomes of the calls, one after the other;
* `Behaviour.Succeeds`: the outcomes after which a node is not tried again;
* `Counted`: the tries that a number of calls used up;
* `runTries_bounded_iff`: when a node is run at most as often as it has tries.
-/

namespace N8n

/-! ### Outcomes -/

/-- Whether a call throws. -/
def RunNodeOutcome.isThrow : RunNodeOutcome → Bool
  | .throws _ => true
  | _ => false

/-- The calls of `runNode` come to the outcomes of a sequence, none of which is a request. -/
structure Behaviour.Answers (b : Behaviour) (outcomes : ℕ → RunNodeOutcome) : Prop where
  outcome : ∀ k call, (b.runNode k call).outcome = outcomes k
  notRequest : ∀ k request, outcomes k ≠ .request request

/-- What becomes of the data that a node returned. -/
def Behaviour.handledData (b : Behaviour) (node : INode) (executionData : IExecuteData)
    (data : Option ItemLists) : Except JsError (Option ItemLists) := do
  let data ← b.processOutput data
  let data ← assignPairedItems data executionData
  addOutputData node executionData data

/-- The node returned data without an error in its first item, which could be handled. -/
def Behaviour.Succeeds (b : Behaviour) (node : INode) (executionData : IExecuteData) :
    RunNodeOutcome → Prop
  | .data data => nodeFailed (.data data) = false ∧
      ∃ data', b.handledData node executionData data = .ok data'
  | _ => False

/-- The call throws directly after one that reported an error. -/
def throwsAfterFailed (outcomes : ℕ → RunNodeOutcome) : ℕ → Bool
  | 0 => false
  | k + 1 => nodeFailed (outcomes k) && (outcomes (k + 1)).isThrow

/-- How many of the first calls throw directly after one that reported an error. -/
def extraCalls (outcomes : ℕ → RunNodeOutcome) (n : ℕ) : ℕ :=
  (List.range n).countP (throwsAfterFailed outcomes)

theorem extraCalls_succ (outcomes : ℕ → RunNodeOutcome) (n : ℕ) :
    extraCalls outcomes (n + 1) =
      extraCalls outcomes n + if throwsAfterFailed outcomes n then 1 else 0 := by
  rw [extraCalls, List.range_succ, List.countP_append, List.countP_singleton, extraCalls]

variable {env : Environment} {b : Behaviour} {node : INode} {runIndex : ℕ}
  {executionData : IExecuteData} {outcomes : ℕ → RunNodeOutcome} {s s' : TryState}

variable {outcome : RunNodeOutcome} {n tries i j : ℕ}

theorem Behaviour.Succeeds.not_failed (h : b.Succeeds node executionData outcome) :
    nodeFailed outcome = false := by
  cases outcome with
  | data data => exact h.1
  | request request => exact h.elim
  | throws e => exact h.elim

/-! ### One try -/

/-- What is left to be done with an outcome makes no calls. -/
theorem handleOutcome_answered {k : TryEnd} (hrequest : ∀ request, outcome ≠ .request request)
    (h : handleOutcome env b node runIndex executionData s outcome = (s', k)) :
    s'.calls = s.calls ∧ s'.subNodeExecutionResults = s.subNodeExecutionResults ∧
      s.run.TriesOnly s'.run ∧ ((∃ e, k = .threw e) → ¬b.Succeeds node executionData outcome) ∧
      ((¬∃ e, k = .threw e) →
        b.Succeeds node executionData outcome ∨ nodeFailed outcome = true) := by
  cases outcome with
  | request request => exact absurd rfl (hrequest request)
  | throws e =>
    cases h
    exact ⟨rfl, rfl, rfl, fun _ => id, fun hnot => absurd ⟨e, rfl⟩ hnot⟩
  | data data =>
    have hends : ∀ {data'}, b.handledData node executionData data = .ok data' →
        (¬∃ e, k = .threw e) →
        b.Succeeds node executionData (.data data) ∨ nodeFailed (.data data) = true := by
      intro data' hok _
      cases hfailed : nodeFailed (.data data) with
      | false => exact Or.inl ⟨hfailed, data', hok⟩
      | true => exact Or.inr rfl
    have hthrows : ∀ {e}, b.handledData node executionData data = .error e →
        ¬b.Succeeds node executionData (.data data) := by
      rintro e herror ⟨-, data', hok⟩
      cases herror.symm.trans hok
    rw [Behaviour.handledData] at hends hthrows
    rw [handleOutcome] at h
    cases houtput : b.processOutput data with
    | error e =>
      rw [houtput] at h hthrows
      cases h
      exact ⟨rfl, rfl, rfl, fun _ => hthrows rfl, fun hnot => absurd ⟨e, rfl⟩ hnot⟩
    | ok data₁ =>
      rw [houtput] at h hends hthrows
      simp only [finishTry] at h
      cases hpaired : assignPairedItems data₁ executionData with
      | error e =>
        rw [hpaired] at h
        cases h
        refine ⟨rfl, rfl, rfl, fun _ => hthrows (e := e) ?_, fun hnot => absurd ⟨e, rfl⟩ hnot⟩
        exact Except.bind_eq_error_iff.2 (Or.inr ⟨data₁, rfl, by rw [hpaired]; rfl⟩)
      | ok data₂ =>
        simp only [hpaired] at h
        cases hadded : addOutputData node executionData data₂ with
        | error e =>
          rw [hadded] at h
          cases h
          refine ⟨rfl, rfl, rfl, fun _ => hthrows (e := e) ?_, fun hnot => absurd ⟨e, rfl⟩ hnot⟩
          exact Except.bind_eq_error_iff.2 (Or.inr ⟨data₁, rfl,
            Except.bind_eq_error_iff.2 (Or.inr ⟨data₂, hpaired, hadded⟩)⟩)
        | ok data₃ =>
          rw [hadded] at h
          cases h
          refine ⟨rfl, rfl, rfl, ?_, hends (Except.bind_eq_ok_iff.2 ⟨data₁, rfl,
            Except.bind_eq_ok_iff.2 ⟨data₂, hpaired, hadded⟩⟩)⟩
          rintro ⟨e, he⟩
          split_ifs at he

/-- After `n` calls `t` of the `T` tries are used up: every call used one, except those that threw
directly after one that reported an error. -/
structure Counted (ok : RunNodeOutcome → Prop) (outcomes : ℕ → RunNodeOutcome) (T n t : ℕ) :
    Prop where
  eq : n = t + extraCalls outcomes n
  within : ∀ m < n, m < T + extraCalls outcomes m
  failed : ∀ m, m + 1 < n → ¬ok (outcomes m)

variable {ok : RunNodeOutcome → Prop} {T : ℕ}

theorem counted_zero (ok : RunNodeOutcome → Prop) (outcomes : ℕ → RunNodeOutcome) (T : ℕ) :
    Counted ok outcomes T 0 0 :=
  ⟨rfl, fun m hm => absurd hm (Nat.not_lt_zero m), fun _ hm => absurd hm (Nat.not_lt_zero _)⟩

/-- A call that throws directly after one that reported an error uses no try, any other call one. -/
theorem Counted.call {t : ℕ} (h : Counted ok outcomes T n t) (ht : t < T)
    (hlast : ∀ m, m + 1 = n → ¬ok (outcomes m)) :
    Counted ok outcomes T (n + 1) (if throwsAfterFailed outcomes n then t else t + 1) := by
  have heq := h.eq
  refine ⟨?_, fun m hm => ?_, fun m hm => ?_⟩
  · rw [extraCalls_succ]
    split_ifs <;> omega
  · rcases Nat.lt_succ_iff_lt_or_eq.1 hm with hm | rfl
    · exact h.within m hm
    · omega
  · rcases Nat.lt_succ_iff_lt_or_eq.1 hm with hm | hm
    · exact h.failed m hm
    · exact hlast m hm

/-! ### The calls of one try -/

/-- Some calls follow, all of them without the results of requested nodes. -/
structure Retried (outcomes : ℕ → RunNodeOutcome) (s s' : TryState) (retries : List RunNodeCall)
    (outcome : RunNodeOutcome) : Prop where
  calls : s'.calls = s.calls ++ retries
  bare : ∀ call ∈ retries, call.subNodeExecutionResults = none
  results : s'.subNodeExecutionResults = s.subNodeExecutionResults
  run : s.run.TriesOnly s'.run
  outcome : ∀ m, m + 1 = s'.calls.length → outcome = outcomes m

theorem callNode_answered (hb : b.Answers outcomes) {response : Option EngineResponse}
    (h : callNode b executionData runIndex response s = (s', outcome)) :
    s'.calls = s.calls ++ [⟨executionData, s.run, runIndex, response⟩] ∧
      s'.subNodeExecutionResults = s.subNodeExecutionResults ∧ s.run.TriesOnly s'.run ∧
      outcome = outcomes s.calls.length := by
  cases h
  exact ⟨rfl, rfl, rfl, hb.outcome _ _⟩

/-- The node is called again exactly when it reported an error and has a try left. -/
theorem retryFailed_retried (hb : b.Answers outcomes) {outcome' : RunNodeOutcome}
    (hlast : ∀ m, m + 1 = s.calls.length → outcome = outcomes m) (hpos : 0 < s.calls.length)
    (h : retryFailed b executionData runIndex tries i s outcome = (s', j, outcome')) :
    ∃ retries, Retried outcomes s s' retries outcome' ∧
      (retries = [] ↔ ¬(nodeFailed outcome = true ∧ 0 < tries)) ∧ (retries = [] → j = i) := by
  induction tries generalizing i s outcome with
  | zero =>
    cases h
    exact ⟨[], ⟨(List.append_nil _).symm, by simp, rfl, rfl, hlast⟩, by simp, fun _ => rfl⟩
  | succ tries ih =>
    rw [retryFailed] at h
    split_ifs at h with hfailed
    · cases hcall : callNode b executionData runIndex none s with
      | mk s₁ outcome₁ =>
        obtain ⟨hcalls, hresults, hrun, rfl⟩ := callNode_answered hb hcall
        rw [hcall] at h
        have hlast₁ : ∀ m, m + 1 = s₁.calls.length →
            outcomes s.calls.length = outcomes m := by
          intro m hm
          rw [hcalls, List.length_append, List.length_singleton] at hm
          rw [Nat.succ_injective hm]
        have hpos₁ : 0 < s₁.calls.length := by simp [hcalls]
        -- whether or not the new call throws, it is the first of the retries
        have hretried : ∃ retries, Retried outcomes s₁ s' retries outcome' := by
          cases hout : outcomes s.calls.length with
          | throws e =>
            rw [hout] at h
            cases h
            exact ⟨[], ⟨(List.append_nil _).symm, by simp, rfl, rfl, by rwa [← hout]⟩⟩
          | data data | request request =>
            rw [hout] at h hlast₁
            obtain ⟨retries, hretried, -⟩ := ih hlast₁ hpos₁ h
            exact ⟨retries, hretried⟩
        obtain ⟨retries, hretried⟩ := hretried
        refine ⟨⟨executionData, s.run, runIndex, none⟩ :: retries,
          ⟨?_, ?_, hretried.results.trans hresults, hrun.trans hretried.run, hretried.outcome⟩,
          by simp [hfailed], fun hnil => by cases hnil⟩
        · rw [hretried.calls, hcalls, List.append_assoc, List.singleton_append]
        · exact List.forall_mem_cons.2 ⟨rfl, hretried.bare⟩
    · cases h
      exact ⟨[], ⟨(List.append_nil _).symm, by simp, rfl, rfl, hlast⟩, by simp [hfailed],
        fun _ => rfl⟩

/-- While the node is called again the tries are counted. -/
theorem retryFailed_counted (hb : b.Answers outcomes) {m : ℕ} {outcome' : RunNodeOutcome}
    (hok : ∀ o, ok o → nodeFailed o = false) (htries : i + 1 + tries = T)
    (hlen : s.calls.length = m + 1) (hout : outcome = outcomes m)
    (hcounted : Counted ok outcomes T (m + 1) (i + 1))
    (h : retryFailed b executionData runIndex tries i s outcome = (s', j, outcome')) :
    ∃ m', s'.calls.length = m' + 1 ∧ outcome' = outcomes m' ∧
      Counted ok outcomes T (m' + 1) (j + 1) ∧ i ≤ j ∧ j < T ∧
      (nodeFailed outcome' = true → j + 1 = T) := by
  induction tries generalizing i s outcome m with
  | zero =>
    cases h
    exact ⟨m, hlen, hout, hcounted, le_rfl, by omega, fun _ => htries⟩
  | succ tries ih =>
    rw [retryFailed] at h
    split_ifs at h with hfailed
    · have hnot : ∀ m', m' + 1 = m + 1 → ¬ok (outcomes m') := by
        rintro m' hm' hok'
        obtain rfl := Nat.succ_injective hm'
        rw [← hout] at hok'
        exact Bool.false_ne_true ((hok _ hok').symm.trans hfailed)
      cases hcall : callNode b executionData runIndex none s with
      | mk s₁ outcome₁ =>
        obtain ⟨hcalls, -, -, hout₁⟩ := callNode_answered hb hcall
        rw [hlen] at hout₁
        have hlen₁ : s₁.calls.length = m + 1 + 1 := by simp [hcalls, hlen]
        have hafter : throwsAfterFailed outcomes (m + 1) = (outcomes (m + 1)).isThrow := by
          rw [throwsAfterFailed, ← hout, hfailed, Bool.true_and]
        have hcounted₁ := hcounted.call (by omega) hnot
        rw [hcall] at h
        cases outcome₁ with
        | throws e =>
          cases h
          rw [if_pos (by rw [hafter, ← hout₁]; rfl)] at hcounted₁
          exact ⟨m + 1, hlen₁, hout₁, hcounted₁, le_rfl, by omega, fun h => by cases h⟩
        | data data | request request =>
          rw [if_neg (by rw [hafter, ← hout₁]; exact Bool.false_ne_true)] at hcounted₁
          obtain ⟨m', hlen', hout', hcounted', hij, hrest⟩ :=
            ih (by omega) hlen₁ hout₁ hcounted₁ h
          exact ⟨m', hlen', hout', hcounted', by omega, hrest⟩
    · cases h
      exact ⟨m, hlen, hout, hcounted, le_rfl, by omega, fun h => absurd h hfailed⟩

/-! ### The calls of a turn -/

theorem RunExecutionData.TriesOnly.pinnedData_eq {run run' : RunExecutionData}
    (h : run.TriesOnly run') (node : INode) : pinnedData node run' = pinnedData node run := by
  rw [pinnedData, h]
  rfl

theorem maxTriesOf_pos (node : INode) : 0 < maxTriesOf node := by
  rw [maxTriesOf]
  split_ifs <;> omega

theorem TryState.startTry_same (s : TryState) (i : ℕ) : (s.startTry i).run = s.run ∧
    (s.startTry i).calls = s.calls ∧
      (s.startTry i).subNodeExecutionResults = s.subNodeExecutionResults := by
  rw [startTry]
  split_ifs <;> exact ⟨rfl, rfl, rfl⟩

/-- One try of a node that is not pinned. -/
theorem tryNode_counted (hb : b.Answers outcomes) {k : TryEnd}
    (hpin : pinnedData node s.run = none) (hi : i < maxTriesOf node) (hlen : s.calls.length = n)
    (hlast : ∀ m, m + 1 = n →
      ¬b.Succeeds node executionData (outcomes m) ∧ nodeFailed (outcomes m) = false)
    (hcounted : Counted (b.Succeeds node executionData) outcomes (maxTriesOf node) n i)
    (h : tryNode env b node runIndex i executionData s = (s', j, k)) :
    ∃ m, s'.calls.length = m + 1 ∧
      Counted (b.Succeeds node executionData) outcomes (maxTriesOf node) (m + 1) (j + 1) ∧
      i ≤ j ∧ j < maxTriesOf node ∧ s.run.TriesOnly s'.run ∧
      ((∃ e, k = .threw e) → ¬b.Succeeds node executionData (outcomes m)) ∧
      ((¬∃ e, k = .threw e) → b.Succeeds node executionData (outcomes m) ∨
        nodeFailed (outcomes m) = true) ∧
      (nodeFailed (outcomes m) = true → j + 1 = maxTriesOf node) := by
  rw [tryNode, hpin] at h
  simp only at h
  generalize hs : ({ s with
      subNodeExecutionResults := (addActionResponses executionData s.run.runData
        s.subNodeExecutionResults) } : TryState) = s₀ at h
  have hlen₀ : s₀.calls.length = n := by rw [← hs]; exact hlen
  have hrun₀ : s₀.run = s.run := by rw [← hs]
  cases hcall : callNode b executionData runIndex (some (addActionResponses executionData
      s.run.runData s.subNodeExecutionResults)) s₀ with
  | mk s₁ outcome =>
    obtain ⟨hcalls₁, -, hrun₁, hout₁⟩ := callNode_answered hb hcall
    rw [hcall] at h
    simp only at h
    cases hretry : retryFailed b executionData runIndex (maxTriesOf node - 1 - i) i s₁ outcome with
    | mk s₂ p =>
      obtain ⟨j₂, outcome₂⟩ := p
      rw [hretry] at h
      simp only [Prod.mk.injEq] at h
      obtain ⟨rfl, rfl, rfl⟩ := h
      -- the first call of the try does not follow one that reported an error
      have hnot : throwsAfterFailed outcomes n = false := by
        cases n with
        | zero => rfl
        | succ m => rw [throwsAfterFailed, (hlast m rfl).2, Bool.false_and]
      have hcounted₁ := hcounted.call hi fun m hm => (hlast m hm).1
      rw [if_neg (by simp [hnot])] at hcounted₁
      have hlen₁ : s₁.calls.length = n + 1 := by
        rw [hcalls₁, List.length_append, List.length_singleton, hlen₀]
      rw [hlen₀] at hout₁
      obtain ⟨m, hlen₂, rfl, hcounted₂, hij, hj, hfailed⟩ := retryFailed_counted hb
        (fun o ho => ho.not_failed) (by omega) hlen₁ hout₁ hcounted₁ hretry
      have hrun₂ := (retryFailed_triesOnly hretry (callNode_triesOnly hcall).2.2).1
      obtain ⟨hcalls, -, hrun, hthrew, hended⟩ := handleOutcome_answered (hb.notRequest m)
        (Prod.mk.eta (p := handleOutcome env b node runIndex executionData s₂ (outcomes m))).symm
      rw [hrun₀] at hrun₁
      exact ⟨m, by rw [hcalls]; exact hlen₂, hcounted₂, hij, hj, (hrun₁.trans hrun₂).trans hrun,
        hthrew, hended, hfailed⟩

/-- **The calls of a turn**: they use up the tries, or the last one succeeds. -/
theorem runTries_counted (hb : b.Answers outcomes) {k : Option IterationEnd}
    (hpin : pinnedData node s.run = none) (hi : i ≤ maxTriesOf node)
    (htries : maxTriesOf node ≤ tries + i) (hlen : s.calls.length = n)
    (hlast : ∀ m, m + 1 = n → ¬b.Succeeds node executionData (outcomes m) ∧
      (i < maxTriesOf node → nodeFailed (outcomes m) = false))
    (hcounted : Counted (b.Succeeds node executionData) outcomes (maxTriesOf node) n i)
    (h : runTries env b node runIndex executionData tries i s = (s', k)) :
    ∃ t, Counted (b.Succeeds node executionData) outcomes (maxTriesOf node) s'.calls.length t ∧
      (t = maxTriesOf node ∨
        ∃ m, m + 1 = s'.calls.length ∧ b.Succeeds node executionData (outcomes m)) := by
  induction tries generalizing i s n with
  | zero =>
    cases h
    rw [hlen]
    exact ⟨i, hcounted, Or.inl (by omega)⟩
  | succ tries ih =>
    rw [runTries] at h
    split_ifs at h with hmax
    · cases h
      rw [hlen]
      exact ⟨i, hcounted, Or.inl (le_antisymm hi hmax)⟩
    · have hstart := (s.startTry_same i).2.1
      cases htry : tryNode env b node runIndex i executionData (s.startTry i) with
      | mk s₁ p =>
        obtain ⟨j, end₁⟩ := p
        rw [htry] at h
        obtain ⟨m, hlen₁, hcounted₁, hij, hj, hrun₁, hthrew, hended, hfailed⟩ := tryNode_counted hb
          (by rwa [TryState.run_startTry]) (not_le.1 hmax) (by rw [hstart]; exact hlen)
          (fun m hm => ⟨(hlast m hm).1, (hlast m hm).2 (not_le.1 hmax)⟩) hcounted htry
        have hends : (¬∃ e, end₁ = .threw e) → s' = s₁ →
            ∃ t, Counted (b.Succeeds node executionData) outcomes (maxTriesOf node)
                s'.calls.length t ∧ (t = maxTriesOf node ∨
              ∃ m, m + 1 = s'.calls.length ∧ b.Succeeds node executionData (outcomes m)) := by
          rintro hnot rfl
          rw [hlen₁]
          refine ⟨j + 1, hcounted₁, ?_⟩
          rcases hended hnot with hok | hsoft
          · exact Or.inr ⟨m, rfl, hok⟩
          · exact Or.inl (hfailed hsoft)
        cases end₁ with
        | success =>
          cases h
          exact hends (by rintro ⟨e, he⟩; cases he) rfl
        | leave k' =>
          cases h
          exact hends (by rintro ⟨e, he⟩; cases he) rfl
        | threw e =>
          refine ih (n := m + 1) ?_ (by omega) (by omega) ?_ (fun m' hm' => ?_) hcounted₁ h
          · exact (hrun₁.pinnedData_eq node).trans (by rwa [TryState.run_startTry])
          · exact hlen₁
          · obtain rfl := Nat.succ_injective hm'
            refine ⟨hthrew ⟨e, rfl⟩, fun hlt => ?_⟩
            by_contra hsoft
            exact hlt.ne (hfailed (by simpa using hsoft))

/-- The calls that a turn makes for an entry. -/
def callsOf (env : Environment) (b : Behaviour) (node : INode) (runIndex : ℕ)
    (executionData : IExecuteData) (run : RunExecutionData) (rewire : RewireOutputLogTo) :
    List RunNodeCall :=
  (runTries env b node runIndex executionData (maxTriesOf node) 0
    { run := run, rewireOutputLogTo := rewire }).1.calls

/-- **A node is run at most as often as it has tries, and as often if every call fails**, exactly
when one of as many first calls succeeds or none of them throws directly after one that reported an
error. -/
theorem runTries_bounded_iff (hb : b.Answers outcomes) {run : RunExecutionData}
    (hpin : pinnedData node run = none) (rewire : RewireOutputLogTo) :
    (callsOf env b node runIndex executionData run rewire).length ≤ maxTriesOf node ∧
        ((∀ m < (callsOf env b node runIndex executionData run rewire).length,
          ¬b.Succeeds node executionData (outcomes m)) →
        (callsOf env b node runIndex executionData run rewire).length = maxTriesOf node) ↔
      (∃ m < maxTriesOf node, b.Succeeds node executionData (outcomes m)) ∨
        ∀ m < maxTriesOf node, throwsAfterFailed outcomes m = false := by
  have hrun : runTries env b node runIndex executionData (maxTriesOf node) 0
      { run := run, rewireOutputLogTo := rewire } = (_, _) := rfl
  obtain ⟨t, hcounted, hend⟩ := runTries_counted (n := 0) hb hpin (Nat.zero_le _) le_rfl rfl
    (fun m hm => by cases hm) (counted_zero _ outcomes _) hrun
  change Counted _ _ _ (callsOf env b node runIndex executionData run rewire).length t at hcounted
  change _ ∨ ∃ m, m + 1 = (callsOf env b node runIndex executionData run rewire).length ∧ _ at hend
  generalize (callsOf env b node runIndex executionData run rewire).length = n at *
  have heq := hcounted.eq
  have hnone : (∀ m < maxTriesOf node, throwsAfterFailed outcomes m = false) ↔
      extraCalls outcomes (maxTriesOf node) = 0 := by
    rw [extraCalls, List.countP_eq_zero]
    simp
  have hall : (∀ m < n, ¬b.Succeeds node executionData (outcomes m)) → t = maxTriesOf node := by
    intro hfails
    rcases hend with ht | ⟨m, hm, hok⟩
    · exact ht
    · exact absurd hok (hfails m (by omega))
  rw [hnone]
  constructor
  · rintro ⟨hle, hexact⟩
    by_cases hsucceeds : ∃ m < maxTriesOf node, b.Succeeds node executionData (outcomes m)
    · exact Or.inl hsucceeds
    · push Not at hsucceeds
      have hfails : ∀ m < n, ¬b.Succeeds node executionData (outcomes m) := fun m hm =>
        hsucceeds m (by omega)
      have ht := hall hfails
      rw [hexact hfails, ht] at heq
      exact Or.inr (by omega)
  · rintro (⟨m, hm, hok⟩ | hzero)
    · have hlt : n ≤ m + 1 := by
        by_contra hlt
        exact hcounted.failed m (not_le.1 hlt) hok
      refine ⟨by omega, fun hfails => ?_⟩
      have ht := hall hfails
      have hmn : ¬m < n := fun hmn => hfails m hmn hok
      omega
    · have hle : n ≤ maxTriesOf node := by
        by_contra hlt
        have := hcounted.within (maxTriesOf node) (not_le.1 hlt)
        omega
      refine ⟨hle, fun hfails => ?_⟩
      have ht := hall hfails
      omega

/-! ### Two tries -/

/-- The behaviour with the given outcomes of its calls. -/
def answering (outcomes : ℕ → RunNodeOutcome) : Behaviour where
  runNode k _ := { outcome := outcomes k }

/-- A node with two tries. -/
def nodeTriedTwice : INode := { name := "A", retryOnFail := some true, maxTries := some 2 }

/-- A run of `T` that was requested. -/
def requestedRun : SubNodeExecutionData :=
  { actions := [⟨{ nodeName := "T", input := [], id := "1", type := .aiTool }, "T", 0⟩] }

/-- The entry of a node that requested it. -/
def resumedEntry : IExecuteData where
  node := some nodeTriedTwice
  data := Dict.empty
  metadata := some { subNodeExecutionData := some requestedRun }

/-- An execution in which `T` ran. -/
def runOfT : RunExecutionData := { runData := Dict.empty.set "T" [{}] }

/-- An execution of nothing else. -/
def aloneIn : Environment where
  workflow := Workflow.blank (some .v1)
  getByNameAndVersion _ _ := .error "unknown"
  getSimpleParameterValue _ _ := .error "unknown"

/-- The first call reports an error, the others throw. -/
def failsThenThrows : ℕ → RunNodeOutcome
  | 0 => .data (some [some (.items [{ json := [("error", .str "failed")] }])])
  | _ => .throws (.thrown "failed")

theorem answers_failsThenThrows : (answering failsThenThrows).Answers failsThenThrows where
  outcome _ _ := rfl
  notRequest k request h := by
    cases k <;> cases h

/-- The calls for the entry when the first call reports an error and the others throw. -/
def callsFailing : List RunNodeCall :=
  callsOf aloneIn (answering failsThenThrows) nodeTriedTwice 0 resumedEntry runOfT Dict.empty

theorem runTries_bounded_iff_twice : callsFailing.length ≤ maxTriesOf nodeTriedTwice ∧
      ((∀ m < callsFailing.length,
          ¬(answering failsThenThrows).Succeeds nodeTriedTwice resumedEntry (failsThenThrows m)) →
        callsFailing.length = maxTriesOf nodeTriedTwice) ↔
    (∃ m < maxTriesOf nodeTriedTwice,
        (answering failsThenThrows).Succeeds nodeTriedTwice resumedEntry (failsThenThrows m)) ∨
      ∀ m < maxTriesOf nodeTriedTwice, throwsAfterFailed failsThenThrows m = false :=
  runTries_bounded_iff answers_failsThenThrows rfl Dict.empty

/-- A node with two tries is called three times. -/
theorem throw_after_failed_calls_again : ¬callsFailing.length ≤ maxTriesOf nodeTriedTwice := by
  decide

end N8n
