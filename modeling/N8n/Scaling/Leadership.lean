import N8n.Scaling.MultiMainSetup
import Mathlib.Data.List.Chain

/-!
# Leadership

What the instances take themselves to be, and what Redis holds.

* `MultiMainSetup.leadershipEvents`: a condition under which the events of an instance match its
  leadership, and `MultiMainSetup.silent_follower`: a run in which they do not;
* `MultiMainSetup.takesNoKey`: a condition under which no instance takes the leader key away from
  another, and `MultiMainSetup.stale_leader_clears`: a run in which one does.
-/

namespace N8n

namespace MultiMainSetup

variable {H : Type*} [DecidableEq H]

/-! ### Events -/

omit [DecidableEq H] in
/-- A call of `checkLeader` or `init` of the instance is under way. -/
def Checking (s : MultiMainSetup H) (h : H) : Prop :=
  ∃ c call, s.calls c = some call ∧ call.hostId = h ∧
    call.stage ≠ .clearing ∧ call.stage ≠ .cleared ∧ call.stage ≠ .returned

omit [DecidableEq H] in
/-- No instance emits two takeovers in a row, and one that runs no check is the leader if and only if
it has emitted a takeover last. -/
structure EventsMatch (s : MultiMainSetup H) : Prop where
  alternate : ∀ h, (s.emitted h).IsChain fun e e' => e' = .leaderTakeover → e = .leaderStepdown
  isLeader_iff : ∀ h, ¬ s.Checking h →
    (s.isLeader h = true ↔ (s.emitted h).getLast? = some .leaderTakeover)

omit [DecidableEq H] in
/-- An instance gets the reply to a set-if-absent while it is a follower. -/
def AnsweredAsFollower (s : MultiMainSetup H) : Event H → Prop
  | .reply c => ∀ call keySetSuccessfully, s.calls c = some call →
    call.stage = .setIfNotExists keySetSuccessfully → s.isLeader call.hostId = false
  | _ => True

omit [DecidableEq H] in
/-- The events match the leadership, also while checks are under way. -/
structure InStep (s : MultiMainSetup H) : Prop where
  alternate : ∀ h, (s.emitted h).IsChain fun e e' => e' = .leaderTakeover → e = .leaderStepdown
  isLeader_iff : ∀ h, s.isLeader h = true ↔ (s.emitted h).getLast? = some .leaderTakeover

omit [DecidableEq H] in
theorem inStep_nil : InStep ({} : MultiMainSetup H) where
  alternate h := List.isChain_nil
  isLeader_iff h := by simp

section Events

variable {s : MultiMainSetup H} {h : H}

omit [DecidableEq H] in
theorem InStep.congr {s' : MultiMainSetup H} (hs : InStep s) (hleader : s'.isLeader = s.isLeader)
    (hemitted : s'.emitted = s.emitted) : InStep s' := by
  constructor
  · rw [hemitted]
    exact hs.alternate
  · rw [hleader, hemitted]
    exact hs.isLeader_iff

theorem InStep.takeover (hs : InStep s) (hfollower : s.isLeader h = false) :
    InStep ((s.markAsLeader h).emit h .leaderTakeover) := by
  have hlast : (s.emitted h).getLast? ≠ some .leaderTakeover := by
    intro hlast
    rw [(hs.isLeader_iff h).2 hlast] at hfollower
    cases hfollower
  constructor
  · intro h'
    show (Function.update s.emitted h (s.emitted h ++ [.leaderTakeover]) h').IsChain _
    by_cases heq : h' = h
    · subst heq
      rw [Function.update_self]
      refine List.isChain_append.2 ⟨hs.alternate h', List.isChain_singleton _, ?_⟩
      intro e he e' _ _
      cases e with
      | leaderStepdown => rfl
      | leaderTakeover => exact absurd he hlast
    · rw [Function.update_of_ne heq]
      exact hs.alternate h'
  · intro h'
    show Function.update s.isLeader h true h' = true ↔
      (Function.update s.emitted h (s.emitted h ++ [.leaderTakeover]) h').getLast? = _
    by_cases heq : h' = h
    · subst heq
      simp
    · rw [Function.update_of_ne heq, Function.update_of_ne heq]
      exact hs.isLeader_iff h'

theorem InStep.stepdown (hs : InStep s) : InStep ((s.markAsFollower h).emit h .leaderStepdown) := by
  constructor
  · intro h'
    show (Function.update s.emitted h (s.emitted h ++ [.leaderStepdown]) h').IsChain _
    by_cases heq : h' = h
    · subst heq
      rw [Function.update_self]
      refine List.isChain_append.2 ⟨hs.alternate h', List.isChain_singleton _, ?_⟩
      intro e _ e' he' htakeover
      obtain rfl : MultiMainEvent.leaderStepdown = e' := by simpa using he'
      cases htakeover
    · rw [Function.update_of_ne heq]
      exact hs.alternate h'
  · intro h'
    show Function.update s.isLeader h false h' = true ↔
      (Function.update s.emitted h (s.emitted h ++ [.leaderStepdown]) h').getLast? = _
    by_cases heq : h' = h
    · subst heq
      simp
    · rw [Function.update_of_ne heq, Function.update_of_ne heq]
      exact hs.isLeader_iff h'

theorem InStep.follower (hs : InStep s) (hfollower : s.isLeader h = false) :
    InStep (s.markAsFollower h) := by
  have hsame : Function.update s.isLeader h false = s.isLeader := by
    funext h'
    by_cases heq : h' = h
    · subst heq
      rw [Function.update_self, hfollower]
    · rw [Function.update_of_ne heq]
  exact hs.congr hsame rfl

theorem InStep.checkLeader (hs : InStep s) (c : ℕ) (call : LeaderCall H) (leaderId : Option H) :
    InStep (s.checkLeader c call leaderId) := by
  cases leaderId with
  | none => exact InStep.congr (hs.stepdown (h := call.hostId)) rfl rfl
  | some leaderId =>
    rw [MultiMainSetup.checkLeader]
    by_cases hown : leaderId = call.hostId
    · rw [if_pos hown]
      by_cases hleader : s.isLeader call.hostId = true
      · rw [if_pos hleader]
        exact hs.congr rfl rfl
      · rw [if_neg hleader]
        exact InStep.congr (hs.takeover (by simpa using hleader)) rfl rfl
    · rw [if_neg hown]
      by_cases hleader : s.isLeader call.hostId = true
      · rw [if_pos hleader]
        exact InStep.congr (hs.stepdown (h := call.hostId)) rfl rfl
      · rw [if_neg hleader]
        exact hs.congr rfl rfl

theorem InStep.tryBecomeLeader (hs : InStep s) (c : ℕ) {call : LeaderCall H}
    (keySetSuccessfully : Bool) (hfollower : s.isLeader call.hostId = false) :
    InStep (s.tryBecomeLeader c call keySetSuccessfully) := by
  have hmarked : InStep (if keySetSuccessfully then
      (s.markAsLeader call.hostId).emit call.hostId .leaderTakeover
      else s.markAsFollower call.hostId) := by
    split_ifs
    · exact hs.takeover hfollower
    · exact hs.follower hfollower
  unfold MultiMainSetup.tryBecomeLeader
  dsimp only
  by_cases hinit : call.isInit = true
  · rw [if_pos hinit]
    exact hmarked.congr rfl rfl
  · rw [if_neg hinit]
    exact hmarked.congr rfl rfl

omit [DecidableEq H] in
theorem InStep.execute (hs : InStep s) (c : ℕ) (call : LeaderCall H) :
    InStep (s.execute c call) := by
  unfold MultiMainSetup.execute
  split
  · exact hs.congr rfl rfl
  · split <;> exact hs.congr rfl rfl
  · exact hs.congr rfl rfl
  · exact hs.congr rfl rfl
  · exact hs

/-- **One event.** -/
theorem InStep.step (hs : InStep s) {e : Event H} (he : s.AnsweredAsFollower e) :
    InStep (s.step e) := by
  cases e with
  | init h =>
    rw [MultiMainSetup.step]
    split_ifs
    · exact hs
    · exact hs.congr rfl rfl
  | checkLeader h =>
    rw [MultiMainSetup.step]
    split_ifs
    · exact hs.congr rfl rfl
    · exact hs
  | shutdown h =>
    rw [MultiMainSetup.step, MultiMainSetup.shutdown]
    dsimp only
    split_ifs <;> exact hs.congr rfl rfl
  | execute c =>
    rw [MultiMainSetup.step]
    split
    · exact hs.execute c _
    · exact hs
  | reply c =>
    rw [MultiMainSetup.step]
    cases hcall : s.calls c with
    | none => exact hs
    | some call =>
      show InStep (s.reply c call)
      unfold reply
      split
      · exact hs.checkLeader c call _
      · rename_i keySetSuccessfully hstage
        exact hs.tryBecomeLeader c keySetSuccessfully (he call keySetSuccessfully hcall hstage)
      · exact hs.congr rfl rfl
      · exact hs.congr rfl rfl
      · exact hs
  | expire => exact hs.congr rfl rfl

end Events

/-- **Leadership events match leadership**, in every run in which each reply to a set-if-absent finds
a follower. -/
theorem leadershipEvents (events : List (Event H))
    (h : Trace.EachStep step AnsweredAsFollower ({} : MultiMainSetup H) events) :
    ∀ pre, pre <+: events → EventsMatch (Trace.run step ({} : MultiMainSetup H) pre) := by
  intro pre hpre
  have hs := h.invariant inStep_nil (fun _ _ hs he => InStep.step hs he) pre hpre
  exact ⟨hs.alternate, fun h _ => hs.isLeader_iff h⟩

theorem leadershipEvents_expired :
    let events : List (Event String) := [.init "a", .init "b", .execute 0, .execute 1, .reply 0,
      .reply 1, .expire, .checkLeader "a", .checkLeader "b", .execute 2, .reply 2, .execute 2,
      .reply 2, .execute 3, .reply 3]
    ∀ pre, pre <+: events → EventsMatch (Trace.run step ({} : MultiMainSetup String) pre) := by
  refine leadershipEvents _ ?_
  simp only [Trace.eachStep_cons]
  refine ⟨trivial, trivial, trivial, trivial, ?_, ?_, trivial, trivial, trivial, trivial, ?_,
    trivial, ?_, trivial, ?_, Trace.eachStep_nil⟩
  all_goals
    intro call keySetSuccessfully hcall hstage
    obtain rfl := Option.some.inj hcall
  · decide
  · decide
  · cases hstage
  · decide
  · cases hstage

/-- Two checks of an instance overlap: both find the key expired and try to set it. -/
def overlappingChecks : List (Event String) :=
  [.init "a", .execute 0, .reply 0, .expire, .checkLeader "a", .checkLeader "a", .execute 1,
    .execute 2, .reply 1, .reply 2, .execute 1, .execute 2, .reply 1, .reply 2]

/-- The condition is needed: one of the two checks wins, and the other one marks the instance as a
follower. -/
theorem silent_follower : ¬ ∀ events : List (Event String), ∀ pre, pre <+: events →
    EventsMatch (Trace.run step ({} : MultiMainSetup String) pre) := by
  intro h
  have hmatch := (h overlappingChecks _ (List.prefix_refl _)).isLeader_iff "a"
  have hidle : ¬ (Trace.run step ({} : MultiMainSetup String) overlappingChecks).Checking "a" := by
    rintro ⟨c, call, hcall, -, -, -, hstage⟩
    match c with
    | 0 | 1 | 2 =>
      refine hstage ?_
      obtain rfl := Option.some.inj hcall
      rfl
    | c + 3 => cases hcall
  revert hmatch
  simp only [hidle, not_false_eq_true, true_implies]
  decide

/-! ### The leader key -/

/-- A command of an instance does not remove or replace the key that another one holds. -/
def KeepsOthersKey (s : MultiMainSetup H) : Event H → Prop
  | .execute c => ∀ call, s.calls c = some call → ∀ h ≠ call.hostId, s.leaderKey = some h →
    (s.step (.execute c)).leaderKey = some h
  | _ => True

omit [DecidableEq H] in
/-- An instance that is marked as the leader shuts down while no other one holds the key, and until
its delete is executed no other one gets the key. -/
def ShutsDownAlone (s : MultiMainSetup H) : Event H → Prop
  | .shutdown h => s.isLeader h = true → ∀ h', s.leaderKey = some h' → h' = h
  | .execute c => ∀ call, s.calls c = some call → call.stage = .settingIfNotExists →
    s.leaderKey = none → ∀ c' call', s.calls c' = some call' → call'.stage = .clearing →
      call'.hostId = call.hostId
  | _ => True

omit [DecidableEq H] in
/-- While a delete is under way, no other instance holds the key. -/
def ClearsOwn (s : MultiMainSetup H) : Prop :=
  ∀ c call, s.calls c = some call → call.stage = .clearing →
    ∀ h, s.leaderKey = some h → h = call.hostId

omit [DecidableEq H] in
theorem clearsOwn_nil : ClearsOwn ({} : MultiMainSetup H) := by
  intro c call hcall
  cases hcall

section LeaderKey

variable {s : MultiMainSetup H}

omit [DecidableEq H] in
/-- A step that sends no delete, and after which the key is not held anew. -/
theorem ClearsOwn.of_calls {s' : MultiMainSetup H} (hs : ClearsOwn s) {c : ℕ}
    (call : LeaderCall H) (hstage : call.stage ≠ .clearing)
    (hcalls : s'.calls = Function.update s.calls c (some call))
    (hkey : ∀ h, s'.leaderKey = some h → s.leaderKey = some h) : ClearsOwn s' := by
  intro c' call' hcall' hclearing h hh
  rw [hcalls] at hcall'
  by_cases hc : c' = c
  · subst hc
    rw [Function.update_self] at hcall'
    obtain rfl := Option.some.inj hcall'
    exact absurd hclearing hstage
  · rw [Function.update_of_ne hc] at hcall'
    exact hs c' call' hcall' hclearing h (hkey h hh)

theorem ClearsOwn.shutdown (hs : ClearsOwn s) {h : H} (he : s.ShutsDownAlone (.shutdown h)) :
    ClearsOwn (s.shutdown h) := by
  unfold MultiMainSetup.shutdown
  by_cases hleader : s.isLeader h = true
  · simp only [hleader, if_true]
    intro c call hcall hclearing h' hh'
    by_cases hc : c = s.nextCall
    · subst hc
      obtain rfl : { hostId := h, stage := .clearing } = call := by
        simpa [MultiMainSetup.newCall] using hcall
      exact he hleader h' hh'
    · refine hs c call ?_ hclearing h' hh'
      simpa [MultiMainSetup.newCall, Function.update_of_ne hc] using hcall
  · simp only [hleader]
    exact hs

omit [DecidableEq H] in
theorem ClearsOwn.execute (hs : ClearsOwn s) {c : ℕ} {call : LeaderCall H}
    (hcall : s.calls c = some call) (he : s.ShutsDownAlone (.execute c)) :
    ClearsOwn (s.execute c call) := by
  unfold MultiMainSetup.execute
  split
  · exact hs.of_calls { call with stage := .got s.leaderKey } (by simp) rfl
      fun _ h => h
  · rename_i hstage
    split
    · rename_i hkey
      -- the instance gets the key, so the deletes under way are its own
      intro c' call' hcall' hclearing h hh
      obtain rfl : call.hostId = h := Option.some.inj hh
      change Function.update s.calls c _ c' = some call' at hcall'
      by_cases hc : c' = c
      · subst hc
        rw [Function.update_self] at hcall'
        obtain rfl := Option.some.inj hcall'
        cases hclearing
      · rw [Function.update_of_ne hc] at hcall'
        exact (he call hcall hstage hkey c' call' hcall' hclearing).symm
    · exact hs.of_calls { call with stage := .setIfNotExists false } (by simp) rfl
        fun _ h => h
  · exact hs.of_calls { call with stage := .setExpiration } (by simp) rfl fun _ h => h
  · intro c' call' _ _ h hh
    cases hh
  · exact hs

theorem ClearsOwn.checkLeader (hs : ClearsOwn s) (c : ℕ) (call : LeaderCall H)
    (leaderId : Option H) : ClearsOwn (s.checkLeader c call leaderId) := by
  cases leaderId with
  | none =>
    exact hs.of_calls { call with stage := .settingIfNotExists } (by simp) rfl
      fun _ h => h
  | some leaderId =>
    rw [MultiMainSetup.checkLeader]
    by_cases hown : leaderId = call.hostId
    · rw [if_pos hown]
      dsimp only
      split_ifs
      all_goals
        exact hs.of_calls { call with stage := .settingExpiration } (by simp) rfl
          fun _ h => h
    · rw [if_neg hown]
      dsimp only
      split_ifs
      all_goals
        exact hs.of_calls { call with stage := .returned } (by simp) rfl fun _ h => h

theorem ClearsOwn.tryBecomeLeader (hs : ClearsOwn s) (c : ℕ) (call : LeaderCall H)
    (keySetSuccessfully : Bool) : ClearsOwn (s.tryBecomeLeader c call keySetSuccessfully) := by
  unfold MultiMainSetup.tryBecomeLeader
  dsimp only
  split_ifs
  all_goals
    exact hs.of_calls { call with stage := .returned } (by simp) rfl fun _ h => h

/-- **One event.** -/
theorem ClearsOwn.step (hs : ClearsOwn s) {e : Event H} (he : s.ShutsDownAlone e) :
    ClearsOwn (s.step e) := by
  cases e with
  | init h =>
    rw [MultiMainSetup.step]
    split_ifs
    · exact hs
    · exact hs.of_calls { hostId := h, isInit := true, stage := .settingIfNotExists }
        (by simp) rfl fun _ h => h
  | checkLeader h =>
    rw [MultiMainSetup.step]
    split_ifs
    · exact hs.of_calls { hostId := h, stage := .getting } (by simp) rfl fun _ h => h
    · exact hs
  | shutdown h => exact hs.shutdown he
  | execute c =>
    rw [MultiMainSetup.step]
    cases hcall : s.calls c with
    | none => exact hs
    | some call => exact hs.execute hcall he
  | reply c =>
    rw [MultiMainSetup.step]
    cases hcall : s.calls c with
    | none => exact hs
    | some call =>
      show ClearsOwn (s.reply c call)
      unfold reply
      split
      · exact hs.checkLeader c call _
      · exact hs.tryBecomeLeader c call _
      · exact hs.of_calls { call with stage := .returned } (by simp) rfl fun _ h => h
      · exact hs.of_calls { call with stage := .returned } (by simp) rfl fun _ h => h
      · exact hs
  | expire =>
    intro c call _ _ h hh
    cases hh

theorem ClearsOwn.keepsOthersKey (hs : ClearsOwn s) (e : Event H) : s.KeepsOthersKey e := by
  cases e with
  | execute c =>
    intro call hcall h hother hkey
    simp only [MultiMainSetup.step, hcall]
    unfold MultiMainSetup.execute
    split
    · exact hkey
    · rw [hkey]
      exact hkey
    · exact hkey
    · rename_i hstage
      exact absurd (hs c call hcall hstage h hkey) hother
    · exact hkey
  | _ => trivial

end LeaderKey

/-- **No instance takes the leader key away from another**, in every run in which instances marked as
leaders shut down while no other one holds or gets the key. -/
theorem takesNoKey (events : List (Event H))
    (h : Trace.EachStep step ShutsDownAlone ({} : MultiMainSetup H) events) :
    Trace.EachStep step KeepsOthersKey ({} : MultiMainSetup H) events :=
  h.imp clearsOwn_nil (fun _ _ hs he => ClearsOwn.step hs he) fun _ e hs _ => hs.keepsOthersKey e

theorem takesNoKey_shutdown :
    let events : List (Event String) := [.init "a", .execute 0, .reply 0, .shutdown "a", .execute 1,
      .init "b", .execute 2, .reply 2]
    (Trace.run step ({} : MultiMainSetup String) events).leaderKey = some "b" ∧
      Trace.EachStep step KeepsOthersKey ({} : MultiMainSetup String) events := by
  refine ⟨by decide, takesNoKey _ ?_⟩
  simp only [Trace.eachStep_cons]
  refine ⟨trivial, ?_, trivial, ?_, ?_, trivial, ?_, trivial, Trace.eachStep_nil⟩
  · intro call hcall _ _ c' call' hcall' hclearing
    match c' with
    | 0 =>
      obtain rfl := Option.some.inj hcall'
      cases hclearing
    | c + 1 => cases hcall'
  · rintro - h hh
    exact (Option.some.inj hh).symm
  · rintro call hcall hstage
    obtain rfl := Option.some.inj hcall
    cases hstage
  · intro call hcall _ _ c' call' hcall' hclearing
    match c' with
    | 0 | 1 | 2 =>
      obtain rfl := Option.some.inj hcall'
      cases hclearing
    | c + 3 => cases hcall'

/-- The condition is needed: the leader has lost the key without knowing it, and shuts down. -/
theorem stale_leader_clears : ¬ ∀ events : List (Event String),
    Trace.EachStep step KeepsOthersKey ({} : MultiMainSetup String) events := by
  intro h
  have hall := h [.init "a", .execute 0, .reply 0, .expire, .init "b", .execute 1, .reply 1,
    .shutdown "a", .execute 2]
  simp only [Trace.eachStep_cons] at hall
  obtain ⟨-, -, -, -, -, -, -, -, hlast, -⟩ := hall
  have hkept := hlast _ rfl "b" (by decide) rfl
  revert hkept
  decide

end MultiMainSetup

end N8n
