import N8n.NodeParameters.Schema
import Mathlib.Data.List.Range

/-!
# The order in which parameters are resolved

The loop of `getParameterResolveOrder` turn by turn, with the dependencies that it is given.  The
`continue` for a missing dependency goes on with the next dependency, so the property is added to the
order although it is also put back.

* `ownDependencies`, `dependenciesOf`: the dependencies, in an object that inherits from
  `Object.prototype`;
* `ResolveState.turn`, `ResolveState.run`: one turn and a bounded number of turns;
* `FirstPass.outcome`: the first turn of every property;
* `run_drain`, `Spinning.throws`: the turns after that;
* `resolveOrder_isDependencyOrder_iff`: the loop ends, and when its order is one of dependencies.
-/

namespace N8n

/-! ### The dependencies -/

/-- The property has a rule that names a parameter. -/
def INodeProperties.hasRules (p : INodeProperties) : Bool :=
  p.info.displayOptions.any fun displayOptions =>
    !(displayOptions.showRules.getD [] ++ displayOptions.hideRules.getD []).isEmpty

/-- The names that one property adds to its dependencies. -/
def addDependencies (dependencies : Dict String (List String)) (p : INodeProperties) :
    Dict String (List String) :=
  dependencies.set p.name ((p.info.displayOptions.elim [] ruleNames).foldl
    (fun names name => if name ∈ names then names else names ++ [name])
    ((dependencies.get? p.name).getD []))

/-- `getParameterDependencies`, whose result inherits from `Object.prototype`: a member of that is
taken for a list, and has no `includes`. -/
def ownDependencies (nodePropertiesArray : List INodeProperties) :
    Except JsError (Dict String (List String)) :=
  nodePropertiesArray.foldlM (fun dependencies p =>
    if p.name ∈ objectPrototypeKeys then
      if p.hasRules then .error .typeError else .ok dependencies
    else .ok (addDependencies dependencies p)) .empty

/-- The dependencies of a name, gone through if their `length` is not zero; an inherited function has
as many as it takes arguments and cannot be gone through. -/
def dependenciesOf (parameterDependencies : Dict String (List String)) (name : String) :
    Except JsError (List String) :=
  match parameterDependencies.get? name with
  | some dependencies => .ok dependencies
  | none =>
    if name = "toString" ∨ name = "valueOf" ∨ name = "toLocaleString" then .ok []
    else .error .typeError

/-! ### The loop -/

/-- The dependencies that are not yet resolved; those on the root level are taken to be. -/
def missing (dependencies resolvedParameters : List String) : List String :=
  dependencies.filter fun dependency =>
    dependency ∉ resolvedParameters ∧ dependency.toList.head? ≠ some '/'

namespace ResolveState

section Loop

variable (props : List INodeProperties) (deps : String → Except JsError (List String))

/-- The variables before the first turn. -/
def start : ResolveState where
  executionOrder := []
  indexToResolve := List.range props.length
  resolvedParameters := []
  lastIndexLength := props.length
  lastIndexReduction := -1
  iterations := 0

/-- A property without dependencies is added. -/
def add (s : ResolveState) (index : ℕ) (rest : List ℕ) (name : String) : ResolveState :=
  { s with
    executionOrder := s.executionOrder ++ [index]
    indexToResolve := rest
    resolvedParameters := s.resolvedParameters ++ [name]
    iterations := s.iterations + 1 }

/-- A property with dependencies is put back once for each missing one, and added all the same. -/
def addAgain (s : ResolveState) (index : ℕ) (rest : List ℕ) (name : String)
    (dependencies : List String) : ResolveState :=
  let indexToResolve := rest ++ (missing dependencies s.resolvedParameters).map fun _ => index
  { executionOrder := s.executionOrder ++ [index]
    indexToResolve := indexToResolve
    resolvedParameters := s.resolvedParameters ++ [name]
    lastIndexLength := indexToResolve.length
    lastIndexReduction :=
      if indexToResolve.length < s.lastIndexLength then ((s.iterations + 1 : ℕ) : ℤ)
      else s.lastIndexReduction
    iterations := s.iterations + 1 }

/-- One turn: the loop returns, throws or goes on. -/
def turn (s : ResolveState) : Except JsError (List ℕ) ⊕ ResolveState :=
  match s.indexToResolve with
  | [] => .inl (.ok s.executionOrder)
  | index :: rest =>
    match props[index]? with
    | none => .inl (.error .typeError)
    | some property =>
      match deps property.name with
      | .error e => .inl (.error e)
      | .ok [] => .inr (s.add index rest property.name)
      | .ok dependencies =>
        let s' := s.addAgain index rest property.name dependencies
        if (s'.iterations : ℤ) > s'.lastIndexReduction + props.length then
          .inl (.error maxIterationsError)
        else .inr s'

/-- What the loop ends with, if it ends within so many turns. -/
def run : ℕ → ResolveState → Option (Except JsError (List ℕ))
  | 0, _ => none
  | turns + 1, s =>
    match s.turn props deps with
    | .inl outcome => some outcome
    | .inr s' => run turns s'

end Loop

variable {props : List INodeProperties} {deps : String → Except JsError (List String)}
  {s s' : ResolveState}

theorem run_succ_of_ends {outcome : Except JsError (List ℕ)}
    (h : s.turn props deps = .inl outcome) (turns : ℕ) :
    run props deps (turns + 1) s = some outcome := by
  rw [run, h]

theorem run_succ_of_goesOn (h : s.turn props deps = .inr s') (turns : ℕ) :
    run props deps (turns + 1) s = run props deps turns s' := by
  rw [run, h]

/-- More turns do not change what the loop ends with. -/
theorem run_mono {turns : ℕ} {outcome : Except JsError (List ℕ)}
    (h : run props deps turns s = some outcome) (more : ℕ) :
    run props deps (turns + more) s = some outcome := by
  induction turns generalizing s with
  | zero => cases h
  | succ turns ih =>
    rw [Nat.succ_add]
    cases hturn : s.turn props deps with
    | inl outcome' =>
      rw [run_succ_of_ends hturn] at h ⊢
      exact h
    | inr s' =>
      rw [run_succ_of_goesOn hturn] at h ⊢
      exact ih h

/-- The loop ends with this outcome. -/
def Ends (props : List INodeProperties) (deps : String → Except JsError (List String))
    (s : ResolveState) (outcome : Except JsError (List ℕ)) : Prop :=
  ∃ bound, ∀ turns, bound ≤ turns → run props deps turns s = some outcome

theorem ends_of_run (turns : ℕ) {outcome : Except JsError (List ℕ)}
    (h : run props deps turns s = some outcome) : Ends props deps s outcome := by
  refine ⟨turns, fun more hle => ?_⟩
  obtain ⟨k, rfl⟩ := Nat.exists_eq_add_of_le hle
  exact run_mono h k

theorem Ends.of_turn {outcome : Except JsError (List ℕ)} (hturn : s.turn props deps = .inr s')
    (h : Ends props deps s' outcome) : Ends props deps s outcome := by
  obtain ⟨bound, hbound⟩ := h
  refine ends_of_run (bound + 1) ?_
  rw [run_succ_of_goesOn hturn]
  exact hbound bound le_rfl

/-! ### The cases of a turn -/

section Turn

variable {index : ℕ} {rest : List ℕ} {p : INodeProperties}

theorem turn_of_throws (hqueue : s.indexToResolve = index :: rest) (hp : props[index]? = some p)
    {e : JsError} (hdeps : deps p.name = .error e) : s.turn props deps = .inl (.error e) := by
  simp [turn, hqueue, hp, hdeps]

theorem turn_of_nil (hqueue : s.indexToResolve = index :: rest) (hp : props[index]? = some p)
    (hdeps : deps p.name = .ok []) : s.turn props deps = .inr (s.add index rest p.name) := by
  simp [turn, hqueue, hp, hdeps]

theorem turn_of_deps (hqueue : s.indexToResolve = index :: rest) (hp : props[index]? = some p)
    {dependencies : List String} (hdeps : deps p.name = .ok dependencies) (hne : dependencies ≠ []) :
    s.turn props deps =
      if ((s.addAgain index rest p.name dependencies).iterations : ℤ) >
          (s.addAgain index rest p.name dependencies).lastIndexReduction + props.length then
        .inl (.error maxIterationsError)
      else .inr (s.addAgain index rest p.name dependencies) := by
  obtain ⟨d, dependencies, rfl⟩ := List.exists_cons_of_ne_nil hne
  simp only [turn, hqueue, hp, hdeps]

end Turn

/-! ### The first turn of every property -/

/-- The dependencies of a property, where they can be read. -/
def depsOf (deps : String → Except JsError (List String)) (p : INodeProperties) : List String :=
  match deps p.name with
  | .ok dependencies => dependencies
  | .error _ => []

/-- The indices that are put back in the first turns of the properties from `index` on. -/
def putBack (deps : String → Except JsError (List String)) :
    (resolvedParameters : List String) → (index : ℕ) → List INodeProperties → List ℕ
  | _, _, [] => []
  | resolvedParameters, index, p :: rest =>
    ((missing (depsOf deps p) resolvedParameters).map fun _ => index) ++
      putBack deps (resolvedParameters ++ [p.name]) (index + 1) rest

/-- In the first turns of the properties the queue never gets shorter than it was after the last
property with dependencies, and the last one has some: every property with dependencies lacks more of
them than there are properties without any before it, `since` the last one with some. -/
def neverShrinks (deps : String → Except JsError (List String)) :
    (resolvedParameters : List String) → (since : ℕ) → List INodeProperties → Bool
  | _, since, [] => since = 0
  | resolvedParameters, since, p :: rest =>
    if depsOf deps p = [] then neverShrinks deps (resolvedParameters ++ [p.name]) (since + 1) rest
    else decide (since < (missing (depsOf deps p) resolvedParameters).length) &&
      neverShrinks deps (resolvedParameters ++ [p.name]) 0 rest

/-- Some of the properties have had their first turns; `since` counts those at the end that have no
dependencies. -/
structure FirstPass (pre post : List INodeProperties) (back : List ℕ) (since : ℕ)
    (s : ResolveState) : Prop where
  order : s.executionOrder = List.range pre.length
  queue : s.indexToResolve = List.range' pre.length post.length ++ back
  resolved : s.resolvedParameters = pre.map INodeProperties.name
  turns : s.iterations = pre.length
  length : s.lastIndexLength = post.length + back.length + since
  reduced : s.lastIndexReduction = -1 ∨ 1 ≤ s.lastIndexReduction

theorem firstPass_start (props : List INodeProperties) : FirstPass [] props [] 0 (start props) where
  order := rfl
  queue := by simp [start, List.range_eq_range']
  resolved := rfl
  turns := rfl
  length := rfl
  reduced := .inl rfl

section FirstPass

variable {pre post : List INodeProperties} {p : INodeProperties} {back : List ℕ} {since : ℕ}

theorem FirstPass.queue_cons (h : FirstPass pre (p :: post) back since s) :
    s.indexToResolve = pre.length :: (List.range' (pre.length + 1) post.length ++ back) := by
  rw [h.queue, List.length_cons, List.range'_succ, List.cons_append]

theorem FirstPass.add (h : FirstPass pre (p :: post) back since s) :
    FirstPass (pre ++ [p]) post back (since + 1)
      (s.add pre.length (List.range' (pre.length + 1) post.length ++ back) p.name) where
  order := by simp [ResolveState.add, h.order, List.range_succ]
  queue := by simp [ResolveState.add]
  resolved := by simp [ResolveState.add, h.resolved]
  turns := by simp [ResolveState.add, h.turns]
  length := by
    simp only [ResolveState.add, h.length, List.length_cons]
    omega
  reduced := h.reduced

theorem FirstPass.addAgain (h : FirstPass pre (p :: post) back since s)
    (dependencies : List String) :
    FirstPass (pre ++ [p]) post
      (back ++ (missing dependencies (pre.map INodeProperties.name)).map fun _ => pre.length) 0
      (s.addAgain pre.length (List.range' (pre.length + 1) post.length ++ back) p.name
        dependencies) where
  order := by simp [ResolveState.addAgain, h.order, List.range_succ]
  queue := by simp [ResolveState.addAgain, h.resolved]
  resolved := by simp [ResolveState.addAgain, h.resolved]
  turns := by simp [ResolveState.addAgain, h.turns]
  length := by
    simp only [ResolveState.addAgain, h.resolved, List.length_append, List.length_range',
      List.length_map]
    omega
  reduced := by
    simp only [ResolveState.addAgain]
    split
    · exact .inr (by omega)
    · exact h.reduced

/-- The queue gets shorter when fewer dependencies are missing. -/
theorem FirstPass.reduction (h : FirstPass pre (p :: post) back since s)
    (dependencies : List String) :
    (s.addAgain pre.length (List.range' (pre.length + 1) post.length ++ back) p.name
        dependencies).lastIndexReduction =
      if (missing dependencies (pre.map INodeProperties.name)).length ≤ since
        then ((pre.length + 1 : ℕ) : ℤ) else s.lastIndexReduction := by
  have hiff : (List.range' (pre.length + 1) post.length ++ back ++
      (missing dependencies s.resolvedParameters).map fun _ => pre.length).length <
        s.lastIndexLength ↔ (missing dependencies (pre.map INodeProperties.name)).length ≤ since := by
    rw [h.length, h.resolved]
    simp only [List.length_append, List.length_range', List.length_map, List.length_cons]
    omega
  simp only [ResolveState.addAgain, hiff, h.turns]

/-- The loop throws in its first turns. -/
def ThrowsFirst (deps : String → Except JsError (List String)) (pre post : List INodeProperties)
    (since : ℕ) (s : ResolveState) : Prop :=
  (∃ p ∈ post, ∃ e, deps p.name = .error e) ∨
    (s.lastIndexReduction = -1 ∧ post ≠ [] ∧
      neverShrinks deps (pre.map INodeProperties.name) since post = true)

theorem exists_error_cons_iff {dependencies : List String} (hdeps : deps p.name = .ok dependencies) :
    (∃ q ∈ p :: post, ∃ e, deps q.name = .error e) ↔ ∃ q ∈ post, ∃ e, deps q.name = .error e := by
  simp [hdeps]

theorem throwsFirst_add_iff (hdeps : deps p.name = .ok []) (index : ℕ) (rest : List ℕ) :
    ThrowsFirst deps pre (p :: post) since s ↔
      ThrowsFirst deps (pre ++ [p]) post (since + 1) (s.add index rest p.name) := by
  have hof : depsOf deps p = [] := by simp [depsOf, hdeps]
  rw [ThrowsFirst, ThrowsFirst, exists_error_cons_iff hdeps, neverShrinks, if_pos hof,
    List.map_append, List.map_singleton]
  refine or_congr_right (and_congr_right fun _ => ?_)
  cases post with
  | nil => simp [neverShrinks]
  | cons q post => simp

theorem FirstPass.throwsFirst_addAgain_iff (h : FirstPass pre (p :: post) back since s)
    {dependencies : List String} (hdeps : deps p.name = .ok dependencies) (hne : dependencies ≠ [])
    (hgoes : s.lastIndexReduction = -1 → post = [] →
      (missing dependencies (pre.map INodeProperties.name)).length ≤ since) :
    ThrowsFirst deps pre (p :: post) since s ↔
      ThrowsFirst deps (pre ++ [p]) post 0
        (s.addAgain pre.length (List.range' (pre.length + 1) post.length ++ back) p.name
          dependencies) := by
  have hof : depsOf deps p = dependencies := by simp [depsOf, hdeps]
  rw [ThrowsFirst, ThrowsFirst, exists_error_cons_iff hdeps, neverShrinks, hof, if_neg hne,
    h.reduction, List.map_append, List.map_singleton, Bool.and_eq_true, decide_eq_true_iff]
  refine or_congr_right ?_
  rcases Nat.lt_or_ge since (missing dependencies (pre.map INodeProperties.name)).length with hlt | hle
  · rw [if_neg (by omega)]
    refine and_congr_right fun hred => ?_
    have hpost : post ≠ [] := fun hpost => absurd (hgoes hred hpost) (by omega)
    simp [hlt, hpost]
  · rw [if_pos hle]
    constructor
    · rintro ⟨-, -, hlt, -⟩
      omega
    · rintro ⟨hred, -⟩
      omega

/-- **The first turns**: the loop throws, or it has added every property once, and has put some
back. -/
theorem FirstPass.outcome (h : FirstPass pre post back since s) (hprops : props = pre ++ post) :
    (ThrowsFirst deps pre post since s ∧ ∃ e, Ends props deps s (.error e)) ∨
      (¬ ThrowsFirst deps pre post since s ∧ ∃ s' since',
        FirstPass props [] (back ++ putBack deps (pre.map INodeProperties.name) pre.length post)
          since' s' ∧ ∀ outcome, Ends props deps s' outcome → Ends props deps s outcome) := by
  induction post generalizing pre back since s with
  | nil =>
    rw [List.append_nil] at hprops
    subst hprops
    refine .inr ⟨by simp [ThrowsFirst], s, since, ?_, fun _ => id⟩
    rwa [putBack, List.append_nil]
  | cons p post ih =>
    have hp : props[pre.length]? = some p := by simp [hprops]
    have hnext : props = pre ++ [p] ++ post := by simp [hprops]
    have hnames :
    (pre ++ [p]).map INodeProperties.name = pre.map INodeProperties.name ++ [p.name] := by
      simp
    cases hdeps : deps p.name with
    | error e =>
      refine .inl ⟨.inl ⟨p, List.mem_cons_self, e, hdeps⟩, e, ends_of_run 1 ?_⟩
      exact run_succ_of_ends (turn_of_throws h.queue_cons hp hdeps) 0
    | ok dependencies =>
      have hof : depsOf deps p = dependencies := by simp [depsOf, hdeps]
      rw [putBack, hof]
      by_cases hne : dependencies = []
      · subst hne
        have hturn := turn_of_nil h.queue_cons hp hdeps
        rw [throwsFirst_add_iff hdeps pre.length
          (List.range' (pre.length + 1) post.length ++ back)]
        rcases ih h.add hnext with ⟨hthrows, e, hends⟩ | ⟨hthrows, s', since', hs', hends⟩
        · exact .inl ⟨hthrows, e, hends.of_turn hturn⟩
        · refine .inr ⟨hthrows, s', since', ?_, fun outcome h => (hends outcome h).of_turn hturn⟩
          simpa [missing, hnames] using hs'
      · have hturn := turn_of_deps h.queue_cons hp hdeps hne
        have hred := h.reduction dependencies
        have hiterations : (s.addAgain pre.length (List.range' (pre.length + 1) post.length ++ back)
            p.name dependencies).iterations = pre.length + 1 := by
          rw [ResolveState.addAgain, h.turns]
        have hlength : props.length = pre.length + (post.length + 1) := by
          rw [hprops, List.length_append, List.length_cons]
        rw [hiterations, hlength] at hturn
        by_cases hstops : s.lastIndexReduction = -1 ∧ post = [] ∧
            since < (missing dependencies (pre.map INodeProperties.name)).length
        · -- the last property, and the queue never got shorter
          obtain ⟨hreduction, rfl, hlt⟩ := hstops
          rw [if_neg (by omega), hreduction] at hred
          rw [hred, if_pos (by rw [List.length_nil]; omega)] at hturn
          refine .inl ⟨.inr ⟨hreduction, by simp, ?_⟩, _, ends_of_run 1 (run_succ_of_ends hturn 0)⟩
          simp [neverShrinks, hof, hne, hlt]
        · have hgoes : s.lastIndexReduction = -1 → post = [] →
              (missing dependencies (pre.map INodeProperties.name)).length ≤ since :=
            fun hred hpost => Nat.le_of_not_lt fun hlt => hstops ⟨hred, hpost, hlt⟩
          have hpost : s.lastIndexReduction = -1 →
              since < (missing dependencies (pre.map INodeProperties.name)).length →
                0 < post.length :=
            fun hred hlt => List.length_pos_iff.2 fun hpost => hstops ⟨hred, hpost, hlt⟩
          have hreduced := h.reduced
          rw [if_neg (by split at hred <;> omega)] at hturn
          rw [h.throwsFirst_addAgain_iff hdeps hne hgoes]
          rcases ih (h.addAgain dependencies) hnext with
            ⟨hthrows, e, hends⟩ | ⟨hthrows, s', since', hs', hends⟩
          · exact .inl ⟨hthrows, e, hends.of_turn hturn⟩
          · refine .inr ⟨hthrows, s', since', ?_, fun outcome h => (hends outcome h).of_turn hturn⟩
            simpa [hnames] using hs'

end FirstPass

/-- The property at an index is put back when dependencies of it are missing the first time. -/
theorem mem_putBack_iff {pre post : List INodeProperties} (hprops : props = pre ++ post) {i : ℕ} :
    i ∈ putBack deps (pre.map INodeProperties.name) pre.length post ↔
      pre.length ≤ i ∧ ∃ p, props[i]? = some p ∧
        missing (depsOf deps p) ((props.take i).map INodeProperties.name) ≠ [] := by
  induction post generalizing pre with
  | nil =>
    rw [List.append_nil] at hprops
    subst hprops
    simp only [putBack, List.not_mem_nil, false_iff, not_and, not_exists]
    intro hle p hp
    rw [List.getElem?_eq_none hle] at hp
    cases hp
  | cons p post ih =>
    have hnames : pre.map INodeProperties.name ++ [p.name] =
        (pre ++ [p]).map INodeProperties.name := by simp
    have hp : props[pre.length]? = some p := by simp [hprops]
    have htake : props.take pre.length = pre := by simp [hprops]
    have hih := ih (show props = (pre ++ [p]) ++ post by simp [hprops])
    rw [putBack, List.mem_append, hnames, show pre.length + 1 = (pre ++ [p]).length by simp, hih]
    simp only [List.mem_map, List.length_append, List.length_singleton]
    constructor
    · rintro (⟨d, hd, rfl⟩ | ⟨hle, hmissing⟩)
      · exact ⟨le_rfl, p, hp, by rw [htake]; exact List.ne_nil_of_mem hd⟩
      · exact ⟨by omega, hmissing⟩
    · rintro ⟨hle, q, hq, hmissing⟩
      rcases Nat.eq_or_lt_of_le hle with rfl | hlt
      · rw [hp, Option.some.injEq] at hq
        subst hq
        rw [htake] at hmissing
        obtain ⟨d, hd⟩ := List.exists_mem_of_ne_nil _ hmissing
        exact .inl ⟨d, hd, rfl⟩
      · exact .inr ⟨by omega, q, hq, hmissing⟩

/-! ### The turns after that -/

/-- The property at an index has dependencies, which can be read. -/
def HasDeps (props : List INodeProperties) (deps : String → Except JsError (List String)) (i : ℕ) :
    Prop :=
  ∃ p dependencies, props[i]? = some p ∧ deps p.name = .ok dependencies ∧ dependencies ≠ []

/-- The property at an index has a dependency that is no property. -/
def Lacks (props : List INodeProperties) (deps : String → Except JsError (List String)) (i : ℕ) :
    Prop :=
  ∃ p, props[i]? = some p ∧ missing (depsOf deps p) (props.map INodeProperties.name) ≠ []

variable {dependencies l l' : List String} {q : List ℕ}

theorem missing_congr (h : ∀ name, name ∈ l ↔ name ∈ l') :
    missing dependencies l = missing dependencies l' := by
  unfold missing
  simp only [h]

theorem mem_missing_iff {d : String} :
    d ∈ missing dependencies l ↔
      d ∈ dependencies ∧ d ∉ l ∧ d.toList.head? ≠ some '/' := by
  simp [missing]

theorem missing_subset (h : l ⊆ l') : missing dependencies l' ⊆ missing dependencies l := by
  intro d hd
  obtain ⟨hmem, hnot, hroot⟩ := mem_missing_iff.1 hd
  exact mem_missing_iff.2 ⟨hmem, fun hl => hnot (h hl), hroot⟩

/-- **The queue is drained** when nothing is missing any more. -/
theorem run_drain (hqueue : s.indexToResolve = q)
    (hq : ∀ i ∈ q, HasDeps props deps i ∧ ¬ Lacks props deps i)
    (hresolved : ∀ name, name ∈ s.resolvedParameters ↔ name ∈ props.map INodeProperties.name)
    (hlength : q.length ≤ s.lastIndexLength) : Ends props deps s (.ok (s.executionOrder ++ q)) := by
  induction q generalizing s with
  | nil =>
    rw [List.append_nil]
    exact ends_of_run 1 (run_succ_of_ends (by simp [turn, hqueue]) 0)
  | cons i q ih =>
    obtain ⟨⟨p, dependencies, hp, hdeps, hne⟩, hlacks⟩ := hq i List.mem_cons_self
    have hmissing : missing dependencies s.resolvedParameters = [] := by
      by_contra hmissing
      refine hlacks ⟨p, hp, ?_⟩
      rwa [depsOf, hdeps, ← missing_congr hresolved]
    have hturn := turn_of_deps hqueue hp hdeps hne
    have hreduced : (s.addAgain i q p.name dependencies).lastIndexReduction =
        ((s.iterations + 1 : ℕ) : ℤ) := by
      simp only [addAgain, hmissing, List.map_nil, List.append_nil, ite_eq_left_iff]
      intro hlt
      rw [List.length_cons] at hlength
      omega
    rw [hreduced, if_neg (by simp only [addAgain]; omega)] at hturn
    refine Ends.of_turn hturn ?_
    have hrest := ih (s := s.addAgain i q p.name dependencies) (by simp [addAgain, hmissing])
      (fun j hj => hq j (List.mem_cons_of_mem _ hj)) ?_ (by simp [addAgain, hmissing])
    · simpa [addAgain] using hrest
    · intro name
      simp only [addAgain, List.mem_append, List.mem_singleton, hresolved]
      refine or_iff_left_of_imp ?_
      rintro rfl
      exact List.mem_map_of_mem (List.mem_of_getElem? hp)

/-- Some property in the queue has a dependency that is no property. -/
structure Spinning (props : List INodeProperties) (deps : String → Except JsError (List String))
    (s : ResolveState) : Prop where
  queued : ∀ i ∈ s.indexToResolve, HasDeps props deps i
  lacks : ∃ i ∈ s.indexToResolve, Lacks props deps i
  resolved : ∀ name, name ∈ s.resolvedParameters ↔ name ∈ props.map INodeProperties.name
  length : s.indexToResolve.length ≤ s.lastIndexLength
  inTime : (s.iterations : ℤ) ≤ s.lastIndexReduction + props.length + 1

open Classical in
/-- The turns that can still make the queue shorter. -/
noncomputable def reductions (props : List INodeProperties)
    (deps : String → Except JsError (List String)) (s : ResolveState) : ℕ :=
  (s.indexToResolve.filter fun i => ¬ Lacks props deps i).length +
    (s.lastIndexLength - s.indexToResolve.length)

/-- The turns that are left before the loop throws, unless the queue gets shorter. -/
def left (props : List INodeProperties) (s : ResolveState) : ℕ :=
  (s.lastIndexReduction + props.length + 1 - s.iterations).toNat

theorem Spinning.addAgain (h : Spinning props deps s) {i : ℕ} {p : INodeProperties}
    (hqueue : s.indexToResolve = i :: q) (hp : props[i]? = some p)
    (hdeps : deps p.name = .ok dependencies) (hne : dependencies ≠ []) (hinTime : ((s.addAgain i q p.name dependencies).iterations : ℤ) ≤
      (s.addAgain i q p.name dependencies).lastIndexReduction + props.length + 1) :
    Spinning props deps (s.addAgain i q p.name dependencies) where
  queued := by
    intro j hj
    simp only [ResolveState.addAgain, List.mem_append, List.mem_map] at hj
    rcases hj with hj | ⟨-, -, rfl⟩
    · exact h.queued j (hqueue ▸ List.mem_cons_of_mem _ hj)
    · exact ⟨p, dependencies, hp, hdeps, hne⟩
  lacks := by
    obtain ⟨j, hj, hlacks⟩ := h.lacks
    rw [hqueue, List.mem_cons] at hj
    rcases hj with rfl | hj
    · obtain ⟨p', hp', hmissing⟩ := hlacks
      rw [hp, Option.some.injEq] at hp'
      subst hp'
      rw [depsOf, hdeps, ← missing_congr h.resolved] at hmissing
      obtain ⟨d, hd⟩ := List.exists_mem_of_ne_nil _ hmissing
      refine ⟨j, ?_, p, hp, ?_⟩
      · exact List.mem_append_right _ (List.mem_map.2 ⟨d, hd, rfl⟩)
      · rw [depsOf, hdeps, ← missing_congr h.resolved]
        exact hmissing
    · exact ⟨j, List.mem_append_left _ hj, hlacks⟩
  resolved := by
    intro name
    simp only [ResolveState.addAgain, List.mem_append, List.mem_singleton, h.resolved]
    refine or_iff_left_of_imp ?_
    rintro rfl
    exact List.mem_map_of_mem (List.mem_of_getElem? hp)
  length := le_rfl
  inTime := hinTime

/-- The measure of the turns that are left. -/
noncomputable def measure (props : List INodeProperties)
    (deps : String → Except JsError (List String)) (s : ResolveState) : ℕ :=
  reductions props deps s * (props.length + 2) + left props s

theorem measure_lt_of_reductions (h : reductions props deps s' < reductions props deps s)
    (hleft : left props s' ≤ props.length + 1) : measure props deps s' < measure props deps s := by
  have hmul := Nat.mul_le_mul_right (props.length + 2) (Nat.succ_le_of_lt h)
  rw [Nat.succ_mul] at hmul
  unfold measure
  omega

theorem measure_lt_of_left (h : reductions props deps s' ≤ reductions props deps s)
    (hleft : left props s' < left props s) : measure props deps s' < measure props deps s := by
  have hmul := Nat.mul_le_mul_right (props.length + 2) h
  unfold measure
  omega

/-- A turn throws, or there are fewer turns left. -/
theorem Spinning.turn (h : Spinning props deps s) :
    s.turn props deps = .inl (.error maxIterationsError) ∨
      ∃ s', s.turn props deps = .inr s' ∧ Spinning props deps s' ∧
        measure props deps s' < measure props deps s := by
  classical
  obtain ⟨i, q, hqueue⟩ := List.exists_cons_of_ne_nil
    (List.ne_nil_of_mem h.lacks.choose_spec.1)
  obtain ⟨p, dependencies, hp, hdeps, hne⟩ := h.queued i (hqueue ▸ List.mem_cons_self)
  have hturn := turn_of_deps hqueue hp hdeps hne
  have hlength := h.length
  have hinTime := h.inTime
  rw [hqueue, List.length_cons] at hlength
  have hlacks : Lacks props deps i ↔ missing dependencies s.resolvedParameters ≠ [] := by
    rw [missing_congr h.resolved, Lacks]
    simp [hp, depsOf, hdeps]
  split at hturn
  case isTrue => exact .inl hturn
  case isFalse hgoes =>
    refine .inr ⟨_, hturn, h.addAgain hqueue hp hdeps hne (by omega), ?_⟩
    have hcount : (q ++ (missing dependencies s.resolvedParameters).map fun _ => i).filter
          (fun i => ¬ Lacks props deps i) = q.filter fun i => ¬ Lacks props deps i := by
      rw [List.filter_append, List.append_right_eq_self, List.filter_eq_nil_iff]
      intro j hj
      obtain ⟨d, hd, rfl⟩ := List.mem_map.1 hj
      simpa using hlacks.2 (List.ne_nil_of_mem hd)
    have hreductions : reductions props deps (s.addAgain i q p.name dependencies) =
        (q.filter fun i => ¬ Lacks props deps i).length := by
      simp only [reductions, ResolveState.addAgain, Nat.sub_self, Nat.add_zero]
      rw [hcount]
    have hbefore : reductions props deps s =
        ((i :: q).filter fun i => ¬ Lacks props deps i).length +
          (s.lastIndexLength - (q.length + 1)) := by
      rw [reductions, hqueue, List.length_cons]
    have hnew : (s.addAgain i q p.name dependencies).lastIndexReduction =
        if q.length + (missing dependencies s.resolvedParameters).length < s.lastIndexLength then
          ((s.iterations + 1 : ℕ) : ℤ) else s.lastIndexReduction := by
      simp only [ResolveState.addAgain, List.length_append, List.length_map]
    have hiterations : (s.addAgain i q p.name dependencies).iterations = s.iterations + 1 := rfl
    by_cases hi : Lacks props deps i
    · have hpos := List.length_pos_iff.2 (hlacks.1 hi)
      rw [List.filter_cons_of_neg (by simpa using hi)] at hbefore
      by_cases hshorter :
          q.length + (missing dependencies s.resolvedParameters).length < s.lastIndexLength
      · rw [if_pos hshorter] at hnew
        refine measure_lt_of_reductions (by omega) ?_
        rw [left, hnew, hiterations]
        omega
      · -- the queue is as long as before, and one turn less is left
        rw [if_neg hshorter] at hnew
        refine measure_lt_of_left (by omega) ?_
        rw [left, left, hnew, hiterations]
        omega
    · have hzero : (missing dependencies s.resolvedParameters).length = 0 := by
        simpa [hlacks] using hi
      rw [List.filter_cons_of_pos (by simpa using hi), List.length_cons] at hbefore
      rw [if_pos (by omega)] at hnew
      refine measure_lt_of_reductions (by omega) ?_
      rw [left, hnew, hiterations]
      omega

/-- **The loop throws** when a property has a dependency that is no property. -/
theorem Spinning.throws (h : Spinning props deps s) :
    Ends props deps s (.error maxIterationsError) := by
  induction hm : measure props deps s using Nat.strongRecOn generalizing s with
  | ind m ih =>
    rcases h.turn with hturn | ⟨s', hturn, hs', hlt⟩
    · exact ends_of_run 1 (run_succ_of_ends hturn 0)
    · exact (ih _ (hm ▸ hlt) hs' rfl).of_turn hturn

/-! ### The outcome -/

/-- **What the loop ends with**: it throws in its first turns or because of a dependency that is no
property, and otherwise returns the properties in their order and then those that were put back. -/
theorem exists_outcome (props : List INodeProperties)
    (deps : String → Except JsError (List String)) :
    ((ThrowsFirst deps [] props 0 (start props) ∨ ∃ i, Lacks props deps i) ∧
        ∃ e, Ends props deps (start props) (.error e)) ∨
      (¬ (ThrowsFirst deps [] props 0 (start props) ∨ ∃ i, Lacks props deps i) ∧
        Ends props deps (start props)
          (.ok (List.range props.length ++ putBack deps [] 0 props))) := by
  rcases @FirstPass.outcome _ deps _ _ _ _ _ (firstPass_start props) rfl with
    ⟨hthrows, e, hends⟩ | ⟨hthrows, s', since', hs', hends⟩
  · exact .inl ⟨.inl hthrows, e, hends⟩
  · have hqueue : s'.indexToResolve = putBack deps [] 0 props := by simpa using hs'.queue
    have hmem : ∀ i, i ∈ putBack deps [] 0 props ↔ ∃ p, props[i]? = some p ∧
        missing (depsOf deps p) ((props.take i).map INodeProperties.name) ≠ [] := by
      intro i
      simpa using @mem_putBack_iff props deps [] props rfl i
    have hdeps : ∀ i ∈ putBack deps [] 0 props, HasDeps props deps i := by
      intro i hi
      obtain ⟨p, hp, hmissing⟩ := (hmem i).1 hi
      cases h : deps p.name with
      | error e => exact absurd (.inl ⟨p, List.mem_of_getElem? hp, e, h⟩) hthrows
      | ok dependencies =>
        refine ⟨p, dependencies, hp, h, ?_⟩
        rintro rfl
        exact hmissing (by simp [depsOf, h, missing])
    have hresolved : ∀ name, name ∈ s'.resolvedParameters ↔
        name ∈ props.map INodeProperties.name := by simp [hs'.resolved]
    have hlength : s'.indexToResolve.length ≤ s'.lastIndexLength := by
      rw [hqueue, hs'.length]
      simp only [List.length_nil, List.nil_append, List.map_nil]
      omega
    by_cases hlacks : ∃ i, Lacks props deps i
    · refine .inl ⟨.inr hlacks, _, hends _ (Spinning.throws ⟨hqueue ▸ hdeps, ?_, hresolved,
        hlength, ?_⟩)⟩
      · obtain ⟨i, hi⟩ := hlacks
        refine ⟨i, ?_, hi⟩
        obtain ⟨p, hp, hmissing⟩ := hi
        rw [hqueue, hmem]
        refine ⟨p, hp, ?_⟩
        obtain ⟨d, hd⟩ := List.exists_mem_of_ne_nil _ hmissing
        exact List.ne_nil_of_mem (missing_subset (List.map_subset _ (List.take_subset _ _)) hd)
      · rw [hs'.turns]
        rcases hs'.reduced with h | h <;> omega
    · refine .inr ⟨not_or.2 ⟨hthrows, hlacks⟩, hends _ ?_⟩
      have hdrain := run_drain hqueue (fun i hi => ⟨hdeps i hi, fun h => hlacks ⟨i, h⟩⟩) hresolved
        (hqueue ▸ hlength)
      rwa [hs'.order] at hdrain

end ResolveState

open ResolveState

/-- The dependencies of a list of properties, by name. -/
def depsFor (props : List INodeProperties) (name : String) : Except JsError (List String) :=
  match ownDependencies props with
  | .ok parameterDependencies => dependenciesOf parameterDependencies name
  | .error e => .error e

/-- `getParameterResolveOrder` with the dependencies of the properties: what it ends with, if it ends
within so many turns. -/
def resolveOrder (props : List INodeProperties) (turns : ℕ) : Option (Except JsError (List ℕ)) :=
  match ownDependencies props with
  | .ok parameterDependencies => run props (dependenciesOf parameterDependencies) turns (start props)
  | .error e => some (.error e)

/-- The property depends on the name, which is not one on the root level. -/
def DependsOn (props : List INodeProperties) (p : INodeProperties) (name : String) : Prop :=
  name ∈ depsOf (depsFor props) p ∧ name.toList.head? ≠ some '/'

/-- Every index occurs once, and a property comes after all properties it depends on. -/
structure IsDependencyOrder (props : List INodeProperties) (order : List ℕ) : Prop where
  once : order.Perm (List.range props.length)
  after : ∀ (i j : ℕ) (p q : INodeProperties), props[i]? = some p → props[j]? = some q → DependsOn props p q.name →
    order.idxOf j < order.idxOf i

/-- Every index occurs once, and a property comes after one of each name it depends on. -/
structure IsNameOrder (props : List INodeProperties) (order : List ℕ) : Prop where
  once : order.Perm (List.range props.length)
  after : ∀ (i : ℕ) (p : INodeProperties) (name : String), props[i]? = some p →
    DependsOn props p name → ∃ j q, props[j]? = some q ∧ q.name = name ∧
      order.idxOf j < order.idxOf i

/-- The lists of properties for which the loop throws. -/
inductive ThrowsOn (props : List INodeProperties) : Prop
  /-- A property with rules has the name of a member of `Object.prototype`. -/
  | noList (e : JsError) (h : ownDependencies props = .error e)
  /-- A property has the name of such a member whose length is not zero. -/
  | noDependencies (p : INodeProperties) (hp : p ∈ props) (e : JsError)
      (h : depsFor props p.name = .error e)
  /-- The queue does not get shorter while every property has its first turn. -/
  | notInTime (hne : props ≠ []) (h : neverShrinks (depsFor props) [] 0 props = true)
  /-- A property depends on a name that no property has. -/
  | unknown (p : INodeProperties) (hp : p ∈ props) (name : String) (h : DependsOn props p name)
      (hname : ∀ q ∈ props, q.name ≠ name)

/-- The properties are in an order of dependencies. -/
def ListedInOrder (props : List INodeProperties) : Prop :=
  ∀ (i j : ℕ) (p q : INodeProperties), props[i]? = some p → props[j]? = some q → DependsOn props p q.name → j < i

/-- A property comes after one of each name it depends on. -/
def ListedByName (props : List INodeProperties) : Prop :=
  ∀ (i : ℕ) (p : INodeProperties) (name : String), props[i]? = some p → DependsOn props p name →
    ∃ j q, props[j]? = some q ∧ q.name = name ∧ j < i

section Outcome

variable {props : List INodeProperties}

variable {parameterDependencies : Dict String (List String)} {n i : ℕ}

theorem resolveOrder_of_ends (h : ownDependencies props = .ok parameterDependencies) (turns : ℕ) :
    resolveOrder props turns = run props (depsFor props) turns (start props) := by
  have hdeps : depsFor props = dependenciesOf parameterDependencies := by
    funext name
    rw [depsFor, h]
  rw [resolveOrder, h, hdeps]

theorem idxOf_range (hi : i < n) : (List.range n).idxOf i = i := by
  have h := List.Nodup.idxOf_getElem (List.nodup_range (n := n)) i (by simpa using hi)
  simpa using h

/-- When the loop throws. -/
theorem throwsOn_iff (h : ownDependencies props = .ok parameterDependencies) :
    ThrowsOn props ↔
      ThrowsFirst (depsFor props) [] props 0 (start props) ∨ ∃ i, Lacks props (depsFor props) i := by
  constructor
  · rintro (⟨e, he⟩ | ⟨p, hp, e, he⟩ | ⟨hne, hnever⟩ | ⟨p, hp, name, hname, hnone⟩)
    · rw [h] at he
      cases he
    · exact .inl (.inl ⟨p, hp, e, he⟩)
    · exact .inl (.inr ⟨rfl, hne, hnever⟩)
    · obtain ⟨i, hi⟩ := List.mem_iff_getElem?.1 hp
      refine .inr ⟨i, p, hi, List.ne_nil_of_mem (mem_missing_iff.2 ⟨hname.1, ?_, hname.2⟩)⟩
      rintro hmem
      obtain ⟨q, hq, heq⟩ := List.mem_map.1 hmem
      exact hnone q hq heq
  · rintro ((⟨p, hp, e, he⟩ | ⟨-, hne, hnever⟩) | ⟨i, p, hp, hmissing⟩)
    · exact .noDependencies p hp e he
    · exact .notInTime hne hnever
    · obtain ⟨d, hd⟩ := List.exists_mem_of_ne_nil _ hmissing
      obtain ⟨hmem, hnot, hroot⟩ := mem_missing_iff.1 hd
      exact .unknown p (List.mem_of_getElem? hp) d ⟨hmem, hroot⟩ fun q hq heq =>
        hnot (List.mem_map.2 ⟨q, hq, heq⟩)

theorem putBack_eq_nil_iff (props : List INodeProperties) :
    putBack (depsFor props) [] 0 props = [] ↔ ListedByName props := by
  have hmem := fun i => @mem_putBack_iff props (depsFor props) [] props rfl i
  simp only [List.map_nil, List.length_nil, Nat.zero_le, true_and] at hmem
  rw [List.eq_nil_iff_forall_not_mem]
  constructor
  · intro h i p name hp hdep
    by_contra hnone
    refine h i ((hmem i).2 ⟨p, hp, List.ne_nil_of_mem (mem_missing_iff.2 ⟨hdep.1, ?_, hdep.2⟩)⟩)
    intro hname
    obtain ⟨q, hq, heq⟩ := List.mem_map.1 hname
    obtain ⟨j, hj⟩ := List.mem_iff_getElem?.1 hq
    have hlt : j < i := by
      have := (List.getElem?_eq_some_iff.1 hj).1
      rw [List.length_take] at this
      omega
    exact hnone ⟨j, q, by rwa [List.getElem?_take_of_lt hlt] at hj, heq, hlt⟩
  · intro h i hi
    obtain ⟨p, hp, hmissing⟩ := (hmem i).1 hi
    obtain ⟨d, hd⟩ := List.exists_mem_of_ne_nil _ hmissing
    obtain ⟨hdep, hnot, hroot⟩ := mem_missing_iff.1 hd
    obtain ⟨j, q, hj, rfl, hlt⟩ := h i p d hp ⟨hdep, hroot⟩
    refine hnot (List.mem_map_of_mem (List.mem_iff_getElem?.2 ⟨j, ?_⟩))
    rwa [List.getElem?_take_of_lt hlt]

/-- Where no name is unknown, the strict order is one by name. -/
theorem ListedInOrder.byName (hlacks : ¬ ∃ i, Lacks props (depsFor props) i)
    (h : ListedInOrder props) : ListedByName props := by
  intro i p name hp hdep
  by_cases hname : name ∈ props.map INodeProperties.name
  · obtain ⟨q, hq, rfl⟩ := List.mem_map.1 hname
    obtain ⟨j, hj⟩ := List.mem_iff_getElem?.1 hq
    exact ⟨j, q, hj, rfl, h i j p q hp hj hdep⟩
  · exact absurd ⟨i, p, hp, List.ne_nil_of_mem (mem_missing_iff.2 ⟨hdep.1, hname, hdep.2⟩)⟩ hlacks

/-- A list of the indices and others has each of them once only when there are no others. -/
theorem eq_nil_of_perm {back : List ℕ} (h : (List.range n ++ back).Perm (List.range n)) :
    back = [] := by
  have hlength := h.length_eq
  rw [List.length_append] at hlength
  exact List.length_eq_zero_iff.1 (by omega)

theorem idxOf_range_of_getElem? {p : INodeProperties} (hp : props[i]? = some p) :
    (List.range props.length).idxOf i = i :=
  idxOf_range (List.getElem?_eq_some_iff.1 hp).1

/-- The properties in their order and those that were put back: this is an order of dependencies only
when the list is in one. -/
theorem isDependencyOrder_iff (hlacks : ¬ ∃ i, Lacks props (depsFor props) i) :
    IsDependencyOrder props (List.range props.length ++ putBack (depsFor props) [] 0 props) ↔
      ListedInOrder props := by
  constructor
  · rintro ⟨honce, hafter⟩
    rw [eq_nil_of_perm honce, List.append_nil] at hafter
    intro i j p q hp hq hdep
    have hlt := hafter i j p q hp hq hdep
    rwa [idxOf_range_of_getElem? hp, idxOf_range_of_getElem? hq] at hlt
  · intro h
    rw [(putBack_eq_nil_iff props).2 (h.byName hlacks), List.append_nil]
    refine ⟨List.Perm.refl _, fun i j p q hp hq hdep => ?_⟩
    rw [idxOf_range_of_getElem? hp, idxOf_range_of_getElem? hq]
    exact h i j p q hp hq hdep

theorem isNameOrder_iff :
    IsNameOrder props (List.range props.length ++ putBack (depsFor props) [] 0 props) ↔
      ListedByName props := by
  constructor
  · exact fun h => (putBack_eq_nil_iff props).1 (eq_nil_of_perm h.once)
  · intro h
    rw [(putBack_eq_nil_iff props).2 h, List.append_nil]
    refine ⟨List.Perm.refl _, fun i p name hp hdep => ?_⟩
    obtain ⟨j, q, hq, hname, hlt⟩ := h i p name hp hdep
    refine ⟨j, q, hq, hname, ?_⟩
    rwa [idxOf_range_of_getElem? hp, idxOf_range_of_getElem? hq]

/-- **The order of resolution**: the loop always ends; it throws or returns an order of dependencies
exactly when it throws or the properties are in such an order to begin with.  So it is when one
property of each name is enough. -/
theorem resolveOrder_isDependencyOrder_iff (props : List INodeProperties) :
    ∃ outcome, (∃ bound, ∀ turns, bound ≤ turns → resolveOrder props turns = some outcome) ∧
      ((∀ order, outcome = .ok order → IsDependencyOrder props order) ↔
        ThrowsOn props ∨ ListedInOrder props) ∧
      ((∀ order, outcome = .ok order → IsNameOrder props order) ↔
        ThrowsOn props ∨ ListedByName props) := by
  cases h : ownDependencies props with
  | error e =>
    refine ⟨.error e, ⟨0, fun turns _ => by rw [resolveOrder, h]⟩, ?_⟩
    simp [ThrowsOn.noList e h]
  | ok parameterDependencies =>
    have hthrowsOn := throwsOn_iff h
    have hresolve := resolveOrder_of_ends h
    rcases exists_outcome props (depsFor props) with ⟨hthrows, e, hends⟩ | ⟨hthrows, hends⟩
    · refine ⟨.error e, by simp only [hresolve]; exact hends, ?_⟩
      simp [hthrowsOn.2 hthrows]
    · refine ⟨_, by simp only [hresolve]; exact hends, ?_⟩
      rw [hthrowsOn, or_iff_right hthrows, or_iff_right hthrows, ← isNameOrder_iff,
        ← isDependencyOrder_iff fun hlacks => hthrows (.inr hlacks)]
      simp

/-- A property that is shown for a value of the property after it. -/
def listedTooEarly : List INodeProperties :=
  [.simple
      { name := "value", default := .str ""
        displayOptions := some { showRules := some [("kind", [.value (.str "text")])] } } .string,
    .simple { name := "kind", default := .str "" } .options]

/-- The first property is added at once and again after the second. -/
theorem listedTooEarly_twice :
    resolveOrder listedTooEarly 4 = some (.ok [0, 1, 0]) ∧
      ¬ IsDependencyOrder listedTooEarly [0, 1, 0] :=
  ⟨by decide +kernel, fun h => absurd h.once.length_eq (by decide)⟩

end Outcome

end N8n
