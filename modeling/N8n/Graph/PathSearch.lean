import N8n.Graph.ExtractableSelection

/-!
# The search for a path ends

The loop of `hasPath` in `packages/workflow/src/graph/graph-utils.ts`, turn by turn. A node is marked
when it is popped, so the stack can hold it several times, and a marked node is expanded again.

* `PathSearch`, `turn`, `run`: the variables of the loop, one turn, and a bounded number of turns;
* `run_eq_hasPath`: the loop returns what `hasPath` says, after finitely many turns;
* `hasPath_returns`: on every graph the loop returns whether there is a path.
-/

namespace N8n

/-- The variables of the loop; the last of `paths` comes first here. -/
structure PathSearch where
  seen : OrderedSet String
  paths : List String

namespace PathSearch

variable {stop : String} {adjacencyList : IConnectionAdjacencyList}

/-- The variables before the first turn. -/
def start (node : String) : PathSearch := ⟨.empty, [node]⟩

/-- One turn of the loop: it returns an answer, or goes on. -/
def turn (stop : String) (adjacencyList : IConnectionAdjacencyList) (s : PathSearch) :
    Bool ⊕ PathSearch :=
  match s.paths with
  -- the popped value is `undefined`, which is no node
  | [] => .inl false
  | next :: paths =>
    if next = stop then .inl true
    else .inr ⟨s.seen.insert next, (unseenTargets adjacencyList s.seen next).reverse ++ paths⟩

/-- The answer, if the loop returns within so many turns. -/
def run (stop : String) (adjacencyList : IConnectionAdjacencyList) : ℕ → PathSearch → Option Bool
  | 0, _ => none
  | turns + 1, s =>
    match s.turn stop adjacencyList with
    | .inl answer => some answer
    | .inr s' => run stop adjacencyList turns s'

theorem run_of_returns {s : PathSearch} {answer : Bool} (h : s.turn stop adjacencyList = .inl answer)
    (turns : ℕ) : run stop adjacencyList (turns + 1) s = some answer := by
  rw [run, h]

theorem run_of_goesOn {s s' : PathSearch} (h : s.turn stop adjacencyList = .inr s') (turns : ℕ) :
    run stop adjacencyList (turns + 1) s = run stop adjacencyList turns s' := by
  rw [run, h]

/-- **The loop ends**, with the answer of the recursion that its measure justifies. -/
theorem run_eq_hasPathLoop (stop : String) (adjacencyList : IConnectionAdjacencyList)
    (seen : OrderedSet String) (paths : List String) :
    ∃ bound, ∀ turns, bound ≤ turns →
      run stop adjacencyList turns ⟨seen, paths⟩ =
        some (hasPathLoop stop adjacencyList seen paths) := by
  induction seen, paths using hasPathLoop.induct stop adjacencyList with
  | case1 seen =>
    refine ⟨1, fun turns hturns => ?_⟩
    obtain ⟨n, rfl⟩ := Nat.exists_eq_add_of_le' hturns
    rw [run_of_returns rfl, hasPathLoop]
  | case2 seen paths =>
    refine ⟨1, fun turns hturns => ?_⟩
    obtain ⟨n, rfl⟩ := Nat.exists_eq_add_of_le' hturns
    have hturn : turn stop adjacencyList ⟨seen, stop :: paths⟩ = .inl true := by simp [turn]
    rw [run_of_returns hturn, hasPathLoop, if_pos rfl]
  | case3 seen next paths hne ih =>
    obtain ⟨bound, hbound⟩ := ih
    refine ⟨bound + 1, fun turns hturns => ?_⟩
    obtain ⟨n, rfl⟩ : ∃ n, turns = n + 1 := ⟨turns - 1, by omega⟩
    have hturn : turn stop adjacencyList ⟨seen, next :: paths⟩ = .inr
        ⟨seen.insert next, (unseenTargets adjacencyList seen next).reverse ++ paths⟩ := by
      simp [turn, hne]
    rw [run_of_goesOn hturn, hbound n (by omega), hasPathLoop, if_neg hne]

theorem run_eq_hasPath (start stop : String) (adjacencyList : IConnectionAdjacencyList) :
    ∃ bound, ∀ turns, bound ≤ turns →
      run stop adjacencyList turns (.start start) = some (hasPath start stop adjacencyList) :=
  run_eq_hasPathLoop stop adjacencyList .empty [start]

end PathSearch

theorem mainPath_iff {adjacencyList : IConnectionAdjacencyList} {a b : String} :
    MainPath adjacencyList a b ↔ b = a ∨ Relation.TransGen (MainConnection adjacencyList) a b :=
  Relation.reflTransGen_iff_eq_or_transGen

/-- **The search ends and is right**: on every graph it returns whether it was asked about its first
node, or about one that main connections lead to. -/
theorem hasPath_returns (start stop : String) (adjacencyList : IConnectionAdjacencyList) :
    ∃ answer : Bool,
      (∃ bound, ∀ turns, bound ≤ turns →
        PathSearch.run stop adjacencyList turns (.start start) = some answer) ∧
      (answer = true ↔
        stop = start ∨ Relation.TransGen (MainConnection adjacencyList) start stop) := by
  refine ⟨hasPath start stop adjacencyList, PathSearch.run_eq_hasPath start stop adjacencyList, ?_⟩
  rw [hasPath_iff, mainPath_iff]

end N8n
