import N8n.Graph.DirectedGraph
import N8n.Lib.OrderedSet
import N8n.Lib.Walks

/-!
# Connected nodes by their depth

`searchNodesBFS` of `packages/workflow/src/workflow.ts`, which `getParentNodesByDepth` calls.

* `searchEntry`, `searchLevels`, `searchNodesBFS`: the search;
* `BreadthFirst`: every node within the depth once, with its distance and its indexes;
* `Searching`: what holds between two levels of the search, `Progress` within a level;
* `searchNodesBFS_iff`: when this is what the search answers.
-/

namespace N8n

/-! ### The search -/

structure IConnectedNode where
  name : String
  indicies : List ℕ
  depth : ℕ
  deriving DecidableEq

/-- `dedupe`. -/
def dedupe (l : List ℕ) : List ℕ := l.foldl (fun r i => if i ∈ r then r else r ++ [i]) []

/-- The connections of type `main` of a node, whatever the index that they leave. -/
def mainConnections (connections : IConnections) (nodeName : String) : List IConnection :=
  (((connections.get? nodeName).bind (·.get? .main)).getD []).flatMap (·.getD [])

/-- `visited`, with the nodes in the order in which they were visited, and `queue`. -/
structure SearchState where
  visited : Dict String IConnectedNode
  queue : List IConnectedNode

/-- A node of the queue is visited, or its indexes are added to those of its visit.  For the members
of `Object.prototype` the object `visited` answers something without indexes, and a source called
`hasOwnProperty` hides the method of the object `connections`. -/
def searchEntry (connections : IConnections) (depth : ℕ) (s : SearchState) (curr : IConnectedNode) :
    Except JsError SearchState :=
  if curr.name ∈ objectPrototypeKeys then .error .typeError
  else
    match s.visited.get? curr.name with
    | some node =>
      let merged := { node with indicies := dedupe (node.indicies ++ curr.indicies) }
      .ok { s with visited := s.visited.set curr.name merged }
    | none =>
      if connections.has "hasOwnProperty" then .error .typeError
      else .ok
        { visited := s.visited.set curr.name curr
          queue := s.queue ++ (mainConnections connections curr.name).map fun connection =>
            { name := connection.node, indicies := [connection.index], depth := depth } }

/-- The loop, from a depth on.  Every level but the first one has a source that the ones before did
not have. -/
def searchLevels (connections : IConnections) (maxDepth : ℤ) :
    (fuel depth : ℕ) → SearchState → Except JsError SearchState
  | 0, _, s => .ok s
  | fuel + 1, depth, s =>
    if s.queue = [] ∨ maxDepth ≠ -1 ∧ maxDepth < depth then .ok s
    else do
      let s ← s.queue.foldlM (searchEntry connections (depth + 1)) { s with queue := [] }
      searchLevels connections maxDepth fuel (depth + 1) s

/-- `searchNodesBFS`.  `returnConns` are the visited nodes without the source. -/
def searchNodesBFS (connections : IConnections) (sourceNode : String) (maxDepth : ℤ) :
    Except JsError (List IConnectedNode) := do
  let s ← searchLevels connections maxDepth (connections.keys.length + 2) 0
    ⟨Dict.empty, [{ name := sourceNode, indicies := [], depth := 0 }]⟩
  return s.visited.values.filter (·.name ≠ sourceNode)

/-! ### Distances -/

section Spec

variable (connections : IConnections) (sourceNode : String) (maxDepth : ℤ)

/-- A connection of type `main` from one node to an index of another. -/
def ConnectsAt (u v : String) (i : ℕ) : Prop :=
  ∃ c ∈ mainConnections connections u, c.node = v ∧ c.index = i

def ConnectsTo (u v : String) : Prop := ∃ i, ConnectsAt connections u v i

/-- The number of connections of a shortest path from the start. -/
def Distance (d : ℕ) (v : String) : Prop := IsDistance (ConnectsTo connections) sourceNode d v

/-- The depths that the search goes to. -/
def WithinDepth (maxDepth : ℤ) (d : ℕ) : Prop := maxDepth = -1 ∨ d ≤ maxDepth

/-- A node whose connections the search follows: the next depth is still within the limit. -/
def Expanded (u : String) : Prop := ∃ d, Distance connections sourceNode d u ∧ WithinDepth maxDepth (d + 1)

/-- All nodes within the depth but the start, each once, with the length of a shortest path and the
indexes of all connections from the start or a returned node that were followed. -/
structure BreadthFirst (nodes : List IConnectedNode) : Prop where
  nodup : (nodes.map (·.name)).Nodup
  mem_iff : ∀ v, v ∈ nodes.map (·.name) ↔
    v ≠ sourceNode ∧ ∃ d, Distance connections sourceNode d v ∧ WithinDepth maxDepth d
  depth : ∀ node ∈ nodes, Distance connections sourceNode node.depth node.name
  indicies_nodup : ∀ node ∈ nodes, node.indicies.Nodup
  mem_indicies : ∀ node ∈ nodes, ∀ i, i ∈ node.indicies ↔
    ∃ u, Expanded connections sourceNode maxDepth u ∧ ConnectsAt connections u node.name i

end Spec

/-! ### One level -/

section Level

variable {connections : IConnections} {sourceNode : String} {maxDepth : ℤ}

theorem mem_dedupe {l : List ℕ} {i : ℕ} : i ∈ dedupe l ↔ i ∈ l :=
  mem_appendNew.trans (or_iff_right List.not_mem_nil)

theorem nodup_dedupe (l : List ℕ) : (dedupe l).Nodup := nodup_appendNew List.nodup_nil l

/-- What `searchEntry` does with an entry that has an ordinary name. -/
def searchStep (connections : IConnections) (depth : ℕ) (s : SearchState) (curr : IConnectedNode) :
    SearchState :=
  match s.visited.get? curr.name with
  | some node =>
    let merged := { node with indicies := dedupe (node.indicies ++ curr.indicies) }
    { s with visited := s.visited.set curr.name merged }
  | none =>
    { visited := s.visited.set curr.name curr
      queue := s.queue ++ (mainConnections connections curr.name).map fun connection =>
        { name := connection.node, indicies := [connection.index], depth := depth } }

theorem searchEntry_eq_ok_iff (howner : connections.has "hasOwnProperty" = false) (depth : ℕ)
    (s : SearchState) (curr : IConnectedNode) (s' : SearchState) :
    searchEntry connections depth s curr = .ok s' ↔
      curr.name ∉ objectPrototypeKeys ∧ s' = searchStep connections depth s curr := by
  unfold searchEntry searchStep
  by_cases hname : curr.name ∈ objectPrototypeKeys
  · simp [hname]
  · rw [if_neg hname, and_iff_right hname]
    cases s.visited.get? curr.name with
    | some node => exact ⟨fun h => (Except.ok.inj h).symm, fun h => h ▸ rfl⟩
    | none =>
      rw [if_neg (by simp [howner])]
      exact ⟨fun h => (Except.ok.inj h).symm, fun h => h ▸ rfl⟩

/-- Of the entries of a level, those in `done` have been visited; `before` is what had been visited
before the level. -/
structure Progress (connections : IConnections) (depth : ℕ)
    (before : Dict String IConnectedNode) (done : List IConnectedNode) (s : SearchState) :
    Prop where
  has_iff : ∀ v, s.visited.has v ↔ before.has v ∨ ∃ e ∈ done, e.name = v
  name : ∀ v node, s.visited.get? v = some node → node.name = v
  nodup : ∀ v node, s.visited.get? v = some node → node.indicies.Nodup
  node_depth : ∀ v node, s.visited.get? v = some node →
    (∃ old, before.get? v = some old ∧ node.depth = old.depth) ∨
      before.get? v = none ∧ ∃ e ∈ done, e.name = v ∧ node.depth = e.depth
  mem_indicies : ∀ v node, s.visited.get? v = some node → ∀ i, i ∈ node.indicies ↔
    (∃ old, before.get? v = some old ∧ i ∈ old.indicies) ∨
      ∃ e ∈ done, e.name = v ∧ i ∈ e.indicies
  mem_queue : ∀ e, e ∈ s.queue ↔ ∃ u, before.has u = false ∧ (∃ e' ∈ done, e'.name = u) ∧
    ∃ c ∈ mainConnections connections u, e = ⟨c.node, [c.index], depth⟩

theorem Progress.init {depth : ℕ} {before : Dict String IConnectedNode}
    (hname : ∀ v node, before.get? v = some node → node.name = v)
    (hnodup : ∀ v node, before.get? v = some node → node.indicies.Nodup) :
    Progress connections depth before [] ⟨before, []⟩ where
  has_iff v := by simp
  name := hname
  nodup := hnodup
  node_depth v node h := .inl ⟨node, h, rfl⟩
  mem_indicies v node h i := by simp [h]
  mem_queue e := by simp

/-- One entry more. -/
theorem Progress.step {depth : ℕ} {before : Dict String IConnectedNode}
    {done : List IConnectedNode} {s : SearchState} (h : Progress connections depth before done s)
    {curr : IConnectedNode} (hcurr : curr.indicies.Nodup) :
    Progress connections depth before (done ++ [curr]) (searchStep connections depth s curr) := by
  have hdone : ∀ P : IConnectedNode → Prop,
      (∃ e ∈ done ++ [curr], P e) ↔ (∃ e ∈ done, P e) ∨ P curr := fun P => by
    simp [or_and_right, exists_or]
  unfold searchStep
  cases hvisit : s.visited.get? curr.name with
  | some node =>
    -- the indexes are added to those of the first visit
    have hhas : before.has curr.name ∨ ∃ e ∈ done, e.name = curr.name :=
      (h.has_iff _).1 (by rw [Dict.has, hvisit]; rfl)
    have hget : ∀ v, v ≠ curr.name → (s.visited.set curr.name
        { node with indicies := dedupe (node.indicies ++ curr.indicies) }).get? v =
          s.visited.get? v := fun v hv => Dict.get?_set_ne _ _ hv
    refine ⟨fun v => ?_, fun v m hm => ?_, fun v m hm => ?_, fun v m hm => ?_, fun v m hm i => ?_,
      fun e => ?_⟩
    · rw [hdone, ← or_assoc, ← h.has_iff, Dict.has, Dict.has]
      by_cases hv : v = curr.name
      · subst hv
        simp [hvisit]
      · rw [hget v hv, or_iff_left (Ne.symm hv)]
    · by_cases hv : v = curr.name
      · subst hv
        rw [Dict.get?_set_self] at hm
        cases hm
        have hname : node.name = _ := h.name _ _ hvisit
        exact hname
      · exact h.name v m (hget v hv ▸ hm)
    · by_cases hv : v = curr.name
      · subst hv
        rw [Dict.get?_set_self] at hm
        cases hm
        exact nodup_dedupe _
      · exact h.nodup v m (hget v hv ▸ hm)
    · have hdepth : ∃ m', s.visited.get? v = some m' ∧ m'.depth = m.depth := by
        by_cases hv : v = curr.name
        · subst hv
          rw [Dict.get?_set_self] at hm
          cases hm
          exact ⟨node, hvisit, rfl⟩
        · exact ⟨m, hget v hv ▸ hm, rfl⟩
      obtain ⟨m', hm', heq⟩ := hdepth
      rw [← heq, hdone]
      exact (h.node_depth v m' hm').imp_right fun ⟨hnone, hex⟩ => ⟨hnone, .inl hex⟩
    · rw [hdone, ← or_assoc]
      by_cases hv : v = curr.name
      · subst hv
        rw [Dict.get?_set_self] at hm
        cases hm
        simp only [mem_dedupe, List.mem_append, true_and]
        rw [h.mem_indicies _ node hvisit]
      · rw [h.mem_indicies v m (hget v hv ▸ hm)]
        simp [Ne.symm hv]
    · rw [h.mem_queue]
      refine exists_congr fun u => and_congr_right fun hu => and_congr_left' ?_
      rw [hdone]
      refine (or_iff_left_of_imp fun he => ?_).symm
      subst he
      rw [hu] at hhas
      exact hhas.resolve_left Bool.false_ne_true
  | none =>
    have hfresh : ¬(before.has curr.name ∨ ∃ e ∈ done, e.name = curr.name) := fun hhas => by
      have hsome := (h.has_iff _).2 hhas
      rw [Dict.has, hvisit] at hsome
      cases hsome
    have hget : ∀ v, v ≠ curr.name → (s.visited.set curr.name curr).get? v = s.visited.get? v :=
      fun v hv => Dict.get?_set_ne _ _ hv
    rw [not_or, Bool.not_eq_true] at hfresh
    obtain ⟨hbefore, hdoneName⟩ := hfresh
    have hbeforeGet : before.get? curr.name = none := by
      rw [← Option.not_isSome_iff_eq_none, ← Dict.has, hbefore]
      exact Bool.false_ne_true
    refine ⟨fun v => ?_, fun v m hm => ?_, fun v m hm => ?_, fun v m hm => ?_, fun v m hm i => ?_,
      fun e => ?_⟩
    · rw [hdone, ← or_assoc, ← h.has_iff, Dict.has, Dict.has]
      by_cases hv : v = curr.name
      · subst hv
        simp
      · rw [hget v hv, or_iff_left (Ne.symm hv)]
    · by_cases hv : v = curr.name
      · subst hv
        rw [Dict.get?_set_self] at hm
        cases hm
        rfl
      · exact h.name v m (hget v hv ▸ hm)
    · by_cases hv : v = curr.name
      · subst hv
        rw [Dict.get?_set_self] at hm
        cases hm
        exact hcurr
      · exact h.nodup v m (hget v hv ▸ hm)
    · rw [hdone]
      by_cases hv : v = curr.name
      · subst hv
        rw [Dict.get?_set_self] at hm
        cases hm
        exact .inr ⟨hbeforeGet, .inr ⟨rfl, rfl⟩⟩
      · exact (h.node_depth v m (hget v hv ▸ hm)).imp_right fun ⟨hnone, hex⟩ => ⟨hnone, .inl hex⟩
    · rw [hdone]
      by_cases hv : v = curr.name
      · subst hv
        rw [Dict.get?_set_self] at hm
        cases hm
        have hold : ¬∃ e ∈ done, e.name = curr.name ∧ i ∈ e.indicies :=
          fun ⟨e, he, hname, _⟩ => hdoneName ⟨e, he, hname⟩
        simp [hbeforeGet, hold]
      · rw [h.mem_indicies v m (hget v hv ▸ hm)]
        simp [Ne.symm hv]
    · rw [List.mem_append, h.mem_queue, List.mem_map]
      constructor
      · rintro (⟨u, hu, he, hc⟩ | ⟨c, hc, rfl⟩)
        · exact ⟨u, hu, (hdone _).2 (.inl he), hc⟩
        · exact ⟨curr.name, hbefore, (hdone _).2 (.inr rfl), c, hc, rfl⟩
      · rintro ⟨u, hu, he, c, hc, rfl⟩
        rcases (hdone _).1 he with he | rfl
        · exact .inl ⟨u, hu, he, c, hc, rfl⟩
        · exact .inr ⟨c, hc, rfl⟩

theorem Progress.foldl {depth : ℕ} {before : Dict String IConnectedNode}
    {done entries : List IConnectedNode} {s : SearchState}
    (h : Progress connections depth before done s) (hentries : ∀ e ∈ entries, e.indicies.Nodup) :
    Progress connections depth before (done ++ entries)
      (entries.foldl (searchStep connections depth) s) := by
  induction entries generalizing done s with
  | nil => rwa [List.append_nil]
  | cons e entries ih =>
    rw [List.forall_mem_cons] at hentries
    have hrest := ih (h.step hentries.1) hentries.2
    rwa [List.append_assoc] at hrest

/-! ### The levels -/

/-- Between two levels: `depth` of them are done, and the queue has the connections of the nodes that
the last one visited. -/
structure Searching (connections : IConnections) (sourceNode : String) (depth : ℕ)
    (s : SearchState) : Prop where
  has_iff : ∀ v, s.visited.has v ↔ ∃ d < depth, Distance connections sourceNode d v
  name : ∀ v node, s.visited.get? v = some node → node.name = v
  nodup : ∀ v node, s.visited.get? v = some node → node.indicies.Nodup
  distance : ∀ v node, s.visited.get? v = some node → Distance connections sourceNode node.depth v
  mem_indicies : ∀ v node, s.visited.get? v = some node → ∀ i, i ∈ node.indicies ↔
    ∃ u d, Distance connections sourceNode d u ∧ d + 1 < depth ∧ ConnectsAt connections u v i
  mem_queue : ∀ e, e ∈ s.queue ↔ depth = 0 ∧ e = ⟨sourceNode, [], 0⟩ ∨
    ∃ u d i, d + 1 = depth ∧ Distance connections sourceNode d u ∧
      ConnectsAt connections u e.name i ∧ e.indicies = [i] ∧ e.depth = depth

theorem Searching.init : Searching connections sourceNode 0
    ⟨Dict.empty, [{ name := sourceNode, indicies := [], depth := 0 }]⟩ where
  has_iff v := by simp [Dict.has]
  name v node h := by cases h
  nodup v node h := by cases h
  distance v node h := by cases h
  mem_indicies v node h := by cases h
  mem_queue e := by simp

namespace Searching

variable {depth : ℕ} {s : SearchState}

theorem exists_entry_iff (h : Searching connections sourceNode depth s) (v : String) :
    (s.visited.has v = false ∧ ∃ e ∈ s.queue, e.name = v) ↔
      Distance connections sourceNode depth v := by
  constructor
  · rintro ⟨hnew, e, he, rfl⟩
    have hdist : ∃ d ≤ depth, Distance connections sourceNode d e.name := by
      rcases (h.mem_queue e).1 he with ⟨-, rfl⟩ | ⟨u, d, i, hd, hu, hconn, -, -⟩
      · exact ⟨0, Nat.zero_le _, isDistance_zero_iff.2 rfl⟩
      · exact hd ▸ hu.step ⟨i, hconn⟩
    obtain ⟨d, hd, hdist⟩ := hdist
    rcases hd.lt_or_eq with hlt | rfl
    · rw [(h.has_iff _).2 ⟨d, hlt, hdist⟩] at hnew
      cases hnew
    · exact hdist
  · intro hdist
    refine ⟨Bool.not_eq_true _ ▸ fun hold => ?_, ?_⟩
    · obtain ⟨d, hd, hd'⟩ := (h.has_iff v).1 hold
      exact hd.ne (hd'.unique hdist)
    · cases depth with
      | zero => exact ⟨_, (h.mem_queue _).2 (.inl ⟨rfl, rfl⟩), (isDistance_zero_iff.1 hdist).symm⟩
      | succ d =>
        obtain ⟨u, hu, i, hconn⟩ := hdist.exists_step
        exact ⟨⟨v, [i], d + 1⟩, (h.mem_queue _).2 (.inr ⟨u, d, i, rfl, hu, hconn, rfl, rfl⟩), rfl⟩

theorem mem_entry_indicies_iff (h : Searching connections sourceNode depth s) (v : String) (i : ℕ) :
    (∃ e ∈ s.queue, e.name = v ∧ i ∈ e.indicies) ↔
      ∃ u d, Distance connections sourceNode d u ∧ d + 1 = depth ∧ ConnectsAt connections u v i := by
  constructor
  · rintro ⟨e, he, rfl, hi⟩
    rcases (h.mem_queue e).1 he with ⟨-, rfl⟩ | ⟨u, d, j, hd, hu, hconn, hindicies, -⟩
    · cases hi
    · rw [hindicies, List.mem_singleton] at hi
      exact ⟨u, d, hu, hd, hi ▸ hconn⟩
  · rintro ⟨u, d, hu, hd, hconn⟩
    exact ⟨⟨v, [i], depth⟩, (h.mem_queue _).2 (.inr ⟨u, d, i, hd, hu, hconn, rfl, rfl⟩), rfl,
      List.mem_singleton_self i⟩

theorem nodup_entry (h : Searching connections sourceNode depth s) :
    ∀ e ∈ s.queue, e.indicies.Nodup := by
  intro e he
  rcases (h.mem_queue e).1 he with ⟨-, rfl⟩ | ⟨-, -, i, -, -, -, hindicies, -⟩
  · exact List.nodup_nil
  · rw [hindicies]
    exact List.nodup_singleton i

theorem entry_depth (h : Searching connections sourceNode depth s) :
    ∀ e ∈ s.queue, e.depth = depth := by
  intro e he
  rcases (h.mem_queue e).1 he with ⟨hzero, rfl⟩ | ⟨-, -, -, -, -, -, -, hdepth⟩
  · exact hzero.symm
  · exact hdepth

/-- **One level more.** -/
theorem step (h : Searching connections sourceNode depth s) :
    Searching connections sourceNode (depth + 1)
      (s.queue.foldl (searchStep connections (depth + 1)) { s with queue := [] }) := by
  have hprogress : Progress connections (depth + 1) s.visited s.queue
      (s.queue.foldl (searchStep connections (depth + 1)) { s with queue := [] }) :=
    (Progress.init h.name h.nodup).foldl h.nodup_entry
  have hnone : ∀ v, s.visited.get? v = none ↔ s.visited.has v = false := fun v => by
    rw [Dict.has, Option.isSome_eq_false_iff, Option.isNone_iff_eq_none]
  refine ⟨fun v => ?_, hprogress.name, hprogress.nodup, fun v node hnode => ?_,
    fun v node hnode i => ?_, fun e => ?_⟩
  · rw [hprogress.has_iff, h.has_iff]
    constructor
    · rintro (⟨d, hd, hdist⟩ | hentry)
      · exact ⟨d, hd.trans (Nat.lt_succ_self _), hdist⟩
      · by_cases hold : s.visited.has v
        · obtain ⟨d, hd, hdist⟩ := (h.has_iff v).1 hold
          exact ⟨d, hd.trans (Nat.lt_succ_self _), hdist⟩
        · exact ⟨depth, Nat.lt_succ_self _,
            (h.exists_entry_iff v).1 ⟨Bool.not_eq_true _ ▸ hold, hentry⟩⟩
    · rintro ⟨d, hd, hdist⟩
      rcases (Nat.lt_succ_iff.1 hd).lt_or_eq with hlt | rfl
      · exact .inl ⟨d, hlt, hdist⟩
      · exact .inr ((h.exists_entry_iff v).2 hdist).2
  · rcases hprogress.node_depth v node hnode with ⟨old, hold, hdepth⟩ | ⟨hold, e, he, hname, hdepth⟩
    · rw [hdepth]
      exact h.distance v old hold
    · rw [hdepth, h.entry_depth e he]
      exact (h.exists_entry_iff v).1 ⟨(hnone v).1 hold, e, he, hname⟩
  · rw [hprogress.mem_indicies v node hnode, h.mem_entry_indicies_iff]
    have hsplit : (∃ u d, Distance connections sourceNode d u ∧ d + 1 < depth + 1 ∧
          ConnectsAt connections u v i) ↔
        (∃ u d, Distance connections sourceNode d u ∧ d + 1 < depth ∧ ConnectsAt connections u v i) ∨
          ∃ u d, Distance connections sourceNode d u ∧ d + 1 = depth ∧
            ConnectsAt connections u v i := by
      simp only [Nat.lt_succ_iff_lt_or_eq (n := depth), ← exists_or, or_and_right, and_or_left]
    rw [hsplit]
    refine or_congr_left ?_
    cases hold : s.visited.get? v with
    | some old => simp [h.mem_indicies v old hold]
    | none =>
      refine iff_of_false (by simp) ?_
      rintro ⟨u, d, hu, hd, hconn⟩
      -- otherwise the node would have been visited
      obtain ⟨d', hd', hdist⟩ := hu.step ⟨i, hconn⟩
      have hvisited := (h.has_iff v).2 ⟨d', hd'.trans_lt hd, hdist⟩
      rw [(hnone v).1 hold] at hvisited
      cases hvisited
  · rw [hprogress.mem_queue]
    constructor
    · rintro ⟨u, hnew, hentry, c, hc, rfl⟩
      exact .inr ⟨u, depth, c.index, rfl, (h.exists_entry_iff u).1 ⟨hnew, hentry⟩,
        ⟨c, hc, rfl, rfl⟩, rfl, rfl⟩
    · rintro (⟨hzero, -⟩ | ⟨u, d, i, hd, hu, ⟨c, hc, hname, rfl⟩, hindicies, hdepth⟩)
      · cases hzero
      · obtain rfl : d = depth := Nat.succ.inj hd
        obtain ⟨hnew, hentry⟩ := (h.exists_entry_iff u).2 hu
        obtain ⟨name, indicies, edepth⟩ := e
        exact ⟨u, hnew, hentry, c, hc, by simp_all⟩

/-- What is visited at the end: the nodes within the depth, with the indexes of the connections that
the search follows. -/
structure Finished (connections : IConnections) (sourceNode : String) (maxDepth : ℤ)
    (s : SearchState) : Prop where
  has_iff : ∀ v, s.visited.has v ↔ ∃ d, Distance connections sourceNode d v ∧ WithinDepth maxDepth d
  name : ∀ v node, s.visited.get? v = some node → node.name = v
  nodup : ∀ v node, s.visited.get? v = some node → node.indicies.Nodup
  distance : ∀ v node, s.visited.get? v = some node → Distance connections sourceNode node.depth v
  mem_indicies : ∀ v node, s.visited.get? v = some node → ∀ i, i ∈ node.indicies ↔
    ∃ u, Expanded connections sourceNode maxDepth u ∧ ConnectsAt connections u v i

theorem withinDepth_mono {d d' : ℕ} (h : WithinDepth maxDepth d) (hle : d' ≤ d) :
    WithinDepth maxDepth d' :=
  h.imp_right fun hd => (Int.ofNat_le.2 hle).trans hd

/-- When the loop ends, no level is left that the depth allows. -/
theorem lt_of_within (h : Searching connections sourceNode depth s)
    (hend : s.queue = [] ∨ ¬WithinDepth maxDepth depth) {d : ℕ} {v : String}
    (hv : Distance connections sourceNode d v) (hwithin : WithinDepth maxDepth d) : d < depth := by
  by_contra hge
  rcases hend with hempty | hlimit
  · obtain ⟨u, hu⟩ := hv.exists_of_le (not_lt.1 hge)
    obtain ⟨-, e, he, -⟩ := (h.exists_entry_iff u).2 hu
    rw [hempty] at he
    cases he
  · exact hlimit (withinDepth_mono hwithin (not_lt.1 hge))

theorem finished (h : Searching connections sourceNode depth s)
    (hdone : ∀ d < depth, WithinDepth maxDepth d) (hend : s.queue = [] ∨ ¬WithinDepth maxDepth depth) :
    Finished connections sourceNode maxDepth s := by
  have hconnection : ∀ d u v i, Distance connections sourceNode d u → ConnectsAt connections u v i →
      (d + 1 < depth ↔ WithinDepth maxDepth (d + 1)) := by
    refine fun d u v i hu hconn => ⟨hdone (d + 1), fun hwithin => ?_⟩
    have hlt := h.lt_of_within hend hu (withinDepth_mono hwithin (Nat.le_succ d))
    refine lt_of_le_of_ne hlt fun heq => ?_
    rcases hend with hempty | hlimit
    · obtain ⟨e, he, -⟩ := (h.mem_entry_indicies_iff v i).2 ⟨u, d, hu, heq, hconn⟩
      rw [hempty] at he
      cases he
    · exact hlimit (heq ▸ hwithin)
  refine ⟨fun v => ?_, h.name, h.nodup, h.distance, fun v node hvisit i => ?_⟩
  · rw [h.has_iff]
    exact exists_congr fun d => ⟨fun ⟨hd, hv⟩ => ⟨hv, hdone d hd⟩,
      fun ⟨hv, hd⟩ => ⟨h.lt_of_within hend hv hd, hv⟩⟩
  · rw [h.mem_indicies v node hvisit]
    constructor
    · rintro ⟨u, d, hu, hd, hconn⟩
      exact ⟨u, ⟨d, hu, (hconnection d u v i hu hconn).1 hd⟩, hconn⟩
    · rintro ⟨u, ⟨d, hu, hd⟩, hconn⟩
      exact ⟨u, d, hu, (hconnection d u v i hu hconn).2 hd, hconn⟩

/-- There are no more levels than nodes with connections. -/
theorem queue_eq_nil (h : Searching connections sourceNode depth s)
    (hdepth : connections.keys.length + 2 ≤ depth) : s.queue = [] := by
  refine List.eq_nil_iff_forall_not_mem.2 fun e he => ?_
  rcases (h.mem_queue e).1 he with ⟨hzero, -⟩ | ⟨u, d, i, hd, hu, -, -, -⟩
  · omega
  · have hstarts : ∀ u v, ConnectsTo connections u v → u ∈ connections.keys := by
      rintro u v ⟨i, c, hc, -⟩
      rw [Dict.mem_keys_iff, Option.isSome_iff_ne_none]
      intro hnone
      rw [mainConnections, hnone] at hc
      cases hc
    have hle := hu.le_length hstarts
    omega

/-- **The loop**: what it answers is the search, and it answers unless a node within the depth has
the name of a member of `Object.prototype`. -/
theorem searchLevels_spec (howner : connections.has "hasOwnProperty" = false) {fuel : ℕ}
    (h : Searching connections sourceNode depth s) (hdone : ∀ d < depth, WithinDepth maxDepth d)
    (hfuel : connections.keys.length + 2 ≤ depth + fuel) :
    (∀ s', searchLevels connections maxDepth fuel depth s = .ok s' →
      Finished connections sourceNode maxDepth s' ∧
      ∀ d v, Distance connections sourceNode d v → WithinDepth maxDepth d → depth ≤ d →
        v ∉ objectPrototypeKeys) ∧
    ((∀ d v, Distance connections sourceNode d v → WithinDepth maxDepth d → v ∉ objectPrototypeKeys) →
      ∃ s', searchLevels connections maxDepth fuel depth s = .ok s') := by
  induction fuel generalizing depth s with
  | zero =>
    have hend : s.queue = [] := h.queue_eq_nil hfuel
    refine ⟨fun s' hs' => ?_, fun _ => ⟨s, rfl⟩⟩
    cases hs'
    exact ⟨h.finished hdone (.inl hend),
      fun d v hv hwithin hle => absurd (h.lt_of_within (.inl hend) hv hwithin) (not_lt.2 hle)⟩
  | succ fuel ih =>
    rw [searchLevels]
    by_cases hend : s.queue = [] ∨ maxDepth ≠ -1 ∧ maxDepth < depth
    · have hstop : s.queue = [] ∨ ¬WithinDepth maxDepth depth :=
        hend.imp_right fun hlimit => by simp only [WithinDepth]; omega
      rw [if_pos hend]
      refine ⟨fun s' hs' => ?_, fun _ => ⟨s, rfl⟩⟩
      cases hs'
      exact ⟨h.finished hdone hstop,
        fun d v hv hwithin hle => absurd (h.lt_of_within hstop hv hwithin) (not_lt.2 hle)⟩
    · rw [if_neg hend]
      have hdepth : WithinDepth maxDepth depth := by
        simp only [WithinDepth]
        omega
      have hdone' : ∀ d < depth + 1, WithinDepth maxDepth d := fun d hd =>
        (Nat.lt_succ_iff.1 hd).lt_or_eq.elim (hdone d) fun he => he ▸ hdepth
      obtain ⟨hspec, hok⟩ := ih h.step hdone' (by omega)
      have hlevel :
    ∀ s₁, s.queue.foldlM (searchEntry connections (depth + 1)) { s with queue := [] } =
          .ok s₁ ↔ (∀ e ∈ s.queue, e.name ∉ objectPrototypeKeys) ∧
            s₁ = s.queue.foldl (searchStep connections (depth + 1)) { s with queue := [] } :=
        fun s₁ => Except.foldlM_eq_ok_iff (I := fun _ => True)
          (fun s e s' _ => searchEntry_eq_ok_iff howner (depth + 1) s e s') (fun _ _ _ => trivial)
          trivial
      constructor
      · intro s' hs'
        obtain ⟨s₁, hs₁, hs'⟩ := Except.bind_eq_ok_iff.1 hs'
        obtain ⟨hnames, rfl⟩ := (hlevel s₁).1 hs₁
        obtain ⟨hfinished, hlater⟩ := hspec s' hs'
        refine ⟨hfinished, fun d v hv hwithin hle => ?_⟩
        rcases hle.lt_or_eq with hlt | rfl
        · exact hlater d v hv hwithin hlt
        · obtain ⟨-, e, he, rfl⟩ := (h.exists_entry_iff v).2 hv
          exact hnames e he
      · intro hnames
        obtain ⟨s', hs'⟩ := hok hnames
        refine ⟨s', Except.bind_eq_ok_iff.2 ⟨_, (hlevel _).2 ⟨fun e he => ?_, rfl⟩, hs'⟩⟩
        by_cases hold : s.visited.has e.name
        · obtain ⟨d, hd, hv⟩ := (h.has_iff _).1 hold
          exact hnames d _ hv (hdone d hd)
        · have hv := (h.exists_entry_iff e.name).1 ⟨Bool.not_eq_true _ ▸ hold, e, he, rfl⟩
          exact hnames depth _ hv hdepth

/-- What is returned of the visited nodes. -/
theorem Finished.breadthFirst {s : SearchState} (h : Finished connections sourceNode maxDepth s) :
    BreadthFirst connections sourceNode maxDepth
      (s.visited.values.filter (·.name ≠ sourceNode)) := by
  have hkeys : s.visited.values.map (·.name) = s.visited.keys := by
    rw [Dict.values, Dict.keys, List.map_map]
    exact List.map_congr_left fun e he => h.name _ _ ((s.visited.mem_entries_iff e.1 e.2).1 he)
  have hmem : ∀ node, node ∈ s.visited.values.filter (·.name ≠ sourceNode) →
      s.visited.get? node.name = some node := fun node hnode => by
    obtain ⟨k, hk⟩ := (s.visited.mem_values_iff node).1 (List.mem_filter.1 hnode).1
    rw [h.name k node hk, hk]
  refine ⟨?_, fun v => ?_, fun node hnode => h.distance _ _ (hmem node hnode),
    fun node hnode => h.nodup _ _ (hmem node hnode),
    fun node hnode => h.mem_indicies _ _ (hmem node hnode)⟩
  · refine List.Nodup.sublist (List.filter_sublist.map _) ?_
    rw [hkeys]
    exact s.visited.keys_nodup
  · have hvisited : (∃ node, s.visited.get? v = some node) ↔
        ∃ d, Distance connections sourceNode d v ∧ WithinDepth maxDepth d := by
      rw [← h.has_iff, Dict.has, Option.isSome_iff_exists]
    rw [← hvisited, List.mem_map]
    constructor
    · rintro ⟨node, hnode, rfl⟩
      exact ⟨of_decide_eq_true (List.mem_filter.1 hnode).2, node, hmem node hnode⟩
    · rintro ⟨hne, node, hnode⟩
      have hname := h.name v node hnode
      exact ⟨node, List.mem_filter.2 ⟨(s.visited.mem_values_iff node).2 ⟨v, hnode⟩,
        decide_eq_true (hname ▸ hne)⟩, hname⟩

end Searching

/-- The first turn of the loop fails when a source hides the method of `connections`. -/
theorem searchNodesBFS_of_owner (howner : connections.has "hasOwnProperty")
    (hwithin : WithinDepth maxDepth 0) (nodes : List IConnectedNode) :
    searchNodesBFS connections sourceNode maxDepth ≠ .ok nodes := by
  intro h
  obtain ⟨s, hs, -⟩ := Except.bind_eq_ok_iff.1 h
  have hgo : ¬(([⟨sourceNode, [], 0⟩] : List IConnectedNode) = [] ∨
      maxDepth ≠ -1 ∧ maxDepth < ((0 : ℕ) : ℤ)) := by
    simp only [WithinDepth, Nat.cast_zero] at hwithin
    simp only [List.cons_ne_nil, false_or, Nat.cast_zero]
    omega
  rw [searchLevels, if_neg hgo, List.foldlM_cons] at hs
  obtain ⟨s₁, hs₁, -⟩ := Except.bind_eq_ok_iff.1 hs
  obtain ⟨s₂, hs₂, -⟩ := Except.bind_eq_ok_iff.1 hs₁
  unfold searchEntry at hs₂
  split_ifs at hs₂ with hname
  simp at hs₂

end Level

end N8n
