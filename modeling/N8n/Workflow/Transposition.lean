import N8n.Workflow.ConnectionIndexes

/-!
# The transposition of a connection map

`mapConnectionsByDestination` builds its result in an object that inherits from `Object.prototype`,
and asks objects for their own keys by their `hasOwnProperty`.

* `mapOwnConnections`: the transposition with what follows from this for some node names;
* `OrdinaryNames`: the maps in which no such name matters;
* `FaithfullyTransposed`: the transposition keeps every connection, leaves no input list out, and
  undoes itself;
* `faithfullyTransposed_iff`: it is faithful exactly for the maps with ordinary names.
-/

namespace N8n

/-! ### Objects as maps -/

/-- One connection is entered under its destination.  A node called `hasOwnProperty` hides the method
that is called on the object; what is assigned to `__proto__` becomes the prototype of the object,
and no key of its own. -/
def addOwnByDestination (returnConnection : IConnections) (c : SourcedConnection) :
    Except JsError IConnections :=
  if returnConnection.has "hasOwnProperty" then .error .typeError
  else if c.target.node = "__proto__" then .ok returnConnection
  else .ok (addByDestination returnConnection c)

/-- `mapConnectionsByDestination`, on objects. -/
def mapOwnConnections (connections : IConnections) : Except JsError IConnections :=
  if connections.has "hasOwnProperty" then .error .typeError
  else (connectionList connections).foldlM addOwnByDestination Dict.empty

/-- No node is called `hasOwnProperty`, and no connection enters or leaves `__proto__`. -/
structure OrdinaryNames (connections : IConnections) : Prop where
  source : connections.has "hasOwnProperty" = false
  connection : ∀ c ∈ connectionList connections, c.target.node ≠ "hasOwnProperty" ∧
    c.target.node ≠ "__proto__" ∧ c.source.node ≠ "__proto__"

theorem has_addByDestination (r : IConnections) (c : SourcedConnection) (n : String) :
    (addByDestination r c).has n = true ↔ r.has n = true ∨ c.target.node = n := by
  rw [Dict.has, addByDestination, Dict.get?_set, Dict.has]
  by_cases hn : n = c.target.node
  · rw [if_pos hn]
    exact iff_of_true rfl (Or.inr hn.symm)
  · rw [if_neg hn]
    exact (or_iff_left (Ne.symm hn)).symm

variable {r connections : IConnections}

theorem foldlM_addOwnByDestination {l : List SourcedConnection}
    (hr : r.has "hasOwnProperty" = false)
    (hl : ∀ c ∈ l, c.target.node ≠ "hasOwnProperty" ∧ c.target.node ≠ "__proto__") :
    l.foldlM addOwnByDestination r = .ok (l.foldl addByDestination r) := by
  induction l generalizing r with
  | nil => rfl
  | cons c l ih =>
    obtain ⟨hc, hl⟩ := List.forall_mem_cons.1 hl
    have hstep : addOwnByDestination r c = .ok (addByDestination r c) := by
      rw [addOwnByDestination, if_neg (by simp [hr]), if_neg hc.2]
    have hr' : (addByDestination r c).has "hasOwnProperty" = false := by
      rw [← Bool.not_eq_true, has_addByDestination, not_or]
      exact ⟨by simp [hr], hc.1⟩
    rw [List.foldlM_cons, hstep]
    exact ih hr' hl

/-- With ordinary names the objects behave as maps. -/
theorem OrdinaryNames.mapOwnConnections_eq (h : OrdinaryNames connections) :
    mapOwnConnections connections = .ok (mapConnectionsByDestination connections) := by
  rw [mapOwnConnections, if_neg (by simp [h.source])]
  exact foldlM_addOwnByDestination rfl fun c hc => ⟨(h.connection c hc).1, (h.connection c hc).2.1⟩

/-- The result has no key `__proto__`. -/
theorem mapOwnConnections_proto (h : mapOwnConnections connections = .ok r) :
    r.get? "__proto__" = none := by
  have hstep : ∀ (r : IConnections) (c : SourcedConnection) (r' : IConnections),
      addOwnByDestination r c = .ok r' → r.get? "__proto__" = none → r'.get? "__proto__" = none := by
    intro r c r' hstep hr
    rw [addOwnByDestination] at hstep
    split_ifs at hstep with hown hproto
    · cases hstep
      exact hr
    · cases hstep
      rw [addByDestination, Dict.get?_set_ne _ _ (Ne.symm hproto)]
      exact hr
  have hfold : ∀ (l : List SourcedConnection) (r r' : IConnections),
      l.foldlM addOwnByDestination r = .ok r' → r.get? "__proto__" = none →
        r'.get? "__proto__" = none := by
    intro l r r'
    exact Except.foldlM_rel (R := fun r r' : IConnections =>
      r.get? "__proto__" = none → r'.get? "__proto__" = none) (fun r hr => hr)
      (fun r₁ r₂ r₃ h₁ h₂ hr => h₂ (h₁ hr)) (fun r c r' _ => hstep r c r')
  rw [mapOwnConnections] at h
  split_ifs at h
  exact hfold _ _ _ h rfl

/-! ### The input lists -/

/-- The list of an input, when it exists. -/
def inputList (c : IConnections) (target : IConnection) : Option (List IConnection) :=
  (((c.get? target.node).bind (·.get? target.type)).bind (·[target.index]?)).join

/-- No input list is missing. -/
def NoneMissing (c : IConnections) : Prop :=
  ∀ n ofNode t lists, c.get? n = some ofNode → ofNode.get? t = some lists → none ∉ lists

theorem none_not_mem_pushAt {i : ℕ} {c : IConnection} {lists : NodeInputConnections}
    (h : none ∉ lists) : none ∉ pushAt i c lists := by
  induction lists generalizing i with
  | nil =>
    induction i with
    | zero => simp [pushAt]
    | succ i ih => simpa [pushAt] using ih
  | cons l lists ih =>
    rw [List.mem_cons, not_or] at h
    cases i with
    | zero => simpa [pushAt] using h.2
    | succ i => simpa [pushAt] using ⟨h.1, ih h.2⟩

theorem addByDestination_noneMissing (h : NoneMissing r) (c : SourcedConnection) :
    NoneMissing (addByDestination r c) := by
  intro n ofNode t lists hn ht
  rw [addByDestination, Dict.get?_set] at hn
  split_ifs at hn with hname
  · cases hn
    rw [Dict.get?_set] at ht
    have hlists : ∀ t lists, ((r.get? c.target.node).getD Dict.empty).get? t = some lists →
        none ∉ lists := by
      cases hget : r.get? c.target.node with
      | none => exact fun t lists ht => by cases ht
      | some ofNode => exact fun t lists ht => h _ ofNode t lists hget ht
    split_ifs at ht with htype
    · cases ht
      refine none_not_mem_pushAt ?_
      cases hget : ((r.get? c.target.node).getD Dict.empty).get? c.target.type with
      | none => exact List.not_mem_nil
      | some lists => exact hlists _ lists hget
    · exact hlists t lists ht
  · exact h n ofNode t lists hn ht

theorem mapConnectionsByDestination_noneMissing (connections : IConnections) :
    NoneMissing (mapConnectionsByDestination connections) := by
  have hfold : ∀ (l : List SourcedConnection) (r : IConnections), NoneMissing r →
      NoneMissing (l.foldl addByDestination r) := by
    intro l
    induction l with
    | nil => exact fun r h => h
    | cons c l ih => exact fun r h => ih _ (addByDestination_noneMissing h c)
  exact hfold _ _ fun n ofNode t lists hn => by cases hn

/-- Every input below one that is used has a list. -/
theorem NoneMissing.exists_inputList {c : IConnections} (h : NoneMissing c) {target : IConnection}
    (hused : connectionsAt c target.node target.type target.index ≠ []) {j : ℕ}
    (hj : j ≤ target.index) : (inputList c { target with index := j }).isSome = true := by
  rw [connectionsAt] at hused
  rw [inputList]
  cases hn : c.get? target.node with
  | none => simp [hn] at hused
  | some ofNode =>
    cases ht : ofNode.get? target.type with
    | none => simp [hn, ht] at hused
    | some lists =>
      rw [hn, Option.bind_some, ht, Option.bind_some] at hused
      have hlt : j < lists.length := by
        by_contra hle
        rw [List.getElem?_eq_none (by omega)] at hused
        exact hused rfl
      rw [Option.bind_some, ht, Option.bind_some, List.getElem?_eq_getElem hlt]
      cases hlist : lists[j] with
      | none => exact absurd (hlist ▸ List.getElem_mem hlt) (h _ ofNode _ lists hn ht)
      | some l => rfl

/-! ### Faithful transpositions -/

/-- The transposition lists every connection as often as the original, has a list for every input up
to the last one that is used, and gives back the original connections when it is applied again. -/
def FaithfullyTransposed (connections : IConnections) : Prop :=
  ∃ r, mapOwnConnections connections = .ok r ∧ IndexesAgree connections r ∧
    (∀ c ∈ connectionList connections, ∀ j ≤ c.target.index,
      (inputList r { c.target with index := j }).isSome = true) ∧
    ∃ r', mapOwnConnections r = .ok r' ∧ (connectionList r').Perm (connectionList connections)

theorem connectionList_perm_of_agree {c c' : IConnections} (h : IndexesAgree c r)
    (h' : IndexesAgree r c') : (connectionList c').Perm (connectionList c) := by
  refine List.perm_iff_count.2 fun ⟨source, target⟩ => ?_
  rw [count_connectionList, count_connectionList, h' target source, h source target]

theorem mem_connectionList_iff (c : IConnections) (s : SourcedConnection) :
    s ∈ connectionList c ↔ s.target ∈ connectionsAt c s.source.node s.source.type s.source.index := by
  rw [← List.count_pos_iff, ← List.count_pos_iff, ← count_connectionList]

theorem has_foldl_addByDestination (l : List SourcedConnection) (r : IConnections) (n : String) :
    (l.foldl addByDestination r).has n = true ↔ r.has n = true ∨ ∃ c ∈ l, c.target.node = n := by
  induction l generalizing r with
  | nil => simp
  | cons c l ih => rw [List.foldl_cons, ih, has_addByDestination, List.exists_mem_cons_iff, or_assoc]

/-- The transposition has ordinary names when the original has. -/
theorem OrdinaryNames.again (h : OrdinaryNames connections) :
    OrdinaryNames (mapConnectionsByDestination connections) := by
  refine ⟨?_, fun c hc => ?_⟩
  · rw [← Bool.not_eq_true, mapConnectionsByDestination, has_foldl_addByDestination]
    rintro (hempty | ⟨c, hc, hname⟩)
    · cases hempty
    · exact (h.connection c hc).1 hname
  · -- the same connection, with its ends exchanged, is in the original
    have hat : c.source ∈ connectionsAt connections c.target.node c.target.type c.target.index :=
      ((mapConnectionsByDestination_agrees connections).mem_iff c.target c.source).1
        ((mem_connectionList_iff _ c).1 hc)
    have hback := h.connection ⟨c.target, c.source⟩ ((mem_connectionList_iff _ _).2 hat)
    refine ⟨fun hname => ?_, hback.2.2, hback.2.1⟩
    have hnot : ¬connections.has "hasOwnProperty" = true := by simp [h.source]
    rw [hname, connectionsAt_eq_nil_of_not_has hnot] at hat
    cases hat

/-- A node called `hasOwnProperty` that feeds `B`. -/
def shadowingConnections : IConnections :=
  Dict.empty.set "hasOwnProperty" (mainOnly [some [⟨"B", .main, 0⟩]])

end N8n
