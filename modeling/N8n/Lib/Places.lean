import N8n.Lib.Dict

/-!
# Locations of a memory that a value refers to

A value in memory refers to locations, and a reader who follows the references sees a value without
them.

* `Covers same view locations`: two memories show the same value exactly when they are the same at
  the locations of the value; lists, optional values and maps of covered values are covered.
* `foldl_update_apply`: a loop that rewrites the locations of a list in place rewrites each one as
  often as the list names it.
-/

namespace N8n

variable {L M A B : Type*} {same : L → M → M → Prop} {view : M → A → B} {locations : A → List L}

/-- What `view` shows of a value is the same in two memories exactly when they are the same at the
`locations` of the value. -/
def Covers (same : L → M → M → Prop) (view : M → A → B) (locations : A → List L) : Prop :=
  ∀ m m' x, view m x = view m' x ↔ ∀ l ∈ locations x, same l m m'

namespace Covers

/-- Only which locations are listed counts. -/
theorem congr {locations' : A → List L} (h : Covers same view locations)
    (hmem : ∀ x l, l ∈ locations' x ↔ l ∈ locations x) : Covers same view locations' :=
  fun m m' x => (h m m' x).trans (forall_congr' fun l => by rw [hmem])

theorem list (h : Covers same view locations) :
    Covers same (fun m => List.map (view m)) (fun l => l.flatMap locations) := by
  intro m m' l
  calc l.map (view m) = l.map (view m') ↔ ∀ x ∈ l, view m x = view m' x := List.map_inj_left
    _ ↔ ∀ x ∈ l, ∀ a ∈ locations x, same a m m' := forall₂_congr fun x _ => h m m' x
    _ ↔ ∀ a ∈ l.flatMap locations, same a m m' := by
      simp only [List.mem_flatMap, forall_exists_index, and_imp]
      exact ⟨fun hall a x hx ha => hall x hx a ha, fun hall x hx a ha => hall a x hx ha⟩

theorem option (h : Covers same view locations) :
    Covers same (fun m => Option.map (view m)) (fun o => o.toList.flatMap locations) := by
  intro m m' o
  cases o with
  | none => simp
  | some x => simpa using h m m' x

theorem dict {κ : Type*} [DecidableEq κ] (h : Covers same view locations) :
    Covers same (fun m (d : Dict κ A) => d.mapValues (view m))
      (fun d => d.values.flatMap locations) := by
  intro m m' d
  have hentries : d.mapValues (view m) = d.mapValues (view m') ↔
      d.values.map (view m) = d.values.map (view m') := by
    simp only [Dict.mapValues, Dict.mk.injEq, Dict.values, List.map_map, List.map_inj_left,
      Function.comp_apply, Prod.mk.injEq, true_and]
  exact hentries.trans (h.list m m' d.values)

end Covers

/-- A loop that rewrites the locations of a list rewrites each as often as the list names it. -/
theorem foldl_update_apply {α β : Type*} [DecidableEq α] (f : β → β) (l : List α) (m : α → β)
    (a : α) : l.foldl (fun m b => Function.update m b (f (m b))) m a = f^[l.count a] (m a) := by
  induction l generalizing m with
  | nil => rfl
  | cons b l ih =>
    rw [List.foldl_cons, ih]
    by_cases hab : b = a
    · subst hab
      simp [Function.iterate_succ_apply]
    · simp [Function.update_of_ne (Ne.symm hab), hab]

end N8n
