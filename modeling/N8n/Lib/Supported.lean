import Mathlib.Data.List.Basic

/-!
# Lists whose elements rely on earlier ones

Every element of a list needs some things; each of them is there already or is supplied by an element
before it.

* `Supported`: a list that comes after the elements `before`;
* `supported_append`: two lists, one after the other;
* `Supported.mono`: more is there, and nothing that is needed was lost;
* `Supported.insert`: elements that need nothing come in front and behind.
-/

universe u v

variable {α : Type u} {ν : Type v}

/-- Whatever an element of the list needs is there, or is supplied by an element before it: one of
`before` or of the list itself. -/
def Supported (needs : α → List ν) (supplies : α → ν → Prop) (there : ν → Prop) :
    List α → List α → Prop
  | _, [] => True
  | before, e :: l =>
    (∀ a ∈ needs e, there a ∨ ∃ t ∈ before, supplies t a) ∧
      Supported needs supplies there (before ++ [e]) l

section Supported

variable {needs : α → List ν} {supplies : α → ν → Prop} {there there' : ν → Prop}
  {before before' l l' : List α}

theorem supported_append : Supported needs supplies there before (l ++ l') ↔
    Supported needs supplies there before l ∧ Supported needs supplies there (before ++ l) l' := by
  induction l generalizing before with
  | nil => simp [Supported]
  | cons e l ih => simp [Supported, ih, and_assoc]

theorem supported_of_no_needs (h : ∀ e ∈ l, needs e = []) :
    Supported needs supplies there before l := by
  induction l generalizing before with
  | nil => trivial
  | cons e l ih =>
    refine ⟨fun a ha => ?_, ih fun e he => h e (List.mem_cons_of_mem _ he)⟩
    rw [h e List.mem_cons_self] at ha
    cases ha

/-- What the elements before supplied is still supplied, or there, for all that the list needs. -/
theorem Supported.mono (h : Supported needs supplies there before l)
    (hthere : ∀ a, there a → there' a)
    (hbefore : ∀ e ∈ l, ∀ a ∈ needs e, ∀ t ∈ before, supplies t a →
      there' a ∨ ∃ t' ∈ before', supplies t' a) :
    Supported needs supplies there' before' l := by
  induction l generalizing before before' with
  | nil => trivial
  | cons e l ih =>
    obtain ⟨he, hl⟩ := h
    refine ⟨fun a ha => ?_, ih hl fun e' he' a ha t ht hta => ?_⟩
    · rcases he a ha with h | ⟨t, ht, hta⟩
      · exact Or.inl (hthere a h)
      · exact hbefore e List.mem_cons_self a ha t ht hta
    · rcases List.mem_append.1 ht with ht | ht
      · refine (hbefore e' (List.mem_cons_of_mem _ he') a ha t ht hta).imp_right ?_
        rintro ⟨t', ht', hta'⟩
        exact ⟨t', List.mem_append_left _ ht', hta'⟩
      · exact Or.inr ⟨t, List.mem_append_right _ ht, hta⟩

/-- Elements that need nothing may be put in front and behind. -/
theorem Supported.insert (h : Supported needs supplies there before l) {front back : List α}
    (hfront : ∀ e ∈ front, needs e = []) (hback : ∀ e ∈ back, needs e = []) :
    Supported needs supplies there before (front ++ l ++ back) := by
  refine supported_append.2 ⟨supported_append.2 ⟨?_, ?_⟩, ?_⟩
  · exact supported_of_no_needs hfront
  · exact h.mono (fun _ h => h) fun _ _ _ _ t ht hta =>
      Or.inr ⟨t, List.mem_append_left _ ht, hta⟩
  · exact supported_of_no_needs hback

end Supported
