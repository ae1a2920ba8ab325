import Mathlib.Data.List.Infix
import Mathlib.Data.List.Count
import Mathlib.Algebra.GroupWithZero.Nat

/-!
# Replacing the occurrences of a list in a list

A marked list in which a mark occurs once is a template with a placeholder.

* `splitAtFirst`: what stands before and after the leftmost occurrence of a pattern;
* `replaceAll`, `replaceAllWith`: the occurrences replaced, from left to right;
* `Marked`: a list in which some parts are marks that stand for lists; `Marked.text` writes the
  lists out, `Marked.mark` puts a mark in the place of a pattern;
* `Marked.text_mark_of_eq`: marks that stand for the pattern change nothing;
* `Marked.KeptOnly.text_mark`: where a pattern occurs between the marks only, marking it is
  replacing it in the text;
* `Marked.Placeholder`, `Marked.Placeholder.text_update`: a placeholder, and another text for it;
* `Marked.text_inj`: what the marks stand for is read off the text;
* `Marked.markFirst`: the first occurrence of a pattern becomes a mark;
* `Marked.Placeholder.split`: where a text is found that starts like nothing before it.
-/

universe u v

section

variable {α : Type u} [DecidableEq α]

/-- What stands before and after the leftmost occurrence of `pat`. -/
def splitAtFirst (pat : List α) : List α → Option (List α × List α)
  | [] => none
  | c :: l =>
    if pat <+: c :: l then some ([], (c :: l).drop pat.length)
    else (splitAtFirst pat l).map fun p => (c :: p.1, p.2)

/-- Whether `pat` occurs in a list. -/
def includes (pat l : List α) : Bool := (splitAtFirst pat l).isSome

variable {pat l pre post : List α}

theorem splitAtFirst_eq_append (h : splitAtFirst pat l = some (pre, post)) : l = pre ++ (pat ++ post) := by
  induction l generalizing pre with
  | nil => cases h
  | cons c l ih =>
    unfold splitAtFirst at h
    split_ifs at h with hp
    · obtain ⟨r, hr⟩ := hp
      obtain ⟨rfl, rfl⟩ := Prod.mk.inj (Option.some.inj h)
      rw [← hr, List.drop_left, List.nil_append]
    · obtain ⟨⟨pre', post'⟩, hs, he⟩ := Option.map_eq_some_iff.1 h
      obtain ⟨rfl, rfl⟩ := Prod.mk.inj he
      rw [ih hs, List.cons_append]

theorem includes_append (hpat : pat ≠ []) (pre post : List α) :
    includes pat (pre ++ (pat ++ post)) = true := by
  unfold includes
  induction pre with
  | nil =>
    obtain ⟨c, l, rfl⟩ := List.exists_cons_of_ne_nil hpat
    rw [List.nil_append, List.cons_append, splitAtFirst, if_pos ⟨post, rfl⟩]
    rfl
  | cons c pre ih =>
    rw [List.cons_append, splitAtFirst]
    split_ifs
    · rfl
    · rw [Option.isSome_map]
      exact ih

/-- The loop of `replaceAllWith`; `before` is what was passed, `n` bounds the occurrences. -/
def replaceAllLoop (pat : List α) (new : List α → List α → List α) :
    ℕ → List α → List α → List α
  | 0, _, l => l
  | n + 1, before, l =>
    match splitAtFirst pat l with
    | none => l
    | some (pre, post) =>
      pre ++ (new (before ++ pre) post ++ replaceAllLoop pat new n (before ++ (pre ++ pat)) post)

/-- The occurrences of `pat` replaced, each by what `new` makes of the text before and after it. -/
def replaceAllWith (pat : List α) (new : List α → List α → List α) (l : List α) : List α :=
  replaceAllLoop pat new l.length [] l

/-- The occurrences of `pat` replaced by `new`. -/
def replaceAll (pat new l : List α) : List α := replaceAllWith pat (fun _ _ => new) l

theorem replaceAllLoop_const (hpat : pat ≠ []) (new : List α) {n m : ℕ} (b b' : List α)
    (hn : l.length ≤ n) (hm : l.length ≤ m) :
    replaceAllLoop pat (fun _ _ => new) n b l = replaceAllLoop pat (fun _ _ => new) m b' l := by
  induction n generalizing m b b' l with
  | zero =>
    obtain rfl := List.eq_nil_of_length_eq_zero (Nat.le_zero.1 hn)
    cases m <;> rfl
  | succ n ih =>
    cases m with
    | zero =>
      obtain rfl := List.eq_nil_of_length_eq_zero (Nat.le_zero.1 hm)
      rfl
    | succ m =>
      unfold replaceAllLoop
      cases hs : splitAtFirst pat l with
      | none => rfl
      | some p =>
        obtain ⟨pre, post⟩ := p
        have hlen := congrArg List.length (splitAtFirst_eq_append hs)
        have hpos := List.length_pos_iff.2 hpat
        simp only [List.length_append] at hlen
        show pre ++ (new ++ _) = pre ++ (new ++ _)
        rw [ih (m := m) _ (b' ++ (pre ++ pat)) (by omega) (by omega)]

theorem replaceAll_of_none (new : List α) (h : splitAtFirst pat l = none) :
    replaceAll pat new l = l := by
  unfold replaceAll replaceAllWith
  cases hl : l.length with
  | zero => rfl
  | succ n => rw [replaceAllLoop, h]

theorem replaceAll_of_some (hpat : pat ≠ []) (new : List α)
    (h : splitAtFirst pat l = some (pre, post)) :
    replaceAll pat new l = pre ++ (new ++ replaceAll pat new post) := by
  have hlen := congrArg List.length (splitAtFirst_eq_append h)
  have hpos := List.length_pos_iff.2 hpat
  simp only [List.length_append] at hlen
  unfold replaceAll replaceAllWith
  cases hl : l.length with
  | zero => omega
  | succ n =>
    rw [replaceAllLoop, h]
    show pre ++ (new ++ _) = _
    rw [replaceAllLoop_const hpat new (m := post.length) _ [] (by omega) le_rfl]

/-- Replacing a pattern by itself changes nothing. -/
theorem replaceAll_self (hpat : pat ≠ []) (l : List α) : replaceAll pat pat l = l := by
  induction hn : l.length using Nat.strong_induction_on generalizing l with
  | _ n ih =>
    cases hs : splitAtFirst pat l with
    | none => exact replaceAll_of_none pat hs
    | some p =>
      obtain ⟨pre, post⟩ := p
      have hl := splitAtFirst_eq_append hs
      have hlen := congrArg List.length hl
      have hpos := List.length_pos_iff.2 hpat
      simp only [List.length_append] at hlen
      rw [replaceAll_of_some hpat pat hs, ih post.length (by omega) post rfl, ← hl]

/-! ### Marked lists -/

/-- A list in which some parts are marks. -/
abbrev Marked (α : Type u) (ι : Type v) := List (α ⊕ ι)

namespace Marked

variable {ι : Type v} [DecidableEq ι] {f : ι → List α} {pat : List α} {i : ι}

/-- The list with the marks written out. -/
def text (f : ι → List α) (ps : Marked α ι) : List α := ps.flatMap (Sum.elim (fun c => [c]) f)

omit [DecidableEq α] [DecidableEq ι] in
@[simp] theorem text_nil : text f [] = [] := rfl

omit [DecidableEq α] [DecidableEq ι] in
@[simp] theorem text_append (ps qs : Marked α ι) : text f (ps ++ qs) = text f ps ++ text f qs :=
  List.flatMap_append

omit [DecidableEq α] [DecidableEq ι] in
@[simp] theorem text_cons_inl (c : α) (ps : Marked α ι) :
    text f (.inl c :: ps) = c :: text f ps := rfl

omit [DecidableEq α] [DecidableEq ι] in
@[simp] theorem text_cons_inr (j : ι) (ps : Marked α ι) :
    text f (.inr j :: ps) = f j ++ text f ps := rfl

omit [DecidableEq α] [DecidableEq ι] in
@[simp] theorem text_map_inl (l : List α) : text f (l.map .inl) = l := by
  induction l with
  | nil => rfl
  | cons c l ih => rw [List.map_cons, text_cons_inl, ih]

omit [DecidableEq α] [DecidableEq ι] in
theorem text_congr {g : ι → List α} {ps : Marked α ι} (h : ∀ j, .inr j ∈ ps → f j = g j) :
    text f ps = text g ps := by
  induction ps with
  | nil => rfl
  | cons p ps ih =>
    have hps := ih fun j hj => h j (List.mem_cons_of_mem p hj)
    cases p with
    | inl c => rw [text_cons_inl, text_cons_inl, hps]
    | inr j => rw [text_cons_inr, text_cons_inr, hps, h j List.mem_cons_self]

/-- The occurrences of `pat` between the marks become marks. -/
def mark (pat : List α) (i : ι) (ps : Marked α ι) : Marked α ι :=
  replaceAll (pat.map .inl) [.inr i] ps

theorem mark_of_none {ps : Marked α ι} (h : splitAtFirst (pat.map .inl) ps = none) :
    mark pat i ps = ps :=
  replaceAll_of_none _ h

theorem mark_of_some (hpat : pat ≠ []) {ps ps₁ ps₂ : Marked α ι}
    (h : splitAtFirst (pat.map .inl) ps = some (ps₁, ps₂)) :
    mark pat i ps = ps₁ ++ .inr i :: mark pat i ps₂ :=
  replaceAll_of_some (by simpa using hpat) _ h

theorem text_of_split {ps ps₁ ps₂ : Marked α ι}
    (h : splitAtFirst (pat.map .inl) ps = some (ps₁, ps₂)) :
    text f ps = text f ps₁ ++ (pat ++ text f ps₂) := by
  rw [splitAtFirst_eq_append h, text_append, text_append, text_map_inl]

/-- A pattern that does not occur in the text does not occur between the marks. -/
theorem split_eq_none (hpat : pat ≠ []) {ps : Marked α ι} (h : includes pat (text f ps) = false) :
    splitAtFirst (pat.map .inl) ps = none := by
  cases hs : splitAtFirst (pat.map .inl) ps with
  | none => rfl
  | some p =>
    obtain ⟨ps₁, ps₂⟩ := p
    rw [text_of_split hs, includes_append hpat] at h
    cases h

/-- Marks that stand for the pattern leave the text as it is. -/
theorem text_mark_of_eq (hpat : pat ≠ []) (hi : f i = pat) (ps : Marked α ι) :
    text f (mark pat i ps) = text f ps := by
  induction hn : ps.length using Nat.strong_induction_on generalizing ps with
  | _ n ih =>
    cases hs : splitAtFirst (pat.map .inl) ps with
    | none => rw [mark_of_none hs]
    | some p =>
      obtain ⟨ps₁, ps₂⟩ := p
      have hlen := congrArg List.length (splitAtFirst_eq_append hs)
      have hpos := List.length_pos_iff.2 hpat
      simp only [List.length_append, List.length_map] at hlen
      rw [mark_of_some hpat hs, text_of_split hs, text_append, text_cons_inr, hi,
        ih ps₂.length (by omega) ps₂ rfl]

/-- The marks of a marked list are old ones or the new one. -/
theorem of_mem_mark (hpat : pat ≠ []) {ps : Marked α ι} {j : ι} (h : .inr j ∈ mark pat i ps) :
    .inr j ∈ ps ∨ j = i := by
  induction hn : ps.length using Nat.strong_induction_on generalizing ps with
  | _ n ih =>
    cases hs : splitAtFirst (pat.map .inl) ps with
    | none =>
      rw [mark_of_none hs] at h
      exact .inl h
    | some p =>
      obtain ⟨ps₁, ps₂⟩ := p
      have hps := splitAtFirst_eq_append hs
      have hlen := congrArg List.length hps
      have hpos := List.length_pos_iff.2 hpat
      simp only [List.length_append, List.length_map] at hlen
      rw [mark_of_some hpat hs] at h
      rcases List.mem_append.1 h with h | h
      · exact .inl (hps ▸ List.mem_append_left _ h)
      rcases List.mem_cons.1 h with h | h
      · exact .inr (Sum.inr.inj h)
      · rcases ih ps₂.length (by omega) h rfl with h | h
        · exact .inl (hps ▸ List.mem_append_right _ (List.mem_append_right _ h))
        · exact .inr h

/-- The occurrences of `pat` that a scan of the text finds stand between the marks. -/
inductive KeptOnly (f : ι → List α) (pat : List α) : Marked α ι → Prop
  | done {ps : Marked α ι} (h : includes pat (text f ps) = false) : KeptOnly f pat ps
  | step {ps : Marked α ι} (ps₁ ps₂ : Marked α ι) (h : splitAtFirst (pat.map .inl) ps = some (ps₁, ps₂))
      (ht : splitAtFirst pat (text f ps) = some (text f ps₁, text f ps₂))
      (hrest : KeptOnly f pat ps₂) : KeptOnly f pat ps

/-- **Where a pattern occurs between the marks only, marking it is replacing it in the text.** -/
theorem KeptOnly.text_mark (hpat : pat ≠ []) {ps : Marked α ι} (h : KeptOnly f pat ps) :
    text f (mark pat i ps) = replaceAll pat (f i) (text f ps) := by
  induction h with
  | done h =>
    rw [mark_of_none (split_eq_none hpat h),
      replaceAll_of_none _ (Option.not_isSome_iff_eq_none.1 (Bool.not_eq_true _ ▸ h))]
  | step ps₁ ps₂ h ht _ ih =>
    rw [mark_of_some hpat h, replaceAll_of_some hpat _ ht, text_append, text_cons_inr, ih]

end Marked

end

section

variable {α : Type u} {ι : Type v}

namespace Marked

/-- The marks from left to right. -/
def marks (ps : Marked α ι) : List ι := ps.filterMap Sum.getRight?

@[simp] theorem marks_nil : marks ([] : Marked α ι) = [] := rfl

@[simp] theorem marks_cons_inl (c : α) (ps : Marked α ι) : marks (.inl c :: ps) = marks ps := rfl

@[simp] theorem marks_cons_inr (i : ι) (ps : Marked α ι) :
    marks (.inr i :: ps) = i :: marks ps := rfl

theorem mem_marks {ps : Marked α ι} {i : ι} : i ∈ marks ps ↔ .inr i ∈ ps := by
  simp [marks, List.mem_filterMap, Sum.getRight?_eq_some_iff]

/-- The marked list over other elements. -/
def mapElements {β : Type*} (g : α → β) (ps : Marked α ι) : Marked β ι := ps.map (Sum.map g id)

theorem marks_mapElements {β : Type*} (g : α → β) (ps : Marked α ι) :
    marks (mapElements g ps) = marks ps := by
  induction ps with
  | nil => rfl
  | cons p ps ih =>
    cases p with
    | inl c => exact ih
    | inr i => exact congrArg (i :: ·) ih

theorem text_mapElements {β : Type*} (g : α → β) (f : ι → List α) (ps : Marked α ι) :
    text (fun i => (f i).map g) (mapElements g ps) = (text f ps).map g := by
  induction ps with
  | nil => rfl
  | cons p ps ih =>
    cases p with
    | inl c => exact congrArg (g c :: ·) ih
    | inr i =>
      rw [text_cons_inr, List.map_append, ← ih]
      rfl

/-- A placeholder, with what stands before and after it. -/
structure Placeholder (ps : Marked α ι) (i : ι) (before after : Marked α ι) : Prop where
  eq_append : ps = before ++ .inr i :: after
  not_mem_before : i ∉ marks before
  not_mem_after : i ∉ marks after

theorem exists_placeholder [DecidableEq ι] {ps : Marked α ι} {i : ι} (h : (marks ps).count i = 1) :
    ∃ before after, Placeholder ps i before after := by
  have hmem : .inr i ∈ ps := mem_marks.1 (List.count_pos_iff.1 (by omega))
  obtain ⟨before, after, rfl⟩ := List.append_of_mem hmem
  rw [marks, List.filterMap_append, List.count_append] at h
  change _ + (i :: marks after).count i = 1 at h
  rw [List.count_cons_self] at h
  have hbefore : (marks before).count i = 0 := by
    change (marks before).count i + _ = 1 at h
    omega
  exact ⟨before, after, rfl, List.count_eq_zero.1 hbefore, List.count_eq_zero.1 (by omega)⟩

theorem Placeholder.mapElements {β : Type*} (g : α → β) {ps before after : Marked α ι} {i : ι}
    (h : Placeholder ps i before after) :
    Placeholder (ps.mapElements g) i (before.mapElements g) (after.mapElements g) where
  eq_append := by
    rw [h.eq_append, Marked.mapElements, List.map_append, List.map_cons]
    rfl
  not_mem_before := by
    rw [marks_mapElements]
    exact h.not_mem_before
  not_mem_after := by
    rw [marks_mapElements]
    exact h.not_mem_after

section Placeholder

variable {f : ι → List α} {ps before after : Marked α ι} {i : ι}

theorem Placeholder.text_eq (h : Placeholder ps i before after) :
    text f ps = text f before ++ (f i ++ text f after) := by
  rw [h.eq_append, text_append, text_cons_inr]

/-- Another text in the place of one placeholder. -/
theorem Placeholder.text_update [DecidableEq ι] (h : Placeholder ps i before after) (new : List α) :
    text (Function.update f i new) ps = text f before ++ (new ++ text f after) := by
  have hkeep : ∀ qs : Marked α ι, i ∉ marks qs → text (Function.update f i new) qs = text f qs :=
    fun qs hqs => text_congr fun j hj => Function.update_of_ne
      (fun he : j = i => hqs (he ▸ mem_marks.2 hj)) _ _
  rw [h.eq_append, text_append, text_cons_inr, Function.update_self, hkeep _ h.not_mem_before,
    hkeep _ h.not_mem_after]

end Placeholder

theorem not_mem_text {f : ι → List α} {ps : Marked α ι} {c : α} (hlit : .inl c ∉ ps)
    (hf : ∀ i ∈ marks ps, c ∉ f i) : c ∉ text f ps := by
  rw [text, List.mem_flatMap]
  rintro ⟨p, hp, hcp⟩
  cases p with
  | inl d => exact hlit (List.mem_singleton.1 hcp ▸ hp)
  | inr i => exact hf i (mem_marks.2 hp) hcp

/-- Texts of the same lengths are read off. -/
theorem text_inj {f g : ι → List α} {ps : Marked α ι}
    (h : ∀ i ∈ marks ps, (f i).length = (g i).length) :
    text f ps = text g ps ↔ ∀ i ∈ marks ps, f i = g i := by
  induction ps with
  | nil => simp
  | cons p ps ih =>
    cases p with
    | inl c => rw [text_cons_inl, text_cons_inl, List.cons_inj_right, marks_cons_inl, ih h]
    | inr i =>
      rw [marks_cons_inr, List.forall_mem_cons] at h ⊢
      rw [text_cons_inr, text_cons_inr, ← ih h.2]
      exact ⟨fun he => List.append_inj he h.1, fun he => he.1 ▸ he.2 ▸ rfl⟩

/-- The length of a text: as many elements as stand between the marks, and those of the marks. -/
theorem length_text (f : ι → List α) (ps : Marked α ι) :
    (text f ps).length = (text (fun _ => []) ps).length + ((marks ps).map fun i => (f i).length).sum := by
  induction ps with
  | nil => rfl
  | cons p ps ih =>
    cases p with
    | inl c => simp [ih]; omega
    | inr i => simp [ih]; omega

/-! ### Finding a placeholder -/

end Marked

section Finding

variable [DecidableEq α]

theorem splitAtFirst_of_not_mem {c : α} {pat pre : List α} (post : List α) (h : c ∉ pre) :
    splitAtFirst (c :: pat) (pre ++ (c :: pat ++ post)) = some (pre, post) := by
  induction pre with
  | nil =>
    rw [List.nil_append, List.cons_append, splitAtFirst, if_pos ⟨post, rfl⟩]
    simp
  | cons d pre ih =>
    rw [List.mem_cons, not_or] at h
    have hhead : ¬c :: pat <+: d :: (pre ++ (c :: pat ++ post)) := fun hp =>
      h.1 (List.cons_prefix_cons.1 hp).1
    rw [List.cons_append, splitAtFirst, if_neg hhead, ih h.2]
    rfl

theorem splitAtFirst_eq_none_of_not_mem {c : α} {pat l : List α} (hc : c ∈ pat) (h : c ∉ l) :
    splitAtFirst pat l = none := by
  cases hs : splitAtFirst pat l with
  | none => rfl
  | some p =>
    refine absurd ?_ h
    rw [splitAtFirst_eq_append hs]
    exact List.mem_append_right _ (List.mem_append_left _ hc)

namespace Marked

/-- The first occurrence of `pat` between the marks becomes a mark. -/
def markFirst [DecidableEq ι] (pat : List α) (i : ι) (ps : Marked α ι) : Marked α ι :=
  match splitAtFirst (pat.map .inl) ps with
  | none => ps
  | some (pre, post) => pre ++ .inr i :: post

theorem markFirst_of_split {pat : List α} {i : ι} {ps pre post : Marked α ι} [DecidableEq ι]
    (h : splitAtFirst (pat.map .inl) ps = some (pre, post)) :
    markFirst pat i ps = pre ++ .inr i :: post := by
  rw [markFirst, h]

theorem markFirst_of_none {pat : List α} {i : ι} {ps : Marked α ι} [DecidableEq ι]
    (h : splitAtFirst (pat.map .inl) ps = none) : markFirst pat i ps = ps := by
  rw [markFirst, h]

/-- A text whose first element occurs nowhere before is found at its placeholder. -/
theorem Placeholder.split {f : ι → List α} {ps before after : Marked α ι} {i : ι}
    (h : Placeholder ps i before after) {c : α} {pat : List α}
    (hf : f i = c :: pat) (hc : c ∉ text f before) :
    splitAtFirst (f i) (text f ps) = some (text f before, text f after) := by
  rw [h.text_eq, hf]
  exact splitAtFirst_of_not_mem _ hc

end Marked

end Finding

end
