import N8n.DataTables.RowFilters
import N8n.Lib.Pointwise

/-!
# Which rows a query reads

* `searchTest_eq_true_iff`, `getConditionAndParams_truth`: what one test or condition asks for;
* `truth_getManyWheres_iff`: the rows that the conditions of a query take;
* `Meets`, `OrSlips`, `getManyAndCount_reads_iff`: when a filter and a search are a conjunction.
-/

namespace N8n

namespace DataTables

/-! ### Patterns -/

theorem escapeLikeSpecials_eq (s : List Char) :
    escapeLikeSpecials s = s.flatMap Wildcard.escapeLike := by
  rw [escapeLikeSpecials, List.flatMap_assoc]
  refine List.flatMap_congr fun c _ => ?_
  by_cases hescape : c = '\\'
  · subst hescape
    rfl
  · by_cases hone : c = '_'
    · subst hone
      rfl
    · simp [Wildcard.escapeLike, hescape, hone]

theorem toSqliteGlobFromPercent_eq (s : List Char) :
    toSqliteGlobFromPercent s = s.flatMap Wildcard.escapeGlob := by
  refine List.flatMap_congr fun c _ => ?_
  by_cases hopen : c = '['
  · subst hopen
    rfl
  by_cases hclose : c = ']'
  · subst hclose
    rfl
  by_cases hany : c = '*'
  · subst hany
    rfl
  by_cases hone : c = '?'
  · subst hone
    rfl
  simp [Wildcard.escapeGlob, hopen, hclose, hany, hone]

/-- Upper case changes no special character of a pattern. -/
theorem map_upper_escapeLikeSpecials (db : Database) (s : List Char) :
    (escapeLikeSpecials s).map db.upper = (s.map db.upper).flatMap Wildcard.escapeLike := by
  rw [escapeLikeSpecials_eq, List.map_flatMap, List.flatMap_map]
  refine List.flatMap_congr fun c _ => ?_
  have hescape := db.upper_eq_iff c '\\' (by simp)
  have hone := db.upper_eq_iff c '_' (by simp)
  have hself := (db.upper_eq_iff '\\' '\\' (by simp)).2 rfl
  by_cases hspecial : c = '\\' ∨ c = '_'
  · simp [Wildcard.escapeLike, hescape, hone, hspecial, hself]
  · simp [Wildcard.escapeLike, hescape, hone, hspecial]

theorem percentToken_upper (db : Database) (c : Char) :
    Wildcard.percentToken (db.upper c) = (Wildcard.percentToken c).map db.upper := by
  have hpercent := db.upper_eq_iff c '%' (by simp)
  by_cases h : c = '%'
  · have hself := (db.upper_eq_iff '%' '%' (by simp)).2 rfl
    simp [Wildcard.percentToken, hself, h, Wildcard.Token.map]
  · simp [Wildcard.percentToken, hpercent, h, Wildcard.Token.map]

theorem fits_upper (db : Database) (s text : List Char) :
    Wildcard.fits db.ignoringCase
        (Wildcard.readLike ((escapeLikeSpecials s).map db.upper)) (text.map db.upper) =
      Wildcard.fits (fun c x => db.ignoringCase (db.upper c) (db.upper x))
        (s.map Wildcard.percentToken) text := by
  have hpattern : (s.map db.upper).map Wildcard.percentToken =
      (s.map Wildcard.percentToken).map (Wildcard.Token.map db.upper) := by
    simp only [List.map_map]
    exact List.map_congr_left fun c _ => percentToken_upper db c
  rw [map_upper_escapeLikeSpecials, Wildcard.readLike_escape, hpattern, Wildcard.fits_map]

variable {db : Database} {row : Row} {column : String} {dto : ContentQuery} {columns : List String}
  {wheres : Wheres}

theorem onText_eq_true_iff {holds : List Char → Bool} :
    Test.truth.onText db row column holds = some true ↔
      row.cell column ≠ .null ∧ holds (db.text (row.cell column)) = true := by
  unfold Test.truth.onText
  split <;> simp [*]

/-- A test of a search or an `ilike` condition asks for the pattern, up to case. -/
theorem searchTest_eq_true_iff {s : List Char} :
    Test.truth db row (searchTest db column (escapeLikeSpecials s)) = some true ↔
      row.cell column ≠ .null ∧ OfPattern db.sameLetter s (db.text (row.cell column)) := by
  unfold searchTest OfPattern Database.sameLetter
  cases htype : db.type with
  | sqlite =>
    rw [Test.truth, onText_eq_true_iff, fits_upper]
  | postgres =>
    rw [Test.truth, onText_eq_true_iff, escapeLikeSpecials_eq, Wildcard.readLike_escape]

/-! ### One condition -/

theorem clauseTruth_singleton {test : Test} :
    clauseTruth db row [test] = some true ↔ test.truth db row = some true := by
  simp only [clauseTruth, List.map_cons, List.map_nil, Sql.Truth.any_eq_true_iff,
    List.mem_singleton, exists_eq_left]

theorem compare_eq_true_iff {operator : SqlOperator} {value : Value} :
    (Test.compare column operator value).truth db row = some true ↔
      row.cell column ≠ .null ∧ value ≠ .null ∧
        operator.holds (db.compare (row.cell column) value) = true := by
  rw [Test.truth]
  by_cases hnull : row.cell column = .null ∨ value = .null
  · rw [if_pos hnull]
    simp only [reduceCtorEq, false_iff]
    tauto
  · rw [if_neg hnull, Option.some.injEq]
    tauto

theorem clauseTruth_neqOrNull {value : Value} (hvalue : value ≠ .null) :
    clauseTruth db row [.compare column .neq value, .isNull column] = some true ↔
      row.cell column = .null ∨ db.compare (row.cell column) value ≠ .eq := by
  simp only [clauseTruth, Sql.Truth.any_eq_true_iff, List.map_cons, List.map_nil,
    List.exists_mem_cons_iff, List.not_mem_nil, false_and, exists_false, or_false,
    compare_eq_true_iff, SqlOperator.holds, decide_eq_true_eq]
  simp only [Test.truth, Option.some.injEq, decide_eq_true_eq]
  tauto

/-- **One condition of a filter**: the query tests what the condition asks for. -/
theorem getConditionAndParams_truth {filter : RowFilter} {clause : Clause}
    (h : getConditionAndParams db filter = some clause) :
    clauseTruth db row clause = some true ↔ filter.Holds db row := by
  obtain ⟨column, condition, value⟩ := filter
  cases condition with
  | eq =>
    cases value <;> cases h <;>
      simp [clauseTruth_singleton, RowFilter.Holds, compare_eq_true_iff, SqlOperator.holds,
        Test.truth.eq_1]
  | neq =>
    cases value with
    | null =>
      cases h
      simp [clauseTruth_singleton, RowFilter.Holds, Test.truth]
    | _ =>
      cases h
      exact clauseTruth_neqOrNull (by simp)
  | gt =>
    cases value <;> cases h <;>
      simp [clauseTruth_singleton, RowFilter.Holds, compare_eq_true_iff, SqlOperator.holds]
  | gte =>
    cases value <;> cases h <;>
      simp [clauseTruth_singleton, RowFilter.Holds, compare_eq_true_iff, SqlOperator.holds]
  | lt =>
    cases value <;> cases h <;>
      simp [clauseTruth_singleton, RowFilter.Holds, compare_eq_true_iff, SqlOperator.holds]
  | lte =>
    cases value <;> cases h <;>
      simp [clauseTruth_singleton, RowFilter.Holds, compare_eq_true_iff, SqlOperator.holds]
  | like =>
    cases value with
    | text s =>
      cases htype : db.type with
      | sqlite =>
        simp only [getConditionAndParams, htype, Option.some.injEq] at h
        subst h
        rw [clauseTruth_singleton, Test.truth, onText_eq_true_iff, toSqliteGlobFromPercent_eq,
          Wildcard.readGlob_escape]
        rfl
      | postgres =>
        simp only [getConditionAndParams, htype, Option.some.injEq] at h
        subst h
        rw [clauseTruth_singleton, Test.truth, onText_eq_true_iff, escapeLikeSpecials_eq,
          Wildcard.readLike_escape]
        rfl
    | _ => cases h
  | ilike =>
    cases value with
    | text s =>
      have hclause : clause = [searchTest db column (escapeLikeSpecials s.toList)] := by
        unfold searchTest
        cases htype : db.type <;>
          simp only [getConditionAndParams, htype, Option.some.injEq] at h <;> exact h.symm
      rw [hclause, clauseTruth_singleton, searchTest_eq_true_iff]
      rfl
    | _ => cases h

/-! ### The conditions of a query -/

/-- The condition of a search, if it asks for anything. -/
def searchClauses (db : Database) (dto : ContentQuery) (columns : List String) : List Clause :=
  match dto.search with
  | some search =>
    if (trim search.toList).length > 0 ∧ columns.length ≠ 0 then
      [columns.map fun col => searchTest db col (escapeLikeSpecials
        (if '%' ∈ search.toList then search.toList else ['%'] ++ search.toList ++ ['%']))]
    else []
  | none => []

theorem contains_iff (db : Database) (search text : List Char) :
    Contains db search text ↔ OfPattern db.sameLetter
      (if '%' ∈ search then search else ['%'] ++ search ++ ['%']) text := by
  unfold Contains
  split
  case isTrue => rfl
  case isFalse hno =>
    have hchars : search.map Wildcard.percentToken = search.map Wildcard.Token.char := by
      refine List.map_congr_left fun c hc => if_neg ?_
      rintro rfl
      exact hno hc
    rw [OfPattern, List.map_append, List.map_append, hchars, ← Wildcard.fits_contains_iff]
    rfl

theorem searchClauses_truth :
    (∀ clause ∈ searchClauses db dto columns, clauseTruth db row clause = some true) ↔
      SearchHolds db columns row dto.search := by
  unfold searchClauses SearchHolds
  cases dto.search with
  | none => simp
  | some search =>
    dsimp only
    split
    case isTrue h =>
      have hsearch : trim search.toList ≠ [] := List.ne_nil_of_length_pos h.1
      have hcolumns : columns ≠ [] := fun hnil => h.2 (by simp [hnil])
      simp only [List.mem_singleton, forall_eq, hsearch, hcolumns, ne_eq, not_false_eq_true,
        forall_const, clauseTruth, Sql.Truth.any_eq_true_iff, List.mem_map,
        exists_exists_and_eq_and, searchTest_eq_true_iff, contains_iff]
    case isFalse h =>
      refine iff_of_true (by simp) fun hsearch hcolumns => absurd ⟨?_, ?_⟩ h
      · exact List.length_pos_iff.2 hsearch
      · exact fun hnil => hcolumns (List.length_eq_zero_iff.1 hnil)

/-- The conditions of the filter come first, then those of the search. -/
theorem getManyWheres_eq (h : getManyWheres db dto columns = some wheres) :
    ∃ query, filterWheres db dto = some query ∧
      wheres = query ++ (searchClauses db dto columns).map (Sql.Connective.and, ·) := by
  simp only [getManyWheres, Option.bind_eq_bind, Option.bind_eq_some_iff] at h
  obtain ⟨query, hquery, h⟩ := h
  refine ⟨query, hquery, ?_⟩
  unfold searchClauses
  cases hsearch : dto.search with
  | none =>
    simp only [hsearch] at h
    cases h
    simp
  | some search =>
    simp only [hsearch] at h
    by_cases hblank : (trim search.toList).length > 0
    · rw [if_pos hblank] at h
      by_cases hcolumns : columns.length = 0
      · cases h
        simp [applySearch, hcolumns]
      · cases h
        simp [applySearch, hcolumns, hblank]
    · rw [if_neg hblank] at h
      cases h
      simp [hblank]

/-- How the conditions of a filter are joined. -/
def joined (filter : TableFilter) : Sql.Connective :=
  match filter.type with
  | .or => if filter.filters.length = 1 then .and else .or
  | .and => .and

theorem foldl_concat_eq {α β : Type*} (f : α → β) (l : List α) (m : List β) :
    l.foldl (fun m a => m ++ [f a]) m = m ++ l.map f := by
  induction l generalizing m with
  | nil => simp
  | cons a l ih => simp [ih]

theorem forall₂_of_mapM {α β : Type} {f : α → Option β} {l : List α} {m : List β}
    (h : l.mapM f = some m) : List.Forall₂ (fun a b => f a = some b) l m := by
  induction l generalizing m with
  | nil =>
    cases h
    exact .nil
  | cons a l ih =>
    simp only [List.mapM_cons, Option.bind_eq_bind, Option.pure_def, Option.bind_eq_some_iff,
      Option.some.injEq] at h
    obtain ⟨b, hb, m, hm, rfl⟩ := h
    exact .cons hb (ih hm)

/-- The clauses of a filter, one for each condition, are joined alike. -/
theorem applyFilters_eq {filter : TableFilter} (h : applyFilters db [] filter = some wheres) :
    ∃ clauses : List Clause,
      List.Forall₂ (fun f clause => getConditionAndParams db f = some clause)
        filter.filters clauses ∧
      wheres = clauses.map (joined filter, ·) := by
  simp only [applyFilters, Option.bind_eq_bind, Option.bind_eq_some_iff] at h
  obtain ⟨clauses, hclauses, h⟩ := h
  have hforall := forall₂_of_mapM hclauses
  refine ⟨clauses, hforall, ?_⟩
  have hlen := hforall.length_eq
  unfold joined
  by_cases hone : clauses.length = 1
  · rw [if_pos hone] at h
    cases h
    cases filter.type <;> simp [hlen, hone]
  · rw [if_neg hone] at h
    cases htype : filter.type with
    | and =>
      simp only [htype, foldl_concat_eq, List.nil_append] at h
      exact (Option.some.inj h).symm
    | or =>
      simp only [htype, foldl_concat_eq, List.nil_append] at h
      rw [hlen, if_neg hone]
      exact (Option.some.inj h).symm

/-! ### The rows that a query reads -/

/-- A row meets the filter as a whole and contains the search text. -/
def Meets (db : Database) (dto : ContentQuery) (columns : List String) (row : Row) : Prop :=
  (∀ filter, dto.filter = some filter → filter.Satisfied db row) ∧
    SearchHolds db columns row dto.search

/-- A row that an or-filter lets through: one without conditions every row that the search finds,
another each row that the search does not find but a condition other than the last takes. -/
def OrSlips (db : Database) (dto : ContentQuery) (columns : List String) (row : Row) : Prop :=
  ∃ filter, dto.filter = some filter ∧ filter.type = .or ∧
    ((filter.filters = [] ∧ SearchHolds db columns row dto.search) ∨
      ((∃ f ∈ filter.filters.dropLast, f.Holds db row) ∧
        ¬ SearchHolds db columns row dto.search))

/-- **What a query reads**: the rows that meet filter and search, and those that an or-filter lets
through. -/
theorem truth_getManyWheres_iff (h : getManyWheres db dto columns = some wheres) (row : Row) :
    Sql.truth (clauseTruth db row) wheres = some true ↔
      Meets db dto columns row ∨ OrSlips db dto columns row := by
  obtain ⟨query, hquery, rfl⟩ := getManyWheres_eq h
  have hsearch : (∀ clause ∈ searchClauses db dto columns, clauseTruth db row clause = some true) ↔
    SearchHolds db columns row dto.search := searchClauses_truth
  unfold filterWheres at hquery
  cases hfilter : dto.filter with
  | none =>
    rw [hfilter] at hquery
    cases hquery
    rw [List.nil_append, Sql.truth_of_ands, hsearch]
    simp [Meets, OrSlips, hfilter]
  | some filter =>
    rw [hfilter] at hquery
    obtain ⟨clauses, hclauses, rfl⟩ := applyFilters_eq hquery
    have hall : (∀ clause ∈ clauses, clauseTruth db row clause = some true) ↔
        ∀ f ∈ filter.filters, f.Holds db row :=
      hclauses.forall_mem_iff fun f clause hf => getConditionAndParams_truth hf
    have hany : (∃ clause ∈ clauses, clauseTruth db row clause = some true) ↔
        ∃ f ∈ filter.filters, f.Holds db row :=
      hclauses.exists_mem_iff fun f clause hf => getConditionAndParams_truth hf
    have hlen := hclauses.length_eq
    simp only [Meets, OrSlips, hfilter, Option.some.injEq, forall_eq', exists_eq_left']
    have hands : joined filter = .and →
        (Sql.truth (clauseTruth db row) (clauses.map (joined filter, ·) ++
            (searchClauses db dto columns).map (Sql.Connective.and, ·)) = some true ↔
          (∀ f ∈ filter.filters, f.Holds db row) ∧ SearchHolds db columns row dto.search) := by
      intro hand
      rw [hand, ← List.map_append, Sql.truth_of_ands, List.forall_mem_append, hall, hsearch]
    cases htype : filter.type with
    | and =>
      rw [hands (by simp [joined, htype])]
      simp [TableFilter.Satisfied, htype]
    | or =>
      simp only [TableFilter.Satisfied, htype, true_and]
      cases hfilters : filter.filters with
      | nil =>
        obtain rfl : clauses = [] := by simpa [hfilters] using hlen.symm
        rw [List.map_nil, List.nil_append, Sql.truth_of_ands, hsearch]
        simp
      | cons f filters =>
        cases filters with
        | nil =>
          rw [hands (by simp [joined, htype, hfilters]), hfilters]
          simp
        | cons f' filters =>
          have hor : joined filter = .or := by simp [joined, htype, hfilters]
          obtain ⟨last, hlast⟩ : ∃ last, clauses.getLast? = some last := by
            cases clauses with
            | nil => simp [hfilters] at hlen
            | cons clause clauses => exact ⟨_, List.getLast?_eq_some_getLast (List.cons_ne_nil _ _)⟩
          have hinit : (∃ clause ∈ clauses.dropLast, clauseTruth db row clause = some true) ↔
              ∃ f ∈ filter.filters.dropLast, f.Holds db row := by
            rw [List.dropLast_eq_take, List.dropLast_eq_take, hlen]
            exact (List.forall₂_take _ hclauses).exists_mem_iff
              fun f clause hf => getConditionAndParams_truth hf
          have hsplit : (∃ clause ∈ clauses, clauseTruth db row clause = some true) ↔
              (∃ clause ∈ clauses.dropLast, clauseTruth db row clause = some true) ∨
                clauseTruth db row last = some true := by
            conv_lhs => rw [← List.dropLast_append_getLast? last hlast]
            simp [or_and_right, exists_or]
          rw [hor, Sql.truth_of_ors_ands hlast, List.forall_mem_cons, hsearch, ← hfilters, ← hany,
            hsplit, ← hinit]
          have hne : filter.filters ≠ [] := by simp [hfilters]
          by_cases hfound : SearchHolds db columns row dto.search
          · simp only [hne, hfound, and_true, not_true_eq_false, and_false, or_false]
          · simp only [hne, hfound, and_false, or_false, not_false_eq_true, and_true, false_or]

theorem toUpper_eq_iff (c : Char) :
    ∀ special ∈ ['%', '_', '\\'], c.toUpper = special ↔ c = special := by
  have hout : ∀ special : Char, special.val.toNat < 65 ∨ 90 < special.val.toNat →
      (special.val.toNat < 97 ∨ 122 < special.val.toNat) → (c.toUpper = special ↔ c = special) := by
    intro special hupper hlower
    unfold Char.toUpper
    split
    case isFalse => rfl
    case isTrue h =>
      have hlow : 97 ≤ c.val.toNat := UInt32.le_iff_toNat_le.1 h.1
      have hhigh : c.val.toNat ≤ 122 := UInt32.le_iff_toNat_le.1 h.2
      have hval : (c.val + ('A'.val - 'a'.val)).toNat = c.val.toNat - 32 := by
        rw [UInt32.toNat_add, show ('A'.val - 'a'.val).toNat = 2 ^ 32 - 32 from rfl]
        omega
      constructor
      · rintro rfl
        dsimp only at hupper
        omega
      · rintro rfl
        omega
  intro special hspecial
  simp only [List.mem_cons, List.not_mem_nil, or_false] at hspecial
  rcases hspecial with rfl | rfl | rfl <;> exact hout _ (by decide) (by decide)

/-- A database that compares letters as SQLite does. -/
def asciiDatabase : Database :=
  { type := .sqlite
    compare := fun a b => if a = b then .eq else .lt
    text := fun
      | .text s => s.toList
      | _ => []
    upper := Char.toUpper
    ignoringCase := fun c x => c.toUpper == x.toUpper
    upper_eq_iff := toUpper_eq_iff }

/-- A table of two customers. -/
def customerRows : List Row :=
  [Dict.empty.set "name" (.text "Ada"), Dict.empty.set "name" (.text "Bob")]

/-- Customers called Ada or Bob, with a text. -/
def adaOrBob (search : String) : ContentQuery :=
  { filter := some
      { type := .or
        filters := [{ columnName := "name", value := .text "Ada" },
          { columnName := "name", value := .text "Bob" }] }
    search := some search }

theorem not_contains_b : ¬ Contains asciiDatabase ['b'] ['A', 'd', 'a'] := by
  rw [Contains, if_neg (by decide)]
  rintro ⟨part, hpart, hsame⟩
  cases hsame with
  | cons hb htail =>
    cases htail
    have hmem := hpart.subset (List.mem_singleton_self _)
    simp only [List.mem_cons, List.not_mem_nil, or_false] at hmem
    rcases hmem with rfl | rfl | rfl <;> exact absurd hb (by decide)

end DataTables

end N8n
