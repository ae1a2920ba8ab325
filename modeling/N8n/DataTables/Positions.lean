import N8n.DataTables.Columns
import Mathlib.Data.List.Perm.Basic

/-!
# Columns keep their order

* `Positioned`: the indexes of the columns are their positions;
* `positioned_createDataTable_iff`, `positioned_insert_iff`, `Positioned.deleteColumn`,
  `Positioned.moveColumn`: what each operation makes of the positions;
* `KeepsOrder`, `keepsOrder_iff`: when the columns stay in order over a run of calls.
-/

namespace N8n

namespace DataTables

open scoped List

/-- The indexes of the columns are `0, …, n - 1`, each once. -/
def Positioned (t : DataTable) : Prop :=
  (t.columns.rows.map (·.index)).Perm
    ((List.range t.columns.rows.length).map fun i : ℕ => (i : ℚ))

/-- The ids of the columns in their order. -/
def columnIds (t : DataTable) : List String := (getColumns t.columns).map (·.id)

/-- A column with its index shifted by `delta` when it is at least `lowestIndex`. -/
def shiftIndex (lowestIndex delta : ℚ) (c : DataTableColumn) : DataTableColumn :=
  { c with index := if lowestIndex ≤ c.index then c.index + delta else c.index }

variable {t t' : DataTable} {columns columns' : Columns} {order : List DataTableColumn}
  {stores : ℚ → Bool} {column : DataTableColumn} {id : String} {ddl : Except DataTableError Unit}
  {targetIndex : ℤ}

theorem positioned_iff_numbered : Positioned t ↔
    ∃ order : List DataTableColumn, order.Perm t.columns.rows ∧
      List.Numbered (·.index) order := List.numbered_perm_iff.symm

theorem getColumns_eq (hperm : order.Perm columns.rows) (h : List.Numbered (·.index) order) :
    getColumns columns = order := h.insertionSort_eq hperm

/-! ### What the writes do -/

theorem rows_insert (h : columns.insert stores column = .ok columns') :
    columns'.rows = columns.rows ++ [column] := by
  unfold Columns.insert at h
  split at h
  · cases h
    rfl
  · cases h

theorem rows_setIndexes {index : DataTableColumn → ℚ}
    (h : columns.setIndexes stores index = .ok columns') :
    columns'.rows = columns.rows.map fun c => { c with index := index c } := by
  unfold Columns.setIndexes at h
  split at h
  · cases h
    rfl
  · cases h

theorem rows_shiftColumns {lowestIndex delta : ℚ}
    (h : shiftColumns stores lowestIndex delta columns = .ok columns') :
    columns'.rows = columns.rows.map (shiftIndex lowestIndex delta) := rows_setIndexes h

theorem rows_rename {newName : String} (h : columns.rename id newName = .ok columns') :
    columns'.rows =
      columns.rows.map fun c => if c.id = id then { c with name := newName } else c := by
  unfold Columns.rename at h
  dsimp only at h
  split at h
  · cases h
    rfl
  · cases h

theorem rows_foldlM_insert {l : List DataTableColumn}
    (h : l.foldlM (fun rows c => rows.insert stores c) columns = .ok columns') :
    columns'.rows = columns.rows ++ l := by
  induction l generalizing columns with
  | nil =>
    cases h
    simp
  | cons c l ih =>
    rw [List.foldlM_cons, Except.bind_eq_ok_iff] at h
    obtain ⟨columns₁, hc, hl⟩ := h
    rw [ih hl, rows_insert hc, List.append_assoc, List.singleton_append]

theorem mem_of_validateColumnExists {columnId : String}
    (h : validateColumnExists columnId t = .ok column) :
    column ∈ t.columns.rows ∧ column.id = columnId := by
  unfold validateColumnExists at h
  split at h
  case h_1 c hc =>
    cases h
    exact ⟨List.mem_of_find?_eq_some hc, by simpa using List.find?_some hc⟩
  case h_2 => cases h

/-! ### Creating a table -/

/-- The indexes given to the columns of a new table, the position where none is given, are the
positions of its columns. -/
def PositionsGiven (columns : List CreateColumn) : Prop :=
  (columns.mapIdx fun i col => col.index.getD (i : ℚ)).Perm
    ((List.range columns.length).map fun i : ℕ => (i : ℚ))

theorem positioned_createDataTable_iff {name : String} {ids : List String}
    {columns : List CreateColumn} (h : createDataTable stores ddl id name ids columns = .ok t) :
    Positioned t ↔ PositionsGiven columns := by
  have hrows : t.columns.rows = columns.mapIdx fun i col =>
      { id := ids.getD i "", name := col.name, type := col.type, index := col.index.getD i } := by
    unfold createDataTable at h
    split at h
    · cases h
    · simp only [Except.bind_eq_ok_iff, Except.pure_eq_ok_iff] at h
      obtain ⟨rows, hinsert, _, _, rfl⟩ := h
      simpa [Columns.empty] using rows_foldlM_insert hinsert
  have hmap : t.columns.rows.map (·.index) =
      columns.mapIdx fun i col => col.index.getD (i : ℚ) := by
    rw [hrows]
    exact List.ext_getElem (by simp) fun i hi hi' => by simp
  rw [Positioned, hmap, PositionsGiven, hrows, List.length_mapIdx]

/-! ### Adding a column -/

/-- A column goes in behind the last one. -/
theorem Positioned.append (h : Positioned t) (hrows : t'.columns.rows = t.columns.rows ++ [column])
    (hindex : column.index = t.columns.rows.length) : Positioned t' := by
  rw [Positioned, hrows, List.map_append, List.length_append, List.length_singleton,
    List.range_succ, List.map_append]
  exact List.Perm.append h (by simp [hindex])

/-- **A column that is put at an index**: the columns are positioned when the index is a position of
the new table. -/
theorem positioned_insert_iff (h : Positioned t)
    (hrows : t'.columns.rows = t.columns.rows.map (shiftIndex column.index 1) ++ [column]) :
    Positioned t' ↔ ∃ i : ℕ, i ≤ t.columns.rows.length ∧ column.index = i := by
  constructor
  · intro h'
    have hmem : column.index ∈ t'.columns.rows.map (·.index) :=
      List.mem_map.2 ⟨column, by simp [hrows], rfl⟩
    obtain ⟨i, hi, hcol⟩ := List.mem_map.1 (h'.mem_iff.1 hmem)
    refine ⟨i, ?_, hcol.symm⟩
    have hlt := List.mem_range.1 hi
    rw [hrows, List.length_append, List.length_map, List.length_singleton] at hlt
    omega
  · rintro ⟨i, hi, hcol⟩
    obtain ⟨order, hperm, hnum⟩ := positioned_iff_numbered.1 h
    refine positioned_iff_numbered.2
      ⟨(order.map (shiftIndex column.index 1)).insertIdx i column, ?_, ?_⟩
    · rw [hrows]
      calc (order.map (shiftIndex column.index 1)).insertIdx i column
        _ ~ column :: order.map (shiftIndex column.index 1) :=
          List.perm_insertIdx _ _ (by simpa [hperm.length_eq] using hi)
        _ ~ column :: t.columns.rows.map (shiftIndex column.index 1) :=
          (hperm.map _).cons _
        _ ~ t.columns.rows.map (shiftIndex column.index 1) ++ [column] :=
          (List.perm_append_singleton _ _).symm
    · apply hnum.insertIdx (by rwa [hperm.length_eq]) hcol
      intro b
      rw [hcol]
      rfl

theorem addColumn_cases {schema : CreateColumn} (h : addColumn stores ddl id schema t = .ok t') :
    ∃ column : DataTableColumn,
      (schema.index = none ∧ column.index = t.columns.rows.length ∧
        t'.columns.rows = t.columns.rows ++ [column]) ∨
      (schema.index = some column.index ∧
        t'.columns.rows = t.columns.rows.map (shiftIndex column.index 1) ++ [column]) := by
  cases hschema : schema.index with
  | none =>
    simp only [addColumn, hschema, Except.bind_eq_ok_iff, Except.pure_eq_ok_iff] at h
    obtain ⟨_, _, _, _, _, rfl, columns, hinsert, _, _, rfl⟩ := h
    refine ⟨_, Or.inl ⟨rfl, ?_, rows_insert hinsert⟩⟩
    simp [getColumns]
  | some index =>
    simp only [addColumn, hschema, Except.bind_eq_ok_iff, Except.pure_eq_ok_iff] at h
    obtain ⟨_, _, _, _, shifted, hshift, _, rfl, columns, hinsert, _, _, rfl⟩ := h
    refine ⟨{ id, name := schema.name, type := schema.type, index }, Or.inr ⟨rfl, ?_⟩⟩
    rw [rows_insert hinsert, rows_shiftColumns hshift]

/-! ### Removing a column -/

theorem id_ne_of_mem_eraseIdx (hids : (order.map (·.id)).Nodup) {k : ℕ} (hk : k < order.length) :
    ∀ c ∈ order.eraseIdx k, c.id ≠ order[k].id := by
  have hnodup := (((List.getElem_cons_eraseIdx_perm hk).map (·.id)).nodup_iff).2 hids
  rw [List.map_cons, List.nodup_cons] at hnodup
  exact fun c hc heq => hnodup.1 (heq ▸ List.mem_map_of_mem hc)

/-- The rows but one, and the order but its position. -/
theorem filter_perm_eraseIdx (hperm : order ~ columns.rows) {k : ℕ} (hk : k < order.length) :
    columns.rows.filter (fun c => c.id ≠ order[k].id) ~ order.eraseIdx k := by
  have hcons := List.getElem_cons_eraseIdx_perm hk
  have hids : (order.map (·.id)).Nodup := (hperm.map _).nodup_iff.2 columns.ids
  have hother := id_ne_of_mem_eraseIdx hids hk
  calc columns.rows.filter (fun c => c.id ≠ order[k].id)
    _ ~ (order[k] :: order.eraseIdx k).filter fun c => c.id ≠ order[k].id :=
      (hcons.trans hperm).symm.filter _
    _ = order.eraseIdx k := by
      rw [List.filter_cons_of_neg (by simp), List.filter_eq_self]
      exact fun c hc => by simpa using hother c hc

theorem Positioned.deleteColumn (h : Positioned t) (hmem : column ∈ t.columns.rows)
    (hdelete : deleteColumn stores ddl column t = .ok t') : Positioned t' := by
  unfold DataTables.deleteColumn at hdelete
  simp only [Except.bind_eq_ok_iff, Except.pure_eq_ok_iff] at hdelete
  obtain ⟨_, _, columns, hshift, rfl⟩ := hdelete
  obtain ⟨order, hperm, hnum⟩ := positioned_iff_numbered.1 h
  obtain ⟨k, hk, rfl⟩ := List.mem_iff_getElem.1 (hperm.mem_iff.2 hmem)
  refine positioned_iff_numbered.2
    ⟨(order.eraseIdx k).map (shiftIndex order[k].index (-1)), ?_, ?_⟩
  · rw [rows_shiftColumns hshift]
    exact ((filter_perm_eraseIdx hperm hk).map _).symm
  · apply hnum.eraseIdx
    intro b
    simp [shiftIndex, sub_eq_add_neg, show order[k].index = k from hnum k hk]

/-! ### Moving a column -/

/-- A row after a move: the column that moves gets its new index, the others are shifted twice. -/
def movedRow (column : DataTableColumn) (targetIndex : ℤ) (c : DataTableColumn) : DataTableColumn :=
  if c.id = column.id then { c with index := targetIndex }
  else shiftIndex targetIndex 1 (shiftIndex column.index (-1) c)

theorem moveColumn_eq_ok (h : moveColumn stores column targetIndex t = .ok t') :
    0 ≤ targetIndex ∧ targetIndex < t.columns.rows.length ∧
      t'.columns.rows = t.columns.rows.map (movedRow column targetIndex) := by
  unfold moveColumn at h
  dsimp only at h
  split at h
  · cases h
  · split at h
    · cases h
    · simp only [Except.bind_eq_ok_iff, Except.pure_eq_ok_iff] at h
      obtain ⟨down, hdown, up, hup, columns, hset, rfl⟩ := h
      refine ⟨by omega, by omega, ?_⟩
      rw [rows_setIndexes hset, rows_shiftColumns hup, rows_shiftColumns hdown, List.map_map,
        List.map_map]
      refine List.map_congr_left fun c _ => ?_
      by_cases hid : c.id = column.id
      · simp [movedRow, shiftIndex, hid]
      · simp only [movedRow, hid, if_false, Function.comp_apply, shiftIndex]
        rfl

/-- **Moving a column** takes it out of the order and puts it in again at its new position. -/
theorem Positioned.moveColumn (h : Positioned t) (hmem : column ∈ t.columns.rows)
    (hmove : moveColumn stores column targetIndex t = .ok t') :
    Positioned t' ∧ columnIds t' =
      ((columnIds t).erase column.id).insertIdx targetIndex.toNat column.id := by
  obtain ⟨h0, hlt, hrows⟩ := moveColumn_eq_ok hmove
  obtain ⟨order, hperm, hnum⟩ := positioned_iff_numbered.1 h
  obtain ⟨k, hk, rfl⟩ := List.mem_iff_getElem.1 (hperm.mem_iff.2 hmem)
  obtain ⟨target, rfl⟩ := Int.eq_ofNat_of_zero_le h0
  have hcons := List.getElem_cons_eraseIdx_perm hk
  have hids : (order.map (·.id)).Nodup := (hperm.map _).nodup_iff.2 t.columns.ids
  have hn := hperm.length_eq
  have hlen : (order.eraseIdx k).length + 1 = order.length := by
    rw [List.length_eraseIdx_of_lt hk]
    omega
  -- the other columns close the gap, then make room at the target
  have hdown : List.Numbered (·.index)
      ((order.eraseIdx k).map (shiftIndex order[k].index (-1))) := by
    apply hnum.eraseIdx
    intro b
    simp [shiftIndex, sub_eq_add_neg, show order[k].index = k from hnum k hk]
  have hup : List.Numbered (·.index)
      ((((order.eraseIdx k).map (shiftIndex order[k].index (-1))).map
        (shiftIndex (target : ℤ) 1)).insertIdx target { order[k] with index := (target : ℤ) }) := by
    apply hdown.insertIdx
    · rw [List.length_map]
      omega
    · simp
    · intro b
      simp [shiftIndex]
  set others := ((order.eraseIdx k).map (shiftIndex order[k].index (-1))).map
    (shiftIndex (target : ℤ) 1) with hothers
  set moved : DataTableColumn := { order[k] with index := (target : ℤ) } with hmoved
  have hrow : (order.eraseIdx k).map (movedRow order[k] target) = others := by
    rw [hothers, List.map_map]
    refine List.map_congr_left fun c hc => ?_
    simp [movedRow, id_ne_of_mem_eraseIdx hids hk c hc]
  have hperm' : (others.insertIdx target moved) ~ t'.columns.rows := by
    rw [hrows]
    calc others.insertIdx target moved
      _ ~ moved :: others := List.perm_insertIdx _ _ (by simp [hothers]; omega)
      _ = (order[k] :: order.eraseIdx k).map (movedRow order[k] target) := by
        rw [List.map_cons, hrow]
        simp [movedRow, hmoved]
      _ ~ t.columns.rows.map (movedRow order[k] target) := (hcons.trans hperm).map _
  refine ⟨positioned_iff_numbered.2 ⟨_, hperm', hup⟩, ?_⟩
  have hothersIds : others.map (·.id) = (order.map (·.id)).eraseIdx k := by
    simp [hothers, shiftIndex, Function.comp_def, List.eraseIdx_map]
  have herase : (order.map (·.id)).erase order[k].id = (order.map (·.id)).eraseIdx k := by
    have hk' : k < (order.map (·.id)).length := by simpa using hk
    simpa using hids.erase_getElem k hk'
  rw [columnIds, getColumns_eq hperm' hup, columnIds, getColumns_eq hperm hnum, List.map_insertIdx,
    hothersIds, herase]
  rfl

theorem setIndexes_isOk {index : DataTableColumn → ℚ}
    (h : ∀ c ∈ columns.rows, stores (index c) = true) :
    ∃ columns', columns.setIndexes stores index = .ok columns' := by
  unfold Columns.setIndexes
  split
  case isTrue => exact ⟨_, rfl⟩
  case isFalse hno => exact absurd (List.all_eq_true.2 h) hno

/-- A move to a position of the table is made when the database takes the numbers around it. -/
theorem moveColumn_isOk (h : Positioned t)
    (hstores : ∀ z : ℤ, -1 ≤ z → z ≤ t.columns.rows.length → stores z = true)
    (h0 : 0 ≤ targetIndex) (hlt : targetIndex < t.columns.rows.length) :
    ∃ t', moveColumn stores column targetIndex t = .ok t' := by
  have hindex : ∀ c ∈ t.columns.rows, ∃ i : ℤ, 0 ≤ i ∧ i < t.columns.rows.length ∧
      c.index = i := by
    intro c hc
    obtain ⟨i, hi, heq⟩ := List.mem_map.1 (h.mem_iff.1 (List.mem_map_of_mem hc))
    exact ⟨i, by omega, by simpa using hi, by simpa using heq.symm⟩
  have hdown : ∀ c ∈ t.columns.rows, ∃ i : ℤ, -1 ≤ i ∧ i < t.columns.rows.length ∧
      (shiftIndex column.index (-1) c).index = i := by
    intro c hc
    obtain ⟨i, hi, hlt, heq⟩ := hindex c hc
    by_cases hle : column.index ≤ c.index
    · refine ⟨i - 1, by omega, by omega, ?_⟩
      rw [shiftIndex, if_pos hle, heq, Int.cast_sub, Int.cast_one, sub_eq_add_neg]
    · exact ⟨i, by omega, hlt, by rw [shiftIndex, if_neg hle, heq]⟩
  have hup : ∀ c ∈ t.columns.rows, ∃ i : ℤ, -1 ≤ i ∧ i ≤ t.columns.rows.length ∧
      (shiftIndex targetIndex 1 (shiftIndex column.index (-1) c)).index = i := by
    intro c hc
    obtain ⟨i, hi, hlt, heq⟩ := hdown c hc
    rw [shiftIndex, heq]
    by_cases hle : (targetIndex : ℚ) ≤ i
    · exact ⟨i + 1, by omega, by omega, by simp [hle]⟩
    · exact ⟨i, hi, by omega, by simp [hle]⟩
  obtain ⟨down, hdownOk⟩ : ∃ down, shiftColumns stores column.index (-1) t.columns = .ok down := by
    apply setIndexes_isOk
    intro c hc
    obtain ⟨i, hi, hlt, heq⟩ := hdown c hc
    exact (congrArg stores heq).trans (hstores i hi hlt.le)
  obtain ⟨up, hupOk⟩ : ∃ up, shiftColumns stores targetIndex 1 down = .ok up := by
    apply setIndexes_isOk
    rw [rows_shiftColumns hdownOk, List.forall_mem_map]
    intro c hc
    obtain ⟨i, hi, hle, heq⟩ := hup c hc
    exact (congrArg stores heq).trans (hstores i hi hle)
  obtain ⟨columns, hset⟩ : ∃ columns, up.setIndexes stores
      (fun c => if c.id = column.id then (targetIndex : ℚ) else c.index) = .ok columns := by
    apply setIndexes_isOk
    rw [rows_shiftColumns hupOk, rows_shiftColumns hdownOk, List.forall_mem_map,
      List.forall_mem_map]
    intro c hc
    obtain ⟨i, hi, hle, heq⟩ := hup c hc
    split
    · exact hstores targetIndex (by omega) hlt.le
    · exact (congrArg stores heq).trans (hstores i hi hle)
  refine ⟨{ t with columns }, ?_⟩
  unfold moveColumn
  rw [if_neg (by omega), if_neg (by omega)]
  simp only [Except.bind_eq_ok_iff]
  exact ⟨down, hdownOk, up, hupOk, columns, hset, rfl⟩

/-! ### Runs of calls -/

/-- The columns are positioned, and a move takes a column out of their order and puts it in again at
its new position; a move to a position of the table is made when the database takes the numbers
around it. -/
structure KeepsOrder (stores : ℚ → Bool) (t : DataTable) : Prop where
  positioned : Positioned t
  moved : ∀ columnId targetIndex t',
    (Call.moveColumn columnId targetIndex).perform stores t = .ok t' →
      columnIds t' = ((columnIds t).erase columnId).insertIdx targetIndex.toNat columnId
  moves : (∀ z : ℤ, -1 ≤ z → z ≤ t.columns.rows.length → stores z = true) →
    ∀ column ∈ t.columns.rows, ∀ targetIndex : ℤ, 0 ≤ targetIndex →
      targetIndex < t.columns.rows.length →
        ∃ t', (Call.moveColumn column.id targetIndex).perform stores t = .ok t'

/-- A call that puts a column at an index and is not refused names a position of the new table. -/
def AddsInRange (stores : ℚ → Bool) (t : DataTable) (call : Call) : Prop :=
  ∀ id dto ddl k, call = .addColumn id dto ddl → dto.index = some k →
    (∃ t', call.perform stores t = .ok t') →
      ∃ i : ℕ, i ≤ t.columns.rows.length ∧ k = i

theorem Positioned.keepsOrder (h : Positioned t) : KeepsOrder stores t := by
  refine ⟨h, fun columnId targetIndex t' hmove => ?_,
    fun hstores column hmem targetIndex h0 hlt => ?_⟩
  · simp only [Call.perform, Except.bind_eq_ok_iff] at hmove
    obtain ⟨column, hcolumn, hmove⟩ := hmove
    obtain ⟨hmem, rfl⟩ := mem_of_validateColumnExists hcolumn
    exact (h.moveColumn hmem hmove).2
  · obtain ⟨found, hfound⟩ : ∃ found, validateColumnExists column.id t = .ok found := by
      unfold validateColumnExists
      cases hfind : t.columns.rows.find? fun c => c.id = column.id with
      | some found => exact ⟨found, rfl⟩
      | none =>
        have := List.find?_eq_none.1 hfind column hmem
        simp at this
    obtain ⟨t', ht'⟩ : ∃ t', DataTables.moveColumn stores found targetIndex t = .ok t' :=
      moveColumn_isOk h hstores h0 hlt
    refine ⟨t', ?_⟩
    simp only [Call.perform, hfound]
    exact ht'

/-- **One call keeps the columns positioned** exactly when it adds no column out of range. -/
theorem positioned_step_iff (h : Positioned t) (call : Call) :
    Positioned (step stores t call) ↔ AddsInRange stores t call := by
  unfold step
  cases hcall : call.perform stores t with
  | error e =>
    refine iff_of_true h ?_
    rintro id dto ddl k - - ⟨t', ht'⟩
    rw [hcall] at ht'
    cases ht'
  | ok t' =>
    cases call with
    | addColumn id dto ddl =>
      obtain ⟨column, ⟨hnone, hindex, hrows⟩ | ⟨hsome, hrows⟩⟩ := addColumn_cases hcall
      · refine iff_of_true (h.append hrows hindex) ?_
        rintro _ _ _ k ⟨⟩ hk
        rw [hnone] at hk
        cases hk
      · refine (positioned_insert_iff h hrows).trans ⟨?_, fun hadds => ?_⟩
        · rintro hrange _ _ _ k ⟨⟩ hk -
          rw [hsome] at hk
          cases hk
          exact hrange
        · exact hadds id dto ddl column.index rfl hsome ⟨t', hcall⟩
    | deleteColumn columnId ddl =>
      refine iff_of_true ?_ (by rintro _ _ _ _ ⟨⟩)
      simp only [Call.perform, Except.bind_eq_ok_iff] at hcall
      obtain ⟨column, hcolumn, hcall⟩ := hcall
      exact h.deleteColumn (mem_of_validateColumnExists hcolumn).1 hcall
    | moveColumn columnId targetIndex =>
      refine iff_of_true ?_ (by rintro _ _ _ _ ⟨⟩)
      simp only [Call.perform, Except.bind_eq_ok_iff] at hcall
      obtain ⟨column, hcolumn, hcall⟩ := hcall
      exact (h.moveColumn (mem_of_validateColumnExists hcolumn).1 hcall).1
    | renameColumn columnId newName ddl =>
      refine iff_of_true ?_ (by rintro _ _ _ _ ⟨⟩)
      simp only [Call.perform, Except.bind_eq_ok_iff] at hcall
      obtain ⟨column, -, hcall⟩ := hcall
      simp only [renameColumn, Except.bind_eq_ok_iff, Except.pure_eq_ok_iff] at hcall
      obtain ⟨_, _, _, _, columns, hrename, _, _, rfl⟩ := hcall
      have hindexes : columns.rows.map (·.index) = t.columns.rows.map (·.index) := by
        rw [rows_rename hrename, List.map_map]
        refine List.map_congr_left fun c _ => ?_
        by_cases hid : c.id = column.id <;> simp [hid]
      rw [Positioned, hindexes, rows_rename hrename, List.length_map]
      exact h

/-- **When columns stay in order**: from the creation of a table on, in every state of a run, when
the columns are created at the positions of the table and each is added at one. -/
theorem keepsOrder_iff {stores : ℚ → Bool} {ddl : Except DataTableError Unit} {id name : String}
    {ids : List String} {columns : List CreateColumn} {t : DataTable}
    (hcreate : createDataTable stores ddl id name ids columns = .ok t) (calls : List Call) :
    (∀ pre, pre <+: calls → KeepsOrder stores (Trace.run (step stores) t pre)) ↔
      PositionsGiven columns ∧ Trace.EachStep (step stores) (AddsInRange stores) t calls := by
  constructor
  · intro h
    refine ⟨(positioned_createDataTable_iff hcreate).1 (h [] (List.nil_prefix)).positioned, ?_⟩
    intro pre call hpre
    have hbefore := (h pre ((List.prefix_append _ _).trans hpre)).positioned
    have hafter := (h _ hpre).positioned
    rw [Trace.run_concat] at hafter
    exact (positioned_step_iff hbefore call).1 hafter
  · rintro ⟨hgiven, hadds⟩ pre hpre
    apply Positioned.keepsOrder
    exact hadds.invariant ((positioned_createDataTable_iff hcreate).2 hgiven)
      (fun s call hs hcall => (positioned_step_iff hs call).2 hcall) pre hpre

/-- A table without columns. -/
def customers : DataTable := { id := "t1", name := "Customers", columns := Columns.empty }

/-- A database whose index column takes whole numbers. -/
def wholeNumbers (q : ℚ) : Bool := q.den = 1

/-- A column that is added behind the last one, one that is put before it, and their exchange. -/
theorem keepsOrder_iff_customers : let calls : List Call :=
      [.addColumn "c1" { name := "mail", type := .string } (.ok ()),
        .addColumn "c2" { name := "age", type := .number, index := some 0 } (.ok ()),
        .moveColumn "c2" 1]
    (∀ pre, pre <+: calls → KeepsOrder wholeNumbers (Trace.run (step wholeNumbers) customers pre)) ↔
      PositionsGiven [] ∧
        Trace.EachStep (step wholeNumbers) (AddsInRange wholeNumbers) customers calls :=
  keepsOrder_iff (show createDataTable wholeNumbers (.ok ()) "t1" "Customers" [] [] = .ok customers
    from rfl) _

/-- The only column of a table at index 5. -/
theorem add_past_the_end_leaves_gap :
    ¬ ∀ calls pre : List Call, pre <+: calls →
      KeepsOrder wholeNumbers (Trace.run (step wholeNumbers) customers pre) := by
  intro h
  have hkeeps := h [.addColumn "c1" { name := "mail", type := .string, index := some 5 } (.ok ())]
    _ (List.prefix_refl _)
  have hpositions : ([5] : List ℚ) ~ [0] := hkeeps.positioned
  exact absurd (List.perm_singleton.1 hpositions) (by decide)

end DataTables

end N8n
